import Chip8.Proofs.Runs
import Chip8.Screen

/-!
# What a step writes

An instruction writes the parts of the machine that its opcode names, and `VF` where it has a flag
to set. Everything else is as it was before, whatever the operands are. So a byte of memory keeps
its value throughout a run that stores nothing over it.

## Main definitions

* `Instruction.setsRegister`, `Instruction.setsIndex`: the registers that an instruction may write
* `Machine.StoresAt`: the bytes of memory that an instruction may write
* `Machine.WritesOnly`: a machine is another one up to what an instruction may write

## Main results

* `writesOnly_of_effect`, `writesOnly_step`: an instruction writes nothing else
* `state_step_cases`: a step that is a fault writes nothing but the opcode
* `byte_step`: a step keeps the bytes that its instruction does not store over
* `write_sets`: what a successful step may change, and what a run of steps may change in memory
-/

universe u

namespace Chip8

/-- Whether an operation on two registers writes `VF` besides its target. The bitwise ones do so at
one level only. -/
def Arithmetic.setsFlag (level : Level) : Arithmetic → Bool
  | assign => false
  | or | and | xor => level == .chip8
  | add | sub | shiftRight | subFrom | shiftLeft => true

/-- An operation that computes a flag writes it. -/
theorem Arithmetic.setsFlag_of_compute {level : Level} {op : Arithmetic} {vx vy flag : UInt8}
    (h : (op.compute level.behaviour vx vy).2 = some flag) : op.setsFlag level = true := by
  cases op with
  | assign => cases h
  | or | and | xor =>
    cases level with
    | chip8 => rfl
    | chip48 | schip10 | schip11 | xochip => cases h
  | add | sub | shiftRight | subFrom | shiftLeft => rfl

namespace Instruction

/-- Whether an instruction may write the register `VR`. -/
def setsRegister (level : Level) (r : Register) : Instruction → Bool
  | set x _ | add x _ | random x _ | readDelay x | awaitKey x => r == x
  | arithmetic op x _ => r == x || (r == .flag && op.setsFlag level)
  | draw _ _ _ | addIndex _ => r == .flag
  | loadBlock x => decide (r ≤ x)
  | _ => false

/-- Whether an instruction may write the index register. -/
def setsIndex (level : Level) : Instruction → Bool
  | setIndex _ | addIndex _ | glyph _ => true
  | storeBlock _ | loadBlock _ => level == .chip8
  | _ => false

/-- How many bytes an instruction stores, from the index register on. -/
def bytesStored : Instruction → Nat
  | storeDecimal _ => 3
  | storeBlock x => x.val + 1
  | _ => 0

end Instruction

namespace Machine

variable {σ : Type u}

/-- An instruction stores a byte at the address. -/
def StoresAt (m : Machine σ) (i : Instruction) (a : Nat) : Prop :=
  m.index.toNat ≤ a ∧ a < m.index.toNat + i.bytesStored

instance (m : Machine σ) (i : Instruction) (a : Nat) : Decidable (m.StoresAt i a) :=
  inferInstanceAs (Decidable (_ ∧ _))

/-- **The write set of an instruction.** Apart from the counter and the opcode, `m'` differs from
`m` only in what the instruction `i` may write. -/
structure WritesOnly (m : Machine σ) (i : Instruction) (m' : Machine σ) : Prop where
  registers : ∀ r, i.setsRegister m.level r = false →
    m'.registers.get r = m.registers.get r := by intros; rfl
  index : i.setsIndex m.level = false → m'.index = m.index := by intros; rfl
  stack : i ≠ .ret → (∀ nnn, i ≠ .call nnn) → m'.stack = m.stack := by intros; rfl
  delay : (∀ x, i ≠ .setDelay x) → m'.timers.delay = m.timers.delay := by intros; rfl
  sound : (∀ x, i ≠ .setSound x) → m'.timers.sound = m.timers.sound := by intros; rfl
  memory : ∀ a, ¬m.StoresAt i a → m'.memory.byte a = m.memory.byte a := by intros; rfl
  surface : i ≠ .clear → (∀ x y n, i ≠ .draw x y n) → m'.surface = m.surface := by intros; rfl
  random : (∀ x nn, i ≠ .random x nn) → m'.random = m.random := by intros; rfl
  keypad : m'.keypad = m.keypad := by rfl
  level : m'.level = m.level := by rfl
  name : m'.name = m.name := by rfl
  debug : m'.debug = m.debug := by rfl

section Registers

variable (m : Machine σ)

theorem get_setRegister_of_ne {x r : Register} (b : UInt8) (h : (r == x) = false) :
    (m.setRegister x b).registers.get r = m.registers.get r := by
  rw [setRegister, Registers.get_set, if_neg (beq_eq_false_iff_ne.mp h)]

/-- The index register moves behind a block at one level only. -/
theorem indexBehind_eq_index (x : Register) (h : (m.level == .chip8) = false) :
    m.indexBehind x = m.index := by
  unfold indexBehind behaviour
  cases hlevel : m.level with
  | chip8 =>
    rw [hlevel] at h
    cases h
  | chip48 | schip10 | schip11 | xochip => rfl

/-- What the write set of an instruction says is not touched by the step of the counter. -/
theorem WritesOnly.final {m : Machine σ} {op : Opcode} {i : Instruction} {o : Outcome σ}
    (h : (m.withOpcode op).advanced.WritesOnly i o.machine) : m.WritesOnly i o.final :=
  ⟨h.registers, h.index, h.stack, h.delay, h.sound, h.memory, h.surface, h.random, h.keypad,
    h.level, h.name, h.debug⟩

end Registers

theorem writesOnly_arithmetic (m : Machine σ) (op : Arithmetic) (x y : Register) :
    m.WritesOnly (.arithmetic op x y) (m.arithmeticEffect op x y).machine := by
  cases hflag : (op.compute m.behaviour (m.registers.get x) (m.registers.get y)).2 with
  | none =>
    simp only [arithmeticEffect, hflag, setFlag]
    refine { registers := fun r hr => ?_ }
    exact m.get_setRegister_of_ne _ (Bool.or_eq_false_iff.mp hr).1
  | some flag =>
    have hsets : op.setsFlag m.level = true := Arithmetic.setsFlag_of_compute hflag
    simp only [arithmeticEffect, hflag, setFlag]
    refine { registers := fun r hr => ?_ }
    obtain ⟨htarget, hr⟩ := Bool.or_eq_false_iff.mp hr
    rw [hsets, Bool.and_true] at hr
    rw [get_setRegister_of_ne _ flag hr, get_setRegister_of_ne m _ htarget]

variable [Surface σ] {m : Machine σ} {i : Instruction}

/-- An instruction writes nothing but what is in its write set. -/
theorem writesOnly_of_effect {o : Outcome σ} (h : m.effect i = .ok o) :
    m.WritesOnly i o.machine := by
  cases i with
  | set x nn | add x nn | readDelay x =>
    cases h
    exact { registers := fun r hr => m.get_setRegister_of_ne _ hr }
  | random x nn =>
    cases h
    exact { registers := fun r hr => m.get_setRegister_of_ne _ hr
            random := fun hne => absurd rfl (hne x nn) }
  | arithmetic op x y =>
    cases h
    exact m.writesOnly_arithmetic op x y
  | awaitKey x =>
    cases h
    unfold awaitKeyEffect
    split
    · exact { registers := fun r hr => m.get_setRegister_of_ne _ hr }
    · exact {}
  | addIndex x =>
    cases h
    exact { registers := fun r hr => m.get_setRegister_of_ne _ hr
            index := fun hset => nomatch hset }
  | draw x y n =>
    obtain ⟨rows, -, rfl⟩ := map_eq_ok_iff.mp h
    exact { registers := fun r hr => m.get_setRegister_of_ne _ hr
            surface := fun _ hne => absurd rfl (hne x y n) }
  | clear =>
    cases h
    exact { surface := fun hne => absurd rfl hne }
  | ret =>
    obtain ⟨popped, -, rfl⟩ := map_eq_ok_iff.mp h
    exact { stack := fun hne => absurd rfl hne }
  | call nnn =>
    obtain ⟨stack, -, rfl⟩ := map_eq_ok_iff.mp h
    exact { stack := fun _ hne => absurd rfl (hne nnn) }
  | setIndex nnn | glyph x =>
    cases h
    exact { index := fun hset => nomatch hset }
  | setDelay x =>
    cases h
    exact { delay := fun hne => absurd rfl (hne x) }
  | setSound x =>
    cases h
    exact { sound := fun hne => absurd rfl (hne x) }
  | storeDecimal x =>
    obtain ⟨memory, hload, rfl⟩ := map_eq_ok_iff.mp h
    exact { memory := fun a ha => Memory.byte_of_load_eq_ok hload ha }
  | storeBlock x =>
    obtain ⟨memory, hload, rfl⟩ := map_eq_ok_iff.mp h
    refine { index := m.indexBehind_eq_index x, memory := fun a ha => ?_ }
    refine Memory.byte_of_load_eq_ok hload ?_
    rwa [Registers.length_block]
  | loadBlock x =>
    obtain ⟨bytes, hslice, rfl⟩ := map_eq_ok_iff.mp h
    have hlength : bytes.length = x.val + 1 := Memory.length_of_slice_eq_ok hslice
    refine { registers := fun r hr => ?_, index := m.indexBehind_eq_index x }
    exact m.registers.get_restore_of_lt hlength (Fin.not_le.mp (of_decide_eq_false hr))
  | jump | skipIf | skipUnless | skipIfSame | skipUnlessSame | jumpOffset | skipIfDown
  | skipUnlessDown =>
    cases h
    exact {}

/-- A step that succeeds writes nothing but what is in the write set of its instruction. -/
theorem writesOnly_step (h : m.executed? = some i) : m.WritesOnly i m.step.state := by
  obtain ⟨op, o, hf, hd, he⟩ := executed?_eq_some_iff.mp h
  rw [step_of_effect_ok hf hd he]
  exact (writesOnly_of_effect he).final

/-- A step that is a fault changes the opcode only. Any other one executes an instruction, and
writes what that may write. -/
theorem state_step_cases (m : Machine σ) :
    (∃ op, m.step.state = m.withOpcode op) ∨
      ∃ i, m.executed? = some i ∧ m.WritesOnly i m.step.state := by
  cases hresult : m.step.result with
  | error fault => exact .inl ⟨_, (state_step_of_error hresult).1⟩
  | ok signal =>
    obtain ⟨i, hi, -⟩ := exists_executed_of_ok hresult
    exact .inr ⟨i, hi, writesOnly_step hi⟩

/-- A step keeps the bytes that its instruction does not store over, also if it is a fault. -/
theorem byte_step {a : Nat} (h : ∀ i ∈ m.executed?, ¬m.StoresAt i a) :
    m.step.state.memory.byte a = m.memory.byte a := by
  rcases m.state_step_cases with ⟨op, hstate⟩ | ⟨i, hi, hwrites⟩
  · rw [hstate]
    rfl
  · exact hwrites.memory a (h i hi)

/-- **The write sets of the instructions.** A step that succeeds changes the counter, the opcode and
what is in the write set of the executed instruction. So over any run of steps, faults included, a
byte of memory that no executed instruction stores over keeps its value. -/
theorem write_sets :
    (∀ (m : Machine σ) (signal : Signal), m.step.result = .ok signal →
      ∃ i, m.executed? = some i ∧ i.encode = m.nextWord ∧ m.WritesOnly i m.step.state) ∧
    ∀ (m : Machine σ) (n a : Nat),
      (∀ t ∈ m.moments (List.replicate n .step), ∀ i ∈ t.executed?, ¬t.machine.StoresAt i a) →
      (m.performAll (List.replicate n .step)).state.memory.byte a = m.memory.byte a := by
  refine ⟨fun m signal hok => ?_, fun m n a hstores => ?_⟩
  · obtain ⟨i, hi, hencode⟩ := exists_executed_of_ok hok
    exact ⟨i, hi, hencode, writesOnly_step hi⟩
  · refine (performAll_invariant (P := fun m' => m'.memory.byte a = m.memory.byte a) rfl ?_).1
    rintro ⟨m', c⟩ ht hbyte
    obtain rfl : c = .step := List.eq_of_mem_replicate (command_mem_of_mem_moments ht)
    have hkeeps : m'.step.state.memory.byte a = m'.memory.byte a := byte_step (hstores _ ht)
    exact hkeeps.trans hbyte

/-- A program that stores `V0` and `V1` behind itself. -/
def storingRom : Rom := ⟨"storing", [0xA3, 0x00, 0xF1, 0x55], by decide⟩

/-- The second step stores two bytes, and the first byte of the program is not one of them. -/
theorem write_sets_storingRom :
    let m := build (some storingRom) .chip8 Screen.blank .released (.cycle #[])
    m.step.result = .ok .none ∧ (∃ i, m.executed? = some i ∧ m.WritesOnly i m.step.state) ∧
      m.step.state.StoresAt (.storeBlock 1) 0x301 ∧
      (m.performAll (List.replicate 2 .step)).state.memory.byte 0x200 = 0xA3 := by
  intro m
  obtain ⟨hsignal, hstores, hblock, hbyte⟩ : m.step.result.toOption = some .none ∧
      (∀ t ∈ m.moments (List.replicate 2 .step), ∀ i ∈ t.executed?,
        ¬t.machine.StoresAt i 0x200) ∧
      m.step.state.StoresAt (.storeBlock 1) 0x301 ∧ m.memory.byte 0x200 = 0xA3 := by
    decide +kernel
  have hok : m.step.result = .ok .none := by
    cases hresult : m.step.result with
    | error fault =>
      rw [hresult] at hsignal
      cases hsignal
    | ok signal =>
      rw [hresult] at hsignal
      cases hsignal
      rfl
  obtain ⟨i, hi, -, hwrites⟩ := write_sets.1 m .none hok
  exact ⟨hok, ⟨i, hi, hwrites⟩, hblock, (write_sets.2 m 2 0x200 hstores).trans hbyte⟩

end Machine

end Chip8

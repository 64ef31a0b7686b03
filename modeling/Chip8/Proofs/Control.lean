import Chip8.Proofs.Effect

/-!
# Control flow

How an executed instruction moves the program counter, and what it does to the call stack. Most
instructions leave the stack alone; only a call puts something on it, and only a return takes
something off and jumps to an address that is not part of its opcode.

## Main definitions

* `Machine.jumpTarget`: where a jump with an offset leads
* `Machine.Flow`: the ways in which an instruction moves on

## Main results

* `flow_of_effect`: there are no other ways for an instruction to move on
* `frames_of_effect`: a return address was there before, or it is the one behind a call
* `counter_of_effect`: the counter is moved by that only
-/

universe u

namespace Chip8.Machine

variable {σ : Type u}

/-- Where a jump to `NNN` plus a register leads. -/
def jumpTarget (m : Machine σ) (nnn : Fin 4096) : Address :=
  UInt16.ofNat (nnn + (m.registers.get (m.offsetRegister nnn)).toNat)

/-- **The ways in which an instruction moves on.** The machine is the one that executes the
instruction, its counter behind it. -/
inductive Flow (m : Machine σ) : Instruction → Outcome σ → Prop
  | next {i : Instruction} {o : Outcome σ} (step : o.step = .next)
      (stack : o.machine.stack = m.stack) : Flow m i o
  | skip {i : Instruction} {o : Outcome σ} (step : o.step = .skip)
      (stack : o.machine.stack = m.stack) : Flow m i o
  | again {x : Register} {o : Outcome σ} (step : o.step = .again)
      (stack : o.machine.stack = m.stack) : Flow m (.awaitKey x) o
  | jump {nnn : Fin 4096} {o : Outcome σ} (step : o.step = .jump (UInt16.ofNat nnn))
      (stack : o.machine.stack = m.stack) : Flow m (.jump nnn) o
  | jumpOffset {nnn : Fin 4096} {o : Outcome σ} (step : o.step = .jump (m.jumpTarget nnn))
      (stack : o.machine.stack = m.stack) : Flow m (.jumpOffset nnn) o
  | call {nnn : Fin 4096} {o : Outcome σ} (step : o.step = .jump (UInt16.ofNat nnn))
      (stack : m.stack.push m.counter = .ok o.machine.stack) : Flow m (.call nnn) o
  | ret {a : Address} {o : Outcome σ} (step : o.step = .jump a)
      (stack : m.stack.pop = .ok (a, o.machine.stack)) : Flow m .ret o

variable {m : Machine σ} {i : Instruction} {o : Outcome σ}

theorem flow_skipWhen (condition : Bool) :
    m.Flow i { machine := m, step := .skipWhen condition } := by
  cases condition with
  | false => exact .next rfl rfl
  | true => exact .skip rfl rfl

variable [Surface σ]

/-- There are no other ways for an instruction to move on. -/
theorem flow_of_effect (h : m.effect i = .ok o) : m.Flow i o := by
  cases i with
  | ret =>
    obtain ⟨⟨a, stack⟩, hpop, rfl⟩ := map_eq_ok_iff.mp h
    exact .ret rfl hpop
  | call nnn =>
    obtain ⟨stack, hpush, rfl⟩ := map_eq_ok_iff.mp h
    exact .call rfl hpush
  | jump nnn => cases h; exact .jump rfl rfl
  | jumpOffset nnn => cases h; exact .jumpOffset rfl rfl
  | skipIf | skipUnless | skipIfSame | skipUnlessSame | skipIfDown | skipUnlessDown =>
    cases h
    exact flow_skipWhen _
  | awaitKey x =>
    cases h
    unfold awaitKeyEffect
    split
    · exact .next rfl rfl
    · exact .again rfl rfl
  | arithmetic op x y =>
    cases h
    exact .next rfl (stack_setFlag _ _)
  | draw | storeDecimal | storeBlock | loadBlock =>
    obtain ⟨_, -, rfl⟩ := map_eq_ok_iff.mp h
    exact .next rfl rfl
  | clear | set | add | setIndex | random | readDelay | setDelay | setSound | addIndex | glyph =>
    cases h
    exact .next rfl rfl

/-- The return addresses after an instruction. -/
theorem frames_of_effect (h : m.effect i = .ok o) {a : Address}
    (ha : a ∈ o.machine.stack.frames) : a = m.counter ∨ a ∈ m.stack.frames := by
  cases flow_of_effect h with
  | call step stack =>
    rw [CallStack.frames_of_push stack, List.mem_cons] at ha
    exact ha
  | ret step stack =>
    rw [CallStack.frames_of_pop stack]
    exact .inr (List.mem_cons_of_mem _ ha)
  | next _ stack | skip _ stack | again _ stack | jump _ stack | jumpOffset _ stack =>
    exact .inr (stack ▸ ha)

/-- No instruction moves the counter before its end. -/
theorem counter_of_effect (h : m.effect i = .ok o) : o.machine.counter = m.counter := by
  cases i with
  | ret | call | draw | storeDecimal | storeBlock | loadBlock =>
    obtain ⟨_, -, rfl⟩ := map_eq_ok_iff.mp h
    rfl
  | arithmetic op x y =>
    cases h
    exact counter_setFlag _ _
  | awaitKey x =>
    cases h
    unfold awaitKeyEffect
    split <;> rfl
  | _ =>
    cases h
    rfl

end Chip8.Machine

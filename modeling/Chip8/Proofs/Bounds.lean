import Chip8.Proofs.Control
import Chip8.Proofs.Runs
import Chip8.Screen
import Mathlib.Tactic.ByContra

/-!
# Bounds of the counter, the index register and the stack

The program counter and the index register have 16 bits, four more than an address of memory needs.
A machine that was built and then used in whatever way does not need them all: both registers stay
close to the end of memory, and the counter never wraps around.

The bounds depend on each other. The counter is bounded by the return addresses on the stack; these
are bounded since a call behind the end of memory cannot be fetched. The index register leaves
memory only by one, when a block that ends at the end of memory was stored or loaded at a level that
moves the register behind the block.

## Main definitions

* `Machine.WithinBounds`: the bounds of the counter, the index register and the return addresses
* `CounterStep.ExactAt`, `Machine.CountsExactly`: the counter moves without wrapping around
* `Moment.MovesBehindBlock`: the moments at which the index register may leave memory

## Main results

* `withinBounds_next`: whatever is asked of a machine, it stays within its bounds
* `bounds_of_build`: the bounds of a machine that was built, at every moment of every run
-/

universe u

namespace Chip8

/-- The counter is moved by as much as the step says, although its arithmetic is that of a word. -/
def CounterStep.ExactAt : CounterStep → Address → Prop
  | next, _ => True
  | skip, counter => (counter + 2).toNat = counter.toNat + 2
  | again, counter => (counter - 2).toNat + 2 = counter.toNat
  | jump _, _ => True

/-- A counter that is near to neither end of its range does not wrap around. -/
theorem CounterStep.exactAt (step : CounterStep) {c : Address} (hlow : 2 ≤ c.toNat)
    (hhigh : c.toNat + 2 < 0x10000) : step.ExactAt c := by
  cases step with
  | next | jump => trivial
  | skip =>
    simp only [ExactAt, UInt16.toNat_add, UInt16.reduceToNat]
    omega
  | again =>
    have hle : (2 : Address) ≤ c := UInt16.le_iff_toNat_le.mpr hlow
    simp only [ExactAt, UInt16.toNat_sub_of_le c 2 hle, UInt16.reduceToNat]
    omega

namespace Machine

variable {σ : Type u}

/-- **The bounds** of the stack, the counter and the index register. -/
structure WithinBounds (m : Machine σ) : Prop where
  depth : m.stack.depth ≤ 16
  frames : ∀ a ∈ m.stack.frames, 0x0002 ≤ a.toNat ∧ a.toNat ≤ 0x1000
  counter : m.counter.toNat ≤ 0x10FE
  index : m.index.toNat ≤ 0x1000

/-- A jump with an offset leads at most to the last address plus the largest byte. -/
theorem toNat_jumpTarget_le (m : Machine σ) (nnn : Fin 4096) :
    (m.jumpTarget nnn).toNat ≤ 0x10FE := by
  have hbyte := (m.registers.get (m.offsetRegister nnn)).toNat_lt
  have hnnn := nnn.isLt
  rw [jumpTarget, UInt16.toNat_ofNat']
  omega

theorem toNat_ofNat_address (nnn : Fin 4096) : (UInt16.ofNat nnn).toNat = nnn := by
  have hnnn := nnn.isLt
  rw [UInt16.toNat_ofNat']
  omega

/-- The index register moves behind a block at one level only, and then by the size of the block. -/
theorem toNat_indexBehind {m : Machine σ} {x : Register}
    (h : m.index.toNat + (x.val + 1) ≤ 0x1000) :
    (m.indexBehind x).toNat ≤ 0x1000 ∧ (m.level ≠ .chip8 → m.indexBehind x = m.index) := by
  unfold indexBehind behaviour
  cases m.level with
  | chip8 =>
    have hx := x.isLt
    simp only [Level.behaviour, if_true, UInt16.toNat_add, UInt16.toNat_ofNat']
    exact ⟨by omega, fun hne => absurd rfl hne⟩
  | chip48 | schip10 | schip11 | xochip =>
    simp only [Level.behaviour, Bool.false_eq_true, if_false]
    exact ⟨by omega, fun _ => trivial⟩

theorem withinBounds_build (rom : Option Rom) (level : Level) (surface : σ) (keypad : Keypad)
    (random : RandomSource) : (build rom level surface keypad random).WithinBounds := by
  obtain ⟨name, memory, hbuild⟩ := exists_build_eq rom level surface keypad random
  rw [hbuild]
  exact ⟨Nat.zero_le _, fun a ha => absurd ha List.not_mem_nil,
    (by decide : (0x200 : Address).toNat ≤ 0x10FE), Nat.zero_le _⟩

variable [Surface σ]

section Effect

variable {m : Machine σ} {i : Instruction} {o : Outcome σ}

/-- What can become of the index register. -/
theorem index_of_effect (h : m.effect i = .ok o) :
    o.machine.index = m.index ∨ o.machine.index.toNat ≤ 0x0FFF ∨
      ∃ x, (i = .storeBlock x ∨ i = .loadBlock x) ∧ m.index.toNat + (x.val + 1) ≤ 0x1000 ∧
        o.machine.index = m.indexBehind x := by
  cases i with
  | setIndex nnn =>
    cases h
    have hnnn := nnn.isLt
    refine .inr (.inl ?_)
    rw [toNat_ofNat_address]
    omega
  | addIndex x =>
    cases h
    refine .inr (.inl ?_)
    simp only [addIndexEffect, UInt16.toNat_ofNat']
    omega
  | glyph x =>
    cases h
    have hdigit : m.keyOf x < 16 := Nat.mod_lt _ (by decide)
    have hglyph : fontStart + glyphSize * m.keyOf x ≤ 0x0FFF := by
      unfold fontStart glyphSize
      omega
    refine .inr (.inl ?_)
    rw [UInt16.toNat_ofNat']
    exact Nat.le_trans (Nat.mod_le _ _) hglyph
  | storeBlock x =>
    obtain ⟨_, hload, rfl⟩ := map_eq_ok_iff.mp h
    have hfits := Memory.fits_of_load_eq_ok hload
    rw [Registers.length_block] at hfits
    exact .inr (.inr ⟨x, .inl rfl, hfits, rfl⟩)
  | loadBlock x =>
    obtain ⟨_, hslice, rfl⟩ := map_eq_ok_iff.mp h
    exact .inr (.inr ⟨x, .inr rfl, Memory.fits_of_slice_eq_ok hslice, rfl⟩)
  | ret | call | draw | storeDecimal =>
    obtain ⟨_, -, rfl⟩ := map_eq_ok_iff.mp h
    exact .inl rfl
  | arithmetic op x y =>
    cases h
    exact .inl (index_setFlag _ _)
  | awaitKey x =>
    cases h
    refine .inl ?_
    unfold awaitKeyEffect
    split <;> rfl
  | _ =>
    cases h
    exact .inl rfl

/-- The counter after an instruction that could be fetched. -/
theorem toNat_counter_final_le (h : m.effect i = .ok o)
    (hframes : ∀ a ∈ m.stack.frames, 0x0002 ≤ a.toNat ∧ a.toNat ≤ 0x1000)
    (hlow : 2 ≤ m.counter.toNat) (hhigh : m.counter.toNat ≤ 0x1000) :
    o.final.counter.toNat ≤ 0x10FE := by
  have hexact : o.step.ExactAt m.counter := o.step.exactAt hlow (by omega)
  rw [Outcome.counter_final, counter_of_effect h]
  cases flow_of_effect h with
  | next step =>
    rw [step, CounterStep.apply_next]
    omega
  | skip step | again step =>
    rw [step, CounterStep.ExactAt] at hexact
    simp only [step, CounterStep.apply_skip, CounterStep.apply_again]
    omega
  | @jump nnn _ step | @call nnn _ step =>
    have hnnn := nnn.isLt
    rw [step, CounterStep.apply_jump, toNat_ofNat_address]
    omega
  | jumpOffset step =>
    rw [step, CounterStep.apply_jump]
    exact toNat_jumpTarget_le m _
  | @ret a _ step stack =>
    have hmem : a ∈ m.stack.frames := by
      rw [CallStack.frames_of_pop stack]
      exact List.mem_cons_self
    have hle := (hframes a hmem).2
    rw [step, CounterStep.apply_jump]
    omega

end Effect

/-- A step keeps a machine within its bounds. -/
theorem withinBounds_step {m : Machine σ} (h : m.WithinBounds) : m.step.state.WithinBounds := by
  cases hresult : m.step.result with
  | error fault =>
    rw [(state_step_of_error hresult).1]
    exact ⟨h.depth, h.frames, h.counter, h.index⟩
  | ok signal =>
    obtain ⟨op, i, o, hf, -, he, hstate, -⟩ := exists_effect_of_ok hresult
    obtain ⟨hbehind, hend⟩ := toNat_counter_advanced hf
    rw [hstate]
    constructor
    case depth => exact o.machine.stack.length_le
    case frames =>
      intro a ha
      rcases frames_of_effect he ha with rfl | ha
      · omega
      · exact h.frames a ha
    case counter => exact toNat_counter_final_le he h.frames (by omega) (by omega)
    case index =>
      rw [Outcome.index_final]
      rcases index_of_effect he with hi | hi | ⟨x, -, hfits, hi⟩
      · rw [hi]
        exact h.index
      · omega
      · rw [hi]
        exact (toNat_indexBehind hfits).1

section Moments

variable {t : Moment σ}

/-- Whatever is asked of a machine, it stays within its bounds. -/
theorem withinBounds_next (h : t.machine.WithinBounds) : t.next.WithinBounds := by
  obtain ⟨m, c⟩ := t
  cases c with
  | step => exact withinBounds_step h
  | reset =>
    constructor
    case depth => exact Nat.zero_le _
    case frames => exact fun a ha => absurd ha List.not_mem_nil
    case counter => exact (by decide : (0x200 : Address).toNat ≤ 0x10FE)
    case index => exact Nat.zero_le _
  | loadProgram | loadRom | loadFont =>
    simp only [Moment.next, perform, Reply.state_map, state_loadProgram, loadRom_eq, loadFont_eq]
    exact ⟨h.depth, h.frames, h.counter, h.index⟩
  | tick | setLevel | setDebug | keys => exact ⟨h.depth, h.frames, h.counter, h.index⟩

/-- The moments at which the index register may leave memory: a block is stored or loaded by a
machine that moves the register behind it. -/
def Moment.MovesBehindBlock (t : Moment σ) : Prop :=
  t.machine.level = .chip8 ∧
    ∃ x, t.executed? = some (.storeBlock x) ∨ t.executed? = some (.loadBlock x)

/-- At all other moments the index register stays inside of memory. -/
theorem toNat_index_next_le (hblock : ¬t.MovesBehindBlock)
    (h : t.machine.index.toNat ≤ 0x0FFF) : t.next.index.toNat ≤ 0x0FFF := by
  obtain ⟨m, c⟩ := t
  cases c with
  | step =>
    change m.step.state.index.toNat ≤ 0x0FFF
    cases hresult : m.step.result with
    | error fault =>
      rw [(state_step_of_error hresult).1]
      exact h
    | ok signal =>
      obtain ⟨op, i, o, hf, hd, he, hstate, -⟩ := exists_effect_of_ok hresult
      rw [hstate, Outcome.index_final]
      rcases index_of_effect he with hi | hi | ⟨x, hx, hfits, hi⟩
      · rw [hi]
        exact h
      · exact hi
      · -- at no other level does the register move behind the block
        have hlevel : m.level ≠ .chip8 := by
          intro hchip8
          have hexecuted : m.executed? = some i := executed?_eq_some_iff.mpr ⟨op, o, hf, hd, he⟩
          rcases hx with rfl | rfl
          · exact hblock ⟨hchip8, x, .inl hexecuted⟩
          · exact hblock ⟨hchip8, x, .inr hexecuted⟩
        rw [hi, (toNat_indexBehind hfits).2 hlevel]
        exact h
  | reset => exact Nat.zero_le _
  | loadProgram | loadRom | loadFont =>
    simp only [Moment.next, perform, Reply.state_map, state_loadProgram, loadRom_eq, loadFont_eq]
    exact h
  | tick | setLevel | setDebug | keys => exact h

end Moments

/-- The counter does not wrap around in the next step, neither when it is moved behind the
instruction nor when the executed instruction moves it on. -/
def CountsExactly (m : Machine σ) : Prop :=
  ∀ op i, m.fetch = .ok op → Instruction.decode op = some i →
    let behind := (m.withOpcode op).advanced
    behind.counter.toNat = m.counter.toNat + 2 ∧
      ∀ step signal, (i.action behind).result = .ok (step, signal) →
        step.ExactAt (i.action behind).state.counter

/-- A machine that can fetch an opcode has a counter far from the ends of its range. -/
theorem countsExactly (m : Machine σ) : m.CountsExactly := by
  intro op i hf hd behind
  have hbehind : behind.counter.toNat = m.counter.toNat + 2 ∧ _ := toNat_counter_advanced hf
  refine ⟨hbehind.1, fun step signal hresult => ?_⟩
  rw [action_apply] at hresult ⊢
  cases he : behind.effect i with
  | error cause =>
    rw [he, replyOf] at hresult
    cases hresult
  | ok o =>
    have hcounter : o.machine.counter = behind.counter := counter_of_effect he
    simp only [replyOf, hcounter]
    exact step.exactAt (by omega) (by omega)

/-- **The bounds of a machine that was built**, whatever was asked of it since. The index register
is outside of memory only if a block was stored or loaded at the level that moves it. The counter
never wraps around. -/
theorem bounds_of_build (rom : Option Rom) (level : Level) (surface : σ) (keypad : Keypad)
    (random : RandomSource) (cs : List Command) :
    let m := build rom level surface keypad random
    (m.performAll cs).state.WithinBounds ∧
      (0x0FFF < (m.performAll cs).state.index.toNat → ∃ t ∈ m.moments cs, t.MovesBehindBlock) ∧
      ∀ t ∈ m.moments cs, t.command = .step → t.machine.CountsExactly := by
  intro m
  have hm : m.WithinBounds := withinBounds_build rom level surface keypad random
  refine ⟨(performAll_invariant hm fun t _ => withinBounds_next).1, ?_, ?_⟩
  · intro houtside
    by_contra hnone
    have hindex : m.index.toNat ≤ 0x0FFF := by
      obtain ⟨name, memory, hbuild⟩ := exists_build_eq rom level surface keypad random
      rw [show m = _ from hbuild]
      exact Nat.zero_le _
    have hkeeps : ∀ t ∈ m.moments cs, t.machine.index.toNat ≤ 0x0FFF →
        t.next.index.toNat ≤ 0x0FFF :=
      fun t ht => toNat_index_next_le fun hblock => hnone ⟨t, ht, hblock⟩
    have hinside := (performAll_invariant (P := fun m => m.index.toNat ≤ 0x0FFF) hindex hkeeps).1
    omega
  · exact fun t _ _ => t.machine.countsExactly

/-- A program that loads the last byte of memory into `V0`. -/
def lastByteRom : Rom := ⟨"last byte", [0xAF, 0xFF, 0xF0, 0x65], by decide⟩

/-- The index register does get out of memory. -/
theorem bounds_of_build_lastByteRom :
    let m := build (some lastByteRom) .chip8 Screen.blank .released (.cycle #[])
    (m.performAll [.step, .step]).state.index = 0x1000 ∧
      ∃ t ∈ m.moments [.step, .step], t.MovesBehindBlock := by
  intro m
  have hindex : (m.performAll [.step, .step]).state.index = 0x1000 := by decide +kernel
  refine ⟨hindex, (bounds_of_build (some lastByteRom) .chip8 Screen.blank .released (.cycle #[])
    [.step, .step]).2.1 ?_⟩
  rw [hindex]
  decide

end Machine

end Chip8

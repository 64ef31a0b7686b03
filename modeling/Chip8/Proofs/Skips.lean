import Chip8.Proofs.Effect

/-!
# Skips in pairs

Each condition that a skip can depend on has two instructions, one that skips if the condition holds
and one that skips unless it does. On whatever machine, exactly one of the two skips. Apart from the
counter a skip leaves everything as it is, whether it is taken or not.

## Main definitions

* `Condition`, `Condition.skipIf`, `Condition.skipUnless`: the conditions, each with its two
  instructions
* `Condition.Holds`: the machines on which a condition holds
* `Machine.MovesBy`: an instruction that moves the counter and does nothing else

## Main results

* `MovesBy.unique`: an instruction moves the counter by one distance only
* `skips_complement`: which instruction of a pair skips, and which one does not
-/

universe u

namespace Chip8

variable {σ : Type u}

/-- What a skip can depend on. -/
inductive Condition where
  /-- The byte of `VX` is `NN`. -/
  | byte (x : Register) (nn : UInt8)
  /-- The bytes of `VX` and `VY` are equal. -/
  | same (x y : Register)
  /-- The key that `VX` stands for is down. -/
  | down (x : Register)
  deriving DecidableEq, Repr

namespace Condition

/-- The instruction that skips if the condition holds: `3XNN`, `5XY0` or `EX9E`. -/
def skipIf : Condition → Instruction
  | byte x nn => .skipIf x nn
  | same x y => .skipIfSame x y
  | down x => .skipIfDown x

/-- The instruction that skips unless the condition holds: `4XNN`, `9XY0` or `EXA1`. -/
def skipUnless : Condition → Instruction
  | byte x nn => .skipUnless x nn
  | same x y => .skipUnlessSame x y
  | down x => .skipUnlessDown x

/-- The condition holds on a machine. -/
def Holds (m : Machine σ) : Condition → Prop
  | byte x nn => m.registers.get x = nn
  | same x y => m.registers.get x = m.registers.get y
  | down x => m.keypad.isDown ((m.registers.get x).toNat % 16) = true

end Condition

namespace Machine

variable [Surface σ]

/-- **An instruction that only moves the counter**, by so many bytes. The counter wraps around.
There is nothing to react to and nothing to tell. -/
structure MovesBy (m : Machine σ) (i : Instruction) (n : Nat) : Prop where
  result : (m.execute i).result = .ok .none
  counter : (m.execute i).state.counter.toNat = (m.counter.toNat + n) % 65536
  frame : (m.execute i).state = { m with counter := (m.execute i).state.counter }
  notices : (m.execute i).notices = []

variable {m : Machine σ} {i : Instruction}

/-- An instruction moves the counter by one distance only. -/
theorem MovesBy.unique {a b : Nat} (ha : m.MovesBy i a) (hb : m.MovesBy i b) (hlt : a < 65536)
    (hlt' : b < 65536) : a = b := by
  have hcounter : (m.counter.toNat + a) % 65536 = (m.counter.toNat + b) % 65536 :=
    ha.counter.symm.trans hb.counter
  omega

/-- A skip moves the counter over an instruction if it is taken, and otherwise not at all. -/
theorem movesBy_of_effect {taken : Bool}
    (h : m.effect i = .ok { machine := m, step := .skipWhen taken }) :
    m.MovesBy i (if taken then 2 else 0) := by
  have hexecute := execute_of_ok h
  cases taken with
  | true =>
    constructor
    case counter =>
      rw [hexecute]
      exact UInt16.toNat_add m.counter 2
    all_goals rw [hexecute]
    rfl
  | false =>
    constructor
    case counter =>
      rw [hexecute]
      exact (Nat.mod_eq_of_lt m.counter.toNat_lt).symm
    all_goals rw [hexecute]
    rfl

theorem MovesBy.not_stays (h : m.MovesBy i 2) : ¬m.MovesBy i 0 := by
  intro hstays
  have : 2 = 0 := h.unique hstays (by omega) (by omega)
  omega

/-- How far a skip moves the counter tells whether it is taken. -/
theorem movesBy_iff_of_effect {taken : Bool}
    (h : m.effect i = .ok { machine := m, step := .skipWhen taken }) :
    (m.MovesBy i 2 ↔ taken = true) ∧ (m.MovesBy i 0 ↔ taken = false) := by
  cases taken with
  | true =>
    have hskips : m.MovesBy i 2 := movesBy_of_effect h
    exact ⟨iff_of_true hskips rfl, iff_of_false hskips.not_stays Bool.noConfusion⟩
  | false =>
    have hstays : m.MovesBy i 0 := movesBy_of_effect h
    have hnot : ¬m.MovesBy i 2 := fun hskips => hskips.not_stays hstays
    exact ⟨iff_of_false hnot Bool.noConfusion, iff_of_true hstays rfl⟩

/-- The two instructions of a condition decide the same question, with opposite answers. -/
theorem exists_effect_skips (m : Machine σ) (c : Condition) :
    ∃ met : Bool, (met = true ↔ c.Holds m) ∧
      m.effect c.skipIf = .ok { machine := m, step := .skipWhen met } ∧
      m.effect c.skipUnless = .ok { machine := m, step := .skipWhen (!met) } := by
  cases c with
  | byte x nn => exact ⟨m.registers.get x == nn, beq_iff_eq, rfl, rfl⟩
  | same x y => exact ⟨m.registers.get x == m.registers.get y, beq_iff_eq, rfl, rfl⟩
  | down x => exact ⟨m.keypad.isDown (m.keyOf x), Iff.rfl, rfl, rfl⟩

/-- **Skips come in complementary pairs.** Of the two instructions of a condition exactly one skips
the next instruction, and the other one goes on to it. The first one is the one that skips if the
condition holds, the second one if it does not. Neither changes anything but the counter. -/
theorem skips_complement (m : Machine σ) (c : Condition) :
    ((m.MovesBy c.skipIf 2 ↔ c.Holds m) ∧ (m.MovesBy c.skipIf 0 ↔ ¬c.Holds m)) ∧
      (m.MovesBy c.skipUnless 2 ↔ ¬c.Holds m) ∧ (m.MovesBy c.skipUnless 0 ↔ c.Holds m) := by
  obtain ⟨met, hholds, hif, hunless⟩ := m.exists_effect_skips c
  have hnot : met = false ↔ ¬c.Holds m := by rw [← hholds, Bool.not_eq_true]
  have hskipIf := movesBy_iff_of_effect hif
  have hskipUnless := movesBy_iff_of_effect hunless
  rw [Bool.not_eq_true', Bool.not_eq_false'] at hskipUnless
  rw [hholds, hnot] at hskipIf hskipUnless
  exact ⟨hskipIf, hskipUnless⟩

end Machine

end Chip8

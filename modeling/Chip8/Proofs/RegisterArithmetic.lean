import Chip8.Proofs.WriteSets

/-!
# Arithmetic on registers

An operation on two registers computes with numbers that may need more than a byte, or be less than
zero. What does not fit into the result is kept in the flag, so that result and flag together are
exact: the carry of an addition is worth 256, a subtraction that borrows has added 256, and the bit
that a shift pushes out is not lost. The bitwise operations have nothing to carry.

The flag is written last. If `VF` is the target of an operation with a flag, what it holds
afterwards is the flag; the result is then lost.

## Main definitions

* `Arithmetic.Equation`: the equation between the operands, the result and the flag
* `Registers.Computed`: what an operation makes of the registers

## Main results

* `Arithmetic.Equation.unique`: the equation has one solution
* `Arithmetic.equation_compute`: the result and the flag are its solution
* `arithmetic_balances`: what an executed operation makes of the registers, whatever its operands
-/

universe u

namespace Chip8

@[simp] theorem toNat_toUInt8 (b : Bool) : b.toUInt8.toNat = b.toNat := by cases b <;> rfl

/-! ## Bytes -/

section Bytes

variable (a b : UInt8)

/-- The carry of an addition is worth 256. -/
theorem add_carry :
    256 * (decide (256 ≤ a.toNat + b.toNat)).toUInt8.toNat + (a + b).toNat =
      a.toNat + b.toNat := by
  have ha := a.toNat_lt
  have hb := b.toNat_lt
  rw [toNat_toUInt8, UInt8.toNat_add]
  by_cases h : 256 ≤ a.toNat + b.toNat
  · simp only [h, decide_true, Bool.toNat_true]
    omega
  · simp only [h, decide_false, Bool.toNat_false]
    omega

/-- A subtraction that borrows adds 256. -/
theorem sub_borrow :
    (a - b).toNat + b.toNat = a.toNat + 256 * (1 - (decide (b ≤ a)).toUInt8.toNat) := by
  have ha := a.toNat_lt
  have hb := b.toNat_lt
  rw [toNat_toUInt8, UInt8.toNat_sub]
  by_cases h : b ≤ a
  · have hle := UInt8.le_iff_toNat_le.mp h
    simp only [h, decide_true, Bool.toNat_true]
    omega
  · have hlt := UInt8.lt_iff_toNat_lt.mp (UInt8.not_le.mp h)
    simp only [h, decide_false, Bool.toNat_false]
    omega

/-- A shift to the right pushes out the lowest bit. -/
theorem shiftRight_bit : 2 * (a >>> 1).toNat + (a &&& 1).toNat = a.toNat := by
  rw [UInt8.toNat_shiftRight, UInt8.toNat_and, UInt8.toNat_one, Nat.and_one_is_mod,
    show 1 % 8 = 1 from rfl, Nat.shiftRight_eq_div_pow]
  omega

/-- A shift to the left pushes out the highest bit. -/
theorem shiftLeft_bit : 256 * (a >>> 7).toNat + (a <<< 1).toNat = 2 * a.toNat := by
  have ha := a.toNat_lt
  rw [UInt8.toNat_shiftRight, UInt8.toNat_shiftLeft, Nat.shiftRight_eq_div_pow,
    Nat.shiftLeft_eq]
  simp only [UInt8.reduceToNat, Nat.reduceMod, Nat.reducePow]
  omega

theorem toNat_shiftRight_seven_le : (a >>> 7).toNat ≤ 1 := by
  have ha := a.toNat_lt
  have hbit := shiftLeft_bit a
  omega

theorem toNat_and_one_le : (a &&& 1).toNat ≤ 1 := by
  rw [UInt8.toNat_and, UInt8.toNat_one, Nat.and_one_is_mod]
  omega

end Bytes

/-! ## The equation of an operation -/

namespace Arithmetic

/-- **The equation of an operation** on the numbers `a` and `b`, between its result and its flag. A
shift moves the number `s`. -/
def Equation (a b s result flag : Nat) : Arithmetic → Prop
  | assign => result = b ∧ flag = 0
  | or => result = a ||| b ∧ flag = 0
  | and => result = a &&& b ∧ flag = 0
  | xor => result = a ^^^ b ∧ flag = 0
  | add => 256 * flag + result = a + b
  | sub => result + b = a + 256 * (1 - flag)
  | subFrom => result + a = b + 256 * (1 - flag)
  | shiftRight => 2 * result + flag = s
  | shiftLeft => 256 * flag + result = 2 * s

instance (a b s result flag : Nat) (op : Arithmetic) :
    Decidable (op.Equation a b s result flag) := by
  cases op <;> unfold Equation <;> infer_instance

/-- The equation has one solution in which the result is a byte and the flag a bit. -/
theorem Equation.unique {op : Arithmetic} {a b s r r' f f' : Nat} (h : op.Equation a b s r f)
    (h' : op.Equation a b s r' f') (hr : r < 256) (hr' : r' < 256) (hf : f ≤ 1) (hf' : f' ≤ 1) :
    r = r' ∧ f = f' := by
  cases op with
  | assign | or | and | xor => exact ⟨h.1.trans h'.1.symm, h.2.trans h'.2.symm⟩
  | add | sub | subFrom | shiftRight | shiftLeft =>
    simp only [Equation] at h h'
    omega

/-- The number that a shift moves. -/
def shiftSource (level : Level) (a b : Nat) : Nat :=
  if level = .chip8 ∨ level = .xochip then b else a

theorem toNat_shifted (level : Level) (vx vy : UInt8) :
    (level.behaviour.shifted vx vy).toNat = shiftSource level vx.toNat vy.toNat := by
  cases level <;> rfl

/-- **The result and the flag solve the equation.** An operation that writes no flag solves it with
a flag of zero. -/
theorem equation_compute (level : Level) (vx vy : UInt8) (op : Arithmetic) :
    op.Equation vx.toNat vy.toNat (shiftSource level vx.toNat vy.toNat)
      (op.compute level.behaviour vx vy).1.toNat
      ((op.compute level.behaviour vx vy).2.getD 0).toNat := by
  rw [← toNat_shifted]
  cases op with
  | assign => exact ⟨rfl, rfl⟩
  | or => cases level <;> exact ⟨UInt8.toNat_or vx vy, rfl⟩
  | and => cases level <;> exact ⟨UInt8.toNat_and vx vy, rfl⟩
  | xor => cases level <;> exact ⟨UInt8.toNat_xor vx vy, rfl⟩
  | add => exact add_carry vx vy
  | sub => exact sub_borrow vx vy
  | subFrom => exact sub_borrow vy vx
  | shiftRight => exact shiftRight_bit _
  | shiftLeft => exact shiftLeft_bit _

/-- A flag is a bit. -/
theorem toNat_flag_le (level : Level) (vx vy : UInt8) (op : Arithmetic) :
    ((op.compute level.behaviour vx vy).2.getD 0).toNat ≤ 1 := by
  cases op with
  | assign => exact Nat.zero_le 1
  | or | and | xor => cases level <;> exact Nat.zero_le 1
  | add | sub | subFrom =>
    simp only [compute, Option.getD_some, toNat_toUInt8]
    exact Bool.toNat_le _
  | shiftRight => exact toNat_and_one_le _
  | shiftLeft => exact toNat_shiftRight_seven_le _

/-- An operation has a flag to write at the levels at which it writes `VF`. -/
theorem isSome_flag (level : Level) (vx vy : UInt8) (op : Arithmetic) :
    (op.compute level.behaviour vx vy).2.isSome = op.setsFlag level := by
  cases op with
  | assign | add | sub | subFrom | shiftRight | shiftLeft => rfl
  | or | and | xor => cases level <;> rfl

end Arithmetic

/-! ## The registers after an operation -/

namespace Registers

variable (r : Registers) (level : Level) (op : Arithmetic) (x y : Register)

/-- The result and the flag solve the equation of an operation on the bytes in `VX` and `VY`. -/
def Solves (result flag : Nat) : Prop :=
  let a := (r.get x).toNat
  let b := (r.get y).toNat
  op.Equation a b (Arithmetic.shiftSource level a b) result flag

instance (result flag : Nat) : Decidable (r.Solves level op x y result flag) :=
  inferInstanceAs (Decidable (op.Equation _ _ _ result flag))

/-- **What an operation makes of the registers** `r`. Where it writes a flag, `VX` and `VF` solve
its equation; if both are the same register, it is the flag that is found there. Otherwise the
result is found in `VX`, and `VF` is not touched unless it is the target. -/
structure Computed (r' : Registers) : Prop where
  solved : op.setsFlag level = true → x ≠ .flag →
    r.Solves level op x y (r'.get x).toNat (r'.get .flag).toNat
  bit : op.setsFlag level = true → (r'.get .flag).toNat ≤ 1
  flag : op.setsFlag level = true → ∀ f ≤ 1,
    (∃ result < 256, r.Solves level op x y result f) ↔ f = (r'.get .flag).toNat
  plain : op.setsFlag level = false → r.Solves level op x y (r'.get x).toNat 0
  kept : op.setsFlag level = false → x ≠ .flag → r'.get .flag = r.get .flag
  others : ∀ z, z ≠ x → z ≠ .flag → r'.get z = r.get z

variable {r level op x y}

/-- An operation that writes a flag writes it behind the result. -/
theorem computed_of_flag {result flag : UInt8} (hsets : op.setsFlag level = true)
    (hsolves : r.Solves level op x y result.toNat flag.toNat) (hbit : flag.toNat ≤ 1) :
    r.Computed level op x y ((r.set x result).set .flag flag) := by
  have hplain : op.setsFlag level ≠ false := by simp [hsets]
  constructor
  case solved =>
    intro _ hx
    rw [get_set_self, get_set, if_neg hx, get_set_self]
    exact hsolves
  case bit =>
    intro _
    rw [get_set_self]
    exact hbit
  case flag =>
    intro _ f hf
    rw [get_set_self]
    constructor
    · rintro ⟨q, hq, hother⟩
      exact (hother.unique hsolves hq result.toNat_lt hf hbit).2
    · rintro rfl
      exact ⟨result.toNat, result.toNat_lt, hsolves⟩
  case plain => exact fun h => absurd h hplain
  case kept => exact fun h => absurd h hplain
  case others =>
    intro z hx hflag
    rw [get_set, if_neg hflag, get_set, if_neg hx]

/-- An operation that writes no flag writes the result only. -/
theorem computed_of_plain {result : UInt8} (hsets : op.setsFlag level = false)
    (hsolves : r.Solves level op x y result.toNat 0) :
    r.Computed level op x y (r.set x result) := by
  have hflag : op.setsFlag level ≠ true := by simp [hsets]
  constructor
  case solved => exact fun h => absurd h hflag
  case bit => exact fun h => absurd h hflag
  case flag => exact fun h => absurd h hflag
  case plain =>
    intro _
    rw [get_set_self]
    exact hsolves
  case kept =>
    intro _ hx
    rw [get_set, if_neg (Ne.symm hx)]
  case others =>
    intro z hx _
    rw [get_set, if_neg hx]

end Registers

namespace Machine

variable {σ : Type u}

theorem registers_final_arithmeticEffect (m : Machine σ) (op : Arithmetic) (x y : Register) :
    let computed := op.compute m.behaviour (m.registers.get x) (m.registers.get y)
    (m.arithmeticEffect op x y).final.registers =
      match computed.2 with
      | some flag => (m.registers.set x computed.1).set .flag flag
      | none => m.registers.set x computed.1 := by
  intro computed
  show ((m.setRegister x computed.1).setFlag computed.2).registers = _
  cases computed.2 <;> rfl

theorem computed_arithmeticEffect (m : Machine σ) (op : Arithmetic) (x y : Register) :
    m.registers.Computed m.level op x y (m.arithmeticEffect op x y).final.registers := by
  have hsolves := Arithmetic.equation_compute m.level (m.registers.get x) (m.registers.get y) op
  have hbit := Arithmetic.toNat_flag_le m.level (m.registers.get x) (m.registers.get y) op
  have hsome := Arithmetic.isSome_flag m.level (m.registers.get x) (m.registers.get y) op
  rw [registers_final_arithmeticEffect, behaviour]
  cases hflag : (op.compute m.level.behaviour (m.registers.get x) (m.registers.get y)).2 with
  | some flag =>
    rw [hflag] at hsolves hbit hsome
    exact Registers.computed_of_flag hsome.symm hsolves hbit
  | none =>
    rw [hflag] at hsolves hsome
    exact Registers.computed_of_plain hsome.symm hsolves

variable [Surface σ]

/-- **Arithmetic on registers.** Executed on whatever machine, be it alone or in a step, an
operation succeeds, and the registers afterwards solve its equation. -/
theorem arithmetic_balances (op : Arithmetic) (x y : Register) (m : Machine σ) :
    ((m.execute (.arithmetic op x y)).result = .ok .none ∧
      m.registers.Computed m.level op x y (m.execute (.arithmetic op x y)).state.registers) ∧
    (m.fetch = .ok (Instruction.arithmetic op x y).encode →
      m.step.result = .ok .none ∧
        m.registers.Computed m.level op x y m.step.state.registers) := by
  constructor
  · rw [execute_of_ok (o := m.arithmeticEffect op x y) rfl]
    exact ⟨rfl, m.computed_arithmeticEffect op x y⟩
  · intro hfetch
    let behind := (m.withOpcode (Instruction.arithmetic op x y).encode).advanced
    rw [step_of_effect_ok hfetch (Instruction.decode_encode _)
      (show behind.effect _ = .ok (behind.arithmeticEffect op x y) from rfl)]
    exact ⟨rfl, behind.computed_arithmeticEffect op x y⟩

/-- A machine that is about to add `V2` to `V1`, and then to subtract it from the flag. -/
def carrying : Machine Screen :=
  let rom : Rom :=
    ⟨"carrying", [0x61, 0xFF, 0x62, 0x03, 0x81, 0x24, 0x8F, 0x25], by decide⟩
  let start := build (some rom) .chip8 Screen.blank .released (.cycle #[])
  (start.performAll [.step, .step]).state

/-- The addition carries. The subtraction borrows, and its result is lost to the flag. -/
theorem arithmetic_balances_carrying :
    carrying.step.result = .ok .none ∧ carrying.registers.Solves .chip8 .add 1 2 2 1 ∧
      (carrying.step.state.registers.get .flag).toNat = 1 ∧
      carrying.step.state.registers.Solves .chip8 .sub .flag 2 254 0 ∧
      (carrying.step.state.step.state.registers.get .flag).toNat = 0 := by
  have hfetch : carrying.fetch = .ok (Instruction.arithmetic .add 1 2).encode :=
    fetch_eq_ok_iff.mpr (by decide +kernel)
  have hfetch' : carrying.step.state.fetch = .ok (Instruction.arithmetic .sub .flag 2).encode :=
    fetch_eq_ok_iff.mpr (by decide +kernel)
  obtain ⟨hlevel, hlevel'⟩ : carrying.level = .chip8 ∧ carrying.step.state.level = .chip8 := by
    decide +kernel
  have hsolves : carrying.registers.Solves .chip8 .add 1 2 2 1 := by decide +kernel
  have hsolves' : carrying.step.state.registers.Solves .chip8 .sub .flag 2 254 0 := by
    decide +kernel
  obtain ⟨hresult, hadd⟩ := (arithmetic_balances .add 1 2 carrying).2 hfetch
  obtain ⟨-, hsub⟩ := (arithmetic_balances .sub .flag 2 carrying.step.state).2 hfetch'
  rw [hlevel] at hadd
  rw [hlevel'] at hsub
  refine ⟨hresult, hsolves, ?_, hsolves', ?_⟩
  · exact ((hadd.flag rfl 1 (by decide)).mp ⟨2, by decide, hsolves⟩).symm
  · exact ((hsub.flag rfl 0 (by decide)).mp ⟨254, by decide, hsolves'⟩).symm

end Machine

end Chip8

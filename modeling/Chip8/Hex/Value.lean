import Chip8.Hex
import Mathlib.Tactic.Ring

/-!
# The value of hexadecimal text

A run of digits denotes a number, and the digits of a number denote that number. So numbers that are
shown alike are equal.

## Main definitions

* `digitValue`, `value`: the number that a digit or a run of digits denotes

## Main results

* `value_fixed`: the last `w` digits of a number denote it modulo `16 ^ w`
* `value_digits`: the digits of a number denote it, whatever the padding
* `literal_injective`: numbers that are shown alike are equal
* `isAlphanum_of_mem_literal`: numbers are shown with letters and digits only
-/

namespace Chip8.Hex

/-- The value of an uppercase digit. -/
def digitValue (c : Char) : Nat := if c.toNat < 58 then c.toNat - 48 else c.toNat - 55

/-- The number a run of digits denotes. -/
def value (cs : List Char) : Nat := cs.foldl (fun n c => n * 16 + digitValue c) 0

theorem digitValue_digit {d : Nat} (h : d < 16) : digitValue (digit d) = d := by
  revert d
  decide

@[simp] theorem value_append_singleton (cs : List Char) (c : Char) :
    value (cs ++ [c]) = value cs * 16 + digitValue c := by
  simp [value]

/-- The last `w` digits of `n` denote `n` modulo `16 ^ w`. -/
theorem value_fixed (w n : Nat) : value (fixed w n) = n % 16 ^ w := by
  induction w generalizing n with
  | zero => simp [fixed, value, Nat.mod_one]
  | succ w ih =>
    rw [fixed, value_append_singleton, ih, digitValue_digit (Nat.mod_lt _ (by decide)),
      Nat.pow_succ, Nat.mul_comm (16 ^ w) 16, Nat.mod_mul]
    omega

/-- A number has as many digits as its width says. -/
theorem lt_pow_width (n : Nat) : n < 16 ^ width n := by
  have h : n < 2 ^ (n.log2 + 1) := Nat.lt_log2_self
  have hle : n.log2 + 1 ≤ 4 * width n := by
    unfold width
    omega
  calc n < 2 ^ (n.log2 + 1) := h
    _ ≤ 2 ^ (4 * width n) := Nat.pow_le_pow_right (by decide) hle
    _ = 16 ^ width n := by rw [Nat.pow_mul]

/-- The digits of a number denote that number, whatever the padding. -/
theorem value_digits (w n : Nat) : value (digits w n).toList = n := by
  have h : n < 16 ^ max w (width n) :=
    Nat.lt_of_lt_of_le (lt_pow_width n) (Nat.pow_le_pow_right (by decide) (Nat.le_max_right _ _))
  simp [digits, value_fixed, Nat.mod_eq_of_lt h]

/-- Numbers with the same literal are equal. -/
theorem literal_injective (w : Nat) : Function.Injective (literal w) := by
  intro m n h
  have hdigits : digits w m = digits w n := (String.append_right_inj "0x").1 h
  rw [← value_digits w m, hdigits, value_digits]

theorem isAlphanum_digit {d : Nat} (h : d < 16) : (digit d).isAlphanum = true := by
  revert d
  decide

theorem isAlphanum_of_mem_fixed {w n : Nat} {c : Char} (h : c ∈ fixed w n) :
    c.isAlphanum = true := by
  induction w generalizing n with
  | zero => cases h
  | succ w ih =>
    rw [fixed, List.mem_append, List.mem_singleton] at h
    cases h with
    | inl h => exact ih h
    | inr h => exact h ▸ isAlphanum_digit (Nat.mod_lt n (by decide))

/-- A literal consists of letters and digits. -/
theorem isAlphanum_of_mem_literal {w n : Nat} {c : Char} (h : c ∈ (literal w n).toList) :
    c.isAlphanum = true := by
  have hparts : (c = '0' ∨ c = 'x') ∨ c ∈ fixed (max w (width n)) n := by
    simpa [literal, digits, or_assoc] using h
  rcases hparts with (rfl | rfl) | hfixed
  · rfl
  · rfl
  · exact isAlphanum_of_mem_fixed hfixed

end Chip8.Hex

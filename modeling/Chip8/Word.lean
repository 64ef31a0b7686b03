/-!
# Words

The machine computes with bytes and with 16-bit words. A word in memory takes two bytes, the high
one first.

## Main definitions

* `Address`: a word used to point into memory
* `word high low`: the word made of two bytes
* `wordAt? bytes i`: the word found at a place of a list of bytes

## Main results

* `toNat_word`: the value of a word in terms of its bytes
* `wordAt?_eq_none_iff`: there is no word at the last byte nor behind it
-/

namespace Chip8

/-- A 16-bit cell that points into memory: the program counter, the index register and the return
addresses are of this kind. -/
abbrev Address := UInt16

/-- The word whose high byte is `high` and whose low byte is `low`. -/
def word (high low : UInt8) : UInt16 := UInt16.ofNat (high.toNat * 256 + low.toNat)

/-- The word that begins at position `i` of `bytes`, if both of its bytes are there. -/
def wordAt? (bytes : List UInt8) (i : Nat) : Option UInt16 :=
  match bytes[i]?, bytes[i + 1]? with
  | some high, some low => some (word high low)
  | _, _ => none

@[simp] theorem toNat_word (high low : UInt8) :
    (word high low).toNat = high.toNat * 256 + low.toNat := by
  have := high.toNat_lt
  have := low.toNat_lt
  simp only [word, UInt16.toNat_ofNat']
  omega

/-- Equal words have equal bytes. -/
theorem word_inj {a b c d : UInt8} : word a b = word c d ↔ a = c ∧ b = d := by
  have := b.toNat_lt
  have := d.toNat_lt
  rw [← UInt16.toNat_inj, ← UInt8.toNat_inj, ← UInt8.toNat_inj, toNat_word, toNat_word]
  omega

theorem wordAt?_eq_none_iff {bytes : List UInt8} {i : Nat} :
    wordAt? bytes i = none ↔ bytes.length ≤ i + 1 := by
  unfold wordAt?
  split
  next h _ h₁ =>
    have := (List.getElem?_eq_some_iff.1 h₁).1
    simp only [reduceCtorEq, false_iff]
    omega
  next h =>
    simp only [true_iff]
    refine Nat.le_of_not_lt fun hlt => ?_
    exact h bytes[i] bytes[i + 1] (List.getElem?_eq_getElem (by omega))
      (List.getElem?_eq_getElem hlt)

end Chip8

import Chip8.Proofs.MemoryRows

/-!
# Words in tables of memory

A table of memory shows a word for each even address: as the entry of a row at the place of the
address, or by a row of zeros. Blocks begin at even addresses, so no word lies across two rows, and
a row of zeros that was merged shows zeros on both sides of the seam.

## Main definitions

* `Row.entry?`: the word that a row has for an address
* `Row.Shows`: the text of a row shows a word for an address

## Main results

* `getElem?_wordsOf`: bytes are shown as the words at their even positions
* `exists_row`: each address lies in the range of a row
* `entry?_of_mem_rows`: the row has the word at the address
* `Row.shows_of_entry?`: and its text shows it
-/

namespace Chip8

/-! ## Words of a list of bytes -/

section Words

variable {bytes : List UInt8} {w : UInt16} {i : Nat}

/-- There is a word where both of its bytes are. -/
theorem wordAt?_eq_some_iff :
    wordAt? bytes i = some w ↔
      ∃ high low, bytes[i]? = some high ∧ bytes[i + 1]? = some low ∧ word high low = w := by
  unfold wordAt?
  cases bytes[i]? <;> cases bytes[i + 1]? <;> simp

/-- The words of a part of a list are those of the list. -/
theorem wordAt?_take_drop {a n : Nat} (h : i + 1 < n) :
    wordAt? ((bytes.drop a).take n) i = wordAt? bytes (a + i) := by
  simp only [wordAt?, List.getElem?_take, List.getElem?_drop, if_pos h,
    if_pos (Nat.lt_of_succ_lt h), Nat.add_assoc]

end Words

namespace MemoryTable

/-- Bytes are shown as the words at their even positions. -/
theorem getElem?_wordsOf {bytes : List UInt8} {w : UInt16} {j : Nat}
    (h : wordAt? bytes (2 * j) = some w) : (wordsOf bytes)[j]? = some w := by
  induction bytes using wordsOf.induct generalizing j with
  | case1 =>
    obtain ⟨high, low, hhigh, -, -⟩ := wordAt?_eq_some_iff.mp h
    cases hhigh
  | case2 b =>
    obtain ⟨high, low, -, hlow, -⟩ := wordAt?_eq_some_iff.mp h
    cases hlow
  | case3 high low rest ih =>
    cases j with
    | zero => exact h
    | succ j => exact ih h

theorem getElem?_entriesOf {bytes : List UInt8} {w : UInt16} {j : Nat}
    (h : wordAt? bytes (2 * j) = some w) : (entriesOf bytes)[j]? = some w := by
  have hword := getElem?_wordsOf h
  rw [entriesOf, List.getElem?_append_left (List.getElem?_eq_some_iff.mp hword).1, hword]

/-- Zeros are shown as zeros. -/
theorem eq_zero_of_all {bytes : List UInt8} {w : UInt16} {i : Nat}
    (hzero : bytes.all (· == 0) = true) (h : wordAt? bytes i = some w) : w = 0 := by
  have hbyte {b : UInt8} {j : Nat} (hb : bytes[j]? = some b) : b = 0 :=
    beq_iff_eq.mp (List.all_eq_true.mp hzero b (List.mem_of_getElem? hb))
  obtain ⟨high, low, hhigh, hlow, rfl⟩ := wordAt?_eq_some_iff.mp h
  rw [hbyte hhigh, hbyte hlow]
  rfl

/-! ## The entries of a row -/

namespace Row

/-- An address lies in the range of a row. -/
def Covers (row : Row) (a : Nat) : Prop := row.first ≤ a ∧ a ≤ row.last

/-- The word that a row has for an address in its range. -/
def entry? : Row → Nat → Option UInt16
  | words first _ entries, a => entries[(a - first) / 2]?
  | zeros _ _, _ => some 0

/-- Where a row covers an address it has a word for it. -/
def Has (row : Row) (a : Nat) (w : UInt16) : Prop := row.Covers a → row.entry? a = some w

end Row

variable {a : Nat} {w : UInt16}

/-- The row of a block has the words of the block. -/
theorem has_rowOf {first : Nat} {bytes : List UInt8} (heven : first % 2 = 0) (ha : a % 2 = 0)
    (hle : first ≤ a) (h : wordAt? bytes (a - first) = some w) : (rowOf first bytes).Has a w := by
  intro _
  unfold rowOf
  dsimp only
  split
  next hzero => rw [eq_zero_of_all hzero h, Row.entry?]
  next =>
    rw [Row.entry?]
    refine getElem?_entriesOf ?_
    rw [show 2 * ((a - first) / 2) = a - first by omega]
    exact h

/-- Merging two rows of zeros does not change what is shown. -/
theorem has_consRow {row : Row} {rest : List Row} {b : Nat}
    (hcontiguous : Contiguous (row.last + 1) b rest) (hrow : row.Has a w)
    (hrest : ∀ r ∈ rest, r.Has a w) : ∀ r ∈ consRow row rest, r.Has a w := by
  unfold consRow
  split
  next first last first' last' rest =>
    rw [List.forall_mem_cons] at hrest ⊢
    refine ⟨fun hcovers => ?_, hrest.2⟩
    obtain ⟨hfirst, -, -⟩ := hcontiguous
    rcases Nat.lt_or_ge last a with hright | hleft
    · exact hrest.1 ⟨hfirst.trans_le hright, hcovers.2⟩
    · exact hrow ⟨hcovers.1, hleft⟩
  next => exact List.forall_mem_cons.mpr ⟨hrow, hrest⟩

/-- The rows of contiguous blocks have what the row of each block has. -/
theorem has_foldr_consRow {s b : Nat} {bs : List (Nat × List UInt8)} (h : Table.Contiguous s b bs)
    (hblocks : ∀ block ∈ bs, (rowOf block.1 block.2).Has a w) :
    ∀ r ∈ (bs.map fun block => rowOf block.1 block.2).foldr consRow [], r.Has a w := by
  induction bs generalizing s with
  | nil => exact List.forall_mem_nil _
  | cons block rest ih =>
    obtain ⟨rfl, hne, hrest⟩ := h
    rw [List.forall_mem_cons] at hblocks
    have hcontiguous := (contiguous_foldr_consRow hrest).1
    rw [← last_rowOf_add_one _ hne] at hcontiguous
    exact has_consRow hcontiguous hblocks.1 (ih hrest hblocks.2)

/-- **The row of an even address has the word at the address**, if there is one. -/
theorem entry?_of_mem_rows {bytes : List UInt8} (ha : a % 2 = 0) (h : wordAt? bytes a = some w)
    {row : Row} (hrow : row ∈ rows bytes) (hcovers : row.Covers a) : row.entry? a = some w := by
  refine has_foldr_consRow (Table.contiguous_blocks (by decide) bytes) ?_ row hrow hcovers
  intro block hblock
  obtain ⟨i, -, rfl⟩ := List.mem_map.mp hblock
  intro hcovers
  obtain ⟨hfirst, hlast⟩ := hcovers
  have hlength : ((bytes.drop (i * 16)).take 16).length ≤ 16 := List.length_take_le _ _
  have hle : i * 16 ≤ a := by rwa [first_rowOf] at hfirst
  have hge : a ≤ i * 16 + ((bytes.drop (i * 16)).take 16).length - 1 := by
    rwa [last_rowOf] at hlast
  refine has_rowOf (by omega) ha hle ?_ ⟨hfirst, hlast⟩
  -- the block begins at an even address, so the word does not lie across its end
  rw [wordAt?_take_drop (by omega), Nat.add_sub_cancel' hle]
  exact h

/-- Contiguous rows leave no address out. -/
theorem exists_row {s b : Nat} {rs : List Row} (h : Contiguous s b rs) (hs : s ≤ a) (hb : a < b) :
    ∃ row ∈ rs, row.Covers a := by
  induction rs generalizing s with
  | nil =>
    obtain rfl : s = b := h
    exact absurd hb (Nat.not_lt.mpr hs)
  | cons row rest ih =>
    obtain ⟨rfl, -, hrest⟩ := h
    rcases Nat.lt_or_ge row.last a with hbehind | hin
    · obtain ⟨other, hother, hcovers⟩ := ih hrest hbehind
      exact ⟨other, List.mem_cons_of_mem _ hother, hcovers⟩
    · exact ⟨row, List.mem_cons_self, hs, hin⟩

/-! ## The text of a row -/

/-- **The text of a row shows a word** for an address: behind the range, at the place of the
address, or as zero by an ellipsis. -/
inductive Row.Shows (row : Row) (a : Nat) (w : UInt16) : Prop
  | entry
    (text : (pieces ' ' row.text)[4 + (a - row.first) / 2]? = some (Hex.literal 4 w.toNat))
  | filler (text : (pieces ' ' row.text).drop 4 = ["0x0000", "...", "0x0000"]) (zero : w = 0)

theorem Row.shows_of_entry? {row : Row} (h : row.entry? a = some w) : row.Shows a w := by
  cases row with
  | words first last entries =>
    refine .entry ?_
    have hentry : entries[(a - first) / 2]? = some w := h
    rw [pieces_text, Nat.add_comm]
    show (words first last entries).content[(a - first) / 2]? = _
    simp only [content, List.getElem?_map, hentry, Option.map_some]
  | zeros first last =>
    refine .filler ?_ (Option.some.inj h).symm
    rw [pieces_text]
    rfl

end MemoryTable

end Chip8

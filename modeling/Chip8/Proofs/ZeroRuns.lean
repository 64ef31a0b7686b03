import Chip8.Proofs.BlockRows
import Mathlib.Data.List.Nodup

/-!
# Runs of zeros

The rows of a table lie one behind the other, and each address is in the range of one of them. A
block that contains something has a row of its own. Blocks of zeros have one row for each run of
them that is as long as possible.

## Main definitions

* `ZeroRun`, `MaximalRun`: blocks of zeros one behind the other, up to something else
* `Layout`: rows that begin at a block, each as long as it should be

## Main results

* `Layout.consRow_rowOf`, `layout_rows`: the rows of a table are laid out
* `Layout.cases_of_mem`, `Layout.wordsRow_mem`, `Layout.zerosRow_mem`: which rows there are
* `forall₂_lines_rows`: each line shows the range of its row and what is in it
* `rows_laid_out`: the rows of a table and their lines
-/

namespace Chip8.MemoryTable

variable {bytes : List UInt8} {i j : Nat}

/-! ## Runs -/

/-- **The blocks from `i` up to `j` are zeros**, and the next one, if there is any, is not. -/
structure ZeroRun (bytes : List UInt8) (i j : Nat) : Prop where
  lt : i < j
  le : j ≤ blockCount bytes
  zero : ∀ k, i ≤ k → k < j → IsZeroBlock bytes k
  stop : j < blockCount bytes → ¬IsZeroBlock bytes j

/-- A run of zeros that cannot be made longer at either end. -/
structure MaximalRun (bytes : List UInt8) (i j : Nat) : Prop extends ZeroRun bytes i j where
  start : 0 < i → ¬IsZeroBlock bytes (i - 1)

theorem ZeroRun.isZeroBlock (h : ZeroRun bytes i j) : IsZeroBlock bytes i :=
  h.zero i (Nat.le_refl i) h.lt

/-- Behind a run there is no other one. -/
theorem ZeroRun.not_zeroRun (h : ZeroRun bytes i j) {k : Nat} : ¬ZeroRun bytes j k := fun hnext =>
  h.stop (hnext.lt.trans_le hnext.le) hnext.isZeroBlock

/-- A run is told by where it begins. -/
theorem ZeroRun.unique {k : Nat} (h : ZeroRun bytes i j) (h' : ZeroRun bytes i k) : j = k := by
  rcases Nat.lt_trichotomy j k with hlt | heq | hlt
  · exact absurd (h'.zero j h.lt.le hlt) (h.stop (hlt.trans_le h'.le))
  · exact heq
  · exact absurd (h.zero k h'.lt.le hlt) (h'.stop (hlt.trans_le h.le))

/-! ## The layout of rows -/

/-- **Rows are laid out from a block on**: a block that contains something has a row of its own, and
a run of zeros has a row of zeros. -/
inductive Layout (bytes : List UInt8) : Nat → List Row → Prop
  | done {i : Nat} (stop : i = blockCount bytes) : Layout bytes i []
  | words {i : Nat} {rs : List Row} (nonzero : ¬IsZeroBlock bytes i)
    (below : Layout bytes (i + 1) rs) : Layout bytes i (wordsRow bytes i :: rs)
  | zeros {i j : Nat} {rs : List Row} (run : ZeroRun bytes i j)
    (below : Layout bytes j rs) : Layout bytes i (zerosRow bytes i j :: rs)

/-- A block of zeros makes the run behind it longer, or is a run of its own. -/
theorem Layout.consRow_zeros {rs : List Row} (h : Layout bytes (i + 1) rs)
    (hi : i < blockCount bytes) (hzero : IsZeroBlock bytes i) :
    Layout bytes i (consRow (zerosRow bytes i (i + 1)) rs) := by
  have hsingle (hstop : i + 1 < blockCount bytes → ¬IsZeroBlock bytes (i + 1)) :
      ZeroRun bytes i (i + 1) := by
    refine ⟨Nat.lt_succ_self i, hi, fun k hik hk => ?_, hstop⟩
    rwa [Nat.le_antisymm (Nat.le_of_lt_succ hk) hik]
  cases h with
  | done hstop => exact .zeros (hsingle fun hlt => absurd hstop hlt.ne) (.done hstop)
  | words hnonzero hbelow => exact .zeros (hsingle fun _ => hnonzero) (.words hnonzero hbelow)
  | zeros hrun hbelow =>
    refine .zeros ⟨Nat.lt_of_succ_lt hrun.lt, hrun.le, fun k hik hk => ?_, hrun.stop⟩ hbelow
    rcases Nat.eq_or_lt_of_le hik with rfl | hlt
    · exact hzero
    · exact hrun.zero k hlt hk

/-- Putting the row of a block in front of rows keeps them laid out. -/
theorem Layout.consRow_rowOf {rs : List Row} (h : Layout bytes (i + 1) rs)
    (hi : i < blockCount bytes) :
    Layout bytes i (consRow (rowOf (i * 16) (block bytes i)) rs) := by
  by_cases hzero : IsZeroBlock bytes i
  · rw [(rowOf_block hi).1 hzero]
    exact h.consRow_zeros hi hzero
  · rw [(rowOf_block hi).2 hzero]
    exact .words hzero h

/-- The rows of the last blocks are laid out. -/
theorem layout_foldr_consRow (n : Nat) (h : i + n = blockCount bytes) :
    Layout bytes i (((List.range' i n).map fun i => rowOf (i * 16) (block bytes i)).foldr
      consRow []) := by
  induction n generalizing i with
  | zero => exact .done h
  | succ n ih =>
    rw [List.range'_succ, List.map_cons, List.foldr_cons]
    exact (ih (by omega)).consRow_rowOf (by omega)

/-- The rows of a table are laid out from the first block on. -/
theorem layout_rows (bytes : List UInt8) : Layout bytes 0 (rows bytes) := by
  rw [rows_eq, List.range_eq_range']
  exact layout_foldr_consRow _ (Nat.zero_add _)

/-! ## Which rows there are -/

section Layout

variable {s : Nat} {rs : List Row}

/-- A row is that of a block, or that of a run which begins behind something else. -/
theorem Layout.cases_of_mem (h : Layout bytes s rs) {row : Row} (hrow : row ∈ rs) :
    (∃ i, ¬IsZeroBlock bytes i ∧ row = wordsRow bytes i) ∨
    ∃ i j, s ≤ i ∧ ZeroRun bytes i j ∧ (s < i → ¬IsZeroBlock bytes (i - 1)) ∧
      row = zerosRow bytes i j := by
  induction h with
  | done => cases hrow
  | @words s rs hnonzero hbelow ih =>
    rcases List.mem_cons.mp hrow with rfl | hrow
    · exact .inl ⟨s, hnonzero, rfl⟩
    rcases ih hrow with hwords | ⟨i, j, hsi, hrun, hstart, rfl⟩
    · exact .inl hwords
    refine .inr ⟨i, j, Nat.le_of_succ_le hsi, hrun, fun _ => ?_, rfl⟩
    rcases Nat.eq_or_lt_of_le hsi with rfl | hlt
    · exact hnonzero
    · exact hstart hlt
  | @zeros s t rs hrun hbelow ih =>
    rcases List.mem_cons.mp hrow with rfl | hrow
    · exact .inr ⟨s, t, Nat.le_refl s, hrun, fun h => absurd h (Nat.lt_irrefl s), rfl⟩
    rcases ih hrow with hwords | ⟨i, j, hti, hrun', hstart, rfl⟩
    · exact .inl hwords
    refine .inr ⟨i, j, hrun.lt.le.trans hti, hrun', fun _ => hstart ?_, rfl⟩
    rcases Nat.eq_or_lt_of_le hti with rfl | hlt
    · exact absurd hrun' hrun.not_zeroRun
    · exact hlt

/-- A block that contains something has its row. -/
theorem Layout.wordsRow_mem (h : Layout bytes s rs) (hsi : s ≤ i) (hi : ¬IsZeroBlock bytes i) :
    wordsRow bytes i ∈ rs := by
  induction h with
  | done hstop => exact absurd (lt_blockCount hi) (by omega)
  | words hnonzero hbelow ih =>
    rcases Nat.eq_or_lt_of_le hsi with rfl | hlt
    · exact List.mem_cons_self
    · exact List.mem_cons_of_mem _ (ih hlt)
  | zeros hrun hbelow ih =>
    refine List.mem_cons_of_mem _ (ih (Nat.le_of_not_lt fun hlt => ?_))
    exact hi (hrun.zero i hsi hlt)

/-- A run that begins behind something else has its row. -/
theorem Layout.zerosRow_mem (h : Layout bytes s rs) (hrun : ZeroRun bytes i j) (hsi : s ≤ i)
    (hstart : s < i → ¬IsZeroBlock bytes (i - 1)) : zerosRow bytes i j ∈ rs := by
  induction h with
  | done hstop =>
    have hlt := hrun.lt.trans_le hrun.le
    omega
  | words hnonzero hbelow ih =>
    rcases Nat.eq_or_lt_of_le hsi with rfl | hlt
    · exact absurd hrun.isZeroBlock hnonzero
    · exact List.mem_cons_of_mem _ (ih hlt fun hlt' => hstart (Nat.lt_of_succ_lt hlt'))
  | @zeros s t rs hrun' hbelow ih =>
    rcases Nat.eq_or_lt_of_le hsi with rfl | hlt
    · rw [hrun.unique hrun']
      exact List.mem_cons_self
    · have hti : t ≤ i - 1 := Nat.le_of_not_lt fun hin =>
        hstart hlt (hrun'.zero (i - 1) (Nat.le_sub_one_of_lt hlt) hin)
      exact List.mem_cons_of_mem _ (ih (hti.trans (Nat.sub_le i 1)) fun _ => hstart hlt)

end Layout

/-! ## Ranges of addresses -/

section Contiguous

variable {a b : Nat} {rs : List Row}

theorem Contiguous.le_first (h : Contiguous a b rs) {row : Row} (hrow : row ∈ rs) :
    a ≤ row.first := by
  induction rs generalizing a with
  | nil => cases hrow
  | cons top rest ih =>
    obtain ⟨rfl, hlast, hrest⟩ := h
    rcases List.mem_cons.mp hrow with rfl | hrow
    · exact Nat.le_refl _
    · exact (hlast.trans (Nat.le_succ _)).trans (ih hrest hrow)

/-- The ranges of contiguous rows ascend. -/
theorem Contiguous.pairwise (h : Contiguous a b rs) :
    rs.Pairwise fun row other => row.first ≤ row.last ∧ row.last < other.first := by
  induction rs generalizing a with
  | nil => exact .nil
  | cons top rest ih =>
    obtain ⟨rfl, hlast, hrest⟩ := h
    exact .cons (fun other hother => ⟨hlast, hrest.le_first hother⟩) (ih hrest)

theorem Contiguous.nodup (h : Contiguous a b rs) : rs.Nodup := by
  refine h.pairwise.imp fun hapart heq => ?_
  subst heq
  exact absurd hapart.1 (Nat.not_le.mpr hapart.2)

/-- Contiguous rows have each address in the range of one of them. -/
theorem Contiguous.existsUnique_row (h : Contiguous a b rs) {x : Nat} (ha : a ≤ x) (hb : x < b) :
    ∃! row, row ∈ rs ∧ row.Covers x := by
  obtain ⟨row, hrow, hcovers⟩ := exists_row h ha hb
  refine ⟨row, ⟨hrow, hcovers⟩, fun other ⟨hother, hcovers'⟩ => ?_⟩
  have hapart : rs.Pairwise fun row other => ¬(row.Covers x ∧ other.Covers x) :=
    h.pairwise.imp fun hapart hboth =>
      absurd (hboth.2.1.trans hboth.1.2) (Nat.not_le.mpr hapart.2)
  have hsymm : Std.Symm fun row other : Row => ¬(row.Covers x ∧ other.Covers x) :=
    ⟨fun _ _ hboth hboth' => hboth hboth'.symm⟩
  by_contra hne
  exact hapart.forall hother hrow hne ⟨hcovers', hcovers⟩

end Contiguous

/-! ## The rows of a table -/

/-- A row of a table is that of a block, or that of a run which cannot be made longer. -/
theorem cases_of_mem_rows {row : Row} (h : row ∈ rows bytes) :
    (∃ i, ¬IsZeroBlock bytes i ∧ row = wordsRow bytes i) ∨
    ∃ i j, MaximalRun bytes i j ∧ row = zerosRow bytes i j := by
  rcases (layout_rows bytes).cases_of_mem h with hwords | ⟨i, j, -, hrun, hstart, hrow⟩
  · exact .inl hwords
  · exact .inr ⟨i, j, ⟨hrun, hstart⟩, hrow⟩

theorem count_wordsRow (h : ¬IsZeroBlock bytes i) : (rows bytes).count (wordsRow bytes i) = 1 :=
  List.count_eq_one_of_mem (contiguous_rows bytes).nodup
    ((layout_rows bytes).wordsRow_mem (Nat.zero_le i) h)

theorem count_zerosRow (h : MaximalRun bytes i j) :
    (rows bytes).count (zerosRow bytes i j) = 1 :=
  List.count_eq_one_of_mem (contiguous_rows bytes).nodup
    ((layout_rows bytes).zerosRow_mem h.toZeroRun (Nat.zero_le i) h.start)

/-- Behind its indentation, a line shows the range of its row, and then the words of the row or that
there are zeros only. -/
theorem forall₂_lines_rows (tabs : Nat) (bytes : List UInt8) :
    List.Forall₂ (fun line row => ∃ text, line = Table.indent tabs ++ text ∧
      pieces ' ' text = [Hex.literal 4 row.first, "-", Hex.literal 4 row.last, ":"] ++ row.content)
      (lines tabs bytes) (rows bytes) := by
  rw [lines, List.forall₂_map_left_iff, List.forall₂_same]
  exact fun row _ => ⟨row.text, rfl, row.pieces_text⟩

/-- **The rows of a table**, from the top to the bottom, are those that are put together from above.
Their ranges are not empty and lie one behind the other, so each address is in one of them. Each
block that contains something has one row with its words, and each run of blocks of zeros that
cannot be made longer has one row of zeros; there are no other rows, and no two rows of zeros lie
one behind the other. Each line of the text shows the range of its row, and then the words of the
block or an ellipsis between two zeros. -/
theorem rows_laid_out (tabs : Nat) (bytes : List UInt8) :
    scannedRows bytes = rows bytes ∧
    Contiguous 0 bytes.length (rows bytes) ∧
    (∀ a < bytes.length, ∃! row, row ∈ rows bytes ∧ row.Covers a) ∧
    (∀ i, ¬IsZeroBlock bytes i → (rows bytes).count (wordsRow bytes i) = 1) ∧
    (∀ i j, MaximalRun bytes i j → (rows bytes).count (zerosRow bytes i j) = 1) ∧
    (∀ row ∈ rows bytes, (∃ i, ¬IsZeroBlock bytes i ∧ row = wordsRow bytes i) ∨
      ∃ i j, MaximalRun bytes i j ∧ row = zerosRow bytes i j) ∧
    (rows bytes).IsChain (fun row next => ¬(row.IsZeros ∧ next.IsZeros)) ∧
    List.Forall₂ (fun line row => ∃ text, line = Table.indent tabs ++ text ∧
      pieces ' ' text = [Hex.literal 4 row.first, "-", Hex.literal 4 row.last, ":"] ++ row.content)
      (lines tabs bytes) (rows bytes) ∧
    (bytes ≠ [] → pieces '\n' ("\n".intercalate (lines tabs bytes)) = lines tabs bytes) := by
  refine ⟨scannedRows_eq bytes, contiguous_rows bytes, fun a ha => ?_, fun i => count_wordsRow,
    fun i j => count_zerosRow, fun row => cases_of_mem_rows, isChain_rows bytes,
    forall₂_lines_rows tabs bytes, pieces_intercalate_lines tabs⟩
  exact (contiguous_rows bytes).existsUnique_row (Nat.zero_le a) ha

/-- Two blocks of zeros and a single byte. -/
def oddEnd : List UInt8 := List.replicate 32 0 ++ [0xAB]

/-- The zeros have one row, and the byte is shown as the high one of a word. -/
theorem rows_laid_out_oddEnd :
    (MaximalRun oddEnd 0 2 ∧ ¬IsZeroBlock oddEnd 2) ∧
    (rows oddEnd).count (zerosRow oddEnd 0 2) = 1 ∧
    (rows oddEnd).count (.words 32 32 [0xAB00, 0, 0, 0, 0, 0, 0, 0]) = 1 ∧
    (∃! row, row ∈ rows oddEnd ∧ row.Covers 32) ∧
    pieces '\n' ("\n".intercalate (lines 0 oddEnd)) = lines 0 oddEnd := by
  have hzeros : ∀ k < 2, IsZeroBlock oddEnd k := by decide
  have hend : ¬IsZeroBlock oddEnd 2 := by decide
  have hrun : MaximalRun oddEnd 0 2 :=
    { lt := by decide
      le := by decide
      zero := fun k _ hk => hzeros k hk
      stop := fun _ => hend
      start := fun hlt => absurd hlt (Nat.lt_irrefl 0) }
  have hwords : wordsRow oddEnd 2 = .words 32 32 [0xAB00, 0, 0, 0, 0, 0, 0, 0] := rfl
  obtain ⟨-, -, hcovers, hown, hmerged, -, -, -, htext⟩ := rows_laid_out 0 oddEnd
  exact ⟨⟨hrun, hend⟩, hmerged 0 2 hrun, hwords ▸ hown 2 hend, hcovers 32 (by decide),
    htext (List.cons_ne_nil _ _)⟩

end Chip8.MemoryTable

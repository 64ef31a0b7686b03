import Chip8.Proofs.ShownWords
import Mathlib.Data.List.Chain

/-!
# Rows of blocks

The bytes of a table are divided into blocks of sixteen. What a block is shown as can be told from
the bytes at its addresses, without taking the list apart: eight words, with zeros for the bytes
behind the end. The rows of the blocks can also be put together from above, each below the ones
that are already there. A row of zeros then takes the place of a row of zeros above it, so two of
them never lie one behind the other.

## Main definitions

* `byteAt`, `blockWords`, `IsZeroBlock`: the bytes and the words of a block
* `wordsRow`, `zerosRow`: the row of a block, and the one of a run of blocks
* `pushRow`, `scannedRows`: the rows of a table, put together from above

## Main results

* `rowOf_block`: the row of a block by its bytes
* `isChain_foldl_pushRow`: no two rows of zeros lie one behind the other
* `scannedRows_eq`: from above and from below the same rows are put together
-/

namespace Chip8.MemoryTable

section Blocks

variable (bytes : List UInt8)

/-- The byte at an address, zero behind the end. -/
def byteAt (a : Nat) : UInt8 := bytes[a]?.getD 0

/-- How many blocks there are. The last one may be shorter. -/
def blockCount : Nat := (bytes.length + 15) / 16

/-- The bytes of a block. -/
def block (i : Nat) : List UInt8 := (bytes.drop (i * 16)).take 16

/-- The eight words of a block, the high byte of each first. -/
def blockWords (i : Nat) : List UInt16 :=
  (List.range 8).map fun k =>
    word (byteAt bytes (i * 16 + 2 * k)) (byteAt bytes (i * 16 + 2 * k + 1))

/-- All bytes of a block are zero. -/
def IsZeroBlock (i : Nat) : Prop := ∀ a, a / 16 = i → byteAt bytes a = 0

/-- The last address in front of a block, or the last one of all. -/
def lastBefore (i : Nat) : Nat := min (i * 16) bytes.length - 1

/-- The row of a block that shows its words. -/
def wordsRow (i : Nat) : Row := .words (i * 16) (lastBefore bytes (i + 1)) (blockWords bytes i)

/-- The row of zeros for the blocks from `i` up to `j`. -/
def zerosRow (i j : Nat) : Row := .zeros (i * 16) (lastBefore bytes j)

end Blocks

variable {bytes : List UInt8} {i : Nat}

/-! ## The words of a block -/

theorem byteAt_of_getElem? {a : Nat} {b : UInt8} (h : bytes[a]? = some b) : byteAt bytes a = b := by
  rw [byteAt, h, Option.getD_some]

theorem byteAt_of_le {a : Nat} (h : bytes.length ≤ a) : byteAt bytes a = 0 := by
  rw [byteAt, List.getElem?_eq_none h, Option.getD_none]

theorem length_wordsOf (bytes : List UInt8) : (wordsOf bytes).length = (bytes.length + 1) / 2 := by
  induction bytes using wordsOf.induct with
  | case1 => rfl
  | case2 high => simp [wordsOf]
  | case3 high low rest ih =>
    rw [wordsOf, List.length_cons, ih, List.length_cons, List.length_cons]
    omega

theorem word_zero : word 0 0 = 0 := rfl

/-- The words of bytes, where those behind the end are zero. -/
theorem getD_wordsOf (bytes : List UInt8) (k : Nat) :
    (wordsOf bytes)[k]?.getD 0 = word (byteAt bytes (2 * k)) (byteAt bytes (2 * k + 1)) := by
  induction bytes using wordsOf.induct generalizing k with
  | case1 => simp [wordsOf, byteAt, word_zero]
  | case2 high =>
    cases k with
    | zero => simp [wordsOf, byteAt]
    | succ k => simp [wordsOf, byteAt, word_zero, Nat.mul_succ]
  | case3 high low rest ih =>
    cases k with
    | zero => simp [wordsOf, byteAt]
    | succ k => simpa [wordsOf, byteAt, Nat.mul_succ] using ih k

/-- The entries for at most sixteen bytes. -/
theorem entriesOf_eq (h : bytes.length ≤ 16) :
    entriesOf bytes =
      (List.range 8).map fun k => word (byteAt bytes (2 * k)) (byteAt bytes (2 * k + 1)) := by
  have hlength : (entriesOf bytes).length = 8 := by
    simp only [entriesOf, List.length_append, List.length_replicate, length_wordsOf]
    omega
  refine List.ext_getElem (by rw [hlength, List.length_map, List.length_range]) fun k hk _ => ?_
  have hk : k < 8 := hlength ▸ hk
  rw [List.getElem_map, List.getElem_range, ← getD_wordsOf]
  simp only [entriesOf, List.getElem_append, List.getElem_replicate]
  split
  next hword => rw [List.getElem?_eq_getElem hword, Option.getD_some]
  next hword => rw [List.getElem?_eq_none (Nat.le_of_not_lt hword), Option.getD_none]

theorem byteAt_block {k : Nat} (h : k < 16) :
    byteAt (block bytes i) k = byteAt bytes (i * 16 + k) := by
  rw [byteAt, block, List.getElem?_take, if_pos h, List.getElem?_drop, byteAt]

theorem entriesOf_block (bytes : List UInt8) (i : Nat) :
    entriesOf (block bytes i) = blockWords bytes i := by
  have hlength : (block bytes i).length ≤ 16 := List.length_take_le _ _
  rw [entriesOf_eq hlength, blockWords]
  refine List.map_congr_left fun k hk => ?_
  have hk : k < 8 := List.mem_range.mp hk
  rw [byteAt_block (by omega), byteAt_block (by omega)]
  rfl

/-! ## Blocks of zeros -/

/-- A block of zeros has no other bytes. -/
theorem all_block_iff : (block bytes i).all (· == 0) = true ↔ IsZeroBlock bytes i := by
  simp only [List.all_eq_true, beq_iff_eq]
  constructor
  · intro h a ha
    have hin : byteAt (block bytes i) (a - i * 16) = byteAt bytes a := by
      rw [byteAt_block (by omega), Nat.add_sub_cancel' (by omega)]
    rw [← hin, byteAt]
    cases hbyte : (block bytes i)[a - i * 16]? with
    | none => rfl
    | some b => exact h b (List.mem_of_getElem? hbyte)
  · intro h b hb
    obtain ⟨k, hk, rfl⟩ := List.mem_iff_getElem.mp hb
    have hlt : k < 16 := hk.trans_le (List.length_take_le _ _)
    rw [← byteAt_of_getElem? (List.getElem?_eq_getElem hk), byteAt_block hlt]
    exact h _ (by omega)

instance (bytes : List UInt8) (i : Nat) : Decidable (IsZeroBlock bytes i) :=
  decidable_of_iff _ all_block_iff

/-- The words of a block are zero exactly if its bytes are. -/
theorem all_blockWords_iff :
    (blockWords bytes i).all (· == 0) = true ↔ IsZeroBlock bytes i := by
  have hword (high low : UInt8) : word high low = 0 ↔ high = 0 ∧ low = 0 :=
    word_inj (c := 0) (d := 0)
  simp only [blockWords, List.all_map, List.all_eq_true, List.mem_range, Function.comp_apply,
    beq_iff_eq, hword]
  constructor
  · intro h a ha
    obtain ⟨heven, hodd⟩ := h (a % 16 / 2) (by omega)
    rcases Nat.mod_two_eq_zero_or_one a with hmod | hmod
    · rwa [show i * 16 + 2 * (a % 16 / 2) = a by omega] at heven
    · rwa [show i * 16 + 2 * (a % 16 / 2) + 1 = a by omega] at hodd
  · intro h k hk
    exact ⟨h _ (by omega), h _ (by omega)⟩

/-- Behind the end there are zeros only. -/
theorem isZeroBlock_of_le (h : blockCount bytes ≤ i) : IsZeroBlock bytes i := by
  intro a ha
  unfold blockCount at h
  exact byteAt_of_le (by omega)

theorem lt_blockCount (h : ¬IsZeroBlock bytes i) : i < blockCount bytes :=
  Nat.lt_of_not_le fun hle => h (isZeroBlock_of_le hle)

/-! ## The row of a block -/

theorem last_block (h : i < blockCount bytes) :
    i * 16 + (block bytes i).length - 1 = lastBefore bytes (i + 1) := by
  unfold blockCount at h
  rw [block, List.length_take, List.length_drop, lastBefore]
  omega

/-- The row of a block by its bytes: a block of zeros has a row of zeros, and any other block has
one that shows its words. -/
theorem rowOf_block (h : i < blockCount bytes) :
    (IsZeroBlock bytes i → rowOf (i * 16) (block bytes i) = zerosRow bytes i (i + 1)) ∧
    (¬IsZeroBlock bytes i → rowOf (i * 16) (block bytes i) = wordsRow bytes i) := by
  unfold rowOf
  dsimp only
  rw [last_block h, entriesOf_block]
  exact ⟨fun hzero => if_pos (all_block_iff.mpr hzero),
    fun hother => if_neg (all_block_iff.not.mpr hother)⟩

/-- The rows of a table by the numbers of the blocks. -/
theorem rows_eq (bytes : List UInt8) :
    rows bytes =
      ((List.range (blockCount bytes)).map fun i => rowOf (i * 16) (block bytes i)).foldr
        consRow [] := by
  rw [rows, Table.blocks, List.map_map]
  rfl

/-! ## Rows from above -/

/-- Rows that show no words. -/
def Row.IsZeros : Row → Prop
  | words _ _ _ => False
  | zeros _ _ => True

/-- Of two neighbours, one shows words. -/
def Apart (row next : Row) : Prop := ¬(row.IsZeros ∧ next.IsZeros)

/-- **Puts a row below others**, the lowest of which is the first in the list. A row of zeros takes
the place of a row of zeros above it. -/
def pushRow : List Row → Row → List Row
  | .zeros first _ :: above, .zeros _ last => .zeros first last :: above
  | above, row => row :: above

section Scan

variable (bytes : List UInt8)

/-- The entry for an address: the word there, or the last byte as the high one of a word. -/
def scannedEntry (a : Nat) : UInt16 := (wordAt? bytes a).getD (word (byteAt bytes a) 0)

/-- The row of the bytes from an address on, entry by entry. -/
def scannedRow (first : Nat) : Row :=
  let last := min (first + 16) bytes.length - 1
  let entries := (List.range 8).map fun k =>
    if first + 2 * k ≤ last then scannedEntry bytes (first + 2 * k) else 0
  if entries.all (· == 0) then .zeros first last else .words first last entries

/-- The rows of a table, put together from above. -/
def scannedRows : List Row :=
  (((List.range (blockCount bytes)).map fun i => scannedRow bytes (i * 16)).foldl
    pushRow []).reverse

end Scan

theorem scannedEntry_eq (bytes : List UInt8) (a : Nat) :
    scannedEntry bytes a = word (byteAt bytes a) (byteAt bytes (a + 1)) := by
  unfold scannedEntry
  cases h : wordAt? bytes a with
  | none => rw [Option.getD_none, byteAt_of_le (wordAt?_eq_none_iff.mp h)]
  | some w =>
    obtain ⟨high, low, hhigh, hlow, rfl⟩ := wordAt?_eq_some_iff.mp h
    rw [Option.getD_some, byteAt_of_getElem? hhigh, byteAt_of_getElem? hlow]

/-- Entry by entry the row of a block is found. -/
theorem scannedRow_eq (h : i < blockCount bytes) :
    scannedRow bytes (i * 16) = rowOf (i * 16) (block bytes i) := by
  have hlast : min (i * 16 + 16) bytes.length - 1 = lastBefore bytes (i + 1) := by
    rw [lastBefore, Nat.succ_mul]
  have hentries : ((List.range 8).map fun k =>
      if i * 16 + 2 * k ≤ lastBefore bytes (i + 1) then scannedEntry bytes (i * 16 + 2 * k)
      else 0) = blockWords bytes i := by
    refine List.map_congr_left fun k hk => ?_
    have hk : k < 8 := List.mem_range.mp hk
    rw [scannedEntry_eq]
    split
    next => rfl
    next hbehind =>
      unfold lastBefore at hbehind
      have hend : bytes.length ≤ i * 16 + 2 * k := by omega
      rw [byteAt_of_le hend, byteAt_of_le (Nat.le_succ_of_le hend), word_zero]
  unfold scannedRow
  dsimp only
  rw [hlast, hentries]
  by_cases hzero : IsZeroBlock bytes i
  · rw [if_pos (all_blockWords_iff.mpr hzero), (rowOf_block h).1 hzero, zerosRow]
  · rw [if_neg (all_blockWords_iff.not.mpr hzero), (rowOf_block h).2 hzero, wordsRow]

/-- A row that is put below others is never a second row of zeros. -/
theorem isChain_pushRow {above : List Row} (row : Row) (h : above.IsChain Apart) :
    (pushRow above row).IsChain Apart := by
  cases above with
  | nil => exact .singleton row
  | cons top above =>
    cases top with
    | words => exact .cons_cons (fun hzeros => hzeros.2) h
    | zeros first last =>
      cases row with
      | words => exact .cons_cons (fun hzeros => hzeros.1) h
      | zeros first' last' =>
        have hapart (next : Row) (h : Apart (.zeros first last) next) :
            Apart (.zeros first last') next := h
        exact h.imp_head (hapart _)

/-- No two rows of zeros lie one behind the other when rows are put together from above. -/
theorem isChain_foldl_pushRow (rs : List Row) {above : List Row} (h : above.IsChain Apart) :
    (rs.foldl pushRow above).IsChain Apart := by
  induction rs generalizing above with
  | nil => exact h
  | cons row rest ih => exact ih (isChain_pushRow row h)

/-- Rows of zeros can be merged in any order. -/
theorem consRow_zeros_zeros (first last first' last' : Nat) (below : List Row) :
    consRow (.zeros first last) (consRow (.zeros first' last') below) =
      consRow (.zeros first last') below := by
  cases below with
  | nil => rfl
  | cons row below => cases row <;> rfl

/-- Whether a row is put below the rows above it or in front of those below it, the same rows come
out. -/
theorem foldr_consRow_pushRow (above : List Row) (row : Row) (below : List Row) :
    (pushRow above row).reverse.foldr consRow below =
      above.reverse.foldr consRow (consRow row below) := by
  have hkeep (above : List Row) : (row :: above).reverse.foldr consRow below =
      above.reverse.foldr consRow (consRow row below) := by
    rw [List.reverse_cons, List.foldr_append, List.foldr_cons, List.foldr_nil]
  cases above with
  | nil => exact hkeep []
  | cons top above =>
    cases top with
    | words => exact hkeep _
    | zeros first last =>
      cases row with
      | words => exact hkeep _
      | zeros first' last' =>
        simp only [pushRow, List.reverse_cons, List.foldr_append, List.foldr_cons, List.foldr_nil,
          consRow_zeros_zeros]

theorem foldr_consRow_foldl_pushRow (rs above : List Row) :
    (rs.foldl pushRow above).reverse.foldr consRow [] =
      above.reverse.foldr consRow (rs.foldr consRow []) := by
  induction rs generalizing above with
  | nil => rfl
  | cons row rest ih => rw [List.foldl_cons, ih, foldr_consRow_pushRow, List.foldr_cons]

/-- Where nothing is left to merge, nothing is merged. -/
theorem foldr_consRow_of_isChain {rs : List Row} (h : rs.IsChain Apart) :
    rs.foldr consRow [] = rs := by
  induction rs with
  | nil => rfl
  | cons row rest ih =>
    rw [List.isChain_cons] at h
    rw [List.foldr_cons, ih h.2]
    unfold consRow
    split
    next => exact absurd ⟨trivial, trivial⟩ (h.1 _ rfl)
    next => rfl

theorem isChain_reverse_foldl_pushRow (rs : List Row) :
    (rs.foldl pushRow []).reverse.IsChain Apart := by
  rw [List.isChain_reverse]
  exact (isChain_foldl_pushRow rs .nil).imp fun _ _ h => fun hzeros => h hzeros.symm

/-- The rows put together from above are those put together from below. -/
theorem reverse_foldl_pushRow (rs : List Row) :
    (rs.foldl pushRow []).reverse = rs.foldr consRow [] := by
  rw [← foldr_consRow_of_isChain (isChain_reverse_foldl_pushRow rs),
    foldr_consRow_foldl_pushRow]
  rfl

/-- **The rows of a table from above**: reading the bytes entry by entry, and putting the row of
each block below the rows that are already there, gives the rows of the table. -/
theorem scannedRows_eq (bytes : List UInt8) : scannedRows bytes = rows bytes := by
  rw [scannedRows, reverse_foldl_pushRow, rows_eq]
  congr 1
  exact List.map_congr_left fun i hi => scannedRow_eq (List.mem_range.mp hi)

/-- No two rows of zeros of a table lie one behind the other. -/
theorem isChain_rows (bytes : List UInt8) : (rows bytes).IsChain Apart := by
  rw [rows_eq, ← reverse_foldl_pushRow]
  exact isChain_reverse_foldl_pushRow _

end Chip8.MemoryTable

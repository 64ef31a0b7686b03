import Chip8.MemoryTable
import Chip8.Proofs.TableText

/-!
# Reading tables of memory

A row shows the bytes of a range of addresses, and the rows of a table lie one behind the other.
When two rows of zeros become one, the range of the new row is that of both, so no byte is lost. A
table is therefore read back from its lines, whichever rows of it were merged.

## Main definitions

* `Row.first`, `Row.last`, `Row.bytes`: the range of addresses of a row, and the bytes in it
* `Contiguous a b rows`: the rows lie one behind the other from `a` up to `b`

## Main results

* `contiguous_rows`: the rows of a table lie one behind the other and cover all addresses
* `flatMap_bytes_rows`: the bytes of the rows put together are the bytes of the table
* `Row.text_injective`: rows with the same text are equal
* `lines_injective`: bytes with the same table are equal
-/

namespace Chip8

/-! ## Contiguous blocks -/

namespace Table

variable {α : Type}

/-- The blocks lie one behind the other from the position `a` up to the position `b`, and none of
them is empty. -/
def Contiguous : Nat → Nat → List (Nat × List α) → Prop
  | a, b, [] => a = b
  | a, b, block :: rest =>
    block.1 = a ∧ block.2 ≠ [] ∧ Contiguous (a + block.2.length) b rest

/-- A block at the end of contiguous ones keeps them contiguous. -/
theorem contiguous_concat {a b first : Nat} {bs : List (Nat × List α)} {entries : List α}
    (h : Contiguous a b bs) (hfirst : first = b) (hne : entries ≠ []) :
    Contiguous a (b + entries.length) (bs ++ [(first, entries)]) := by
  induction bs generalizing a with
  | nil =>
    have hab : a = b := h
    exact ⟨hfirst.trans hab.symm, hne, by rw [hab]; rfl⟩
  | cons block rest ih =>
    obtain ⟨ha, hblock, hrest⟩ := h
    exact ⟨ha, hblock, ih hrest⟩

/-- The blocks of a list are contiguous and cover all of its positions. -/
theorem contiguous_blocks {size : Nat} (hs : 0 < size) (entries : List α) :
    Contiguous 0 entries.length (blocks size entries) := by
  -- The first `n` blocks end where `n` full ones would, or where the list ends.
  have key (n : Nat) (hn : n ≤ (entries.length + size - 1) / size) :
      Contiguous 0 (min (n * size) entries.length)
        ((List.range n).map fun i => (i * size, (entries.drop (i * size)).take size)) := by
    induction n with
    | zero => simp [Contiguous]
    | succ n ih =>
      have hle : (n + 1) * size ≤ entries.length + size - 1 := (Nat.le_div_iff_mul_le hs).1 hn
      rw [Nat.succ_mul] at hle
      have hblock : ((entries.drop (n * size)).take size).length =
          min size (entries.length - n * size) := by simp
      have hend : min ((n + 1) * size) entries.length =
          min (n * size) entries.length + ((entries.drop (n * size)).take size).length := by
        rw [hblock, Nat.succ_mul]
        omega
      rw [List.range_succ, List.map_append, List.map_singleton, hend]
      refine contiguous_concat (ih (Nat.le_of_succ_le hn)) ?_ ?_
      · exact (Nat.min_eq_left (by omega)).symm
      · exact List.ne_nil_of_length_pos (by rw [hblock]; omega)
  have hall := key _ (Nat.le_refl _)
  rwa [Nat.min_eq_right (le_count_mul hs entries.length)] at hall

end Table

namespace MemoryTable

/-! ## The bytes of a row -/

/-- The two bytes of a word, the high one first. -/
def bytesOf (w : UInt16) : List UInt8 := [UInt8.ofNat (w.toNat / 256), UInt8.ofNat w.toNat]

@[simp] theorem bytesOf_word (high low : UInt8) : bytesOf (word high low) = [high, low] := by
  have := low.toNat_lt
  have hhigh : UInt8.ofNat ((word high low).toNat / 256) = high := by
    rw [toNat_word, show (high.toNat * 256 + low.toNat) / 256 = high.toNat by omega,
      UInt8.ofNat_toNat]
  have hlow : UInt8.ofNat (word high low).toNat = low := by
    rw [toNat_word, ← UInt8.toNat_inj, UInt8.toNat_ofNat']
    omega
  rw [bytesOf, hhigh, hlow]

/-- The words of bytes begin with those bytes. -/
theorem prefix_wordsOf (bytes : List UInt8) : bytes <+: (wordsOf bytes).flatMap bytesOf := by
  induction bytes using wordsOf.induct with
  | case1 => exact List.nil_prefix
  | case2 high => simp [wordsOf]
  | case3 high low rest ih => simpa [wordsOf] using ih

/-- The entries that are shown for bytes begin with those bytes. -/
theorem prefix_entriesOf (bytes : List UInt8) : bytes <+: (entriesOf bytes).flatMap bytesOf := by
  rw [entriesOf, List.flatMap_append]
  exact (prefix_wordsOf bytes).trans (List.prefix_append _ _)

namespace Row

/-- The address of the first byte of a row. -/
def first : Row → Nat
  | words first _ _ => first
  | zeros first _ => first

/-- The address of the last byte of a row. -/
def last : Row → Nat
  | words _ last _ => last
  | zeros _ last => last

/-- The bytes that a row shows. -/
def bytes : Row → List UInt8
  | words first last entries => (entries.flatMap bytesOf).take (last + 1 - first)
  | zeros first last => List.replicate (last + 1 - first) 0

end Row

@[simp] theorem first_rowOf (a : Nat) (bytes : List UInt8) : (rowOf a bytes).first = a := by
  unfold rowOf
  dsimp only
  split <;> rfl

@[simp] theorem last_rowOf (a : Nat) (bytes : List UInt8) :
    (rowOf a bytes).last = a + bytes.length - 1 := by
  unfold rowOf
  dsimp only
  split <;> rfl

/-- Behind the row of a block lies what is behind the block. -/
theorem last_rowOf_add_one (a : Nat) {bytes : List UInt8} (h : bytes ≠ []) :
    (rowOf a bytes).last + 1 = a + bytes.length := by
  have hpos := List.length_pos_iff.2 h
  rw [last_rowOf]
  omega

/-- The row of a block shows the bytes of the block. -/
theorem bytes_rowOf (a : Nat) {bytes : List UInt8} (h : bytes ≠ []) :
    (rowOf a bytes).bytes = bytes := by
  have hpos := List.length_pos_iff.2 h
  have hlength : a + bytes.length - 1 + 1 - a = bytes.length := by omega
  unfold rowOf
  dsimp only
  split
  next hzero =>
    rw [Row.bytes, hlength]
    refine (List.eq_replicate_iff.2 ⟨rfl, fun b hb => ?_⟩).symm
    exact beq_iff_eq.1 (List.all_eq_true.1 hzero b hb)
  next =>
    rw [Row.bytes, hlength]
    exact (List.prefix_iff_eq_take.1 (prefix_entriesOf bytes)).symm

/-! ## The rows of a table -/

/-- The rows lie one behind the other from the address `a` up to the address `b`, and none of them
is empty. -/
def Contiguous : Nat → Nat → List Row → Prop
  | a, b, [] => a = b
  | a, b, row :: rest => row.first = a ∧ a ≤ row.last ∧ Contiguous (row.last + 1) b rest

/-- Putting a row in front of contiguous ones keeps them contiguous, whether it is merged or not. -/
theorem contiguous_consRow {b : Nat} {row : Row} {rest : List Row} (hrow : row.first ≤ row.last)
    (h : Contiguous (row.last + 1) b rest) : Contiguous row.first b (consRow row rest) := by
  unfold consRow
  split
  next first last first' last' rest =>
    obtain ⟨-, hlast, hrest⟩ := h
    exact ⟨rfl, Nat.le_trans hrow (Nat.le_of_succ_le hlast), hrest⟩
  next => exact ⟨rfl, hrow, h⟩

/-- Putting a row in front of contiguous ones puts its bytes in front of theirs. -/
theorem flatMap_bytes_consRow {b : Nat} {row : Row} {rest : List Row} (hrow : row.first ≤ row.last)
    (h : Contiguous (row.last + 1) b rest) :
    (consRow row rest).flatMap Row.bytes = row.bytes ++ rest.flatMap Row.bytes := by
  unfold consRow
  split
  next first last first' last' rest =>
    obtain ⟨hfirst, hlast, -⟩ := h
    simp only [Row.first, Row.last] at hrow hfirst hlast
    have hadd : last' + 1 - first = (last + 1 - first) + (last' + 1 - first') := by omega
    simp only [List.flatMap_cons, Row.bytes, ← List.append_assoc, List.replicate_append_replicate,
      hadd]
  next => rfl

/-- The rows of contiguous blocks are contiguous, and their bytes are those of the blocks. -/
theorem contiguous_foldr_consRow {a b : Nat} {bs : List (Nat × List UInt8)}
    (h : Table.Contiguous a b bs) :
    Contiguous a b ((bs.map fun block => rowOf block.1 block.2).foldr consRow []) ∧
      ((bs.map fun block => rowOf block.1 block.2).foldr consRow []).flatMap Row.bytes =
        (bs.map Prod.snd).flatten := by
  induction bs generalizing a with
  | nil => exact ⟨h, rfl⟩
  | cons block rest ih =>
    obtain ⟨rfl, hne, hrest⟩ := h
    have hpos := List.length_pos_iff.2 hne
    obtain ⟨hcontiguous, hbytes⟩ := ih hrest
    rw [← last_rowOf_add_one _ hne] at hcontiguous
    have hrow : (rowOf block.1 block.2).first ≤ (rowOf block.1 block.2).last := by
      rw [first_rowOf, last_rowOf]
      omega
    rw [List.map_cons, List.foldr_cons]
    constructor
    · have := contiguous_consRow hrow hcontiguous
      rwa [first_rowOf] at this
    · rw [flatMap_bytes_consRow hrow hcontiguous, hbytes, bytes_rowOf _ hne, List.map_cons,
        List.flatten_cons]

/-- The rows of a table lie one behind the other and cover all addresses. -/
theorem contiguous_rows (bytes : List UInt8) : Contiguous 0 bytes.length (rows bytes) :=
  (contiguous_foldr_consRow (Table.contiguous_blocks (by decide) bytes)).1

/-- The bytes of the rows put together are the bytes of the table. -/
theorem flatMap_bytes_rows (bytes : List UInt8) : (rows bytes).flatMap Row.bytes = bytes :=
  (contiguous_foldr_consRow (Table.contiguous_blocks (by decide) bytes)).2.trans
    (Table.flatten_blocks (by decide) bytes)

example : rows (0x12 :: 0x34 :: List.replicate 62 0) =
    [.words 0 15 [0x1234, 0, 0, 0, 0, 0, 0, 0], .zeros 16 63] := by decide

/-- Bytes with the same rows are equal. -/
theorem rows_injective : Function.Injective rows :=
  Function.LeftInverse.injective flatMap_bytes_rows

/-! ## The text of a row -/

/-- No literal is an ellipsis. -/
theorem literal_ne_ellipsis (w n : Nat) : Hex.literal w n ≠ "..." := by
  intro h
  have hchar := congrArg (·.toList.head?) h
  simp [Hex.literal] at hchar

/-- The words that a row shows behind its range. -/
def Row.content : Row → List String
  | words _ _ entries => (entries.map UInt16.toNat).map (Hex.literal 4)
  | zeros _ _ => ["0x0000", "...", "0x0000"]

/-- The words of the text of a row. -/
theorem Row.pieces_text (row : Row) :
    pieces ' ' row.text =
      [Hex.literal 4 row.first, "-", Hex.literal 4 row.last, ":"] ++ row.content := by
  cases row with
  | words first last entries => exact Table.pieces_span_append_cells first last 4 _
  | zeros first last =>
    have htext : (zeros first last).text =
        Table.span first last ++ " " ++ "0x0000 ... 0x0000" := by
      rw [text, String.append_assoc]
      rfl
    rw [htext, Table.pieces_blank_append, Table.pieces_span]
    rfl

/-- A row that shows words is not taken for one of zeros, whatever the words are. -/
theorem Row.content_words_ne_content_zeros {first last first' last' : Nat}
    {entries : List UInt16} :
    (words first last entries).content ≠ (zeros first' last').content := by
  intro h
  have hmem : "..." ∈ (words first last entries).content := by
    rw [h]
    simp [content]
  obtain ⟨n, -, hn⟩ := List.mem_map.1 hmem
  exact literal_ne_ellipsis 4 n hn

/-- Rows with the same text are equal. -/
theorem Row.text_injective : Function.Injective Row.text := by
  intro row row' h
  have hpieces := congrArg (pieces ' ') h
  simp only [pieces_text, List.cons_append, List.nil_append, List.cons.injEq] at hpieces
  obtain ⟨hfirst, -, hlast, -, hcontent⟩ := hpieces
  replace hfirst := Hex.literal_injective 4 hfirst
  replace hlast := Hex.literal_injective 4 hlast
  cases row with
  | words first last entries =>
    cases row' with
    | words first' last' entries' =>
      have hentries : entries = entries' :=
        List.map_injective_iff.2 (fun _ _ => UInt16.toNat_inj.1)
          (List.map_injective_iff.2 (Hex.literal_injective 4) hcontent)
      rw [show first = first' from hfirst, show last = last' from hlast, hentries]
    | zeros first' last' => exact absurd hcontent content_words_ne_content_zeros
  | zeros first last =>
    cases row' with
    | words first' last' entries' =>
      exact absurd hcontent.symm content_words_ne_content_zeros
    | zeros first' last' => rw [show first = first' from hfirst, show last = last' from hlast]

/-- Bytes with the same table are equal. -/
theorem lines_injective (tabs : Nat) : Function.Injective (lines tabs) := by
  intro bytes bytes' h
  refine rows_injective (List.map_injective_iff.2 (fun row row' hline => ?_) h)
  exact Row.text_injective ((String.append_right_inj _).1 hline)

/-! ## Rows are lines -/

/-- A row of a table is a single line behind its indentation. -/
theorem exists_of_mem_lines {tabs : Nat} {bytes : List UInt8} {line : String}
    (h : line ∈ lines tabs bytes) :
    ∃ text : String, line = Table.indent tabs ++ text ∧ '\n' ∉ text.toList := by
  obtain ⟨row, -, rfl⟩ := List.mem_map.1 h
  refine ⟨_, rfl, ?_⟩
  cases row <;> simp [Row.text, Table.newline_notMem_span, Table.newline_notMem_cells]

theorem newline_notMem_of_mem_lines {tabs : Nat} {bytes : List UInt8} {line : String}
    (h : line ∈ lines tabs bytes) : '\n' ∉ line.toList := by
  obtain ⟨text, rfl, htext⟩ := exists_of_mem_lines h
  simp [Table.indent, htext]

theorem lines_ne_nil (tabs : Nat) {bytes : List UInt8} (h : bytes ≠ []) :
    lines tabs bytes ≠ [] := by
  intro hlines
  have hrows : rows bytes = [] := List.map_eq_nil_iff.1 hlines
  refine h ?_
  rw [← flatMap_bytes_rows bytes, hrows, List.flatMap_nil]

/-- The lines of a table can be told from its text. -/
theorem pieces_intercalate_lines (tabs : Nat) {bytes : List UInt8} (h : bytes ≠ []) :
    pieces '\n' ("\n".intercalate (lines tabs bytes)) = lines tabs bytes :=
  (pieces_intercalate '\n' (lines_ne_nil tabs h)).trans
    (flatMap_pieces_of_notMem fun _ hline => newline_notMem_of_mem_lines hline)

/-- Bytes with the same table are equal, also when its lines are joined to a text. -/
theorem eq_of_intercalate_lines_eq {tabs : Nat} {bytes bytes' : List UInt8} (h : bytes ≠ [])
    (h' : bytes' ≠ []) (htext : "\n".intercalate (lines tabs bytes) =
      "\n".intercalate (lines tabs bytes')) : bytes = bytes' := by
  refine lines_injective tabs ?_
  rw [← pieces_intercalate_lines tabs h, htext, pieces_intercalate_lines tabs h']

end MemoryTable

end Chip8

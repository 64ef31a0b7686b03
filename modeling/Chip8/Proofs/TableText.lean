import Chip8.Hex.Value
import Chip8.Pieces
import Chip8.Table
import Mathlib.Data.List.Basic

/-!
# Reading tables of numbers

The words of a row of a table are the literals of its first and its last position and those of its
entries. So a table is read back from its rows: the rows tell which numbers it lists.

## Main results

* `pieces_span`, `pieces_append_cells`: the words of the beginning and of the entries of a row
* `rows_injective`: lists with the same rows are equal
* `length_rows`: the amount of rows depends on the amount of entries only
* `exists_of_mem_rows`: a row is a single indented line
-/

namespace Chip8.Table

/-! ## The words of a row -/

/-- No literal contains a character that is neither a letter nor a digit. -/
theorem notMem_literal {w n : Nat} {c : Char} (hc : c.isAlphanum = false) :
    c ∉ (Hex.literal w n).toList := fun h => by
  rw [Hex.isAlphanum_of_mem_literal h] at hc
  cases hc

/-- A literal is one word. -/
@[simp] theorem pieces_literal (w n : Nat) : pieces ' ' (Hex.literal w n) = [Hex.literal w n] :=
  pieces_of_notMem (notMem_literal rfl)

theorem pieces_blank_append (s t : String) :
    pieces ' ' (s ++ " " ++ t) = pieces ' ' s ++ pieces ' ' t := pieces_append ' ' s t

/-- The words that a row begins with. -/
theorem pieces_span (first last : Nat) :
    pieces ' ' (span first last) = [Hex.literal 4 first, "-", Hex.literal 4 last, ":"] := by
  have hspan : span first last =
      Hex.literal 4 first ++ " " ++ "-" ++ " " ++ Hex.literal 4 last ++ " " ++ ":" := by
    rw [span, show " - " = " " ++ "-" ++ " " from rfl, show " :" = " " ++ ":" from rfl]
    simp only [String.append_assoc]
  rw [hspan, pieces_blank_append, pieces_blank_append, pieces_blank_append, pieces_literal,
    pieces_literal]
  rfl

/-- Each entry of a row adds a word. -/
theorem pieces_append_cells (s : String) (w : Nat) (entries : List Nat) :
    pieces ' ' (s ++ cells w entries) = pieces ' ' s ++ entries.map (Hex.literal w) := by
  induction entries generalizing s with
  | nil => simp [cells]
  | cons n rest ih =>
    have hcells : s ++ cells w (n :: rest) = s ++ " " ++ Hex.literal w n ++ cells w rest := by
      simp only [cells, List.map_cons, String.join_cons, String.append_assoc]
    rw [hcells, ih, pieces_blank_append, pieces_literal, List.map_cons, List.append_assoc,
      List.singleton_append]

/-- The words of a row: the literals of two positions and those of the entries. -/
theorem pieces_span_append_cells (first last w : Nat) (entries : List Nat) :
    pieces ' ' (span first last ++ cells w entries) =
      [Hex.literal 4 first, "-", Hex.literal 4 last, ":"] ++ entries.map (Hex.literal w) := by
  rw [pieces_append_cells, pieces_span]

/-! ## Reading a table back -/

/-- A row tells its first position and its entries. -/
theorem eq_of_row_eq {tabs w first first' last last' : Nat} {entries entries' : List Nat}
    (h : indent tabs ++ span first last ++ cells w entries =
      indent tabs ++ span first' last' ++ cells w entries') :
    first = first' ∧ entries = entries' := by
  rw [String.append_assoc, String.append_assoc, String.append_right_inj] at h
  have hpieces := congrArg (pieces ' ') h
  simp only [pieces_span_append_cells, List.cons_append, List.nil_append,
    List.cons.injEq] at hpieces
  obtain ⟨hfirst, -, -, -, hentries⟩ := hpieces
  exact ⟨Hex.literal_injective 4 hfirst,
    List.map_injective_iff.2 (Hex.literal_injective w) hentries⟩

/-- Lists with the same rows are equal. -/
theorem rows_injective (tabs w : Nat) : Function.Injective (rows tabs w) := by
  intro entries entries' h
  have hblocks : blocks 8 entries = blocks 8 entries' :=
    List.map_injective_iff.2 (fun b b' hrow => Prod.ext_iff.2 (eq_of_row_eq hrow)) h
  rw [← flatten_blocks (by decide : 0 < 8) entries, hblocks, flatten_blocks (by decide)]

/-- The amount of rows depends on the amount of entries only. -/
theorem length_rows (tabs w : Nat) (entries : List Nat) :
    (rows tabs w entries).length = (entries.length + 7) / 8 := by
  simp [rows, blocks]

/-! ## Rows are lines -/

theorem newline_notMem_span (first last : Nat) : '\n' ∉ (span first last).toList := by
  simp [span, notMem_literal]

theorem newline_notMem_cells (w : Nat) (entries : List Nat) :
    '\n' ∉ (cells w entries).toList := by
  simp [cells, notMem_literal]

/-- A row is a single line behind its indentation. -/
theorem exists_of_mem_rows {tabs w : Nat} {entries : List Nat} {row : String}
    (h : row ∈ rows tabs w entries) :
    ∃ text : String, row = indent tabs ++ text ∧ '\n' ∉ text.toList := by
  obtain ⟨b, -, rfl⟩ := List.mem_map.1 h
  refine ⟨_, String.append_assoc, ?_⟩
  simp [newline_notMem_span, newline_notMem_cells]

end Chip8.Table

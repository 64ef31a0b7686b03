import Chip8.Hex

/-!
# Tables of numbers

Numbers are listed in rows of eight. A row begins with the positions of its first and its last
entry.

## Main definitions

* `blocks`: the blocks that a list is made of, with their positions
* `span`, `cells`: the beginning of a row, and its entries
* `rows`: the rows of a table

## Main results

* `flatten_blocks`: the blocks put together are the list
-/

namespace Chip8.Table

/-- The blocks of so many entries that a list is made of, each with the position of its first entry.
The last block may be shorter. -/
def blocks {α : Type} (size : Nat) (entries : List α) : List (Nat × List α) :=
  (List.range ((entries.length + size - 1) / size)).map fun i =>
    (i * size, (entries.drop (i * size)).take size)

/-- The positions of the first and the last entry of a row. -/
def span (first last : Nat) : String :=
  Hex.literal 4 first ++ " - " ++ Hex.literal 4 last ++ " :"

/-- The entries of a row, each with at least so many digits. -/
def cells (width : Nat) (entries : List Nat) : String :=
  String.join (entries.map fun n => " " ++ Hex.literal width n)

/-- The beginning of an indented line. -/
def indent (tabs : Nat) : String := String.ofList (List.replicate tabs '\t')

/-- The rows of a table, indented by so many tabs. -/
def rows (tabs width : Nat) (entries : List Nat) : List String :=
  (blocks 8 entries).map fun b =>
    indent tabs ++ span b.1 (b.1 + b.2.length - 1) ++ cells width b.2

/-- So many blocks as there are reach to the end of the list. -/
theorem le_count_mul {size : Nat} (hs : 0 < size) (n : Nat) :
    n ≤ (n + size - 1) / size * size := by
  have := Nat.div_add_mod (n + size - 1) size
  have := Nat.mod_lt (n + size - 1) hs
  rw [Nat.mul_comm]
  omega

/-- The blocks put together are the list. -/
theorem flatten_blocks {α : Type} {size : Nat} (hs : 0 < size) (entries : List α) :
    ((blocks size entries).map Prod.snd).flatten = entries := by
  have key (n : Nat) : ((List.range n).map fun i => (entries.drop (i * size)).take size).flatten =
      entries.take (n * size) := by
    induction n with
    | zero => simp
    | succ n ih =>
      rw [List.range_succ, List.map_append, List.flatten_append, ih, List.map_singleton,
        List.flatten_singleton, Nat.succ_mul, List.take_add]
  unfold blocks
  rw [List.map_map]
  exact (key _).trans (List.take_of_length_le (le_count_mul hs entries.length))

end Chip8.Table

import Chip8.Table
import Chip8.Word

/-!
# Tables of memory

Memory is listed in rows of sixteen bytes, shown as eight words. A run of rows that hold zeros only
is shown as one row.

## Main definitions

* `MemoryTable.Row`: a row of the table
* `MemoryTable.wordsOf`: the words that bytes are shown as
* `MemoryTable.rowOf`: the row of a block of bytes
* `MemoryTable.rows`: the rows of the table, runs of zeros merged
* `MemoryTable.lines`: the text of the table
-/

namespace Chip8.MemoryTable

/-- A row of a table of memory. -/
inductive Row where
  /-- The words in the bytes from `first` to `last`. -/
  | words (first last : Nat) (entries : List UInt16)
  /-- The bytes from `first` to `last` are zero. -/
  | zeros (first last : Nat)
  deriving DecidableEq, Repr

/-- The words that bytes are made of. An odd byte at the end is the high byte of a word. -/
def wordsOf : List UInt8 → List UInt16
  | [] => []
  | [high] => [word high 0]
  | high :: low :: rest => word high low :: wordsOf rest

/-- The eight entries of a row that shows the bytes, zero for those that are missing. -/
def entriesOf (bytes : List UInt8) : List UInt16 :=
  let entries := wordsOf bytes
  entries ++ List.replicate (8 - entries.length) 0

/-- The row of a block of bytes that begins at the address `first`. -/
def rowOf (first : Nat) (bytes : List UInt8) : Row :=
  let last := first + bytes.length - 1
  if bytes.all (· == 0) then .zeros first last else .words first last (entriesOf bytes)

/-- Puts a row in front of others; two rows of zeros become one. -/
def consRow : Row → List Row → List Row
  | .zeros first _, .zeros _ last :: rest => .zeros first last :: rest
  | row, rest => row :: rest

/-- The rows of a table of the bytes. -/
def rows (bytes : List UInt8) : List Row :=
  ((Table.blocks 16 bytes).map fun b => rowOf b.1 b.2).foldr consRow []

/-- The text of a row. -/
def Row.text : Row → String
  | words first last entries => Table.span first last ++ Table.cells 4 (entries.map UInt16.toNat)
  | zeros first last => Table.span first last ++ " 0x0000 ... 0x0000"

/-- The lines of a table of the bytes, indented by so many tabs. -/
def lines (tabs : Nat) (bytes : List UInt8) : List String :=
  (rows bytes).map fun row => Table.indent tabs ++ row.text

end Chip8.MemoryTable

import Chip8.Machine.Basic
import Chip8.MemoryTable

/-!
# Dumps

The dump of a machine shows its registers, its stack and all of its memory as text.

## Main definitions

* `Machine.dumpLines`, `Machine.dump`: the lines of the dump, and its text
-/

universe u

namespace Chip8.Machine

variable {σ : Type u}

/-- The lines of the dump of a machine. -/
def dumpLines (m : Machine σ) : List String :=
  ["Chipset \x7b",
    "\tname: " ++ m.name,
    "\tcompatibility level: " ++ m.level.name,
    "\topcode: " ++ Hex.literal 4 m.opcode.toNat,
    "\tprogram counter: " ++ Hex.literal 4 m.counter.toNat,
    "\tindex register: " ++ Hex.literal 4 m.index.toNat,
    "\tdelay timer: " ++ Hex.literal 2 m.timers.delay.toNat,
    "\tsound timer: " ++ Hex.literal 2 m.timers.sound.toNat,
    "\tregisters:"]
  ++ Table.rows 2 2 (m.registers.toList.map UInt8.toNat)
  ++ ["\tstack (" ++ toString m.stack.depth ++ "):"]
  ++ Table.rows 2 4 (m.stack.oldestFirst.map UInt16.toNat)
  ++ ["\tmemory:"]
  ++ MemoryTable.lines 2 m.memory.toList
  ++ ["\x7d"]

/-- The dump of a machine. -/
def dump (m : Machine σ) : String := "\n".intercalate m.dumpLines

end Chip8.Machine

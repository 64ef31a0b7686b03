import Chip8.Word

/-!
# Steps of the program counter

The counter has already been moved behind an instruction when the instruction is executed. What the
instruction then does to it is one of four steps.

## Main definitions

* `CounterStep`, `CounterStep.apply`: the steps, and their effect on the counter
* `CounterStep.skipWhen`: the step of a conditional skip
-/

namespace Chip8

/-- How an instruction moves the program counter, which already points behind it. -/
inductive CounterStep where
  /-- On to the next instruction. -/
  | next
  /-- On to the instruction after the next one. -/
  | skip
  /-- Back to the same instruction. -/
  | again
  /-- On to the instruction at an address. -/
  | jump (target : Address)
  deriving DecidableEq, Repr

namespace CounterStep

/-- The step of a skip that depends on a condition. -/
def skipWhen (condition : Bool) : CounterStep := if condition then skip else next

/-- Where the counter is after the step. An instruction takes two bytes, and the counter wraps
around. -/
def apply : CounterStep → Address → Address
  | next, counter => counter
  | skip, counter => counter + 2
  | again, counter => counter - 2
  | jump target, _ => target

@[simp] theorem apply_next (c : Address) : next.apply c = c := rfl

@[simp] theorem apply_skip (c : Address) : skip.apply c = c + 2 := rfl

@[simp] theorem apply_again (c : Address) : again.apply c = c - 2 := rfl

@[simp] theorem apply_jump (t c : Address) : (jump t).apply c = t := rfl

/-- An instruction that is to be executed again is found where it was. -/
theorem apply_again_add_two (c : Address) : again.apply (c + 2) = c := by
  rw [apply_again, UInt16.add_sub_cancel]

end CounterStep

end Chip8

import Chip8.Hex
import Chip8.Opcode

/-!
# Faults

An access that the machine refuses has a cause. A fault is a cause together with the place in the
program where it arose.

## Main definitions

* `Cause`: why an access or an instruction is refused
* `Cause.detail`, `Cause.text`: the cause in words, bare and with the part of the machine concerned
* `Fault`, `Fault.text`: a refused instruction and its description
-/

namespace Chip8

/-- Why the machine refuses an access or an instruction. -/
inductive Cause where
  /-- The word is no instruction. -/
  | unknownOpcode (opcode : Opcode)
  /-- The address lies outside of a memory of so many bytes. -/
  | outOfBounds (address length : Nat)
  /-- A call finds no room on the stack. -/
  | stackFull
  /-- A return finds no return address on the stack. -/
  | stackEmpty
  deriving DecidableEq, Repr

namespace Cause

/-- What went wrong. -/
def detail : Cause → String
  | unknownOpcode op => "An unsupported opcode was used " ++ Hex.literal 4 op.toNat ++ "."
  | outOfBounds a n =>
    "Address " ++ Hex.literal 4 a ++ " is out of bounds, the memory is " ++ toString n
      ++ " bytes long."
  | stackFull => "Stack is full!"
  | stackEmpty => "Stack is empty!"

/-- What went wrong, introduced by the part of the machine it went wrong in. -/
def text (cause : Cause) : String :=
  let part := match cause with
    | unknownOpcode _ => "Invalid opcode state"
    | outOfBounds _ _ => "Invalid memory access"
    | stackFull | stackEmpty => "Invalid stack state"
  part ++ " '" ++ cause.detail ++ "'."

end Cause

/-- **A fault**: the instruction at `counter` was refused because of `cause`. -/
structure Fault where
  /-- The address of the refused instruction. -/
  counter : Address
  /-- The refused instruction, if it could be fetched at all. -/
  opcode : Option Opcode
  cause : Cause
  deriving DecidableEq, Repr

/-- The place and the cause of the fault. -/
def Fault.text (fault : Fault) : String :=
  "Fault at " ++ Hex.literal 4 fault.counter.toNat ++ ": " ++ fault.cause.text

end Chip8

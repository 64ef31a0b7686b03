import Chip8.Fault
import Chip8.Instruction.Text
import Chip8.Level

/-!
# Notices

What the machine and its parts have to tell their operator. A notice is a fact; its severity and its
wording follow from it.

## Main definitions

* `Severity`, `Severity.isAtLeast`: how grave a notice is
* `Notice`, `Notice.severity`, `Notice.text`: the notices, their severities and their wording
-/

namespace Chip8

/-- How grave a notice is, from the gravest on. -/
inductive Severity where
  | error
  | warn
  | info
  | debug
  | trace
  deriving DecidableEq, Repr

namespace Severity

/-- The place of a severity in the order, the gravest first. -/
def rank : Severity → Nat
  | error => 0
  | warn => 1
  | info => 2
  | debug => 3
  | trace => 4

/-- Whether a severity is as grave as the bound, or graver. -/
def isAtLeast (s bound : Severity) : Bool := s.rank ≤ bound.rank

end Severity

/-- A fact that is told to the operator. -/
inductive Notice where
  /-- A program of so many bytes is now in memory. -/
  | loadedProgram (length : Nat)
  /-- A program of so many bytes does not fit. -/
  | rejectedProgram (length : Nat)
  /-- A rom of so many bytes does not fit. -/
  | rejectedRom (name : String) (length : Nat)
  /-- A font has the wrong amount of bytes. -/
  | rejectedFont (length : Nat)
  /-- A font is not accepted by memory. -/
  | fontNotLoaded (cause : Cause)
  /-- The machine with the program of that name starts anew. -/
  | reset (name : String)
  /-- The level changes. -/
  | levelChanged (old new : Level)
  /-- A subroutine returns to an address. -/
  | returned (address : Address)
  /-- The subroutine at an address is called, and so many are running now. -/
  | called (address : Address) (depth : Nat)
  /-- A waiting program receives a key. -/
  | keyReceived (key : Nat)
  /-- The instruction at an address is about to be executed. -/
  | executing (counter : Address) (opcode : Opcode) (instruction : Instruction)
  /-- The state of the machine before an instruction, in one line of text. -/
  | traced (line : String)
  /-- The machine stops because of a fault. -/
  | halted (fault : Fault)
  /-- There is no key of that number. -/
  | unknownKey (key : Nat)
  /-- There is no key at that position of the keypad. -/
  | unknownPosition (row column : Nat)
  deriving DecidableEq, Repr

namespace Notice

/-- How grave the notice is. -/
def severity : Notice → Severity
  | halted _ | fontNotLoaded _ => .error
  | rejectedProgram _ | rejectedRom _ _ | rejectedFont _ | unknownKey _ | unknownPosition _ _ =>
    .warn
  | loadedProgram _ | reset _ | levelChanged _ _ | returned _ | called _ _ | keyReceived _
  | executing _ _ _ => .debug
  | traced _ => .trace

/-- The wording of the notice. -/
def text : Notice → String
  | loadedProgram n => "loaded program with " ++ toString n ++ " bytes"
  | rejectedProgram n => "rejected program with " ++ toString n ++ " bytes"
  | rejectedRom name n => "rejected rom '" ++ name ++ "' with " ++ toString n ++ " bytes"
  | rejectedFont n => "rejected font with " ++ toString n ++ " bytes"
  | fontNotLoaded cause => "unable to load the font: " ++ cause.detail
  | reset name => "reset of '" ++ name ++ "'"
  | levelChanged old new => "compatibility level " ++ old.name ++ " -> " ++ new.name
  | returned a => "return to " ++ Hex.literal 4 a.toNat
  | called a depth => "call " ++ Hex.literal 4 a.toNat ++ ", depth " ++ toString depth
  | keyReceived key => "key " ++ Hex.literal 1 key ++ " pressed"
  | executing counter op i =>
    Hex.literal 4 counter.toNat ++ ": " ++ Hex.literal 4 op.toNat ++ " " ++ i.text
  | traced line => line
  | halted fault => "halting after: " ++ fault.text
  | unknownKey key => "ignored unknown key " ++ Hex.literal 1 key
  | unknownPosition row column =>
    "ignored unknown layout key (" ++ toString row ++ ", " ++ toString column ++ ")"

/-- The notices that are as grave as the bound, or graver. -/
def recorded (bound : Severity) (notices : List Notice) : List Notice :=
  notices.filter fun n => n.severity.isAtLeast bound

@[simp] theorem recorded_append (bound : Severity) (ns ns' : List Notice) :
    recorded bound (ns ++ ns') = recorded bound ns ++ recorded bound ns' :=
  List.filter_append ..

end Notice

end Chip8

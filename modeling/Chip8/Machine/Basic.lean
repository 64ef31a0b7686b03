import Chip8.CallStack
import Chip8.CounterStep
import Chip8.Image
import Chip8.Keypad
import Chip8.Memory
import Chip8.RandomSource
import Chip8.Registers
import Chip8.Surface
import Chip8.Timers

/-!
# The machine

The state of a machine at an instant. The machine owns the surface that it draws on, the keypad that
it reads and the source of its random bytes.

## Main definitions

* `Machine`, `Machine.blank`: the state of a machine, and a machine without a program or a font
* `Machine.behaviour`: what the machine does where interpreters disagree
* `Machine.setRegister`, `setIndex`, `advance`: changes of a register and of the two pointers
* `Machine.traceLine`: the state of a machine in one line of text
-/

universe u

namespace Chip8

/-- **The state of a machine** that draws on a surface of type `σ`. -/
structure Machine (σ : Type u) where
  /-- The name of the rom that was loaded last. -/
  name : String := ""
  /-- The interpreter that the machine behaves like. -/
  level : Level := .chip48
  /-- Whether each instruction is preceded by a notice with the state of the machine. -/
  debug : Bool := false
  /-- The opcode that was fetched last. -/
  opcode : Opcode := 0
  memory : Memory
  registers : Registers := .zero
  /-- The index register `I`, which points to the data of an instruction. -/
  index : Address := 0
  /-- The program counter, which points to the next instruction. -/
  counter : Address := 0x200
  stack : CallStack := .empty
  timers : Timers := {}
  surface : σ
  keypad : Keypad
  random : RandomSource

namespace Machine

variable {σ : Type u}

/-- A machine with nothing in its memory. -/
def blank (surface : σ) (keypad : Keypad) (random : RandomSource) : Machine σ where
  memory := .blank
  surface := surface
  keypad := keypad
  random := random

/-- What the machine does where interpreters disagree. -/
def behaviour (m : Machine σ) : Behaviour := m.level.behaviour

/-- The machine with `VX` set. -/
def setRegister (m : Machine σ) (x : Register) (b : UInt8) : Machine σ :=
  { m with registers := m.registers.set x b }

/-- Sets the index register. -/
def setIndex (m : Machine σ) (a : Address) : Machine σ := { m with index := a }

/-- Moves the program counter. -/
def advance (m : Machine σ) (step : CounterStep) : Machine σ :=
  { m with counter := step.apply m.counter }

/-- The state of the machine in words: the counter, the opcode, the index register, the depth of the
stack and the timers, and in a second line the registers. -/
def traceLine (m : Machine σ) : String :=
  Hex.digits 4 m.counter.toNat ++ ": " ++ Hex.digits 4 m.opcode.toNat
    ++ " I: " ++ Hex.digits 4 m.index.toNat
    ++ " SP: " ++ Hex.digits 2 m.stack.depth
    ++ " delay: " ++ Hex.digits 2 m.timers.delay.toNat
    ++ " sound: " ++ Hex.digits 2 m.timers.sound.toNat ++ "\n"
    ++ " ".intercalate ((List.finRange 16).map fun i =>
      "V" ++ Hex.digits 1 i.val ++ ":" ++ Hex.digits 2 (m.registers.get i).toNat)

end Machine

end Chip8

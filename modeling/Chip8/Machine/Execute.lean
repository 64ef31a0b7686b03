import Chip8.Machine.Action

/-!
# The execution of instructions

What each instruction does to a machine whose program counter has already been moved behind it. An
instruction is an action: it reads and writes one thing after the other, and may be refused on the
way. In the end it says how the counter is to be moved.

## Main definitions

* `Signal`: what a host may want to react to
* `Arithmetic.compute`: the results of the operations on two registers
* `Instruction.action`: what an instruction does
* `Machine.execute`: an instruction, the step of the counter included
-/

universe u

namespace Chip8

/-- What a host may want to react to after an instruction. -/
inductive Signal where
  | none
  /-- The machine waits for a key. -/
  | wait
  /-- The surface was drawn on. -/
  | draw
  deriving DecidableEq, Repr

/-- The flag of the bitwise operations, if they set one. -/
def Behaviour.logicFlag (b : Behaviour) : Option UInt8 := if b.logicClearsFlag then some 0 else none

/-- The byte that a shift moves, given those of `VX` and `VY`. -/
def Behaviour.shifted (b : Behaviour) (vx vy : UInt8) : UInt8 := if b.shiftsVY then vy else vx

/-- The result of an operation on the bytes of `VX` and `VY`, and the flag, if the operation sets
one. -/
def Arithmetic.compute (b : Behaviour) (vx vy : UInt8) : Arithmetic → UInt8 × Option UInt8
  | assign => (vy, none)
  | or => (vx ||| vy, b.logicFlag)
  | and => (vx &&& vy, b.logicFlag)
  | xor => (vx ^^^ vy, b.logicFlag)
  | add => (vx + vy, some (decide (256 ≤ vx.toNat + vy.toNat)).toUInt8)
  | sub => (vx - vy, some (decide (vy ≤ vx)).toUInt8)
  | subFrom => (vy - vx, some (decide (vx ≤ vy)).toUInt8)
  | shiftRight => (b.shifted vx vy >>> 1, some (b.shifted vx vy &&& 1))
  | shiftLeft => (b.shifted vx vy <<< 1, some (b.shifted vx vy >>> 7))

namespace Machine

variable {σ : Type u}

/-- The key that `VX` stands for, its last digit. -/
def keyOf (m : Machine σ) (x : Register) : Nat := (m.registers.get x).toNat % 16

/-- The register that a jump to `NNN` with an offset adds. -/
def offsetRegister (m : Machine σ) (nnn : Fin 4096) : Register :=
  if m.behaviour.offsetIsVX then ⟨nnn / 256, by omega⟩ else .first

/-- The three decimal digits of a byte. -/
def decimal (b : UInt8) : List UInt8 := [b / 100, b / 10 % 10, b % 10]

/-- Where the index register points after the registers `V0` to `VX` were stored or loaded. -/
def indexBehind (m : Machine σ) (x : Register) : Address :=
  if m.behaviour.blocksAdvanceIndex then m.index + UInt16.ofNat (x.val + 1) else m.index

end Machine

namespace Action

variable {σ : Type u}

/-- Moves the index register behind the block of `V0` to `VX`, if the level asks for it. -/
def moveIndexBehind (x : Register) : Action σ Unit := change fun m => m.setIndex (m.indexBehind x)

/-- Returns from a subroutine. -/
def ret : Action σ CounterStep := do
  let a ← takeFrame
  tell (.returned a)
  return .jump a

/-- Calls the subroutine at `NNN`. -/
def call (nnn : Fin 4096) : Action σ CounterStep := do
  let behind ← read Machine.counter
  let depth ← putFrame behind
  tell (.called (UInt16.ofNat nnn) depth)
  return .jump (UInt16.ofNat nnn)

/-- Skips the next instruction if the machine fulfils a condition. -/
def skipWhen (condition : Machine σ → Bool) : Action σ CounterStep := do
  let met ← read condition
  return .skipWhen met

/-- Computes with `VX` and `VY`. The flag is written last, so it is what `VF` holds if `VF` is the
target. -/
def arithmetic (op : Arithmetic) (x y : Register) : Action σ CounterStep := do
  let behaviour ← read Machine.behaviour
  let vx ← read fun m => m.registers.get x
  let vy ← read fun m => m.registers.get y
  let result := op.compute behaviour vx vy
  setRegister x result.1
  match result.2 with
  | some flag => setRegister .flag flag
  | none => pure ()
  return .next

/-- Jumps to `NNN` plus a register. -/
def jumpOffset (nnn : Fin 4096) : Action σ CounterStep := do
  let offset ← read fun m => m.registers.get (m.offsetRegister nnn)
  return .jump (UInt16.ofNat (nnn + offset.toNat))

/-- Sets `VX` to a random byte, of which the bits of `NN` are kept. -/
def random (x : Register) (nn : UInt8) : Action σ CounterStep := do
  let b ← takeRandom
  setRegister x (nn &&& b)
  return .next

/-- Waits for a key: the instruction is executed again until a key is down. -/
def awaitKey (x : Register) : Action σ (CounterStep × Signal) := do
  let pressed ← read fun m => m.keypad.firstDown
  match pressed with
  | some key =>
    tell (.keyReceived key)
    setRegister x (UInt8.ofNat key)
    return (.next, .none)
  | none => return (.again, .wait)

/-- Adds `VX` to the index register. It keeps twelve bits; the flag says whether more were
needed. -/
def addIndex (x : Register) : Action σ Unit := do
  let sum ← read fun m => m.index.toNat + (m.registers.get x).toNat
  setIndex (UInt16.ofNat (sum % 4096))
  setRegister .flag (decide (4096 ≤ sum)).toUInt8

/-- Sets the index register to the glyph of the digit `VX`. -/
def glyph (x : Register) : Action σ Unit := do
  let digit ← read fun m => m.keyOf x
  setIndex (UInt16.ofNat (fontStart + glyphSize * digit))

/-- Stores the three decimal digits of `VX` at the index register. -/
def storeDecimal (x : Register) : Action σ Unit := do
  let b ← read fun m => m.registers.get x
  store (Machine.decimal b)

/-- Stores `V0` to `VX` at the index register. -/
def storeBlock (x : Register) : Action σ Unit := do
  let bytes ← read fun m => m.registers.block x
  store bytes
  moveIndexBehind x

/-- Sets `V0` to `VX` from the bytes at the index register. -/
def loadBlock (x : Register) : Action σ Unit := do
  let bytes ← sliceAtIndex (x.val + 1)
  change fun m => { m with registers := m.registers.restore bytes }
  moveIndexBehind x

/-- Draws the `N` bytes at the index register at the position `VX`, `VY`. -/
def draw [Surface σ] (x y : Register) (n : Fin 16) : Action σ Unit := do
  let vx ← read fun m => m.registers.get x
  let vy ← read fun m => m.registers.get y
  let rows ← sliceAtIndex n
  let collided ← drawRows vx.toNat vy.toNat rows
  setRegister .flag collided.toUInt8

/-- An action that moves the counter, with nothing to react to. -/
def quietly (step : Action σ CounterStep) : Action σ (CounterStep × Signal) := do
  return (← step, .none)

/-- An action after which the counter goes on to the next instruction. -/
def thenNext (action : Action σ Unit) (signal : Signal := .none) :
    Action σ (CounterStep × Signal) := do
  action
  return (.next, signal)

end Action

section Surface

variable {σ : Type u} [Surface σ]

open Chip8.Action in
/-- What an instruction does, up to the step of the counter. -/
def Instruction.action : Instruction → Action σ (CounterStep × Signal)
  | clear => thenNext clearSurface .draw
  | ret => quietly Action.ret
  | jump nnn => quietly (Pure.pure (.jump (UInt16.ofNat nnn)))
  | call nnn => quietly (Action.call nnn)
  | skipIf x nn => quietly (skipWhen fun m => m.registers.get x == nn)
  | skipUnless x nn => quietly (skipWhen fun m => m.registers.get x != nn)
  | skipIfSame x y => quietly (skipWhen fun m => m.registers.get x == m.registers.get y)
  | set x nn => thenNext (setRegister x nn)
  | add x nn => thenNext (change fun m => m.setRegister x (m.registers.get x + nn))
  | arithmetic op x y => quietly (Action.arithmetic op x y)
  | skipUnlessSame x y => quietly (skipWhen fun m => m.registers.get x != m.registers.get y)
  | setIndex nnn => thenNext (Action.setIndex (UInt16.ofNat nnn))
  | jumpOffset nnn => quietly (Action.jumpOffset nnn)
  | random x nn => quietly (Action.random x nn)
  | draw x y n => thenNext (Action.draw x y n) .draw
  | skipIfDown x => quietly (skipWhen fun m => m.keypad.isDown (m.keyOf x))
  | skipUnlessDown x => quietly (skipWhen fun m => !m.keypad.isDown (m.keyOf x))
  | readDelay x => thenNext (change fun m => m.setRegister x m.timers.delay)
  | awaitKey x => Action.awaitKey x
  | setDelay x =>
    thenNext (change fun m => { m with timers := { m.timers with delay := m.registers.get x } })
  | setSound x =>
    thenNext (change fun m => { m with timers := { m.timers with sound := m.registers.get x } })
  | addIndex x => thenNext (Action.addIndex x)
  | glyph x => thenNext (Action.glyph x)
  | storeDecimal x => thenNext (Action.storeDecimal x)
  | storeBlock x => thenNext (Action.storeBlock x)
  | loadBlock x => thenNext (Action.loadBlock x)

/-- Executes an instruction: what it does, and then the step of the counter. A refused instruction
does not get to that step. -/
def Machine.execute (m : Machine σ) (i : Instruction) : Reply (Machine σ) (Except Cause Signal) :=
  let executed : Action σ Signal := do
    let done ← i.action
    Action.change fun m => m.advance done.1
    return done.2
  executed m

end Surface

end Chip8

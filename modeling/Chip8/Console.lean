import Chip8.Clock
import Chip8.Machine.Host

/-!
# Consoles

A console drives a machine with two clocks: one executes instructions, the other counts the timers
down. The first fault of the instruction clock halts the machine: instructions are not executed any
more, while the timers go on. The host may use the machine between the firings.

## Main definitions

* `InstructionClock`: a clock with a latch that keeps it from executing instructions
* `Console`, `Console.start`: a machine with its clocks, and the starting of them
* `Console.fireInstruction`, `Console.fireTimer`: the firing of a clock
* `Console.stop`: the stopping of both clocks
* `Console.Event`, `Console.handle`: all that can happen to a console, as data
* `Console.fireDue`: the firing of the clock that is due next
-/

universe u v

namespace Chip8

/-- The rates of the clocks, in firings per second. -/
structure Rates where
  instructions : Nat := 700
  timers : Nat := 60
  deriving DecidableEq, Repr

/-- The clock that executes instructions. It fires like any other clock, but once its latch is set
its firings execute nothing. -/
structure InstructionClock extends Clock where
  halted : Bool := false
  deriving DecidableEq, Repr

namespace InstructionClock

/-- A clock that is not running and not halted. -/
def stopped : InstructionClock where toClock := Clock.stopped

/-- Starts the clock, anew if it is running. -/
def start (c : InstructionClock) (nanoseconds : Nat) : InstructionClock :=
  { c with toClock := c.toClock.start nanoseconds }

/-- Stops the clock. Its latch stays as it is. -/
def stop (c : InstructionClock) : InstructionClock := { c with toClock := c.toClock.stop }

/-- Sets the latch. -/
def halt (c : InstructionClock) : InstructionClock := { c with halted := true }

end InstructionClock

/-- **A machine driven by two clocks.** -/
structure Console (σ : Type u) where
  machine : Machine σ
  /-- The fault that halted the machine, if there was one. -/
  halt : Option Fault := none
  instructionClock : InstructionClock
  timerClock : Clock

namespace Console

variable {σ : Type u}

/-- The console of a machine, with both clocks started. -/
def start (m : Machine σ) (rates : Rates) : Console σ where
  machine := m
  instructionClock := InstructionClock.stopped.start (Clock.period rates.instructions)
  timerClock := Clock.stopped.start (Clock.period rates.timers)

/-- Whether the instruction clock was halted. -/
def isHalted (c : Console σ) : Bool := c.instructionClock.halted

/-- A console runs as long as one of its clocks does. -/
def isRunning (c : Console σ) : Bool := c.instructionClock.isRunning || c.timerClock.isRunning

/-- Stops both clocks. -/
def stop (c : Console σ) : Console σ :=
  { c with instructionClock := c.instructionClock.stop, timerClock := c.timerClock.stop }

/-- Lets the host use the machine. -/
def useMachine {α : Type v} (c : Console σ) (f : Machine σ → Reply (Machine σ) α) :
    Reply (Console σ) α :=
  let used := f c.machine
  ⟨{ c with machine := used.state }, used.result, used.notices⟩

/-- The timer clock fires, if it is running: the timers count down. The result is whether the clock
was running. -/
def fireTimer (c : Console σ) : Reply (Console σ) Bool :=
  if c.timerClock.isRunning then ⟨{ c with machine := c.machine.tick }, true, []⟩
  else ⟨c, false, []⟩

variable [Surface σ]

/-- The instruction clock fires, if it is running: an instruction is executed, unless the clock is
halted. A fault is kept and halts the clock. The result is whether the clock was running. -/
def fireInstruction (c : Console σ) : Reply (Console σ) Bool :=
  if c.instructionClock.isRunning then
    if c.isHalted then ⟨c, true, []⟩
    else
      let stepped := c.machine.step
      match stepped.result with
      | .ok _ => ⟨{ c with machine := stepped.state }, true, stepped.notices⟩
      | .error fault =>
        ⟨{ c with
            machine := stepped.state
            halt := some fault
            instructionClock := c.instructionClock.halt }, true,
          stepped.notices ++ [.halted fault]⟩
  else ⟨c, false, []⟩

/-- Something that happens to a console. -/
inductive Event (σ : Type u) where
  | instruction
  | timer
  | host (action : Machine σ → Reply (Machine σ) Unit)
  | stop

/-- What happens to a console at an event. -/
def handle (c : Console σ) : Event σ → Reply (Console σ) Unit
  | .instruction => c.fireInstruction.map fun _ => ()
  | .timer => c.fireTimer.map fun _ => ()
  | .host action => c.useMachine action
  | .stop => ⟨c.stop, (), []⟩

/-- What happens to a console at several events, one after the other. -/
def handleAll (c : Console σ) : List (Event σ) → Reply (Console σ) Unit
  | [] => ⟨c, (), []⟩
  | e :: es =>
    let first := c.handle e
    let rest := first.state.handleAll es
    ⟨rest.state, (), first.notices ++ rest.notices⟩

/-- When the clocks fire next, in nanoseconds since they were started. -/
structure Due where
  instruction : Nat := 0
  timer : Nat := 0
  deriving DecidableEq, Repr

/-- When the clocks of a console fire for the first time. -/
def firstDue (c : Console σ) : Due :=
  ⟨c.instructionClock.running.getD 0, c.timerClock.running.getD 0⟩

/-- The clock that is due next fires, and is then due again after its period, or after a nanosecond
if that is zero. -/
def fireDue (c : Console σ) (due : Due) : Reply (Console σ × Due) Bool :=
  if due.instruction ≤ due.timer then
    let fired := c.fireInstruction
    let wait := max 1 (c.instructionClock.running.getD 0)
    ⟨(fired.state, { due with instruction := due.instruction + wait }), fired.result,
      fired.notices⟩
  else
    let fired := c.fireTimer
    let wait := max 1 (c.timerClock.running.getD 0)
    ⟨(fired.state, { due with timer := due.timer + wait }), fired.result, fired.notices⟩

end Console

end Chip8

/-!
# Clocks

A clock fires again and again, with a fixed amount of time in between, from when it is started until
it is stopped.

## Main definitions

* `Clock.period`: the time between the firings of a clock of a given rate
* `Clock`, `Clock.start`, `Clock.stop`, `Clock.isRunning`: a clock, and its control
-/

namespace Chip8

/-- A clock, with the nanoseconds between its firings while it is running. -/
structure Clock where
  running : Option Nat
  deriving DecidableEq, Repr

namespace Clock

/-- A clock that is not running. -/
def stopped : Clock := ⟨none⟩

/-- The nanoseconds between two firings at a rate per second. A rate of zero counts as one. -/
def period (hertz : Nat) : Nat := 1000000000 / max hertz 1

/-- Starts the clock, anew if it is running. -/
def start (_ : Clock) (nanoseconds : Nat) : Clock := ⟨some nanoseconds⟩

/-- Stops the clock. -/
def stop (_ : Clock) : Clock := stopped

/-- Whether the clock fires. -/
def isRunning (c : Clock) : Bool := c.running.isSome

end Clock

end Chip8

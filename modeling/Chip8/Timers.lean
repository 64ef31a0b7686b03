/-!
# Timers

The delay timer and the sound timer count down, one unit for each tick, until they are zero.

## Main definitions

* `Timers`, `Timers.tick`: the two timers, and one unit of time
* `Timers.isSounding`: whether the machine makes a sound

## Main results

* `toNat_countDown`: counting down stops at zero
-/

namespace Chip8

/-- The value of a timer one unit of time later. -/
def countDown (t : UInt8) : UInt8 := if t = 0 then 0 else t - 1

/-- Counting down stops at zero. -/
@[simp] theorem toNat_countDown (t : UInt8) : (countDown t).toNat = t.toNat - 1 := by
  unfold countDown
  split
  next h => simp [h]
  next h =>
    have : t.toNat ≠ 0 := fun h0 => h (UInt8.toNat_inj.1 h0)
    have := t.toNat_lt
    rw [UInt8.toNat_sub_of_le]
    · rfl
    · rw [UInt8.le_iff_toNat_le]
      simp only [UInt8.toNat_one]
      omega

/-- The delay timer and the sound timer. -/
structure Timers where
  /-- Read and set by the program, to time what it does. -/
  delay : UInt8 := 0
  /-- Set by the program, to make a sound of that length. -/
  sound : UInt8 := 0
  deriving DecidableEq, Repr

namespace Timers

/-- One unit of time passes. -/
def tick (t : Timers) : Timers := ⟨countDown t.delay, countDown t.sound⟩

/-- The machine sounds as long as the sound timer runs. -/
def isSounding (t : Timers) : Bool := t.sound != 0

@[simp] theorem delay_tick (t : Timers) : t.tick.delay = countDown t.delay := rfl

@[simp] theorem sound_tick (t : Timers) : t.tick.sound = countDown t.sound := rfl

end Timers

end Chip8

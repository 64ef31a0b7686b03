import Chip8.Notice

/-!
# The keypad

Sixteen keys, numbered from `0` to `F`, that are up or down. Keys that do not exist are ignored,
with a notice.

## Main definitions

* `Keypad`, `Keypad.isDown`, `Keypad.firstDown`: the keys, and what the machine asks about them
* `Keypad.set`, `toggle`, `setAt`, `setAll`, `releaseAll`: what a host does to them
* `Keypad.layout`: the places of the keys

## Main results

* `isDown_set`: the keys after one was set
* `isDown_setAll`: the keys after all were set
-/

namespace Chip8

/-- The sixteen keys, true for one that is down. -/
structure Keypad where
  keys : Vector Bool 16
  deriving DecidableEq

namespace Keypad

/-- A keypad of which all keys are up. -/
def released : Keypad := ⟨Vector.replicate 16 false⟩

/-- The places of the keys, row by row. -/
def layout : List (List Nat) :=
  [[0x1, 0x2, 0x3, 0xC], [0x4, 0x5, 0x6, 0xD], [0x7, 0x8, 0x9, 0xE], [0xA, 0x0, 0xB, 0xF]]

/-- The key in a row and a column of the layout, if there is one. -/
def keyAt? (row column : Nat) : Option Nat :=
  match layout[row]? with
  | some keys => keys[column]?
  | none => none

/-- Whether a key is down; one that does not exist never is. -/
def isDown (k : Keypad) (key : Nat) : Bool := k.keys[key]?.getD false

/-- The lowest key that is down, if there is one. -/
def firstDown (k : Keypad) : Option (Fin 16) := (List.finRange 16).find? fun key => k.isDown key

/-- Puts a key down or up. -/
def set (k : Keypad) (key : Nat) (down : Bool) : Keypad × List Notice :=
  if h : key < 16 then (⟨k.keys.set key down⟩, []) else (k, [.unknownKey key])

/-- Puts a key down that is up, and up if it is down. -/
def toggle (k : Keypad) (key : Nat) : Keypad × List Notice := k.set key (!k.isDown key)

/-- Puts the key at a place of the layout down or up. -/
def setAt (k : Keypad) (row column : Nat) (down : Bool) : Keypad × List Notice :=
  match keyAt? row column with
  | some key => k.set key down
  | none => (k, [.unknownPosition row column])

/-- Puts all keys down or up, as a list says; it may be too short, then the other keys are up. -/
def setAll (downs : List Bool) : Keypad := ⟨Vector.ofFn fun key => downs[key.val]?.getD false⟩

@[simp] theorem isDown_released (key : Nat) : released.isDown key = false := by
  unfold released isDown
  by_cases h : key < 16 <;> simp [h]

theorem isDown_of_le {k : Keypad} {key : Nat} (h : 16 ≤ key) : k.isDown key = false := by
  have : ¬ key < 16 := Nat.not_lt.2 h
  simp [isDown, this]

/-- Setting a key that exists changes that key only. -/
theorem isDown_set (k : Keypad) {key : Nat} (h : key < 16) (down : Bool) (key' : Nat) :
    (k.set key down).1.isDown key' = if key' = key then down else k.isDown key' := by
  unfold set isDown
  rw [dif_pos h]
  by_cases he : key' = key
  · simp [he, h]
  · simp [he, Ne.symm he]

/-- Setting all keys puts those down that the list says, and no others. -/
theorem isDown_setAll (downs : List Bool) (key : Nat) :
    (setAll downs).isDown key = (decide (key < 16) && downs[key]?.getD false) := by
  unfold setAll isDown
  by_cases h : key < 16 <;> simp [h]

@[ext] theorem ext {k l : Keypad} (h : ∀ key < 16, k.isDown key = l.isDown key) : k = l := by
  obtain ⟨ks⟩ := k
  obtain ⟨ls⟩ := l
  refine congrArg mk (Vector.ext fun key hk => ?_)
  simpa [isDown, hk] using h key hk

end Keypad

end Chip8

import Chip8.CounterStep
import Chip8.Machine.Basic
import Chip8.Reply

/-!
# Actions on a machine

An action looks at a machine, changes it and tells its operator about it, bit by bit, until it is
done or refused. A refusal takes nothing back: what an action changed before it was refused stays
changed.

## Main definitions

* `Action`: actions, which can be done one after the other
* `Action.read`, `change`, `tell`, `check`: the actions that all others are made of
* `Action.takeFrame`, `takeRandom`, `drawRows`, `store`: the use of the parts of a machine

## Main results

* `bind_apply`: what two actions do, one after the other
* `drawRows_apply`: drawing the rows of a sprite changes the surface only
-/

universe u

namespace Chip8

/-- **An action** on a machine. It leaves a machine and has a result, unless it is refused; a
machine is left also then. -/
def Action (σ : Type u) (α : Type) : Type u := Machine σ → Reply (Machine σ) (Except Cause α)

namespace Action

variable {σ : Type u} {α β : Type}

/-- The action that does nothing and has a result. -/
protected def pure (a : α) : Action σ α := fun m => ⟨m, .ok a, []⟩

/-- One action, and then one that depends on its result. The second one is left out if the first one
is refused. -/
protected def bind (first : Action σ α) (next : α → Action σ β) : Action σ β := fun m =>
  let done := first m
  match done.result with
  | .error cause => ⟨done.state, .error cause, done.notices⟩
  | .ok a =>
    let rest := next a done.state
    ⟨rest.state, rest.result, done.notices ++ rest.notices⟩

instance : Monad (Action σ) where
  pure := Action.pure
  bind := Action.bind

/-- Looks at the machine. -/
def read (f : Machine σ → α) : Action σ α := fun m => ⟨m, .ok (f m), []⟩

/-- Changes the machine. -/
def change (f : Machine σ → Machine σ) : Action σ Unit := fun m => ⟨f m, .ok (), []⟩

/-- Tells the operator something. -/
def tell (notice : Notice) : Action σ Unit := fun m => ⟨m, .ok (), [notice]⟩

/-- Looks at the machine for something that may be refused. -/
def check (f : Machine σ → Except Cause α) : Action σ α := fun m => ⟨m, f m, []⟩

section Apply

variable (m : Machine σ)

@[simp] theorem pure_apply (a : α) : (Pure.pure a : Action σ α) m = ⟨m, .ok a, []⟩ := rfl

@[simp] theorem read_apply (f : Machine σ → α) : read f m = ⟨m, .ok (f m), []⟩ := rfl

@[simp] theorem change_apply (f : Machine σ → Machine σ) : change f m = ⟨f m, .ok (), []⟩ := rfl

@[simp] theorem tell_apply (n : Notice) : (tell n : Action σ Unit) m = ⟨m, .ok (), [n]⟩ := rfl

@[simp] theorem check_apply (f : Machine σ → Except Cause α) : check f m = ⟨m, f m, []⟩ := rfl

/-- A second action is done to the machine that the first one left, if that was not refused. -/
@[simp] theorem bind_apply (first : Action σ α) (next : α → Action σ β) :
    (first >>= next) m =
      match (first m).result with
      | .error cause => ⟨(first m).state, .error cause, (first m).notices⟩
      | .ok a =>
        ⟨(next a (first m).state).state, (next a (first m).state).result,
          (first m).notices ++ (next a (first m).state).notices⟩ := rfl

end Apply

/-- Takes the newest return address from the stack. -/
def takeFrame : Action σ Address := do
  let popped ← check fun m => m.stack.pop
  change fun m => { m with stack := popped.2 }
  return popped.1

/-- Puts a return address on the stack. The result is how many are there now. -/
def putFrame (a : Address) : Action σ Nat := do
  let stack ← check fun m => m.stack.push a
  change fun m => { m with stack := stack }
  return stack.depth

/-- Takes a byte from the random source. -/
def takeRandom : Action σ UInt8 := do
  let b ← read fun m => m.random.byte
  change fun m => { m with random := m.random.next }
  return b

/-- Sets `VX`. -/
def setRegister (x : Register) (b : UInt8) : Action σ Unit := change fun m => m.setRegister x b

/-- Sets the index register. -/
def setIndex (a : Address) : Action σ Unit := change fun m => m.setIndex a

/-- The bytes at the index register. -/
def sliceAtIndex (count : Nat) : Action σ (List UInt8) :=
  check fun m => m.memory.slice m.index.toNat count

/-- Stores bytes at the index register. -/
def store (bytes : List UInt8) : Action σ Unit := do
  let memory ← check fun m => m.memory.load m.index.toNat bytes
  change fun m => { m with memory := memory }

section Apply

variable (m : Machine σ)

@[simp] theorem setRegister_apply (x : Register) (b : UInt8) :
    setRegister x b m = ⟨m.setRegister x b, .ok (), []⟩ := rfl

@[simp] theorem setIndex_apply (a : Address) : setIndex a m = ⟨m.setIndex a, .ok (), []⟩ := rfl

theorem takeFrame_apply :
    takeFrame m =
      match m.stack.pop with
      | .error cause => ⟨m, .error cause, []⟩
      | .ok popped => ⟨{ m with stack := popped.2 }, .ok popped.1, []⟩ := by
  cases h : m.stack.pop <;> simp [takeFrame, h]

theorem putFrame_apply (a : Address) :
    putFrame a m =
      match m.stack.push a with
      | .error cause => ⟨m, .error cause, []⟩
      | .ok stack => ⟨{ m with stack := stack }, .ok stack.depth, []⟩ := by
  cases h : m.stack.push a <;> simp [putFrame, h]

/-- Bytes that do not fit behind the index register are not stored at all. -/
theorem store_apply (bytes : List UInt8) :
    store bytes m =
      match m.memory.load m.index.toNat bytes with
      | .error cause => ⟨m, .error cause, []⟩
      | .ok memory => ⟨{ m with memory := memory }, .ok (), []⟩ := by
  cases h : m.memory.load m.index.toNat bytes <;> simp [store, h]

end Apply

variable [Surface σ]

/-- Clears the surface. -/
def clearSurface : Action σ Unit := change fun m => { m with surface := Surface.clear m.surface }

/-- Draws a row on the surface. The result is the surface's answer. -/
def drawRow (x y : Nat) (row : UInt8) : Action σ Bool := fun m =>
  let drawn := Surface.drawRow m.surface x y row
  ⟨{ m with surface := drawn.1 }, .ok drawn.2, []⟩

/-- Draws rows one below the other, the first one on the line `y`. The result is whether the surface
answered for any of them that it unset a pixel. -/
def drawRows (x y : Nat) : List UInt8 → Action σ Bool
  | [] => return false
  | row :: rows => do
    let collided ← drawRow x y row
    let later ← drawRows x (y + 1) rows
    return collided || later

/-- Drawing the rows of a sprite changes the surface only. -/
theorem drawRows_apply (x y : Nat) (rows : List UInt8) (m : Machine σ) :
    drawRows x y rows m =
      ⟨{ m with surface := (Surface.drawRows m.surface x y rows).1 },
        .ok (Surface.drawRows m.surface x y rows).2, []⟩ := by
  induction rows generalizing y m with
  | nil => rfl
  | cons row rows ih =>
    simp [drawRows, drawRow, ih, Surface.drawRows]

end Action

end Chip8

import Chip8.Machine.Action
import Mathlib.Data.Nat.Bitwise

/-!
# Guarded computations

A machine of real hardware computes with numbers of a fixed width and reads its registers and its
memory by number. A number that does not fit, or one that names no cell, would be a breach: the
computation could not go on. Here these numbers are natural numbers, and each use of one is preceded
by a guard that tells a breach.

A guarded action is an action that stops at a breach. One that has no breach at all is the guarded
form of an ordinary action, and the equations below say so for each use of the machine's parts.

## Main definitions

* `Breach`, `Guarded`: what a guard tells, and computations that stop there
* `Guarded.within`, `entry`, `setEntry`, `part`: arithmetic of a fixed width, and access by number
* `GuardedAction`, `GuardedAction.of`: actions that stop at a breach, and those that have none
* `Memory.guardedSlice`, `Memory.guardedLoad`: access to a range of memory

## Main results

* `of_bind`, `of_bind_of_result`: guarded actions without a breach, one after the other
* `getRegister_eq`, `putRegister_eq`: there is no breach at the number of a register
* `guardedSlice_eq`, `guardedLoad_eq`: a range that was checked lies inside of memory
-/

universe u

namespace Chip8

/-- What must not happen in a computation. -/
inductive Breach where
  /-- A cell that is not one of the `length` cells there are. -/
  | index (i length : Nat)
  /-- A range that does not lie in `length` cells. -/
  | range (start stop length : Nat)
  /-- A copy between ranges of different lengths. -/
  | lengths (target source : Nat)
  /-- A number that does not fit into so many bits. -/
  | overflow (bits value : Nat)
  /-- A shift of so many bits by as many or more. -/
  | shift (bits amount : Nat)
  deriving DecidableEq, Repr

/-- A computation that stops at a breach. -/
abbrev Guarded (α : Type u) : Type u := Except Breach α

namespace Guarded

variable {α : Type u} {n : Nat}

/-- A number that has to fit into so many bits. -/
def within (bits value : Nat) : Guarded Nat :=
  if value < 2 ^ bits then .ok value else .error (.overflow bits value)

/-- A byte shifted to the right. -/
def shiftRight (b : UInt8) (amount : Nat) : Guarded UInt8 :=
  if amount < 8 then .ok (b >>> UInt8.ofNat amount) else .error (.shift 8 amount)

/-- The cell with a number. -/
def entry (cells : Vector α n) (i : Nat) : Guarded α :=
  if h : i < n then .ok cells[i] else .error (.index i n)

/-- The cells with one of them set. -/
def setEntry (cells : Vector α n) (i : Nat) (a : α) : Guarded (Vector α n) :=
  if h : i < n then .ok (cells.set i a) else .error (.index i n)

/-- The part of a list from one position up to another one. -/
def part (xs : List α) (start stop : Nat) : Guarded (List α) :=
  if start ≤ stop ∧ stop ≤ xs.length then .ok ((xs.drop start).take (stop - start))
  else .error (.range start stop xs.length)

/-- The list with a part of it replaced by a list of the same length. -/
def replacePart (xs : List α) (start stop : Nat) (ys : List α) : Guarded (List α) := do
  let old ← part xs start stop
  if old.length = ys.length then .ok (xs.take start ++ ys ++ xs.drop stop)
  else .error (.lengths old.length ys.length)

theorem within_eq {bits value : Nat} (h : value < 2 ^ bits) : within bits value = .ok value :=
  if_pos h

example : within 16 (0xFFFF + 0x0001) = .error (.overflow 16 0x10000) := rfl

theorem shiftRight_eq (b : UInt8) {amount : Nat} (h : amount < 8) :
    shiftRight b amount = .ok (b >>> UInt8.ofNat amount) := if_pos h

theorem entry_eq (cells : Vector α n) {i : Nat} (h : i < n) : entry cells i = .ok cells[i] :=
  dif_pos h

theorem setEntry_eq (cells : Vector α n) {i : Nat} (h : i < n) (a : α) :
    setEntry cells i a = .ok (cells.set i a) := dif_pos h

theorem part_eq (xs : List α) {start stop : Nat} (hle : start ≤ stop) (hstop : stop ≤ xs.length) :
    part xs start stop = .ok ((xs.drop start).take (stop - start)) := if_pos ⟨hle, hstop⟩

theorem replacePart_eq (xs : List α) {start : Nat} {ys : List α}
    (h : start + ys.length ≤ xs.length) :
    replacePart xs start (start + ys.length) ys =
      .ok (xs.take start ++ ys ++ xs.drop (start + ys.length)) := by
  rw [replacePart, part_eq xs (Nat.le_add_right _ _) h]
  simp only [bind, Except.bind]
  rw [if_pos]
  rw [List.length_take, List.length_drop]
  omega

end Guarded

/-! ## Access to memory -/

namespace Memory

open Guarded

/-- The check of a range, by the sum of its start and its length. -/
def guardedOutside? (start count : Nat) : Guarded (Option Nat) :=
  if size ≤ start ∧ 0 < count then .ok (some start)
  else do
    let stop ← within 64 (start + count)
    return if size < stop then some size else none

/-- The bytes of a range, after it was checked. -/
def guardedSlice (m : Memory) (start count : Nat) : Guarded (Except Cause (List UInt8)) := do
  match ← guardedOutside? start count with
  | some a => return .error (.outOfBounds a size)
  | none =>
    let stop ← within 64 (start + count)
    let bytes ← part m.toList start stop
    return .ok bytes

/-- The memory with bytes copied to a range, after it was checked. -/
def guardedLoad (m : Memory) (start : Nat) (bytes : List UInt8) :
    Guarded (Except Cause Memory) := do
  match ← guardedOutside? start bytes.length with
  | some a => return .error (.outOfBounds a size)
  | none =>
    let stop ← within 64 (start + bytes.length)
    let all ← replacePart m.toList start stop bytes
    return .ok (m.splice 0 all)

theorem guardedOutside?_eq {start count : Nat} (h : start + count < 2 ^ 64) :
    guardedOutside? start count = .ok (outside? start count) := by
  unfold guardedOutside? outside?
  rw [within_eq h]
  split
  · rfl
  · rfl

/-- A part of memory consists of the bytes at its addresses. -/
theorem take_drop_toList (m : Memory) {start count : Nat} (h : start + count ≤ size) :
    (m.toList.drop start).take count = (List.range count).map fun i => m.byte (start + i) := by
  refine List.ext_getElem? fun i => ?_
  rw [List.getElem?_take, List.getElem?_drop, getElem?_toList, List.getElem?_map]
  by_cases hi : i < count
  · rw [if_pos hi, if_pos (by omega), List.getElem?_range hi, Option.map_some]
  · rw [if_neg hi, List.getElem?_eq_none (by simpa using hi), Option.map_none]

/-- A memory in which a part was replaced has the new bytes in that part. -/
theorem splice_replaced (m : Memory) {start : Nat} {bytes : List UInt8}
    (h : start + bytes.length ≤ size) :
    m.splice 0 (m.toList.take start ++ bytes ++ m.toList.drop (start + bytes.length)) =
      m.splice start bytes := by
  ext a ha
  have hprefix : (m.toList.take start).length = start := by
    rw [List.length_take, length_toList]
    omega
  have hall : (m.toList.take start ++ bytes ++ m.toList.drop (start + bytes.length)).length =
      size := by
    rw [List.length_append, List.length_append, hprefix, List.length_drop, length_toList]
    omega
  rw [byte_splice, byte_splice, hall, if_pos ⟨Nat.zero_le a, by omega, ha⟩, Nat.sub_zero]
  by_cases hbefore : a < start
  · rw [if_neg (by omega), List.append_assoc, List.getElem?_append_left (by omega),
      List.getElem?_take, if_pos hbefore, getElem?_toList, if_pos ha, Option.getD_some]
  by_cases hin : a < start + bytes.length
  · rw [if_pos ⟨by omega, hin, ha⟩, List.append_assoc, List.getElem?_append_right (by omega),
      hprefix, List.getElem?_append_left (by omega)]
  · have hfront : (m.toList.take start ++ bytes).length = start + bytes.length := by
      rw [List.length_append, hprefix]
    rw [if_neg (fun h => hin h.2.1), List.getElem?_append_right (by omega), hfront,
      List.getElem?_drop, Nat.add_sub_cancel' (by omega), getElem?_toList, if_pos ha,
      Option.getD_some]

theorem guardedSlice_eq (m : Memory) {start count : Nat} (h : start + count < 2 ^ 64) :
    m.guardedSlice start count = .ok (m.slice start count) := by
  unfold guardedSlice slice
  rw [guardedOutside?_eq h]
  cases houtside : outside? start count with
  | some a => rfl
  | none =>
    have hfits : start + count ≤ size := outside?_eq_none_iff.mp houtside
    have hlength : start + count ≤ m.toList.length := by rwa [length_toList]
    simp only [bind, Except.bind, within_eq h, part_eq m.toList (Nat.le_add_right _ _) hlength,
      Nat.add_sub_cancel_left, take_drop_toList m hfits]
    rfl

theorem guardedLoad_eq (m : Memory) {start : Nat} {bytes : List UInt8}
    (h : start + bytes.length < 2 ^ 64) :
    m.guardedLoad start bytes = .ok (m.load start bytes) := by
  unfold guardedLoad load
  rw [guardedOutside?_eq h]
  cases houtside : outside? start bytes.length with
  | some a => rfl
  | none =>
    have hfits : start + bytes.length ≤ size := outside?_eq_none_iff.mp houtside
    have hlength : start + bytes.length ≤ m.toList.length := by rwa [length_toList]
    simp only [bind, Except.bind, within_eq h, replacePart_eq m.toList hlength,
      splice_replaced m hfits]
    rfl

end Memory

/-! ## Guarded actions -/

/-- **A guarded action** on a machine stops at a breach. -/
def GuardedAction (σ : Type u) (α : Type) : Type u :=
  Machine σ → Guarded (Reply (Machine σ) (Except Cause α))

namespace GuardedAction

variable {σ : Type u} {α β : Type}

/-- One action, and then one that depends on its result. The second one is left out if the first one
is refused. -/
protected def bind (first : GuardedAction σ α) (next : α → GuardedAction σ β) :
    GuardedAction σ β := fun m => do
  let done ← first m
  match done.result with
  | .error cause => return ⟨done.state, .error cause, done.notices⟩
  | .ok a =>
    let rest ← next a done.state
    return ⟨rest.state, rest.result, done.notices ++ rest.notices⟩

instance : Monad (GuardedAction σ) where
  pure a := fun m => .ok ⟨m, .ok a, []⟩
  bind := GuardedAction.bind

/-- An action in which nothing has to be guarded. -/
def of (a : Action σ α) : GuardedAction σ α := fun m => .ok (a m)

/-- A computation that has to be guarded. -/
def guard (g : Guarded α) : GuardedAction σ α := fun m => g.map fun a => ⟨m, .ok a, []⟩

/-- Looks at the machine, with a guard. -/
def look (f : Machine σ → Guarded α) : GuardedAction σ α := fun m =>
  (f m).map fun a => ⟨m, .ok a, []⟩

/-- Looks at the machine for something that may be refused, with a guard. -/
def check (f : Machine σ → Guarded (Except Cause α)) : GuardedAction σ α := fun m =>
  (f m).map fun result => ⟨m, result, []⟩

/-- Changes the machine, with a guard. -/
def alter (f : Machine σ → Guarded (Machine σ)) : GuardedAction σ Unit := fun m =>
  (f m).map fun m' => ⟨m', .ok (), []⟩

/-- The byte in the register with a number. -/
def getRegister (x : Nat) : GuardedAction σ UInt8 := look fun m =>
  Guarded.entry m.registers.cells x

/-- Sets the register with a number. -/
def putRegister (x : Nat) (b : UInt8) : GuardedAction σ Unit := alter fun m =>
  (Guarded.setEntry m.registers.cells x b).map fun cells => { m with registers := ⟨cells⟩ }

/-- The bytes at the index register. -/
def sliceAtIndex (count : Nat) : GuardedAction σ (List UInt8) := check fun m =>
  m.memory.guardedSlice m.index.toNat count

/-- Stores bytes at the index register. -/
def store (bytes : List UInt8) : GuardedAction σ Unit := do
  let memory ← check fun m => m.memory.guardedLoad m.index.toNat bytes
  of (Action.change fun m => { m with memory := memory })

theorem of_pure (a : α) : of (Pure.pure a : Action σ α) = Pure.pure a := rfl

/-- Nothing that is guarded is a breach, neither in an action nor in those that may follow. -/
theorem of_bind_of_result {first : Action σ α} {next : α → Action σ β}
    {next' : α → GuardedAction σ β}
    (h : ∀ m a, (first m).result = .ok a → next' a = of (next a)) :
    of first >>= next' = of (first >>= next) := by
  funext m
  show GuardedAction.bind (of first) next' m = of (Action.bind first next) m
  unfold GuardedAction.bind Action.bind of
  cases hresult : (first m).result with
  | error cause => simp [bind, Except.bind, hresult, pure, Except.pure]
  | ok a => simp [bind, Except.bind, hresult, h m a hresult, of, pure, Except.pure]

theorem of_bind {first : Action σ α} {next : α → Action σ β} :
    of (first >>= next) = of first >>= fun a => of (next a) :=
  (of_bind_of_result fun _ _ _ => rfl).symm

/-- A computation that is no breach is done. -/
theorem guard_ok_bind (a : α) (next : α → GuardedAction σ β) :
    guard (.ok a) >>= next = next a := by
  funext m
  show (next a m >>= fun rest => Except.ok ⟨rest.state, rest.result, [] ++ rest.notices⟩) = next a m
  cases next a m <;> rfl

section Registers

variable (x : Register)

/-- There is a register with that number. -/
@[simp] theorem getRegister_eq :
    (getRegister x : GuardedAction σ UInt8) = of (Action.read fun m => m.registers.get x) := by
  funext m
  show (Guarded.entry m.registers.cells x).map _ = _
  rw [Guarded.entry_eq _ x.isLt]
  rfl

example (m : Machine σ) :
    (getRegister 16 : GuardedAction σ UInt8) m = .error (.index 16 16) := rfl

@[simp] theorem putRegister_eq (b : UInt8) :
    (putRegister x b : GuardedAction σ Unit) = of (Action.setRegister x b) := by
  funext m
  show ((Guarded.setEntry m.registers.cells x b).map _).map _ = _
  rw [Guarded.setEntry_eq _ x.isLt]
  rfl

end Registers

theorem sliceAtIndex_eq {count : Nat} (h : count < 2 ^ 16) :
    (sliceAtIndex count : GuardedAction σ (List UInt8)) = of (Action.sliceAtIndex count) := by
  funext m
  have hindex := m.index.toNat_lt
  show (m.memory.guardedSlice m.index.toNat count).map _ = _
  rw [Memory.guardedSlice_eq m.memory (by omega)]
  rfl

theorem store_eq {bytes : List UInt8} (h : bytes.length < 2 ^ 16) :
    (store bytes : GuardedAction σ Unit) = of (Action.store bytes) := by
  have hcheck : check (fun m : Machine σ => m.memory.guardedLoad m.index.toNat bytes) =
      of (Action.check fun m => m.memory.load m.index.toNat bytes) := by
    funext m
    have hindex := m.index.toNat_lt
    show (m.memory.guardedLoad m.index.toNat bytes).map _ = _
    rw [Memory.guardedLoad_eq m.memory (by omega)]
    rfl
  rw [store, hcheck, Action.store, of_bind]

end GuardedAction

end Chip8

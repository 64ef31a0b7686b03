import Chip8.Fault

/-!
# The call stack

The stack holds the return addresses of the subroutines that are running, at most sixteen of them.

## Main definitions

* `CallStack`: the return addresses, the newest first
* `CallStack.push`, `CallStack.pop`: a call and a return
* `CallStack.oldestFirst`: the return addresses in the order of the calls

## Main results

* `frames_of_push`, `frames_of_pop`: what a call and a return do to the return addresses
* `push_eq_error_iff`, `pop_eq_error_iff`: a push fails on a full stack, a pop on an empty one
-/

namespace Chip8

/-- The return addresses of the running subroutines, at most sixteen. -/
structure CallStack where
  /-- The return addresses, the newest first. -/
  frames : List Address
  length_le : frames.length ≤ 16
  deriving DecidableEq

namespace CallStack

/-- A stack without return addresses. -/
def empty : CallStack := ⟨[], by decide⟩

/-- The most return addresses a stack can hold. -/
def capacity : Nat := 16

/-- The amount of return addresses. -/
def depth (s : CallStack) : Nat := s.frames.length

/-- Whether there is no return address. -/
def isEmpty (s : CallStack) : Bool := s.depth == 0

/-- Whether there is no room for another return address. -/
def isFull (s : CallStack) : Bool := s.depth == capacity

/-- The return addresses in the order of the calls. -/
def oldestFirst (s : CallStack) : List Address := s.frames.reverse

/-- Stores a return address, unless the stack is full. -/
def push (s : CallStack) (a : Address) : Except Cause CallStack :=
  if h : s.frames.length < 16 then .ok ⟨a :: s.frames, h⟩ else .error .stackFull

/-- Takes the newest return address, unless there is none. -/
def pop (s : CallStack) : Except Cause (Address × CallStack) :=
  match s with
  | ⟨[], _⟩ => .error .stackEmpty
  | ⟨a :: rest, h⟩ => .ok (a, ⟨rest, Nat.le_of_succ_le h⟩)

@[ext] theorem ext {s t : CallStack} (h : s.frames = t.frames) : s = t := by
  cases s
  cases t
  simp_all

@[simp] theorem length_oldestFirst (s : CallStack) : s.oldestFirst.length = s.depth :=
  List.length_reverse

/-- Stacks with the same return addresses in the order of the calls are equal. -/
theorem oldestFirst_inj {s t : CallStack} : s.oldestFirst = t.oldestFirst ↔ s = t :=
  ⟨fun h => ext (List.reverse_inj.1 h), fun h => h ▸ rfl⟩

theorem frames_of_push {s t : CallStack} {a : Address} (h : s.push a = .ok t) :
    t.frames = a :: s.frames := by
  unfold push at h
  split at h
  · cases h
    rfl
  · cases h

theorem frames_of_pop {s t : CallStack} {a : Address} (h : s.pop = .ok (a, t)) :
    s.frames = a :: t.frames := by
  unfold pop at h
  split at h
  · cases h
  · cases h
    rfl

theorem push_eq_error_iff {s : CallStack} {a : Address} {c : Cause} :
    s.push a = .error c ↔ s.depth = capacity ∧ c = .stackFull := by
  have := s.length_le
  unfold push depth capacity
  split
  · simp
    omega
  · simp only [Except.error.injEq]
    exact ⟨fun h => ⟨by omega, h.symm⟩, fun h => h.2.symm⟩

theorem pop_eq_error_iff {s : CallStack} {c : Cause} :
    s.pop = .error c ↔ s.frames = [] ∧ c = .stackEmpty := by
  unfold pop
  split
  · simp [eq_comm]
  · simp

end CallStack

end Chip8

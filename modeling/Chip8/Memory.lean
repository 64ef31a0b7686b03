import Chip8.Fault

/-!
# Memory

The machine has 4096 bytes of memory. Every access is checked: one that leaves memory is refused
with the first address that lies outside, and then nothing is written.

## Main definitions

* `Memory`, `Memory.byte`: the bytes, and the byte at an address
* `Memory.read`, `Memory.write`: access to one byte
* `Memory.outside?`: the address for which an access to a range is refused
* `Memory.slice`, `Memory.load`: access to a range

## Main results

* `outside?_eq_none_iff`: the ranges that lie inside of memory
* `byte_splice`: what a memory holds after bytes were put into it
-/

namespace Chip8

/-- The bytes of the machine's memory. -/
structure Memory where
  cells : Vector UInt8 4096
  deriving DecidableEq

namespace Memory

/-- The amount of bytes. -/
def size : Nat := 4096

/-- A memory that holds zeros only. -/
def blank : Memory := ⟨Vector.replicate 4096 0⟩

/-- The byte at an address, zero outside of memory. -/
def byte (m : Memory) (a : Nat) : UInt8 := m.cells[a]?.getD 0

/-- All bytes, by ascending address. -/
def toList (m : Memory) : List UInt8 := m.cells.toList

/-- The byte at address `a`. -/
def read (m : Memory) (a : Nat) : Except Cause UInt8 :=
  match m.cells[a]? with
  | some b => .ok b
  | none => .error (.outOfBounds a size)

/-- Stores `b` at address `a`. -/
def write (m : Memory) (a : Nat) (b : UInt8) : Except Cause Memory :=
  if h : a < 4096 then .ok ⟨m.cells.set a b⟩ else .error (.outOfBounds a size)

/-- The address for which an access to `count` bytes from `start` on is refused, if it is: the first
of them that lies outside of memory. No bytes at all may be taken at the very end of memory, but not
behind it. -/
def outside? (start count : Nat) : Option Nat :=
  if size ≤ start ∧ 0 < count then some start
  else if size < start + count then some size
  else none

/-- The first of `count` addresses from `start` on that lies outside of memory, if there is one. An
empty range that lies outside is taken to leave memory at its end. -/
def firstOutside (start count : Nat) : Nat := if size ≤ start ∧ 0 < count then start else size

/-- The `count` bytes from `start` on. -/
def slice (m : Memory) (start count : Nat) : Except Cause (List UInt8) :=
  match outside? start count with
  | some a => .error (.outOfBounds a size)
  | none => .ok ((List.range count).map fun i => m.byte (start + i))

/-- Puts the bytes into memory from `start` on; those that would fall outside are dropped. -/
def splice (m : Memory) (start : Nat) : List UInt8 → Memory
  | [] => m
  | b :: bs => splice ⟨m.cells.setIfInBounds start b⟩ (start + 1) bs

/-- Stores the bytes from `start` on. -/
def load (m : Memory) (start : Nat) (bytes : List UInt8) : Except Cause Memory :=
  match outside? start bytes.length with
  | some a => .error (.outOfBounds a size)
  | none => .ok (m.splice start bytes)

@[simp] theorem length_toList (m : Memory) : m.toList.length = size := by simp [toList, size]

/-- Memories that hold the same bytes are equal. -/
theorem toList_inj {m m' : Memory} : m.toList = m'.toList ↔ m = m' := by
  obtain ⟨cells⟩ := m
  obtain ⟨cells'⟩ := m'
  rw [toList, toList, Vector.toList_inj, mk.injEq]

theorem getElem?_toList (m : Memory) (a : Nat) :
    m.toList[a]? = if a < size then some (m.byte a) else none := by
  split
  next h =>
    have h : a < 4096 := h
    simp [toList, byte, h]
  next h => simpa [toList, size] using h

@[ext] theorem ext {m m' : Memory} (h : ∀ a < size, m.byte a = m'.byte a) : m = m' := by
  obtain ⟨cells⟩ := m
  obtain ⟨cells'⟩ := m'
  refine congrArg mk (Vector.ext fun a ha => ?_)
  simpa [byte, ha] using h a ha

@[simp] theorem byte_blank (a : Nat) : blank.byte a = 0 := by
  unfold blank byte
  by_cases h : a < 4096 <;> simp [h]

theorem read_eq (m : Memory) (a : Nat) :
    m.read a = if a < size then .ok (m.byte a) else .error (.outOfBounds a size) := by
  by_cases h : a < 4096 <;> simp [read, byte, size, h]

/-- A range lies inside of memory when it ends there, also if it is empty. -/
theorem outside?_eq_none_iff {start count : Nat} :
    outside? start count = none ↔ start + count ≤ size := by
  unfold outside?
  split
  · simp
    omega
  · split <;> simp <;> omega

theorem outside?_eq (start count : Nat) :
    outside? start count =
      if size < start + count then some (firstOutside start count) else none := by
  unfold outside? firstOutside
  by_cases hbehind : size ≤ start ∧ 0 < count
  · have hlt : size < start + count := by omega
    rw [if_pos hbehind, if_pos hlt, if_pos hbehind]
  · rw [if_neg hbehind, if_neg hbehind]

/-- After bytes were put into it, a memory holds them from `start` on and is otherwise the same. -/
theorem byte_splice (m : Memory) (start : Nat) (bytes : List UInt8) (a : Nat) :
    (m.splice start bytes).byte a =
      if start ≤ a ∧ a < start + bytes.length ∧ a < size then bytes[a - start]?.getD 0
      else m.byte a := by
  induction bytes generalizing m start with
  | nil =>
    rw [splice, if_neg]
    simp only [List.length_nil]
    omega
  | cons b bs ih =>
    rw [splice, ih]
    by_cases h : a = start
    · subst h
      rw [if_neg (by omega)]
      by_cases hs : a < 4096 <;> simp [byte, size, hs]
    · have hne : start ≠ a := Ne.symm h
      by_cases hin : start + 1 ≤ a ∧ a < start + 1 + bs.length ∧ a < size
      · rw [if_pos hin, if_pos (by simp only [List.length_cons]; omega),
          show a - start = (a - (start + 1)) + 1 by omega, List.getElem?_cons_succ]
      · rw [if_neg hin, if_neg (by simp only [List.length_cons]; omega)]
        simp [byte, hne]

theorem slice_eq (m : Memory) {start count : Nat} (h : start + count ≤ size) :
    m.slice start count = .ok ((List.range count).map fun i => m.byte (start + i)) := by
  rw [slice, outside?_eq_none_iff.2 h]

theorem load_eq (m : Memory) {start : Nat} {bytes : List UInt8} (h : start + bytes.length ≤ size) :
    m.load start bytes = .ok (m.splice start bytes) := by
  rw [load, outside?_eq_none_iff.2 h]

/-- Bytes are not taken from a range that leaves memory. -/
theorem slice_eq_error_iff {m : Memory} {start count : Nat} {cause : Cause} :
    m.slice start count = .error cause ↔
      size < start + count ∧ cause = .outOfBounds (firstOutside start count) size := by
  rw [slice, outside?_eq]
  by_cases h : size < start + count <;> simp [h, eq_comm]

/-- Bytes are not stored in a range that leaves memory. -/
theorem load_eq_error_iff {m : Memory} {start : Nat} {bytes : List UInt8} {cause : Cause} :
    m.load start bytes = .error cause ↔
      size < start + bytes.length ∧
        cause = .outOfBounds (firstOutside start bytes.length) size := by
  rw [load, outside?_eq]
  by_cases h : size < start + bytes.length <;> simp [h, eq_comm]

/-- Bytes that were taken from memory lie inside of it. -/
theorem fits_of_slice_eq_ok {m : Memory} {start count : Nat} {bytes : List UInt8}
    (h : m.slice start count = .ok bytes) : start + count ≤ size := by
  unfold slice at h
  split at h
  · cases h
  next hnone => exact outside?_eq_none_iff.mp hnone

/-- Bytes that were put into memory lie inside of it. -/
theorem fits_of_load_eq_ok {m m' : Memory} {start : Nat} {bytes : List UInt8}
    (h : m.load start bytes = .ok m') : start + bytes.length ≤ size := by
  unfold load at h
  split at h
  · cases h
  next hnone => exact outside?_eq_none_iff.mp hnone

theorem eq_of_slice_eq_ok {m : Memory} {start count : Nat} {bytes : List UInt8}
    (h : m.slice start count = .ok bytes) :
    bytes = (List.range count).map fun i => m.byte (start + i) := by
  rw [slice_eq m (fits_of_slice_eq_ok h), Except.ok.injEq] at h
  exact h.symm

/-- As many bytes are taken from memory as were asked for. -/
theorem length_of_slice_eq_ok {m : Memory} {start count : Nat} {bytes : List UInt8}
    (h : m.slice start count = .ok bytes) : bytes.length = count := by
  rw [eq_of_slice_eq_ok h, List.length_map, List.length_range]

/-- Bytes that were put into memory do not change those around them. -/
theorem byte_of_load_eq_ok {m m' : Memory} {start a : Nat} {bytes : List UInt8}
    (h : m.load start bytes = .ok m') (ha : ¬(start ≤ a ∧ a < start + bytes.length)) :
    m'.byte a = m.byte a := by
  rw [load_eq m (fits_of_load_eq_ok h), Except.ok.injEq] at h
  rw [← h, byte_splice, if_neg]
  exact fun hin => ha ⟨hin.1, hin.2.1⟩

end Memory

end Chip8

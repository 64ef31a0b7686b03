import Chip8.Opcode

/-!
# Data registers

The machine computes in sixteen registers of one byte, `V0` to `VF`. The last one also serves as a
flag.

## Main definitions

* `Register.first`, `Register.flag`: the registers `V0` and `VF`
* `Registers`, `Registers.get`, `Registers.set`: the bytes of the registers
* `Registers.block`, `Registers.restore`: the first registers as a list of bytes, and back

## Main results

* `get_set`: the registers after one was set
* `get_restore`: the registers after a block was restored
-/

namespace Chip8

/-- The register `V0`. -/
def Register.first : Register := ⟨0, by decide⟩

/-- The register `VF`. -/
def Register.flag : Register := ⟨15, by decide⟩

/-- The bytes in the registers `V0` to `VF`. -/
structure Registers where
  cells : Vector UInt8 16
  deriving DecidableEq

namespace Registers

/-- Registers that hold zeros only. -/
def zero : Registers := ⟨Vector.replicate 16 0⟩

/-- The byte in `VX`. -/
def get (r : Registers) (x : Register) : UInt8 := r.cells[x]

/-- The registers with a byte stored in `VX`. -/
def set (r : Registers) (x : Register) (b : UInt8) : Registers := ⟨r.cells.set x b⟩

/-- The bytes in the registers, that in `V0` first. -/
def toList (r : Registers) : List UInt8 := r.cells.toList

/-- The bytes in the registers `V0` to `VX`. -/
def block (r : Registers) (x : Register) : List UInt8 := r.toList.take (x.val + 1)

/-- The registers with the bytes of a list in the first ones. -/
def restore (r : Registers) (bytes : List UInt8) : Registers :=
  ⟨Vector.ofFn fun i => bytes[i.val]?.getD (r.get i)⟩

@[ext] theorem ext {r s : Registers} (h : ∀ x, r.get x = s.get x) : r = s := by
  obtain ⟨a⟩ := r
  obtain ⟨b⟩ := s
  refine congrArg mk (Vector.ext fun i hi => ?_)
  exact h ⟨i, hi⟩

@[simp] theorem get_zero (x : Register) : zero.get x = 0 := by simp [zero, get]

/-- Setting a register changes that register only. -/
theorem get_set (r : Registers) (x y : Register) (b : UInt8) :
    (r.set x b).get y = if y = x then b else r.get y := by
  unfold get set
  by_cases h : y = x
  · simp [h]
  · have hne : x.val ≠ y.val := fun he => h (Fin.ext he.symm)
    simp [h, hne]

@[simp] theorem get_set_self (r : Registers) (x : Register) (b : UInt8) :
    (r.set x b).get x = b := by
  rw [get_set, if_pos rfl]

@[simp] theorem length_toList (r : Registers) : r.toList.length = 16 := by simp [toList]

/-- Registers that hold the same bytes are equal. -/
theorem toList_inj {r s : Registers} : r.toList = s.toList ↔ r = s := by
  obtain ⟨a⟩ := r
  obtain ⟨b⟩ := s
  rw [toList, toList, Vector.toList_inj, mk.injEq]

theorem getElem?_toList (r : Registers) (x : Register) : r.toList[x.val]? = some (r.get x) := by
  simp [toList, get]

@[simp] theorem length_block (r : Registers) (x : Register) :
    (r.block x).length = x.val + 1 := by
  rw [block, List.length_take, length_toList]
  omega

/-- The block up to `VX` holds the bytes in the registers up to `VX`. -/
theorem getElem?_block (r : Registers) (x y : Register) :
    (r.block x)[y.val]? = if y ≤ x then some (r.get y) else none := by
  rw [block, List.getElem?_take, getElem?_toList]
  by_cases h : y ≤ x
  · rw [if_pos h, if_pos (Nat.lt_succ_of_le h)]
  · rw [if_neg h, if_neg fun hlt => h (Nat.le_of_lt_succ hlt)]

/-- Restoring changes the registers that the list has a byte for. -/
@[simp] theorem get_restore (r : Registers) (bytes : List UInt8) (x : Register) :
    (r.restore bytes).get x = bytes[x.val]?.getD (r.get x) := by
  simp [restore, get]

/-- Restoring the registers up to `VX` does not change those behind. -/
theorem get_restore_of_lt (r : Registers) {bytes : List UInt8} {x y : Register}
    (hbytes : bytes.length = x.val + 1) (h : x < y) : (r.restore bytes).get y = r.get y := by
  have hnone : bytes[y.val]? = none := by
    rw [List.getElem?_eq_none_iff, hbytes]
    exact h
  rw [get_restore, hnone, Option.getD_none]

end Registers

end Chip8

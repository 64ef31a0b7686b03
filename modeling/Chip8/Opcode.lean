import Chip8.Word

/-!
# Opcodes

An opcode is a word read as four nibbles `TXYN`: the family `T`, the registers `X` and `Y` and a
short constant `N`. The last two nibbles together are the constant `NN`, the last three the address
`NNN`.

## Main definitions

* `family`, `x`, `y`, `n`, `nn`, `nnn`: the parts of an opcode
* `ofNibbles`, `ofByte`, `ofAddress`: the opcodes `TXYN`, `TXNN` and `TNNN` made of their parts

## Main results

* `ofNibbles_eta`, `ofByte_eta`, `ofAddress_eta`: an opcode is made of its parts
-/

namespace Chip8

/-- A machine instruction as it is stored in memory. -/
abbrev Opcode := UInt16

/-- The number of a data register. -/
abbrev Register := Fin 16

namespace Opcode

/-- The nibble `T` of `TXYN`, which selects the family of the instruction. -/
def family (op : Opcode) : Fin 16 := ⟨op.toNat / 4096, by have := op.toNat_lt; omega⟩

/-- The register `X` of `TXYN`. -/
def x (op : Opcode) : Register := ⟨op.toNat / 256 % 16, by omega⟩

/-- The register `Y` of `TXYN`. -/
def y (op : Opcode) : Register := ⟨op.toNat / 16 % 16, by omega⟩

/-- The nibble `N` of `TXYN`. -/
def n (op : Opcode) : Fin 16 := ⟨op.toNat % 16, by omega⟩

/-- The byte `NN` of `TXNN`. -/
def nn (op : Opcode) : UInt8 := UInt8.ofNat op.toNat

/-- The address `NNN` of `TNNN`. -/
def nnn (op : Opcode) : Fin 4096 := ⟨op.toNat % 4096, by omega⟩

/-- The opcode `TXYN`. -/
def ofNibbles (t : Fin 16) (x y : Register) (n : Fin 16) : Opcode :=
  UInt16.ofNat (t * 4096 + x * 256 + y * 16 + n)

/-- The opcode `TXNN`. -/
def ofByte (t : Fin 16) (x : Register) (nn : UInt8) : Opcode :=
  UInt16.ofNat (t * 4096 + x * 256 + nn.toNat)

/-- The opcode `TNNN`. -/
def ofAddress (t : Fin 16) (nnn : Fin 4096) : Opcode := UInt16.ofNat (t * 4096 + nnn)

@[simp] theorem toNat_nn (op : Opcode) : op.nn.toNat = op.toNat % 256 := by simp [nn]

@[simp] theorem toNat_ofNibbles (t : Fin 16) (x y : Register) (n : Fin 16) :
    (ofNibbles t x y n).toNat = t * 4096 + x * 256 + y * 16 + n := by
  simp only [ofNibbles, UInt16.toNat_ofNat']
  omega

@[simp] theorem toNat_ofByte (t : Fin 16) (x : Register) (nn : UInt8) :
    (ofByte t x nn).toNat = t * 4096 + x * 256 + nn.toNat := by
  have := nn.toNat_lt
  simp only [ofByte, UInt16.toNat_ofNat']
  omega

@[simp] theorem toNat_ofAddress (t : Fin 16) (nnn : Fin 4096) :
    (ofAddress t nnn).toNat = t * 4096 + nnn := by
  simp only [ofAddress, UInt16.toNat_ofNat']
  omega

section Parts

variable (t : Fin 16) (x y : Register) (n : Fin 16) (nn : UInt8) (nnn : Fin 4096)

@[simp] theorem family_ofNibbles : (ofNibbles t x y n).family = t := by
  ext
  simp only [family, toNat_ofNibbles]
  omega

@[simp] theorem x_ofNibbles : (ofNibbles t x y n).x = x := by
  ext
  simp only [Opcode.x, toNat_ofNibbles]
  omega

@[simp] theorem y_ofNibbles : (ofNibbles t x y n).y = y := by
  ext
  simp only [Opcode.y, toNat_ofNibbles]
  omega

@[simp] theorem n_ofNibbles : (ofNibbles t x y n).n = n := by
  ext
  simp only [Opcode.n, toNat_ofNibbles]
  omega

@[simp] theorem family_ofByte : (ofByte t x nn).family = t := by
  have := nn.toNat_lt
  ext
  simp only [family, toNat_ofByte]
  omega

@[simp] theorem x_ofByte : (ofByte t x nn).x = x := by
  have := nn.toNat_lt
  ext
  simp only [Opcode.x, toNat_ofByte]
  omega

@[simp] theorem nn_ofByte : (ofByte t x nn).nn = nn := by
  have := nn.toNat_lt
  rw [← UInt8.toNat_inj, toNat_nn, toNat_ofByte]
  omega

@[simp] theorem family_ofAddress : (ofAddress t nnn).family = t := by
  ext
  simp only [family, toNat_ofAddress]
  omega

@[simp] theorem nnn_ofAddress : (ofAddress t nnn).nnn = nnn := by
  ext
  simp only [Opcode.nnn, toNat_ofAddress]
  omega

end Parts

variable (op : Opcode)

/-- An opcode is made of its four nibbles. -/
theorem ofNibbles_eta : ofNibbles op.family op.x op.y op.n = op := by
  rw [← UInt16.toNat_inj, toNat_ofNibbles]
  simp only [family, x, y, n]
  omega

/-- An opcode is made of its family, its register `X` and its byte `NN`. -/
theorem ofByte_eta : ofByte op.family op.x op.nn = op := by
  rw [← UInt16.toNat_inj, toNat_ofByte, toNat_nn]
  simp only [family, x]
  omega

/-- An opcode is made of its family and its address `NNN`. -/
theorem ofAddress_eta : ofAddress op.family op.nnn = op := by
  rw [← UInt16.toNat_inj, toNat_ofAddress]
  simp only [family, nnn]
  omega

variable {op} {t : Fin 16}

theorem ofNibbles_of_family (h : op.family = t) : ofNibbles t op.x op.y op.n = op :=
  h ▸ op.ofNibbles_eta

theorem ofByte_of_family (h : op.family = t) : ofByte t op.x op.nn = op := h ▸ op.ofByte_eta

theorem ofAddress_of_family (h : op.family = t) : ofAddress t op.nnn = op := h ▸ op.ofAddress_eta

end Opcode

end Chip8

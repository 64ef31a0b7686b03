import Chip8.Notice

/-!
# Images

Roms and fonts are brought into memory as a whole. An image has the size that its place in memory
asks for; bytes of any other size are rejected, with a notice.

## Main definitions

* `Rom`, `Rom.ofBytes`: a named program that fits into memory
* `Font`, `Font.ofBytes`, `Font.standard`: the glyphs of the sixteen digits
* `ImageError`, `ImageError.message`: why an image is rejected
-/

namespace Chip8

/-- Where programs begin in memory. -/
def programStart : Nat := 0x200

/-- The most bytes a program can have: all from its start to the end of memory. -/
def programCapacity : Nat := 3584

/-- Where the font begins in memory. -/
def fontStart : Nat := 0x50

/-- The rows of a glyph, one byte each. -/
def glyphSize : Nat := 5

/-- The bytes of a font, which has sixteen glyphs. -/
def fontSize : Nat := 80

/-- Why an image is rejected. -/
inductive ImageError where
  /-- The program has more bytes than fit into memory. -/
  | programTooLarge (length max : Nat)
  /-- The font does not have as many bytes as are expected. -/
  | wrongFontSize (length expected : Nat)
  deriving DecidableEq, Repr

/-- How many bytes there should be, and how many there are. -/
def ImageError.message : ImageError → String
  | programTooLarge n max =>
    "The program is " ++ toString n ++ " bytes long, but at most " ++ toString max
      ++ " bytes fit into memory."
  | wrongFontSize n expected =>
    "A font has to be exactly " ++ toString expected ++ " bytes long, got " ++ toString n ++ "."

/-- **A rom**: a program with a name that fits into memory. -/
structure Rom where
  name : String
  bytes : List UInt8
  length_le : bytes.length ≤ programCapacity
  deriving DecidableEq

/-- The rom of that name, unless it has too many bytes. -/
def Rom.ofBytes (name : String) (bytes : List UInt8) : Except ImageError Rom × List Notice :=
  if h : bytes.length ≤ programCapacity then (.ok ⟨name, bytes, h⟩, [])
  else (.error (.programTooLarge bytes.length programCapacity), [.rejectedRom name bytes.length])

/-- **A font**: the sixteen glyphs, one behind the other. -/
structure Font where
  bytes : List UInt8
  length_eq : bytes.length = fontSize
  deriving DecidableEq

/-- The font made of the bytes, if there are as many as a font needs. -/
def Font.ofBytes (bytes : List UInt8) : Except ImageError Font × List Notice :=
  if h : bytes.length = fontSize then (.ok ⟨bytes, h⟩, [])
  else (.error (.wrongFontSize bytes.length fontSize), [.rejectedFont bytes.length])

/-- The font that a new machine has. -/
def Font.standard : Font where
  bytes := [
    0xF0, 0x90, 0x90, 0x90, 0xF0,
    0x20, 0x60, 0x20, 0x20, 0x70,
    0xF0, 0x10, 0xF0, 0x80, 0xF0,
    0xF0, 0x10, 0xF0, 0x10, 0xF0,
    0x90, 0x90, 0xF0, 0x10, 0x10,
    0xF0, 0x80, 0xF0, 0x10, 0xF0,
    0xF0, 0x80, 0xF0, 0x90, 0xF0,
    0xF0, 0x10, 0x20, 0x40, 0x40,
    0xF0, 0x90, 0xF0, 0x90, 0xF0,
    0xF0, 0x90, 0xF0, 0x10, 0xF0,
    0xF0, 0x90, 0xF0, 0x90, 0x90,
    0xE0, 0x90, 0xE0, 0x90, 0xE0,
    0xF0, 0x80, 0x80, 0x80, 0xF0,
    0xE0, 0x90, 0x90, 0x90, 0xE0,
    0xF0, 0x80, 0xF0, 0x80, 0xF0,
    0xF0, 0x80, 0xF0, 0x80, 0x80]
  length_eq := rfl

end Chip8

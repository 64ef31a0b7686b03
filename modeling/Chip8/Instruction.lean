import Chip8.Opcode

/-!
# Instructions

The instructions of the machine, with the operands each of them carries. The operands are of the
size that their place in the opcode gives them.

## Main definitions

* `Arithmetic`: the operations on two registers
* `Instruction`: the instructions
-/

namespace Chip8

/-- The operations `8XYN` on two registers; the result goes to `VX`. -/
inductive Arithmetic where
  /-- The byte of `VY`. -/
  | assign
  /-- The bits of `VX` or `VY`. -/
  | or
  /-- The bits of both `VX` and `VY`. -/
  | and
  /-- The bits of either `VX` or `VY`. -/
  | xor
  /-- The sum of `VX` and `VY`, the carry in `VF`. -/
  | add
  /-- The difference `VX - VY`; `VF` is zero if it borrows. -/
  | sub
  /-- A shift to the right by one, the lost bit in `VF`. -/
  | shiftRight
  /-- The difference `VY - VX`; `VF` is zero if it borrows. -/
  | subFrom
  /-- A shift to the left by one, the lost bit in `VF`. -/
  | shiftLeft
  deriving DecidableEq, Repr

/-- An instruction with its operands. -/
inductive Instruction where
  /-- Opcode `00E0`: clears the screen. -/
  | clear
  /-- Opcode `00EE`: returns from a subroutine. -/
  | ret
  /-- Opcode `1NNN`: jumps to `NNN`. -/
  | jump (nnn : Fin 4096)
  /-- Opcode `2NNN`: calls the subroutine at `NNN`. -/
  | call (nnn : Fin 4096)
  /-- Opcode `3XNN`: skips the next instruction if `VX` is `NN`. -/
  | skipIf (x : Register) (nn : UInt8)
  /-- Opcode `4XNN`: skips the next instruction unless `VX` is `NN`. -/
  | skipUnless (x : Register) (nn : UInt8)
  /-- Opcode `5XY0`: skips the next instruction if `VX` and `VY` are equal. -/
  | skipIfSame (x y : Register)
  /-- Opcode `6XNN`: sets `VX` to `NN`. -/
  | set (x : Register) (nn : UInt8)
  /-- Opcode `7XNN`: adds `NN` to `VX`, without a carry. -/
  | add (x : Register) (nn : UInt8)
  /-- Opcode `8XYN`: computes with `VX` and `VY`. -/
  | arithmetic (op : Arithmetic) (x y : Register)
  /-- Opcode `9XY0`: skips the next instruction unless `VX` and `VY` are equal. -/
  | skipUnlessSame (x y : Register)
  /-- Opcode `ANNN`: sets the index register to `NNN`. -/
  | setIndex (nnn : Fin 4096)
  /-- Opcode `BNNN`: jumps to `NNN` plus a register. -/
  | jumpOffset (nnn : Fin 4096)
  /-- Opcode `CXNN`: sets `VX` to a random byte, of which the bits of `NN` are kept. -/
  | random (x : Register) (nn : UInt8)
  /-- Opcode `DXYN`: draws the `N` bytes at the index register at the position `VX`, `VY`. -/
  | draw (x y : Register) (n : Fin 16)
  /-- Opcode `EX9E`: skips the next instruction if the key `VX` is down. -/
  | skipIfDown (x : Register)
  /-- Opcode `EXA1`: skips the next instruction unless the key `VX` is down. -/
  | skipUnlessDown (x : Register)
  /-- Opcode `FX07`: sets `VX` to the delay timer. -/
  | readDelay (x : Register)
  /-- Opcode `FX0A`: waits for a key and sets `VX` to it. -/
  | awaitKey (x : Register)
  /-- Opcode `FX15`: sets the delay timer to `VX`. -/
  | setDelay (x : Register)
  /-- Opcode `FX18`: sets the sound timer to `VX`. -/
  | setSound (x : Register)
  /-- Opcode `FX1E`: adds `VX` to the index register. -/
  | addIndex (x : Register)
  /-- Opcode `FX29`: sets the index register to the glyph of the digit `VX`. -/
  | glyph (x : Register)
  /-- Opcode `FX33`: stores the three decimal digits of `VX` at the index register. -/
  | storeDecimal (x : Register)
  /-- Opcode `FX55`: stores `V0` to `VX` at the index register. -/
  | storeBlock (x : Register)
  /-- Opcode `FX65`: sets `V0` to `VX` from the bytes at the index register. -/
  | loadBlock (x : Register)
  deriving DecidableEq, Repr

end Chip8

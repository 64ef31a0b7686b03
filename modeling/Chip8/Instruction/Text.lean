import Chip8.Instruction

/-!
# Instructions in words

An instruction is shown by its name and its operands, the numbers in decimal.

## Main definitions

* `Instruction.text`: the text of an instruction
-/

namespace Chip8

/-- The name of an operation on two registers. -/
def Arithmetic.text : Arithmetic → String
  | assign => "Assign"
  | or => "Or"
  | and => "And"
  | xor => "Xor"
  | add => "Add"
  | sub => "Sub"
  | shiftRight => "ShiftRight"
  | subFrom => "SubReversed"
  | shiftLeft => "ShiftLeft"

namespace Instruction

/-- A name with named operands, in braces. -/
def record (name : String) (operands : List (String × String)) : String :=
  name ++ " \x7b " ++ ", ".intercalate (operands.map fun o => o.1 ++ ": " ++ o.2) ++ " \x7d"

/-- An instruction with a register and a byte. -/
def withByte (name : String) (x : Register) (nn : UInt8) : String :=
  record name [("x", toString x.val), ("nn", toString nn.toNat)]

/-- An instruction with two registers. -/
def withRegisters (name : String) (x y : Register) : String :=
  record name [("x", toString x.val), ("y", toString y.val)]

/-- An instruction with an address. -/
def withAddress (name : String) (nnn : Fin 4096) : String :=
  record name [("nnn", toString nnn.val)]

/-- An instruction that is one of several with a single register. -/
def withVariant (name variant : String) (x : Register) : String :=
  record name [("ops", variant), ("x", toString x.val)]

/-- The name of an instruction and its operands. The register that an offset jump may add is the
first digit of its address. -/
def text : Instruction → String
  | clear => "Clear"
  | ret => "Return"
  | jump nnn => withAddress "Jump" nnn
  | call nnn => withAddress "Call" nnn
  | skipIf x nn => withByte "SkipIfEqual" x nn
  | skipUnless x nn => withByte "SkipIfNotEqual" x nn
  | skipIfSame x y => withRegisters "SkipIfRegistersEqual" x y
  | set x nn => withByte "Set" x nn
  | add x nn => withByte "Add" x nn
  | arithmetic op x y =>
    record "Arithmetic" [("ops", op.text), ("x", toString x.val), ("y", toString y.val)]
  | skipUnlessSame x y => withRegisters "SkipIfRegistersNotEqual" x y
  | setIndex nnn => withAddress "SetIndex" nnn
  | jumpOffset nnn =>
    record "JumpWithOffset" [("x", toString (nnn.val / 256)), ("nnn", toString nnn.val)]
  | random x nn => withByte "Random" x nn
  | draw x y n =>
    record "Draw" [("x", toString x.val), ("y", toString y.val), ("n", toString n.val)]
  | skipIfDown x => withVariant "Key" "SkipIfDown" x
  | skipUnlessDown x => withVariant "Key" "SkipIfUp" x
  | readDelay x => withVariant "Misc" "GetDelayTimer" x
  | awaitKey x => withVariant "Misc" "AwaitKeyPress" x
  | setDelay x => withVariant "Misc" "SetDelayTimer" x
  | setSound x => withVariant "Misc" "SetSoundTimer" x
  | addIndex x => withVariant "Misc" "AddVxToI" x
  | glyph x => withVariant "Misc" "SetIToGlyph" x
  | storeDecimal x => withVariant "Misc" "StoreBcd" x
  | storeBlock x => withVariant "Misc" "StoreV0ToVx" x
  | loadBlock x => withVariant "Misc" "FillV0ToVx" x

end Instruction

end Chip8

import Chip8.Instruction

/-!
# Opcodes of instructions

Each instruction has one opcode; the other opcodes are no instructions.

## Main definitions

* `Arithmetic.code`, `Arithmetic.ofCode?`: the last nibble of an operation on two registers
* `Instruction.encode`: the opcode of an instruction
* `Instruction.decode`: the instruction of an opcode

## Main results

* `decode_encode`: an instruction is decoded from its opcode
* `encode_of_decode`: a decoded instruction has the opcode it was decoded from
-/

namespace Chip8

namespace Arithmetic

/-- The nibble `N` of `8XYN`. -/
def code : Arithmetic → Fin 16
  | assign => 0x0
  | or => 0x1
  | and => 0x2
  | xor => 0x3
  | add => 0x4
  | sub => 0x5
  | shiftRight => 0x6
  | subFrom => 0x7
  | shiftLeft => 0xE

/-- The operation that has the nibble `N`, if one has it. -/
def ofCode? (n : Fin 16) : Option Arithmetic :=
  match n with
  | 0x0 => some assign
  | 0x1 => some or
  | 0x2 => some and
  | 0x3 => some xor
  | 0x4 => some add
  | 0x5 => some sub
  | 0x6 => some shiftRight
  | 0x7 => some subFrom
  | 0xE => some shiftLeft
  | _ => none

theorem ofCode?_eq_some_iff {n : Fin 16} {op : Arithmetic} : ofCode? n = some op ↔ op.code = n := by
  revert n
  cases op <;> decide

end Arithmetic

namespace Instruction

/-- The opcode of an instruction. -/
def encode : Instruction → Opcode
  | clear => 0x00E0
  | ret => 0x00EE
  | jump nnn => .ofAddress 0x1 nnn
  | call nnn => .ofAddress 0x2 nnn
  | skipIf x nn => .ofByte 0x3 x nn
  | skipUnless x nn => .ofByte 0x4 x nn
  | skipIfSame x y => .ofNibbles 0x5 x y 0x0
  | set x nn => .ofByte 0x6 x nn
  | add x nn => .ofByte 0x7 x nn
  | arithmetic op x y => .ofNibbles 0x8 x y op.code
  | skipUnlessSame x y => .ofNibbles 0x9 x y 0x0
  | setIndex nnn => .ofAddress 0xA nnn
  | jumpOffset nnn => .ofAddress 0xB nnn
  | random x nn => .ofByte 0xC x nn
  | draw x y n => .ofNibbles 0xD x y n
  | skipIfDown x => .ofByte 0xE x 0x9E
  | skipUnlessDown x => .ofByte 0xE x 0xA1
  | readDelay x => .ofByte 0xF x 0x07
  | awaitKey x => .ofByte 0xF x 0x0A
  | setDelay x => .ofByte 0xF x 0x15
  | setSound x => .ofByte 0xF x 0x18
  | addIndex x => .ofByte 0xF x 0x1E
  | glyph x => .ofByte 0xF x 0x29
  | storeDecimal x => .ofByte 0xF x 0x33
  | storeBlock x => .ofByte 0xF x 0x55
  | loadBlock x => .ofByte 0xF x 0x65

/-- The instruction `FXNN`, if there is one. -/
def decodeMisc (x : Register) (nn : UInt8) : Option Instruction :=
  match nn with
  | 0x07 => some (readDelay x)
  | 0x0A => some (awaitKey x)
  | 0x15 => some (setDelay x)
  | 0x18 => some (setSound x)
  | 0x1E => some (addIndex x)
  | 0x29 => some (glyph x)
  | 0x33 => some (storeDecimal x)
  | 0x55 => some (storeBlock x)
  | 0x65 => some (loadBlock x)
  | _ => none

/-- The instruction that an opcode stands for, if there is one. -/
def decode (op : Opcode) : Option Instruction :=
  match op.family with
  | 0x0 => if op = 0x00E0 then some clear else if op = 0x00EE then some ret else none
  | 0x1 => some (jump op.nnn)
  | 0x2 => some (call op.nnn)
  | 0x3 => some (skipIf op.x op.nn)
  | 0x4 => some (skipUnless op.x op.nn)
  | 0x5 => if op.n = 0 then some (skipIfSame op.x op.y) else none
  | 0x6 => some (set op.x op.nn)
  | 0x7 => some (add op.x op.nn)
  | 0x8 => (Arithmetic.ofCode? op.n).map fun f => arithmetic f op.x op.y
  | 0x9 => if op.n = 0 then some (skipUnlessSame op.x op.y) else none
  | 0xA => some (setIndex op.nnn)
  | 0xB => some (jumpOffset op.nnn)
  | 0xC => some (random op.x op.nn)
  | 0xD => some (draw op.x op.y op.n)
  | 0xE =>
    match op.nn with
    | 0x9E => some (skipIfDown op.x)
    | 0xA1 => some (skipUnlessDown op.x)
    | _ => none
  | _ => decodeMisc op.x op.nn

/-- An instruction is decoded from its opcode. -/
@[simp] theorem decode_encode (i : Instruction) : decode i.encode = some i := by
  cases i
  case clear => rfl
  case ret => rfl
  all_goals simp [encode, decode, decodeMisc, Arithmetic.ofCode?_eq_some_iff]

theorem encode_of_decodeMisc {x : Register} {nn : UInt8} {i : Instruction}
    (h : decodeMisc x nn = some i) : i.encode = .ofByte 0xF x nn := by
  unfold decodeMisc at h
  split at h
  all_goals cases h
  all_goals rfl

/-- A decoded instruction has the opcode it was decoded from. -/
theorem encode_of_decode {op : Opcode} {i : Instruction} (h : decode op = some i) :
    i.encode = op := by
  unfold decode at h
  split at h
  case h_1 =>
    split at h
    case isTrue heq =>
      cases h
      exact heq.symm
    case isFalse =>
      obtain ⟨heq, h⟩ := Option.ite_none_right_eq_some.mp h
      cases h
      exact heq.symm
  case h_2 hf | h_3 hf | h_11 hf | h_12 hf =>
    cases h
    exact Opcode.ofAddress_of_family hf
  case h_4 hf | h_5 hf | h_7 hf | h_8 hf | h_13 hf =>
    cases h
    exact Opcode.ofByte_of_family hf
  case h_6 hf | h_10 hf =>
    obtain ⟨hn, h⟩ := Option.ite_none_right_eq_some.mp h
    cases h
    rw [encode, ← hn]
    exact Opcode.ofNibbles_of_family hf
  case h_9 hf =>
    obtain ⟨f, hcode, rfl⟩ := Option.map_eq_some_iff.mp h
    rw [encode, Arithmetic.ofCode?_eq_some_iff.mp hcode]
    exact Opcode.ofNibbles_of_family hf
  case h_14 hf =>
    cases h
    exact Opcode.ofNibbles_of_family hf
  case h_15 hf =>
    split at h
    case h_1 hnn | h_2 hnn =>
      cases h
      rw [encode, ← hnn]
      exact Opcode.ofByte_of_family hf
    case h_3 => cases h
  case h_16 =>
    have hf : op.family = 0xF := by grind
    rw [encode_of_decodeMisc h]
    exact Opcode.ofByte_of_family hf

/-- Decoding and encoding are inverse to each other. -/
theorem decode_eq_some_iff {op : Opcode} {i : Instruction} :
    decode op = some i ↔ i.encode = op :=
  ⟨encode_of_decode, fun h => h ▸ decode_encode i⟩

end Instruction

end Chip8

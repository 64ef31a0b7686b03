import Chip8.Proofs.Decoding
import Chip8.Proofs.GuardedDrawing

/-!
# Guarded steps

The step of a machine with a guard wherever a number has to name a cell or has to fit into a fixed
width. The operands of an instruction are cut out of its opcode with masks and are used as they are;
the index register and the counter may be anything. Nevertheless no guard ever tells a breach: a
guarded step does whatever the step does.

The guards are passed for different reasons. An operand has as many bits as the mask leaves of it. A
sum is too small for its width, since its summands are narrower. A range of memory was checked
before it is accessed. And the coordinates of a pixel wrap around.

## Main definitions

* `Opcode.maskedX`, `maskedY`, `maskedN`, `maskedNNN`: the operands, cut out of the opcode
* `Instruction.guardedAction`: what an instruction does, with guards
* `Machine.guardedExecute`, `Machine.guardedFetch`, `Machine.guardedStep`

## Main results

* `maskedX_eq`, `maskedY_eq`, `maskedN_eq`, `maskedNNN_eq`: the masks cut out the operands
* `guardedAction_encode`: an instruction does the same with guards
* `no_breach`: there is no breach in the step of a machine, nor in an instruction
-/

universe u

namespace Chip8

/-! ## Operands -/

namespace Opcode

variable (op : Opcode)

/-- The number of the register `X`. -/
def maskedX : Nat := ((op &&& 0x0FFF &&& 0xFF00) >>> 8).toNat

/-- The number of the register `Y`. -/
def maskedY : Nat := ((op &&& 0x00F0) >>> 4).toNat

/-- The number `N`. -/
def maskedN : Nat := (op &&& 0x000F).toNat

/-- The number `NNN`. -/
def maskedNNN : Nat := (op &&& 0x0FFF).toNat

@[simp] theorem maskedX_eq : op.maskedX = op.x := by
  have hmask : (0xFF00 : Nat) >>> 8 = 2 ^ 8 - 1 := by decide
  have hmask' : (0x0FFF : Nat) = 2 ^ 12 - 1 := by decide
  rw [maskedX, UInt16.toNat_shiftRight, UInt16.toNat_and, UInt16.toNat_and]
  simp only [UInt16.reduceToNat, Nat.reduceMod]
  rw [Nat.shiftRight_and_distrib, hmask, hmask', Nat.and_two_pow_sub_one_eq_mod,
    Nat.and_two_pow_sub_one_eq_mod, Nat.shiftRight_eq_div_pow]
  show op.toNat % 2 ^ 12 / 2 ^ 8 % 2 ^ 8 = op.toNat / 256 % 16
  omega

@[simp] theorem maskedY_eq : op.maskedY = op.y := by
  have hmask : (0x00F0 : Nat) >>> 4 = 2 ^ 4 - 1 := by decide
  rw [maskedY, UInt16.toNat_shiftRight, UInt16.toNat_and]
  simp only [UInt16.reduceToNat, Nat.reduceMod]
  rw [Nat.shiftRight_and_distrib, hmask, Nat.and_two_pow_sub_one_eq_mod,
    Nat.shiftRight_eq_div_pow, y]

@[simp] theorem maskedN_eq : op.maskedN = op.n := by
  rw [maskedN, UInt16.toNat_and]
  exact Nat.and_two_pow_sub_one_eq_mod op.toNat 4

@[simp] theorem maskedNNN_eq : op.maskedNNN = op.nnn := by
  rw [maskedNNN, UInt16.toNat_and]
  exact Nat.and_two_pow_sub_one_eq_mod op.toNat 12

end Opcode

/-- Restoring all registers, of which only a block is new, is restoring the block. -/
theorem Registers.restore_append_drop (r : Registers) (bytes : List UInt8) :
    r.restore (bytes ++ r.toList.drop bytes.length) = r.restore bytes := by
  ext z
  rw [get_restore, get_restore]
  by_cases hz : z.val < bytes.length
  · rw [List.getElem?_append_left hz]
  · have hle : bytes.length ≤ z.val := Nat.le_of_not_lt hz
    rw [List.getElem?_append_right hle, List.getElem?_drop, Nat.add_sub_cancel' hle,
      getElem?_toList, List.getElem?_eq_none hle, Option.getD_some, Option.getD_none]

/-! ## Actions -/

namespace GuardedAction

section Actions

variable {σ : Type u}

/-- An action that moves the counter, with nothing to react to. -/
def quietly (step : GuardedAction σ CounterStep) : GuardedAction σ (CounterStep × Signal) := do
  return (← step, .none)

/-- An action after which the counter goes on to the next instruction. -/
def thenNext (action : GuardedAction σ Unit) (signal : Signal := .none) :
    GuardedAction σ (CounterStep × Signal) := do
  action
  return (.next, signal)

/-- Skips the next instruction if a register fulfils a condition. -/
def skipOn (x : Nat) (condition : UInt8 → Bool) : GuardedAction σ CounterStep := do
  let vx ← getRegister x
  return .skipWhen (condition vx)

/-- Skips the next instruction if two registers fulfil a condition. -/
def skipOnBoth (x y : Nat) (condition : UInt8 → UInt8 → Bool) : GuardedAction σ CounterStep := do
  let vx ← getRegister x
  let vy ← getRegister y
  return .skipWhen (condition vx vy)

/-- Skips the next instruction if the key that `VX` stands for fulfils a condition. -/
def skipOnKey (x : Nat) (condition : Bool → Bool) : GuardedAction σ CounterStep := do
  let vx ← getRegister x
  let down ← of (Action.read fun m => m.keypad.isDown (vx.toNat % 16))
  return .skipWhen (condition down)

/-- Adds a byte to `VX`. -/
def add (x : Nat) (nn : UInt8) : GuardedAction σ Unit := do
  let vx ← getRegister x
  putRegister x (vx + nn)

/-- Computes with `VX` and `VY`. -/
def arithmetic (op : Arithmetic) (x y : Nat) : GuardedAction σ CounterStep := do
  let behaviour ← of (Action.read Machine.behaviour)
  let vx ← getRegister x
  let vy ← getRegister y
  let result := op.compute behaviour vx vy
  putRegister x result.1
  match result.2 with
  | some flag => putRegister 15 flag
  | none => pure ()
  return .next

/-- Jumps to `NNN` plus `VX` or `V0`. -/
def jumpOffset (x nnn : Nat) : GuardedAction σ CounterStep := do
  let behaviour ← of (Action.read Machine.behaviour)
  let offset ← getRegister (if behaviour.offsetIsVX then x else 0)
  let target ← guard (Guarded.within 16 (nnn + offset.toNat))
  return .jump (UInt16.ofNat target)

/-- Sets `VX` to a random byte, which is the only cell of a buffer at first. -/
def random (x : Nat) (nn : UInt8) : GuardedAction σ CounterStep := do
  let b ← of Action.takeRandom
  let b ← guard (Guarded.entry #v[b] 0)
  putRegister x (nn &&& b)
  return .next

/-- Sets `VX` to the delay timer. -/
def readDelay (x : Nat) : GuardedAction σ Unit := do
  let delay ← of (Action.read fun m => m.timers.delay)
  putRegister x delay

/-- Waits for a key. -/
def awaitKey (x : Nat) : GuardedAction σ (CounterStep × Signal) := do
  let pressed ← of (Action.read fun m => m.keypad.firstDown)
  match pressed with
  | some key =>
    of (Action.tell (.keyReceived key))
    putRegister x (UInt8.ofNat key)
    return (.next, .none)
  | none => return (.again, .wait)

/-- Sets the timers from `VX`. -/
def setTimers (x : Nat) (set : Timers → UInt8 → Timers) : GuardedAction σ Unit := do
  let vx ← getRegister x
  of (Action.change fun m => { m with timers := set m.timers vx })

/-- Adds `VX` to the index register. -/
def addIndex (x : Nat) : GuardedAction σ Unit := do
  let index ← of (Action.read Machine.index)
  let vx ← getRegister x
  let sum ← guard (Guarded.within 64 (index.toNat + vx.toNat))
  of (Action.setIndex (UInt16.ofNat (sum % 4096)))
  putRegister 15 (decide (4096 ≤ sum)).toUInt8

/-- Sets the index register to a glyph. -/
def glyph (x : Nat) : GuardedAction σ Unit := do
  let vx ← getRegister x
  let distance ← guard (Guarded.within 64 (glyphSize * (vx.toNat % 16)))
  let place ← guard (Guarded.within 64 (fontStart + distance))
  of (Action.setIndex (UInt16.ofNat place))

/-- Stores the decimal digits of `VX`. -/
def storeDecimal (x : Nat) : GuardedAction σ Unit := do
  let b ← getRegister x
  store (Machine.decimal b)

/-- The registers `V0` to `VX`. -/
def block (x : Nat) : GuardedAction σ (List UInt8) := look fun m =>
  Guarded.part m.registers.toList 0 (x + 1)

/-- Sets the registers `V0` to `VX`. -/
def restoreBlock (x : Nat) (bytes : List UInt8) : GuardedAction σ Unit := alter fun m =>
  (Guarded.replacePart m.registers.toList 0 (x + 1) bytes).map fun all =>
    { m with registers := m.registers.restore all }

/-- Moves the index register behind the block of `V0` to `VX`, if the level asks for it. -/
def moveIndexBehind (x : Nat) : GuardedAction σ Unit := do
  let behaviour ← of (Action.read Machine.behaviour)
  if behaviour.blocksAdvanceIndex then
    let count ← guard (Guarded.within 16 (x + 1))
    of (Action.change fun m => m.setIndex (m.index + UInt16.ofNat count))

/-- Stores `V0` to `VX`. -/
def storeBlock (x : Nat) : GuardedAction σ Unit := do
  let bytes ← block x
  store bytes
  moveIndexBehind x

/-- Loads `V0` to `VX`. -/
def loadBlock (x : Nat) : GuardedAction σ Unit := do
  let count ← guard (Guarded.within 64 (x + 1))
  let bytes ← sliceAtIndex count
  restoreBlock x bytes
  moveIndexBehind x

/-! The operands of an instruction are the numbers of registers, so its guarded form
has no breach. -/

@[simp] theorem quietly_of (step : Action σ CounterStep) :
    quietly (of step) = of (Action.quietly step) :=
  of_bind.symm

@[simp] theorem thenNext_of (action : Action σ Unit) (signal : Signal) :
    thenNext (of action) signal = of (Action.thenNext action signal) :=
  of_bind.symm

section Registers

variable (x y : Register)

@[simp] theorem skipOn_eq (condition : UInt8 → Bool) :
    (skipOn x condition : GuardedAction σ CounterStep) =
      of (Action.skipWhen fun m => condition (m.registers.get x)) := by
  simp only [skipOn, getRegister_eq, ← of_pure, ← of_bind]
  rfl

@[simp] theorem skipOnBoth_eq (condition : UInt8 → UInt8 → Bool) :
    (skipOnBoth x y condition : GuardedAction σ CounterStep) =
      of (Action.skipWhen fun m => condition (m.registers.get x) (m.registers.get y)) := by
  simp only [skipOnBoth, getRegister_eq, ← of_pure, ← of_bind]
  rfl

@[simp] theorem skipOnKey_eq (condition : Bool → Bool) :
    (skipOnKey x condition : GuardedAction σ CounterStep) =
      of (Action.skipWhen fun m => condition (m.keypad.isDown (m.keyOf x))) := by
  simp only [skipOnKey, getRegister_eq, ← of_pure, ← of_bind]
  rfl

@[simp] theorem add_eq (nn : UInt8) :
    (add x nn : GuardedAction σ Unit) =
      of (Action.change fun m => m.setRegister x (m.registers.get x + nn)) := by
  simp only [add, getRegister_eq, putRegister_eq, ← of_bind]
  rfl

@[simp] theorem readDelay_eq :
    (readDelay x : GuardedAction σ Unit) =
      of (Action.change fun m => m.setRegister x m.timers.delay) := by
  simp only [readDelay, putRegister_eq, ← of_bind]
  rfl

@[simp] theorem setTimers_eq (set : Timers → UInt8 → Timers) :
    (setTimers x set : GuardedAction σ Unit) =
      of (Action.change fun m => { m with timers := set m.timers (m.registers.get x) }) := by
  simp only [setTimers, getRegister_eq, ← of_bind]
  rfl

/-- The last register is the flag. -/
theorem putFlag_eq (b : UInt8) :
    (putRegister 15 b : GuardedAction σ Unit) = of (Action.setRegister .flag b) :=
  putRegister_eq .flag b

@[simp] theorem arithmetic_eq (op : Arithmetic) :
    (arithmetic op x y : GuardedAction σ CounterStep) = of (Action.arithmetic op x y) := by
  simp only [arithmetic, getRegister_eq, putRegister_eq, putFlag_eq]
  refine of_bind_of_result fun _ behaviour _ => of_bind_of_result fun _ vx _ =>
    of_bind_of_result fun _ vy _ => of_bind_of_result fun _ _ _ => ?_
  cases (op.compute behaviour vx vy).2 with
  | some flag => exact of_bind.symm
  | none => rfl

/-- The target of a jump with an offset fits into a word. -/
@[simp] theorem jumpOffset_eq (nnn : Fin 4096) :
    (jumpOffset (nnn / 256) nnn : GuardedAction σ CounterStep) = of (Action.jumpOffset nnn) := by
  have hregister (b : Behaviour) :
      (if b.offsetIsVX then nnn.val / 256 else 0) =
        (if b.offsetIsVX then ⟨nnn / 256, by omega⟩ else .first : Register).val := by
    split <;> rfl
  have htarget (b : UInt8) : Guarded.within 16 (nnn + b.toNat) = .ok (nnn + b.toNat) := by
    have hnnn := nnn.isLt
    have hb := b.toNat_lt
    exact Guarded.within_eq (by omega)
  simp only [jumpOffset, hregister, getRegister_eq, htarget, guard_ok_bind, ← of_pure, ← of_bind]
  rfl

@[simp] theorem random_eq (nn : UInt8) :
    (random x nn : GuardedAction σ CounterStep) = of (Action.random x nn) := by
  have hbuffer (b : UInt8) : Guarded.entry #v[b] 0 = .ok b := Guarded.entry_eq #v[b] (by decide)
  simp only [random, hbuffer, guard_ok_bind, putRegister_eq, ← of_pure, ← of_bind]
  rfl

@[simp] theorem awaitKey_eq :
    (awaitKey x : GuardedAction σ (CounterStep × Signal)) = of (Action.awaitKey x) := by
  refine of_bind_of_result fun _ pressed _ => ?_
  cases pressed with
  | some key =>
    simp only [putRegister_eq, ← of_pure, ← of_bind]
  | none => rfl

@[simp] theorem addIndex_eq : (addIndex x : GuardedAction σ Unit) = of (Action.addIndex x) := by
  have hsum (a : Address) (b : UInt8) : Guarded.within 64 (a.toNat + b.toNat) =
      .ok (a.toNat + b.toNat) := by
    have ha := a.toNat_lt
    have hb := b.toNat_lt
    exact Guarded.within_eq (by omega)
  simp only [addIndex, getRegister_eq, hsum, guard_ok_bind, putFlag_eq, ← of_bind]
  rfl

@[simp] theorem glyph_eq : (glyph x : GuardedAction σ Unit) = of (Action.glyph x) := by
  have hdistance (b : UInt8) : Guarded.within 64 (glyphSize * (b.toNat % 16)) =
      .ok (glyphSize * (b.toNat % 16)) := by
    unfold glyphSize
    exact Guarded.within_eq (by omega)
  have hplace (b : UInt8) : Guarded.within 64 (fontStart + glyphSize * (b.toNat % 16)) =
      .ok (fontStart + glyphSize * (b.toNat % 16)) := by
    unfold fontStart glyphSize
    exact Guarded.within_eq (by omega)
  simp only [glyph, getRegister_eq, hdistance, hplace, guard_ok_bind, ← of_bind]
  rfl

@[simp] theorem storeDecimal_eq :
    (storeDecimal x : GuardedAction σ Unit) = of (Action.storeDecimal x) := by
  have hstore (b : UInt8) : (store (Machine.decimal b) : GuardedAction σ Unit) =
      of (Action.store (Machine.decimal b)) := store_eq (show 3 < 2 ^ 16 by decide)
  simp only [storeDecimal, getRegister_eq, hstore, ← of_bind]
  rfl

theorem block_eq :
    (block x : GuardedAction σ (List UInt8)) = of (Action.read fun m => m.registers.block x) := by
  funext m
  show (Guarded.part m.registers.toList 0 (x + 1)).map _ = _
  rw [Guarded.part_eq _ (Nat.zero_le _) (by rw [Registers.length_toList]; omega)]
  rfl

/-- As many registers are set as there are bytes. -/
theorem restoreBlock_eq {bytes : List UInt8} (h : bytes.length = x + 1) :
    (restoreBlock x bytes : GuardedAction σ Unit) =
      of (Action.change fun m => { m with registers := m.registers.restore bytes }) := by
  funext m
  have hfits : 0 + bytes.length ≤ m.registers.toList.length := by
    rw [Registers.length_toList]
    omega
  have hreplace : Guarded.replacePart m.registers.toList 0 (x + 1) bytes =
      .ok (bytes ++ m.registers.toList.drop bytes.length) := by
    rw [← h, ← Nat.zero_add bytes.length, Guarded.replacePart_eq _ hfits, List.take_zero,
      List.nil_append, Nat.zero_add]
  show ((Guarded.replacePart m.registers.toList 0 (x + 1) bytes).map _).map _ = _
  rw [hreplace]
  -- the registers behind the block are set to what they are
  simp only [Except.map, Registers.restore_append_drop]
  rfl

theorem moveIndexBehind_eq :
    (moveIndexBehind x : GuardedAction σ Unit) = of (Action.moveIndexBehind x) := by
  have hcount : Guarded.within 16 (x + 1) = .ok (x + 1) := Guarded.within_eq (by omega)
  have hmove (b : Behaviour) (a : Action σ Unit) :
      (if b.blocksAdvanceIndex then of a else pure ()) =
        of (if b.blocksAdvanceIndex then a else pure ()) := by
    split <;> rfl
  simp only [moveIndexBehind, hcount, guard_ok_bind, hmove, ← of_bind]
  refine congrArg of (funext fun m => ?_)
  simp only [Action.bind_apply, Action.read_apply, Action.moveIndexBehind, Action.change_apply,
    Machine.indexBehind]
  split <;> rfl

@[simp] theorem storeBlock_eq :
    (storeBlock x : GuardedAction σ Unit) = of (Action.storeBlock x) := by
  rw [storeBlock, block_eq]
  refine of_bind_of_result fun m bytes hbytes => ?_
  have hlength : bytes.length < 2 ^ 16 := by
    rw [← Except.ok.inj hbytes, Registers.length_block]
    omega
  simp only [store_eq hlength, moveIndexBehind_eq, ← of_bind]

@[simp] theorem loadBlock_eq : (loadBlock x : GuardedAction σ Unit) = of (Action.loadBlock x) := by
  have hcount : Guarded.within 64 (x + 1) = .ok (x + 1) := Guarded.within_eq (by omega)
  rw [loadBlock, hcount, guard_ok_bind, sliceAtIndex_eq (by omega)]
  refine of_bind_of_result fun m bytes hbytes => ?_
  have hlength : bytes.length = x + 1 := Memory.length_of_slice_eq_ok hbytes
  simp only [restoreBlock_eq x hlength, moveIndexBehind_eq, ← of_bind]

end Registers

end Actions

/-- Draws the `N` bytes at the index register at the position `VX`, `VY`. -/
def draw (x y n : Nat) : GuardedAction Screen Unit := do
  let vx ← getRegister x
  let vy ← getRegister y
  let rows ← sliceAtIndex n
  let collided ← drawRows vx.toNat vy.toNat 0 rows
  putRegister 15 collided.toUInt8

@[simp] theorem draw_eq (x y : Register) (n : Fin 16) : draw x y n = of (Action.draw x y n) := by
  simp only [draw, getRegister_eq, putFlag_eq]
  refine of_bind_of_result fun _ vx _ => of_bind_of_result fun _ vy _ => ?_
  rw [sliceAtIndex_eq (by omega)]
  refine of_bind_of_result fun m rows hrows => ?_
  have hlength : rows.length = n := Memory.length_of_slice_eq_ok hrows
  have hx := vx.toNat_lt
  have hy := vy.toNat_lt
  rw [drawRows_eq (by omega) (by omega), of_bind]
  rfl

end GuardedAction

/-! ## Instructions -/

namespace Instruction

open GuardedAction Opcode

/-- What an instruction with the opcode `op` does, up to the step of the counter. The numbers of
registers are those in the opcode. -/
def guardedAction (op : Opcode) : Instruction → GuardedAction Screen (CounterStep × Signal)
  | clear => thenNext (of Action.clearSurface) .draw
  | ret => quietly (of Action.ret)
  | jump nnn => quietly (pure (.jump (UInt16.ofNat nnn)))
  | call nnn => quietly (of (Action.call nnn))
  | skipIf _ nn => quietly (skipOn op.maskedX fun vx => vx == nn)
  | skipUnless _ nn => quietly (skipOn op.maskedX fun vx => vx != nn)
  | skipIfSame _ _ => quietly (skipOnBoth op.maskedX op.maskedY fun vx vy => vx == vy)
  | set _ nn => thenNext (putRegister op.maskedX nn)
  | add _ nn => thenNext (GuardedAction.add op.maskedX nn)
  | arithmetic f _ _ => quietly (GuardedAction.arithmetic f op.maskedX op.maskedY)
  | skipUnlessSame _ _ => quietly (skipOnBoth op.maskedX op.maskedY fun vx vy => vx != vy)
  | setIndex nnn => thenNext (of (Action.setIndex (UInt16.ofNat nnn)))
  | jumpOffset _ => quietly (GuardedAction.jumpOffset op.maskedX op.maskedNNN)
  | random _ nn => quietly (GuardedAction.random op.maskedX nn)
  | draw _ _ _ => thenNext (GuardedAction.draw op.maskedX op.maskedY op.maskedN) .draw
  | skipIfDown _ => quietly (skipOnKey op.maskedX fun down => down)
  | skipUnlessDown _ => quietly (skipOnKey op.maskedX fun down => !down)
  | readDelay _ => thenNext (GuardedAction.readDelay op.maskedX)
  | awaitKey _ => GuardedAction.awaitKey op.maskedX
  | setDelay _ => thenNext (setTimers op.maskedX fun t vx => { t with delay := vx })
  | setSound _ => thenNext (setTimers op.maskedX fun t vx => { t with sound := vx })
  | addIndex _ => thenNext (GuardedAction.addIndex op.maskedX)
  | glyph _ => thenNext (GuardedAction.glyph op.maskedX)
  | storeDecimal _ => thenNext (GuardedAction.storeDecimal op.maskedX)
  | storeBlock _ => thenNext (GuardedAction.storeBlock op.maskedX)
  | loadBlock _ => thenNext (GuardedAction.loadBlock op.maskedX)

/-- **An instruction does the same with guards**, if its operands are those in its opcode. -/
theorem guardedAction_encode (i : Instruction) : i.guardedAction i.encode = of i.action := by
  cases i with
  | jump => exact quietly_of _
  | jumpOffset nnn =>
    rw [guardedAction, maskedX_eq, maskedNNN_eq, x_of_decode_jumpOffset (decode_encode _), encode,
      nnn_ofAddress, jumpOffset_eq, quietly_of]
    rfl
  | _ =>
    simp [guardedAction, encode, action]

end Instruction

/-! ## Steps -/

namespace Machine

/-- Executes an instruction with the opcode `op`, with guards. -/
def guardedExecute (m : Machine Screen) (op : Opcode) (i : Instruction) :
    Guarded (Reply (Machine Screen) (Except Cause Signal)) :=
  let executed : GuardedAction Screen Signal := do
    let done ← i.guardedAction op
    GuardedAction.of (Action.change fun m => m.advance done.1)
    return done.2
  executed m

/-- The opcode that the counter points to. The address of its second byte is a sum. -/
def guardedFetch (m : Machine Screen) : Guarded (Except Cause Opcode) :=
  match m.memory.read m.counter.toNat with
  | .error cause => .ok (.error cause)
  | .ok high => do
    let second ← Guarded.within 64 (m.counter.toNat + 1)
    match m.memory.read second with
    | .error cause => return .error cause
    | .ok low => return .ok (word high low)

/-- Executes the fetched opcode, with guards. -/
def guardedDispatch (m : Machine Screen) :
    Guarded (Reply (Machine Screen) (Except Fault Signal)) :=
  let fault (cause : Cause) : Fault := ⟨m.counter, some m.opcode, cause⟩
  match Instruction.decode m.opcode with
  | none => .ok ⟨m, .error (fault (.unknownOpcode m.opcode)), m.trace⟩
  | some i => do
    let done ← m.advanced.guardedExecute m.opcode i
    let notices := m.trace ++ .executing m.counter m.opcode i :: done.notices
    match done.result with
    | .ok signal => return ⟨done.state, .ok signal, notices⟩
    | .error cause =>
      return ⟨{ done.state with counter := m.counter }, .error (fault cause), notices⟩

/-- Executes the instruction that the counter points to, with guards. -/
def guardedStep (m : Machine Screen) : Guarded (Reply (Machine Screen) (Except Fault Signal)) := do
  match ← m.guardedFetch with
  | .error cause => return ⟨m, .error ⟨m.counter, none, cause⟩, []⟩
  | .ok op => (m.withOpcode op).guardedDispatch

theorem guardedExecute_encode (m : Machine Screen) (i : Instruction) :
    m.guardedExecute i.encode i = .ok (m.execute i) := by
  unfold guardedExecute execute
  rw [Instruction.guardedAction_encode]
  simp only [← GuardedAction.of_pure, ← GuardedAction.of_bind]
  rfl

theorem guardedFetch_eq (m : Machine Screen) : m.guardedFetch = .ok m.fetch := by
  have hcounter := m.counter.toNat_lt
  have hsecond : Guarded.within 64 (m.counter.toNat + 1) = .ok (m.counter.toNat + 1) :=
    Guarded.within_eq (by omega)
  unfold guardedFetch fetch
  cases m.memory.read m.counter.toNat with
  | error cause => rfl
  | ok high =>
    simp only [hsecond, bind, Except.bind]
    cases m.memory.read (m.counter.toNat + 1) with
    | error cause => rfl
    | ok low => rfl

theorem guardedDispatch_eq (m : Machine Screen) : m.guardedDispatch = .ok m.dispatch := by
  unfold guardedDispatch dispatch
  cases hd : Instruction.decode m.opcode with
  | none => rfl
  | some i =>
    rw [← Instruction.encode_of_decode hd]
    simp only [guardedExecute_encode, bind, Except.bind]
    cases hresult : (m.advanced.execute i).result with
    | ok signal => rfl
    | error cause => rfl

/-- **There is no breach in a step**, whatever the machine, nor in the execution of an instruction
whose operands are those in its opcode. -/
theorem no_breach :
    (∀ m : Machine Screen, m.guardedStep = .ok m.step) ∧
      ∀ (m : Machine Screen) (i : Instruction),
        m.guardedExecute i.encode i = .ok (m.execute i) := by
  refine ⟨fun m => ?_, guardedExecute_encode⟩
  unfold guardedStep step
  rw [guardedFetch_eq]
  cases m.fetch with
  | error cause => rfl
  | ok op => exact (m.withOpcode op).guardedDispatch_eq

end Machine

end Chip8

import Chip8.Machine.Execute

/-!
# Effects of instructions

The effect of an instruction is the change that it makes to a machine, in one piece. An instruction
makes at most one access that can be refused, and makes it before it changes anything, so a refused
instruction has no effect.

## Main definitions

* `Outcome`: the machine after an instruction, and how its counter is to be moved
* `Machine.effect`: the outcome of an instruction, or the cause for which it is refused

## Main results

* `action_apply`: what an instruction does is its effect
* `execute_of_ok`, `execute_of_error`: the execution of an instruction in terms of its effect
-/

universe u

namespace Chip8

/-- A result that was mapped comes from one that was there. -/
theorem map_eq_ok_iff {ε α β : Type _} {f : α → β} {r : Except ε α} {b : β} :
    r.map f = .ok b ↔ ∃ a, r = .ok a ∧ f a = b := by
  cases r <;> simp [Except.map]

theorem map_eq_error_iff {ε α β : Type _} {f : α → β} {r : Except ε α} {e : ε} :
    r.map f = .error e ↔ r = .error e := by
  cases r <;> simp [Except.map]

/-- What an instruction leads to. -/
structure Outcome (σ : Type u) where
  /-- The machine, its counter not yet moved. -/
  machine : Machine σ
  /-- How the counter is to be moved. -/
  step : CounterStep := .next
  signal : Signal := .none
  notices : List Notice := []

/-- The machine after an instruction. -/
def Outcome.final {σ : Type u} (o : Outcome σ) : Machine σ :=
  { o.machine with counter := o.step.apply o.machine.counter }

section Final

variable {σ : Type u} (o : Outcome σ)

@[simp] theorem Outcome.counter_final : o.final.counter = o.step.apply o.machine.counter := rfl

@[simp] theorem Outcome.index_final : o.final.index = o.machine.index := rfl

@[simp] theorem Outcome.stack_final : o.final.stack = o.machine.stack := rfl

/-- An instruction that goes on to the next one leaves the counter where it is. -/
@[simp] theorem Outcome.final_next (m : Machine σ) (signal : Signal) (notices : List Notice) :
    (Outcome.mk m .next signal notices).final = m := rfl

end Final

namespace Machine

variable {σ : Type u}

/-- The machine with the flag `VF` set, if there is a flag to set. -/
def setFlag (m : Machine σ) : Option UInt8 → Machine σ
  | some b => m.setRegister .flag b
  | none => m

section SetFlag

variable (m : Machine σ) (flag : Option UInt8)

@[simp] theorem counter_setFlag : (m.setFlag flag).counter = m.counter := by cases flag <;> rfl

@[simp] theorem index_setFlag : (m.setFlag flag).index = m.index := by cases flag <;> rfl

@[simp] theorem stack_setFlag : (m.setFlag flag).stack = m.stack := by cases flag <;> rfl

end SetFlag

/-- The effect of an operation on two registers. The flag is written last, so it is what `VF` holds
if `VF` is the target. -/
def arithmeticEffect (m : Machine σ) (op : Arithmetic) (x y : Register) : Outcome σ :=
  let result := op.compute m.behaviour (m.registers.get x) (m.registers.get y)
  { machine := (m.setRegister x result.1).setFlag result.2 }

/-- The effect of waiting for a key: the instruction is executed again until a key is down. -/
def awaitKeyEffect (m : Machine σ) (x : Register) : Outcome σ :=
  match m.keypad.firstDown with
  | some key =>
    { machine := m.setRegister x (UInt8.ofNat key), notices := [.keyReceived key] }
  | none => { machine := m, step := .again, signal := .wait }

/-- The effect of an addition to the index register. It keeps twelve bits; the flag says whether
more were needed. -/
def addIndexEffect (m : Machine σ) (x : Register) : Outcome σ :=
  let sum := m.index.toNat + (m.registers.get x).toNat
  { machine := { m.setRegister .flag (decide (4096 ≤ sum)).toUInt8 with
      index := UInt16.ofNat (sum % 4096) } }

variable [Surface σ]

/-- The effect of drawing a sprite, given its rows. -/
def drawEffect (m : Machine σ) (x y : Register) (rows : List UInt8) : Outcome σ :=
  let drawn := Surface.drawRows m.surface (m.registers.get x).toNat (m.registers.get y).toNat rows
  { machine := { m.setRegister .flag drawn.2.toUInt8 with surface := drawn.1 }, signal := .draw }

/-- The outcome of an instruction, or the cause for which it is refused. -/
def effect (m : Machine σ) : Instruction → Except Cause (Outcome σ)
  | .clear =>
    .ok { machine := { m with surface := Surface.clear m.surface }, signal := .draw }
  | .ret =>
    m.stack.pop.map fun popped =>
      { machine := { m with stack := popped.2 }, step := .jump popped.1,
        notices := [.returned popped.1] }
  | .jump nnn => .ok { machine := m, step := .jump (UInt16.ofNat nnn) }
  | .call nnn =>
    (m.stack.push m.counter).map fun stack =>
      { machine := { m with stack := stack }, step := .jump (UInt16.ofNat nnn),
        notices := [.called (UInt16.ofNat nnn) stack.depth] }
  | .skipIf x nn => .ok { machine := m, step := .skipWhen (m.registers.get x == nn) }
  | .skipUnless x nn => .ok { machine := m, step := .skipWhen (m.registers.get x != nn) }
  | .skipIfSame x y =>
    .ok { machine := m, step := .skipWhen (m.registers.get x == m.registers.get y) }
  | .set x nn => .ok { machine := m.setRegister x nn }
  | .add x nn => .ok { machine := m.setRegister x (m.registers.get x + nn) }
  | .arithmetic op x y => .ok (m.arithmeticEffect op x y)
  | .skipUnlessSame x y =>
    .ok { machine := m, step := .skipWhen (m.registers.get x != m.registers.get y) }
  | .setIndex nnn => .ok { machine := { m with index := UInt16.ofNat nnn } }
  | .jumpOffset nnn =>
    let offset := m.registers.get (m.offsetRegister nnn)
    .ok { machine := m, step := .jump (UInt16.ofNat (nnn + offset.toNat)) }
  | .random x nn =>
    .ok { machine := { m.setRegister x (nn &&& m.random.byte) with random := m.random.next } }
  | .draw x y n => (m.memory.slice m.index.toNat n).map fun rows => m.drawEffect x y rows
  | .skipIfDown x => .ok { machine := m, step := .skipWhen (m.keypad.isDown (m.keyOf x)) }
  | .skipUnlessDown x => .ok { machine := m, step := .skipWhen (!m.keypad.isDown (m.keyOf x)) }
  | .readDelay x => .ok { machine := m.setRegister x m.timers.delay }
  | .awaitKey x => .ok (m.awaitKeyEffect x)
  | .setDelay x =>
    .ok { machine := { m with timers := { m.timers with delay := m.registers.get x } } }
  | .setSound x =>
    .ok { machine := { m with timers := { m.timers with sound := m.registers.get x } } }
  | .addIndex x => .ok (m.addIndexEffect x)
  | .glyph x =>
    .ok { machine := { m with index := UInt16.ofNat (fontStart + glyphSize * m.keyOf x) } }
  | .storeDecimal x =>
    (m.memory.load m.index.toNat (decimal (m.registers.get x))).map fun memory =>
      { machine := { m with memory := memory } }
  | .storeBlock x =>
    (m.memory.load m.index.toNat (m.registers.block x)).map fun memory =>
      { machine := { m with memory := memory, index := m.indexBehind x } }
  | .loadBlock x =>
    (m.memory.slice m.index.toNat (x.val + 1)).map fun bytes =>
      { machine := { m with registers := m.registers.restore bytes, index := m.indexBehind x } }

/-- A sprite that lies inside of memory is drawn. -/
theorem effect_draw_of_inside {m : Machine σ} {n : Fin 16}
    (h : m.index.toNat + n ≤ Memory.size) (x y : Register) :
    m.effect (.draw x y n) =
      .ok (m.drawEffect x y ((List.range n).map fun k => m.memory.byte (m.index.toNat + k))) :=
  map_eq_ok_iff.mpr ⟨_, Memory.slice_eq m.memory h, rfl⟩

/-- The reply of an action that has an effect, or that is refused before it changed anything. -/
def replyOf (m : Machine σ) :
    Except Cause (Outcome σ) → Reply (Machine σ) (Except Cause (CounterStep × Signal))
  | .ok o => ⟨o.machine, .ok (o.step, o.signal), o.notices⟩
  | .error cause => ⟨m, .error cause, []⟩

/-- **What an instruction does is its effect.** Whatever refuses it comes before all that it
changes. -/
theorem action_apply (m : Machine σ) (i : Instruction) : i.action m = m.replyOf (m.effect i) := by
  cases i
  case ret =>
    cases h : m.stack.pop <;>
      simp [Instruction.action, Action.quietly, Action.ret, Action.takeFrame_apply, effect, replyOf,
        Except.map, h]
  case call nnn =>
    cases h : m.stack.push m.counter <;>
      simp [Instruction.action, Action.quietly, Action.call, Action.putFrame_apply, effect, replyOf,
        Except.map, h]
  case arithmetic op x y =>
    cases h : (op.compute m.behaviour (m.registers.get x) (m.registers.get y)).2 <;>
      simp [Instruction.action, Action.quietly, Action.arithmetic, effect, replyOf,
        arithmeticEffect, setFlag, h]
  case draw x y n =>
    cases h : m.memory.slice m.index.toNat n <;>
      simp [Instruction.action, Action.thenNext, Action.draw, Action.sliceAtIndex,
        Action.drawRows_apply, effect, replyOf, drawEffect, setRegister, Except.map, h]
  case awaitKey x =>
    cases h : m.keypad.firstDown <;>
      simp [Instruction.action, Action.awaitKey, effect, replyOf, awaitKeyEffect, h]
  case storeDecimal x =>
    cases h : m.memory.load m.index.toNat (decimal (m.registers.get x)) <;>
      simp [Instruction.action, Action.thenNext, Action.storeDecimal, Action.store_apply, effect,
        replyOf, Except.map, h]
  case storeBlock x =>
    cases h : m.memory.load m.index.toNat (m.registers.block x) <;>
      simp [Instruction.action, Action.thenNext, Action.storeBlock, Action.store_apply,
        Action.moveIndexBehind, effect, replyOf, setIndex, indexBehind, behaviour, Except.map, h]
  case loadBlock x =>
    cases h : m.memory.slice m.index.toNat (x.val + 1) <;>
      simp [Instruction.action, Action.thenNext, Action.loadBlock, Action.sliceAtIndex,
        Action.moveIndexBehind, effect, replyOf, setIndex, indexBehind, behaviour, Except.map, h]
  all_goals rfl

theorem execute_of_ok {m : Machine σ} {i : Instruction} {o : Outcome σ} (h : m.effect i = .ok o) :
    m.execute i = ⟨o.final, .ok o.signal, o.notices⟩ := by
  have ha : i.action m = ⟨o.machine, .ok (o.step, o.signal), o.notices⟩ := by
    rw [action_apply, h, replyOf]
  simp [execute, ha, advance, Outcome.final]

/-- A refused instruction changes nothing. -/
theorem execute_of_error {m : Machine σ} {i : Instruction} {cause : Cause}
    (h : m.effect i = .error cause) : m.execute i = ⟨m, .error cause, []⟩ := by
  have ha : i.action m = ⟨m, .error cause, []⟩ := by rw [action_apply, h, replyOf]
  simp [execute, ha]

end Machine

end Chip8

import Chip8.Proofs.Control
import Chip8.Proofs.Lockstep
import Chip8.Proofs.WriteSets

/-!
# Where levels disagree

Two machines at two levels, equal in everything else, stay so for as long as they do not execute an
instruction on which their levels differ. Which instructions these are is a matter of the levels and
of the operands: a shift of a register into itself is the same at all levels, and so is a jump with
an offset whose first digit is zero. What is refused does not tell levels apart at all.

## Main definitions

* `Level.differOn`: the instructions on which two levels differ
* `Machine.TwinsAt`: machines at two levels that are equal in everything else
* `Moment.TellsApart`: the moments at which two levels can be told apart

## Main results

* `differOn_eq_false_iff`: what the levels have in common on the other instructions
* `effect_atLevel`: an instruction on which two levels do not differ has the same effect at both
* `twins_until_difference`: twins run alike up to the first instruction on which their levels differ
-/

universe u

namespace Chip8

namespace Instruction

/-- `8XY1`, `8XY2` and `8XY3`. -/
def isBitwise : Instruction → Bool
  | arithmetic .or _ _ | arithmetic .and _ _ | arithmetic .xor _ _ => true
  | _ => false

/-- `8XY6` and `8XYE`, from one register into another. -/
def isShiftAcross : Instruction → Bool
  | arithmetic .shiftRight x y | arithmetic .shiftLeft x y => x != y
  | _ => false

/-- `BXNN`, with an `X` that is not zero. -/
def isOffsetJump : Instruction → Bool
  | jumpOffset nnn => nnn.val / 256 != 0
  | _ => false

/-- `FX55` and `FX65`. -/
def isBlock : Instruction → Bool
  | storeBlock _ | loadBlock _ => true
  | _ => false

end Instruction

/-- **The instructions on which two levels differ.** The three levels in between do not differ from
each other on any. -/
def Level.differOn : Level → Level → Instruction → Bool
  | chip8, chip8, _ | xochip, xochip, _ => false
  | chip8, xochip, i | xochip, chip8, i => i.isBitwise || i.isOffsetJump || i.isBlock
  | chip8, _, i | _, chip8, i => i.isBitwise || i.isShiftAcross || i.isOffsetJump || i.isBlock
  | xochip, _, i | _, xochip, i => i.isShiftAcross
  | _, _, _ => false

section Behaviour

variable {a b : Level} {i : Instruction}

/-- Levels that do not differ on an instruction agree on the point that it depends on. -/
theorem Level.differOn_eq_false_iff :
    a.differOn b i = false ↔
      (i.isBitwise = true → a.behaviour.logicClearsFlag = b.behaviour.logicClearsFlag) ∧
      (i.isShiftAcross = true → a.behaviour.shiftsVY = b.behaviour.shiftsVY) ∧
      (i.isOffsetJump = true → a.behaviour.offsetIsVX = b.behaviour.offsetIsVX) ∧
      (i.isBlock = true → a.behaviour.blocksAdvanceIndex = b.behaviour.blocksAdvanceIndex) := by
  cases a <;> cases b <;> simp [differOn, behaviour, and_assoc]

end Behaviour

/-- A shift of a register into itself moves the same byte at all levels. -/
theorem Behaviour.shifted_self (b : Behaviour) (v : UInt8) : b.shifted v v = v := by
  unfold shifted
  split <;> rfl

/-- The bitwise operations and the shifts are the ones whose results depend on the level. -/
theorem Arithmetic.compute_eq_of_differOn {a b : Level} {op : Arithmetic} {x y : Register}
    {v : Register → UInt8} (h : a.differOn b (.arithmetic op x y) = false) :
    op.compute b.behaviour (v x) (v y) = op.compute a.behaviour (v x) (v y) := by
  obtain ⟨hlogic, hshift, -, -⟩ := Level.differOn_eq_false_iff.mp h
  cases op with
  | assign | add | sub | subFrom => rfl
  | or | and | xor =>
    unfold compute Behaviour.logicFlag
    rw [hlogic rfl]
  | shiftRight | shiftLeft =>
    by_cases hxy : x = y
    · subst hxy
      simp only [compute, Behaviour.shifted_self]
    · have hacross : (x != y) = true := bne_iff_ne.mpr hxy
      unfold compute Behaviour.shifted
      rw [hshift hacross]

namespace Machine

variable {σ : Type u}

/-- The machine at another level. -/
def atLevel (m : Machine σ) (l : Level) : Machine σ := { m with level := l }

theorem isLateral_atLevel (b : Level) : IsLateral fun m : Machine σ => m.atLevel b := {}

section AtLevel

variable {m : Machine σ} {b : Level}

@[simp] theorem registers_atLevel : (m.atLevel b).registers = m.registers := rfl

theorem jumpTarget_atLevel {nnn : Fin 4096}
    (h : m.level.differOn b (.jumpOffset nnn) = false) :
    (m.atLevel b).jumpTarget nnn = m.jumpTarget nnn := by
  obtain ⟨-, -, hoffset, -⟩ := Level.differOn_eq_false_iff.mp h
  unfold jumpTarget offsetRegister behaviour
  by_cases hfirst : nnn.val / 256 = 0
  · have hzero : (⟨nnn / 256, by omega⟩ : Register) = Register.first := Fin.ext hfirst
    rw [hzero, ite_self, ite_self, registers_atLevel]
  · rw [atLevel, hoffset (bne_iff_ne.mpr hfirst)]

theorem indexBehind_atLevel {x : Register}
    (h : m.level.behaviour.blocksAdvanceIndex = b.behaviour.blocksAdvanceIndex) :
    (m.atLevel b).indexBehind x = m.indexBehind x := by
  unfold indexBehind behaviour
  rw [h]
  rfl

variable [Surface σ]

/-- An instruction on which two levels do not differ has the same effect at both. -/
theorem effect_atLevel {i : Instruction} (h : m.level.differOn b i = false) :
    (m.atLevel b).effect i = (m.effect i).map (.withMachine fun m => m.atLevel b) := by
  cases i with
  | arithmetic op x y =>
    have hcompute := Arithmetic.compute_eq_of_differOn (v := m.registers.get) h
    exact congrArg Except.ok ((isLateral_atLevel b).arithmeticEffect hcompute)
  | awaitKey x => exact congrArg Except.ok ((isLateral_atLevel b).awaitKeyEffect m x)
  | jumpOffset nnn =>
    have hstep := congrArg CounterStep.jump (jumpTarget_atLevel h)
    exact congrArg (fun step => Except.ok ({ machine := m.atLevel b, step } : Outcome σ)) hstep
  | ret | call | draw | storeDecimal => exact map_withMachine fun _ => rfl
  | storeBlock x | loadBlock x =>
    obtain ⟨-, -, -, hblock⟩ := Level.differOn_eq_false_iff.mp h
    refine map_withMachine fun _ => ?_
    rw [indexBehind_atLevel (hblock rfl)]
    rfl
  | _ => rfl

end AtLevel

/-- **Twins**: machines at two levels that are equal in everything else. -/
structure TwinsAt (a b : Level) (m n : Machine σ) : Prop where
  level : m.level = a
  twin : n = m.atLevel b

section Run

variable [Surface σ] {a b : Level} {m n : Machine σ}

/-- The instruction that is executed is one on which the levels differ. -/
def Moment.TellsApart (a b : Level) (t : Moment σ) : Prop :=
  ∃ i, t.executed? = some i ∧ a.differOn b i = true

theorem Moment.not_tellsApart_iff {t : Moment σ} :
    ¬t.TellsApart a b ↔ ∀ i ∈ t.executed?, a.differOn b i = false := by
  unfold TellsApart
  simp only [not_exists, not_and, Bool.not_eq_true, Option.mem_def]

theorem level_step (m : Machine σ) : m.step.state.level = m.level := by
  rcases m.state_step_cases with ⟨op, hstate⟩ | ⟨i, -, hwrites⟩
  · rw [hstate]
    rfl
  · exact hwrites.level

/-- Twins step alike unless they execute an instruction on which their levels differ. -/
theorem TwinsAt.step (h : TwinsAt a b m n)
    (hsame : ∀ i ∈ m.executed?, a.differOn b i = false) :
    Reply.Alike (TwinsAt a b) m.step n.step := by
  obtain ⟨rfl, rfl⟩ := h
  obtain ⟨hresult, hstate⟩ := (isLateral_atLevel b).step fun op i hi =>
    effect_atLevel (m := (m.withOpcode op).advanced) (hsame i hi)
  exact ⟨hresult.symm, m.level_step, hstate⟩

/-- Twins do alike whatever they are asked for, unless the level of one of them is set. -/
theorem TwinsAt.perform (h : TwinsAt a b m n) {c : Command} (hlevel : ∀ l, c ≠ .setLevel l)
    (hsame : ∀ i ∈ Moment.executed? ⟨m, c⟩, a.differOn b i = false) :
    Reply.Alike (TwinsAt a b) (m.perform c) (n.perform c) := by
  cases c with
  | step =>
    obtain ⟨hresult, hstate⟩ := h.step hsame
    exact ⟨congrArg Response.ofStep hresult, hstate⟩
  | setLevel l => exact absurd rfl (hlevel l)
  | loadProgram bytes =>
    obtain ⟨rfl, rfl⟩ := h
    simp only [Machine.perform, loadProgram, writeProgram, atLevel]
    cases m.memory.load programStart bytes <;> exact ⟨rfl, rfl, rfl⟩
  | loadRom | loadFont =>
    obtain ⟨rfl, rfl⟩ := h
    simp only [Machine.perform, loadRom_eq, loadFont_eq]
    exact ⟨rfl, rfl, rfl⟩
  | tick | reset | setDebug | keys =>
    obtain ⟨rfl, rfl⟩ := h
    exact ⟨rfl, rfl, rfl⟩

/-- **Where levels part.** Machines that are equal in everything but their levels give the same
answers and stay equal in everything else, up to the first step at which they execute an instruction
on which the levels differ. If there is no such step, they do so throughout the run. A machine whose
level is set is changed in nothing else. -/
theorem twins_until_difference (a b : Level) (m : Machine σ) (cs : List Command)
    (hlevel : ∀ l, Command.setLevel l ∉ cs) :
    (∃ agreed rest, cs = agreed ++ rest ∧
      (∀ p, p <+: agreed →
        Reply.Alike (TwinsAt a b) ((m.atLevel a).performAll p) ((m.atLevel b).performAll p)) ∧
      (∀ t ∈ (m.atLevel a).moments agreed, ∀ i ∈ t.executed?, a.differOn b i = false) ∧
      (rest = [] ∨ ∃ i after, rest = .step :: after ∧
        ((m.atLevel a).performAll agreed).state.executed? = some i ∧
        ((m.atLevel b).performAll agreed).state.executed? = some i ∧ a.differOn b i = true)) ∧
    ∀ l, (m.setLevel l).state = { m with level := l } := by
  refine ⟨?_, fun l => rfl⟩
  have hperform : ∀ c ∈ cs, ∀ m n : Machine σ, TwinsAt a b m n → ¬Moment.TellsApart a b ⟨m, c⟩ →
      Reply.Alike (TwinsAt a b) (m.perform c) (n.perform c) := by
    intro c hc m n htwins hnone
    exact htwins.perform (fun l hl => hlevel l (hl ▸ hc)) (Moment.not_tellsApart_iff.mp hnone)
  have hstart : TwinsAt a b (m.atLevel a) (m.atLevel b) := ⟨rfl, rfl⟩
  obtain ⟨agreed, rest, hcs, halike, hnone, hrest⟩ := exists_alike_prefix _ hperform hstart
  refine ⟨agreed, rest, hcs, halike, fun t ht => Moment.not_tellsApart_iff.mp (hnone t ht), ?_⟩
  cases rest with
  | nil => exact .inl rfl
  | cons c after =>
    obtain ⟨i, hi, hdiffer⟩ := hrest c rfl
    obtain rfl : c = .step := Moment.command_of_executed? hi
    refine .inr ⟨i, after, rfl, hi, ?_, hdiffer⟩
    -- the machines are still twins, so the other one executes the same instruction
    rw [(halike agreed (List.prefix_refl _)).state.twin]
    exact ((isLateral_atLevel b).executed? _).trans hi

end Run

/-- A program that shifts `V1` into `V0`. -/
def shiftingRom : Rom := ⟨"shifting", [0x61, 0x06, 0x80, 0x16], by decide⟩

/-- Two levels that do not shift the same register do not leave the same register. So the run gets
to an instruction on which they differ. -/
theorem twins_until_difference_shiftingRom :
    let m := build (some shiftingRom) .xochip Screen.blank .released (.cycle #[])
    let cs : List Command := [.step, .step]
    (∀ l, Command.setLevel l ∉ cs) ∧
      ∃ agreed after i, cs = agreed ++ .step :: after ∧
        ((m.atLevel .xochip).performAll agreed).state.executed? = some i ∧
        ((m.atLevel .schip11).performAll agreed).state.executed? = some i ∧
        Level.xochip.differOn .schip11 i = true := by
  intro m cs
  have hlevel : ∀ l, Command.setLevel l ∉ cs := by simp [cs]
  refine ⟨hlevel, ?_⟩
  obtain ⟨⟨agreed, rest, hcs, halike, -, hrest⟩, -⟩ :=
    twins_until_difference .xochip .schip11 m cs hlevel
  rcases hrest with rfl | ⟨i, after, rfl, hleft, hright, hdiffer⟩
  · rw [List.append_nil] at hcs
    have htwin := (halike cs (hcs ▸ List.prefix_refl _)).state.twin
    have hregisters := congrArg (fun n => n.registers.get 0) htwin
    exact absurd hregisters (by decide +kernel)
  · exact ⟨agreed, after, i, hcs, hleft, hright, hdiffer⟩

end Machine

end Chip8

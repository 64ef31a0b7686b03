import Chip8.Proofs.Lockstep
import Chip8.Proofs.WriteSets
import Mathlib.Logic.Function.Iterate

/-!
# Interleavings of steps and ticks

The timers count down by a clock of their own, so a tick can come before any step. Only three
instructions notice: the one that reads the delay timer and the two that set a timer. Where none of
them is executed, ticks can be moved past steps, and every interleaving of the same steps and ticks
is one in which all ticks come first.

## Main definitions

* `Instruction.usesTimers`: the instructions that read or set a timer
* `Machine.IsQuiet`, `Machine.RunsQuietly`: no such instruction is executed
* `Machine.Interleaves`: the interleavings of steps and ticks
* `Machine.stepResults`: the results of the steps of a run

## Main results

* `effect_tick`: an instruction that does not use the timers does not notice a tick
* `step_iterate_tick`: ticks can be moved past a step
* `stepResults_of_interleaves`: an interleaving leads to where its ticks, and then its steps, lead
* `interleavings_agree`: interleavings of the same steps and ticks agree
-/

universe u

namespace Chip8

/-- `FX07`, `FX15` and `FX18`. -/
def Instruction.usesTimers : Instruction → Bool
  | readDelay _ | setDelay _ | setSound _ => true
  | _ => false

namespace Machine

variable {σ : Type u}

theorem isLateral_tick : IsLateral (tick : Machine σ → Machine σ) := {}

variable [Surface σ]

/-- An instruction that does not use the timers does not notice a tick. -/
theorem effect_tick (m : Machine σ) {i : Instruction} (h : i.usesTimers = false) :
    m.tick.effect i = (m.effect i).map (.withMachine tick) := by
  cases i with
  | readDelay | setDelay | setSound => cases h
  | arithmetic op x y => exact congrArg Except.ok (isLateral_tick.arithmeticEffect rfl)
  | awaitKey x => exact congrArg Except.ok (isLateral_tick.awaitKeyEffect m x)
  | ret | call | draw | storeDecimal | storeBlock | loadBlock => exact map_withMachine fun _ => rfl
  | _ => rfl

/-! ## Quiet machines -/

/-- The machine is not about to execute an instruction that uses the timers. -/
def IsQuiet (m : Machine σ) : Prop := ∀ i ∈ m.executed?, i.usesTimers = false

/-- No step of the run executes an instruction that uses the timers. -/
def RunsQuietly (m : Machine σ) (cs : List Command) : Prop :=
  ∀ t ∈ m.moments cs, ∀ i ∈ t.executed?, i.usesTimers = false

/-- The result of the step at a moment, if the command is one. -/
def Moment.stepResult? (t : Moment σ) : Option (Except Fault Signal) :=
  match t.command with
  | .step => some t.machine.step.result
  | _ => none

/-- The results of the steps of a run, in order. -/
def stepResults (m : Machine σ) (cs : List Command) : List (Except Fault Signal) :=
  (m.moments cs).filterMap Moment.stepResult?

instance (m : Machine σ) : Decidable m.IsQuiet :=
  inferInstanceAs (Decidable (∀ i ∈ m.executed?, i.usesTimers = false))

instance (m : Machine σ) (cs : List Command) : Decidable (m.RunsQuietly cs) :=
  inferInstanceAs (Decidable (∀ t ∈ m.moments cs, ∀ i ∈ t.executed?, i.usesTimers = false))

section Equations

variable (m : Machine σ) (cs : List Command)

theorem runsQuietly_step :
    m.RunsQuietly (.step :: cs) ↔ m.IsQuiet ∧ m.step.state.RunsQuietly cs :=
  List.forall_mem_cons

theorem runsQuietly_tick : m.RunsQuietly (.tick :: cs) ↔ m.tick.RunsQuietly cs := by
  unfold RunsQuietly
  rw [moments_cons, List.forall_mem_cons]
  exact and_iff_right fun i hi => nomatch hi

theorem stepResults_step :
    m.stepResults (.step :: cs) = m.step.result :: m.step.state.stepResults cs := rfl

theorem stepResults_tick : m.stepResults (.tick :: cs) = m.tick.stepResults cs := rfl

end Equations

section Quiet

variable {m : Machine σ}

theorem isQuiet_tick : m.tick.IsQuiet ↔ m.IsQuiet := by
  unfold IsQuiet
  rw [isLateral_tick.executed? m]

theorem isQuiet_iterate_tick {t : Nat} : (tick^[t] m).IsQuiet ↔ m.IsQuiet := by
  induction t generalizing m with
  | zero => exact Iff.rfl
  | succ t ih => exact ih.trans isQuiet_tick

/-- Ticks can be moved past a step, also if that is a fault. -/
theorem step_iterate_tick (h : m.IsQuiet) (t : Nat) :
    (tick^[t] m).step.result = m.step.result ∧ (tick^[t] m).step.state = tick^[t] m.step.state := by
  induction t generalizing m with
  | zero => exact ⟨rfl, rfl⟩
  | succ t ih =>
    obtain ⟨hresult, hstate⟩ := isLateral_tick.step fun op i hi =>
      (m.withOpcode op).advanced.effect_tick (h i hi)
    obtain ⟨hresults, hstates⟩ := ih (isQuiet_tick.mpr h)
    rw [Function.iterate_succ_apply, Function.iterate_succ_apply, ← hstate]
    exact ⟨hresults.trans hresult, hstates⟩

/-- A quiet step leaves the timers alone. -/
theorem timers_step (h : m.IsQuiet) : m.step.state.timers = m.timers := by
  rcases m.state_step_cases with ⟨op, hstate⟩ | ⟨i, hi, hwrites⟩
  · rw [hstate]
    rfl
  · have hdelay : m.step.state.timers.delay = m.timers.delay := by
      apply hwrites.delay
      rintro x rfl
      cases h _ hi
    have hsound : m.step.state.timers.sound = m.timers.sound := by
      apply hwrites.sound
      rintro x rfl
      cases h _ hi
    calc m.step.state.timers
        = ⟨m.step.state.timers.delay, m.step.state.timers.sound⟩ := rfl
      _ = m.timers := by rw [hdelay, hsound]

end Quiet

/-! ## Interleavings -/

/-- **The interleavings** of `s` steps and `t` ticks. -/
inductive Interleaves : Nat → Nat → List Command → Prop
  | nil : Interleaves 0 0 []
  | step {s t : Nat} {cs : List Command} (rest : Interleaves s t cs) :
    Interleaves (s + 1) t (.step :: cs)
  | tick {s t : Nat} {cs : List Command} (rest : Interleaves s t cs) :
    Interleaves s (t + 1) (.tick :: cs)

section Run

variable {m : Machine σ} {s t : Nat} {cs : List Command}

/-- Whether a run is quiet does not depend on when the ticks come. -/
theorem runsQuietly_iff (h : Interleaves s t cs) :
    m.RunsQuietly cs ↔ (tick^[t] m).RunsQuietly (List.replicate s .step) := by
  induction h generalizing m with
  | nil => exact Iff.rfl
  | tick rest ih =>
    rw [runsQuietly_tick, Function.iterate_succ_apply]
    exact ih
  | step rest ih =>
    rw [List.replicate_succ, runsQuietly_step, runsQuietly_step, isQuiet_iterate_tick]
    refine and_congr_right fun hquiet => ?_
    rw [(step_iterate_tick hquiet _).2]
    exact ih

/-- A quiet interleaving leads to where its ticks, and then its steps, lead. -/
theorem stepResults_of_interleaves (h : Interleaves s t cs)
    (hquiet : (tick^[t] m).RunsQuietly (List.replicate s .step)) :
    m.stepResults cs = (tick^[t] m).stepResults (List.replicate s .step) ∧
      (m.performAll cs).state = ((tick^[t] m).performAll (List.replicate s .step)).state := by
  induction h generalizing m with
  | nil => exact ⟨rfl, rfl⟩
  | tick rest ih =>
    rw [Function.iterate_succ_apply] at hquiet ⊢
    rw [stepResults_tick]
    exact ih hquiet
  | @step s t cs rest ih =>
    rw [List.replicate_succ, runsQuietly_step, isQuiet_iterate_tick] at hquiet
    obtain ⟨hfirst, hrest⟩ := hquiet
    obtain ⟨hresult, hstate⟩ := step_iterate_tick hfirst t
    rw [hstate] at hrest
    obtain ⟨hresults, hstates⟩ := ih hrest
    rw [List.replicate_succ, stepResults_step, stepResults_step, hresult, hstate, hresults]
    refine ⟨rfl, ?_⟩
    calc (m.performAll (.step :: cs)).state
        = ((tick^[t] m.step.state).performAll (List.replicate s .step)).state := hstates
      _ = ((tick^[t] m).step.state.performAll (List.replicate s .step)).state := by rw [hstate]

/-- The timers count the ticks down to zero. -/
theorem timers_of_interleaves (h : Interleaves s t cs) (hquiet : m.RunsQuietly cs) :
    (m.performAll cs).state.timers.delay.toNat = m.timers.delay.toNat - t ∧
      (m.performAll cs).state.timers.sound.toNat = m.timers.sound.toNat - t := by
  induction h generalizing m with
  | nil => exact ⟨rfl, rfl⟩
  | step rest ih =>
    rw [runsQuietly_step] at hquiet
    rw [← timers_step hquiet.1]
    exact ih hquiet.2
  | @tick s t cs rest ih =>
    have hone (a : UInt8) : (countDown a).toNat - t = a.toNat - (t + 1) := by
      rw [toNat_countDown, Nat.sub_sub, Nat.add_comm]
    rw [← hone, ← hone]
    exact ih ((runsQuietly_tick m cs).mp hquiet)

/-- **Steps and ticks commute** where no instruction is executed that uses the timers, whether the
steps succeed or not. So two interleavings of the same steps and ticks have the same results and the
same end if one of them is free of such instructions, and both timers are then counted down by the
ticks, or to zero. -/
theorem interleavings_agree :
    (∀ m : Machine σ, m.IsQuiet →
      m.tick.step.result = m.step.result ∧ m.tick.step.state = m.step.state.tick) ∧
    ∀ (m : Machine σ) (s t : Nat) (cs ds : List Command),
      Interleaves s t cs → Interleaves s t ds → m.RunsQuietly cs →
      m.stepResults cs = m.stepResults ds ∧
        (m.performAll cs).state = (m.performAll ds).state ∧
        (m.performAll cs).state.timers.delay.toNat = m.timers.delay.toNat - t ∧
        (m.performAll cs).state.timers.sound.toNat = m.timers.sound.toNat - t := by
  refine ⟨fun m hquiet => step_iterate_tick hquiet 1, fun m s t cs ds hcs hds hquiet => ?_⟩
  have hsteps := (runsQuietly_iff hcs).mp hquiet
  obtain ⟨hresults, hstate⟩ := stepResults_of_interleaves hcs hsteps
  obtain ⟨hresults', hstate'⟩ := stepResults_of_interleaves hds hsteps
  exact ⟨hresults.trans hresults'.symm, hstate.trans hstate'.symm,
    timers_of_interleaves hcs hquiet⟩

end Run

/-- A program of one instruction. What comes behind it in memory is no instruction. -/
def settingRom : Rom := ⟨"setting", [0x6A, 0x05], by decide⟩

/-- The second step is a fault, and time passes before it, after it or in between. -/
theorem interleavings_agree_settingRom :
    let m : Machine Screen :=
      { build (some settingRom) .chip8 Screen.blank .released (.cycle #[]) with timers := ⟨3, 1⟩ }
    let cs : List Command := [.step, .tick, .tick, .step]
    let ds : List Command := [.tick, .step, .step, .tick]
    m.IsQuiet ∧ m.tick.step.state = m.step.state.tick ∧ Interleaves 2 2 cs ∧ Interleaves 2 2 ds ∧
      m.RunsQuietly cs ∧ m.stepResults cs = m.stepResults ds ∧
      (m.performAll cs).state = (m.performAll ds).state ∧
      (m.performAll cs).state.timers.delay.toNat = 1 ∧
      (m.performAll cs).state.timers.sound.toNat = 0 := by
  intro m cs ds
  obtain ⟨hquiet, hruns⟩ : m.IsQuiet ∧ m.RunsQuietly cs := by decide +kernel
  have hcs : Interleaves 2 2 cs := .step (.tick (.tick (.step .nil)))
  have hds : Interleaves 2 2 ds := .tick (.step (.step (.tick .nil)))
  obtain ⟨-, hstep⟩ := interleavings_agree.1 m hquiet
  obtain ⟨hresults, hstate, hdelay, hsound⟩ := interleavings_agree.2 m 2 2 cs ds hcs hds hruns
  exact ⟨hquiet, hstep, hcs, hds, hruns, hresults, hstate, hdelay, hsound⟩

end Machine

end Chip8

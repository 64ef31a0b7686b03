import Chip8.Console
import Chip8.Proofs.StepCases
import Chip8.Screen
import Mathlib.Data.List.Induction

/-!
# A console refines its machine

A console shares its machine between two clocks and a host. Whatever the order in which these act,
the machine is in the state of a machine of its own to which the deeds of the clocks and of the host
were done in that order. The clocks do no more than the events before tell: a firing of the timer
clock is a tick until the clocks are stopped, and a firing of the instruction clock is a step until
the clocks are stopped or such a step was a fault.

## Main definitions

* `Deed`, `Machine.after`: what is done to a machine, and the machine after it
* `Machine.firstFault`: the first fault of the steps among some deeds
* `Machine.deeds`: the deeds of a sequence of events
* `Console.clockNotices`: what is told when the clocks fire
* `Console.Agrees`: a console agrees with a machine of its own
* `Console.driven`: the console of a machine after some events

## Main results

* `agrees_handle`, `agrees_driven`: a console agrees with its machine after every event
* `refinement_of_start`: the refinement, with what it says about the halt
-/

universe u

namespace Chip8

/-- Something that is done to a machine. -/
inductive Deed (σ : Type u) where
  | step
  | tick
  | host (action : Machine σ → Reply (Machine σ) Unit)

namespace Console

/-- Whether the event is the stopping of the clocks. -/
def Event.isStop {σ : Type u} : Event σ → Bool
  | stop => true
  | _ => false

end Console

namespace Machine

variable {σ : Type u} [Surface σ]

/-- The machine after a deed. -/
def afterDeed (m : Machine σ) : Deed σ → Machine σ
  | .step => m.step.state
  | .tick => m.tick
  | .host action => (action m).state

/-- The machine after some deeds, one after the other. -/
def after (m : Machine σ) (ds : List (Deed σ)) : Machine σ := ds.foldl afterDeed m

/-- The fault of a deed. What the host does is none, even if it is a step that is refused. -/
def faultOf? (m : Machine σ) : Deed σ → Option Fault
  | .step =>
    match m.step.result with
    | .ok _ => none
    | .error fault => some fault
  | .tick => none
  | .host _ => none

/-- The first fault of some deeds, one after the other. -/
def firstFault (m : Machine σ) : List (Deed σ) → Option Fault
  | [] => none
  | d :: ds => (m.faultOf? d).or ((m.afterDeed d).firstFault ds)

/-- The deeds of some events, the last one of which comes first. An event leads to at most one deed;
whether it does depends on the events before it. -/
def deedsBack (m : Machine σ) : List (Console.Event σ) → List (Deed σ)
  | [] => []
  | e :: past =>
    let done := m.deedsBack past
    match e with
    | .instruction =>
      if past.any Console.Event.isStop || (m.firstFault done).isSome then done
      else done ++ [.step]
    | .timer => if past.any Console.Event.isStop then done else done ++ [.tick]
    | .host action => done ++ [.host action]
    | .stop => done

/-- **The deeds of some events**, in the order of the events. -/
def deeds (m : Machine σ) (es : List (Console.Event σ)) : List (Deed σ) := m.deedsBack es.reverse

section Deeds

variable (m : Machine σ) (ds ds' : List (Deed σ)) (d : Deed σ) (es : List (Console.Event σ))

@[simp] theorem after_append : m.after (ds ++ ds') = (m.after ds).after ds' :=
  List.foldl_append

@[simp] theorem after_singleton : m.after [d] = m.afterDeed d := rfl

/-- A later fault does not replace an earlier one. -/
theorem firstFault_append :
    m.firstFault (ds ++ ds') = (m.firstFault ds).or ((m.after ds).firstFault ds') := by
  induction ds generalizing m with
  | nil => rfl
  | cons d ds ih =>
    rw [List.cons_append, firstFault, firstFault, ih, Option.or_assoc]
    rfl

@[simp] theorem firstFault_singleton : m.firstFault [d] = m.faultOf? d := by
  simp [firstFault]

theorem faultOf?_step_of_ok {m : Machine σ} {signal : Signal} (h : m.step.result = .ok signal) :
    m.faultOf? .step = none := by
  rw [faultOf?, h]

theorem faultOf?_step_of_error {m : Machine σ} {fault : Fault}
    (h : m.step.result = .error fault) : m.faultOf? .step = some fault := by
  rw [faultOf?, h]

theorem deeds_concat_instruction :
    m.deeds (es ++ [.instruction]) =
      if es.any Console.Event.isStop || (m.firstFault (m.deeds es)).isSome then m.deeds es
      else m.deeds es ++ [.step] := by
  simp [deeds, deedsBack]

theorem deeds_concat_timer :
    m.deeds (es ++ [.timer]) =
      if es.any Console.Event.isStop then m.deeds es else m.deeds es ++ [.tick] := by
  simp [deeds, deedsBack]

theorem deeds_concat_host (action : Machine σ → Reply (Machine σ) Unit) :
    m.deeds (es ++ [.host action]) = m.deeds es ++ [.host action] := by
  simp [deeds, deedsBack]

theorem deeds_concat_stop : m.deeds (es ++ [.stop]) = m.deeds es := by
  simp [deeds, deedsBack]

/-- What was done for the first events is not undone by later ones. -/
theorem exists_deeds_append (es' : List (Console.Event σ)) :
    ∃ later, m.deeds (es ++ es') = m.deeds es ++ later := by
  -- the later events one by one: each adds a deed or none
  induction es' using List.reverseRecOn with
  | nil => exact ⟨[], by simp⟩
  | append_singleton es' e ih =>
    obtain ⟨later, hlater⟩ := ih
    rw [← List.append_assoc]
    cases e with
    | instruction =>
      rw [deeds_concat_instruction, hlater]
      split
      · exact ⟨later, rfl⟩
      · exact ⟨later ++ [.step], List.append_assoc _ _ _⟩
    | timer =>
      rw [deeds_concat_timer, hlater]
      split
      · exact ⟨later, rfl⟩
      · exact ⟨later ++ [.tick], List.append_assoc _ _ _⟩
    | host action =>
      rw [deeds_concat_host, hlater]
      exact ⟨later ++ [.host action], List.append_assoc _ _ _⟩
    | stop =>
      rw [deeds_concat_stop, hlater]
      exact ⟨later, rfl⟩

end Deeds

end Machine

namespace Console

variable {σ : Type u}

theorem any_isStop_concat (es : List (Event σ)) {e : Event σ} (he : e.isStop = false) :
    (es ++ [e]).any Event.isStop = es.any Event.isStop := by
  simp [he]

variable [Surface σ]

section Handle

variable (c : Console σ) (es es' : List (Event σ)) (e : Event σ)

theorem state_handleAll_append :
    (c.handleAll (es ++ es')).state = ((c.handleAll es).state.handleAll es').state := by
  induction es generalizing c with
  | nil => rfl
  | cons e es ih => exact ih (c.handle e).state

/-- What is told at an event, unless it is told by the host. -/
def clockNoticesAt : Event σ → List Notice
  | .host _ => []
  | e => (c.handle e).notices

/-- What is told when the clocks of a console fire, without what the host tells. -/
def clockNotices (c : Console σ) : List (Event σ) → List Notice
  | [] => []
  | e :: es => c.clockNoticesAt e ++ (c.handle e).state.clockNotices es

theorem clockNotices_concat :
    c.clockNotices (es ++ [e]) =
      c.clockNotices es ++ (c.handleAll es).state.clockNoticesAt e := by
  induction es generalizing c with
  | nil => simp [clockNotices, handleAll]
  | cons e' es ih => simp [clockNotices, handleAll, ih]

end Handle

/-- **A console agrees with a machine of its own** to which the deeds of some events were done. -/
structure Agrees (c : Console σ) (m : Machine σ) (es : List (Event σ)) : Prop where
  machine : c.machine = m.after (m.deeds es)
  halt : c.halt = m.firstFault (m.deeds es)
  halted : c.isHalted = c.halt.isSome
  instructionClock : c.instructionClock.isRunning = !es.any Event.isStop
  timerClock : c.timerClock.isRunning = !es.any Event.isStop

/-- The ways in which the instruction clock fires. -/
inductive FiringCase (c : Console σ) : Prop
  | stopped (running : c.instructionClock.isRunning = false)
      (fire : c.fireInstruction = ⟨c, false, []⟩)
  | halted (running : c.instructionClock.isRunning = true) (halted : c.isHalted = true)
      (fire : c.fireInstruction = ⟨c, true, []⟩)
  | executed (signal : Signal) (running : c.instructionClock.isRunning = true)
      (halted : c.isHalted = false) (result : c.machine.step.result = .ok signal)
      (fire : c.fireInstruction =
        ⟨{ c with machine := c.machine.step.state }, true, c.machine.step.notices⟩)
  | faulted (fault : Fault) (running : c.instructionClock.isRunning = true)
      (halted : c.isHalted = false) (result : c.machine.step.result = .error fault)
      (fire : c.fireInstruction =
        ⟨{ c with
            machine := c.machine.step.state
            halt := some fault
            instructionClock := c.instructionClock.halt }, true,
          c.machine.step.notices ++ [.halted fault]⟩)

theorem fireInstruction_cases (c : Console σ) : c.FiringCase := by
  cases hr : c.instructionClock.isRunning with
  | false => exact .stopped hr (by simp [fireInstruction, hr])
  | true =>
    cases hh : c.isHalted with
    | true => exact .halted hr hh (by simp [fireInstruction, hr, hh])
    | false =>
      cases hs : c.machine.step.result with
      | ok signal => exact .executed signal hr hh hs (by simp [fireInstruction, hr, hh, hs])
      | error fault => exact .faulted fault hr hh hs (by simp [fireInstruction, hr, hh, hs])

section Agrees

variable {c : Console σ} {m : Machine σ} {es : List (Event σ)}

theorem agrees_start (m : Machine σ) (rates : Rates) : (start m rates).Agrees m [] :=
  ⟨rfl, rfl, rfl, rfl, rfl⟩

/-- Whether an agreeing console executes an instruction can be told from the events so far. -/
theorem Agrees.isIdle_eq (h : c.Agrees m es) :
    (es.any Event.isStop || (m.firstFault (m.deeds es)).isSome) =
      (!c.instructionClock.isRunning || c.isHalted) := by
  rw [h.halted, h.halt, h.instructionClock, Bool.not_not]

theorem Agrees.halt_eq_none (h : c.Agrees m es) (hh : c.isHalted = false) : c.halt = none := by
  rw [← Option.not_isSome_iff_eq_none, ← h.halted, hh]
  exact Bool.false_ne_true

/-- An event that leads to no deed leaves an agreeing console as it was. -/
theorem Agrees.concat_of_idle {e : Event σ} (h : c.Agrees m es) (he : e.isStop = false)
    (hdeeds : m.deeds (es ++ [e]) = m.deeds es) : c.Agrees m (es ++ [e]) := by
  constructor
  case machine => rw [hdeeds, h.machine]
  case halt => rw [hdeeds, h.halt]
  case halted => exact h.halted
  case instructionClock => rw [any_isStop_concat es he, h.instructionClock]
  case timerClock => rw [any_isStop_concat es he, h.timerClock]

/-- An event that leads to a deed does it to the machine of an agreeing console. The console keeps
its fault, if it has one already. -/
theorem Agrees.concat_of_deed {c' : Console σ} {e : Event σ} {d : Deed σ} (h : c.Agrees m es)
    (he : e.isStop = false) (hdeeds : m.deeds (es ++ [e]) = m.deeds es ++ [d])
    (hmachine : c'.machine = c.machine.afterDeed d)
    (hhalt : c'.halt = c.halt.or (c.machine.faultOf? d))
    (hhalted : c'.isHalted = c'.halt.isSome)
    (hinstruction : c'.instructionClock.isRunning = c.instructionClock.isRunning)
    (htimer : c'.timerClock.isRunning = c.timerClock.isRunning) : c'.Agrees m (es ++ [e]) := by
  constructor
  case machine => rw [hdeeds, Machine.after_append, ← h.machine, hmachine, Machine.after_singleton]
  case halt =>
    rw [hdeeds, Machine.firstFault_append, ← h.machine, Machine.firstFault_singleton, ← h.halt,
      hhalt]
  case halted => exact hhalted
  case instructionClock => rw [any_isStop_concat es he, hinstruction, h.instructionClock]
  case timerClock => rw [any_isStop_concat es he, htimer, h.timerClock]

/-- The instruction clock fires. -/
theorem Agrees.fireInstruction (h : c.Agrees m es) :
    c.fireInstruction.state.Agrees m (es ++ [.instruction]) := by
  have hidle := h.isIdle_eq
  have hdeeds := m.deeds_concat_instruction es
  rcases c.fireInstruction_cases with ⟨hr, hfire⟩ | ⟨hr, hh, hfire⟩ | ⟨_, hr, hh, hresult, hfire⟩ |
    ⟨fault, hr, hh, hresult, hfire⟩
  · rw [hr, Bool.not_false, Bool.true_or] at hidle
    rw [if_pos hidle] at hdeeds
    rw [hfire]
    exact h.concat_of_idle rfl hdeeds
  · rw [hh, Bool.or_true] at hidle
    rw [if_pos hidle] at hdeeds
    rw [hfire]
    exact h.concat_of_idle rfl hdeeds
  · rw [hr, hh, Bool.not_true, Bool.or_false] at hidle
    rw [hidle, if_neg Bool.false_ne_true] at hdeeds
    have hhalt : c.halt = c.halt.or (c.machine.faultOf? .step) := by
      rw [Machine.faultOf?_step_of_ok hresult, Option.or_none]
    rw [hfire]
    exact h.concat_of_deed rfl hdeeds rfl hhalt h.halted rfl rfl
  · rw [hr, hh, Bool.not_true, Bool.or_false] at hidle
    rw [hidle, if_neg Bool.false_ne_true] at hdeeds
    have hnone : c.halt = none := h.halt_eq_none hh
    have hhalt : some fault = c.halt.or (c.machine.faultOf? .step) := by
      rw [hnone, Machine.faultOf?_step_of_error hresult, Option.none_or]
    rw [hfire]
    exact h.concat_of_deed rfl hdeeds rfl hhalt rfl rfl rfl

/-- The timer clock fires. -/
theorem Agrees.fireTimer (h : c.Agrees m es) : c.fireTimer.state.Agrees m (es ++ [.timer]) := by
  have hclock := h.timerClock
  have hdeeds := m.deeds_concat_timer es
  unfold Console.fireTimer
  cases hstopped : es.any Event.isStop with
  | true =>
    rw [hstopped, Bool.not_true] at hclock
    rw [if_pos hstopped] at hdeeds
    rw [hclock, if_neg Bool.false_ne_true]
    exact h.concat_of_idle rfl hdeeds
  | false =>
    rw [hstopped, Bool.not_false] at hclock
    rw [hstopped, if_neg Bool.false_ne_true] at hdeeds
    rw [if_pos hclock]
    exact h.concat_of_deed rfl hdeeds rfl (Option.or_none).symm h.halted rfl rfl

/-- The host uses the machine. -/
theorem Agrees.useMachine (h : c.Agrees m es) (action : Machine σ → Reply (Machine σ) Unit) :
    (c.useMachine action).state.Agrees m (es ++ [.host action]) :=
  h.concat_of_deed rfl (m.deeds_concat_host es action) rfl (Option.or_none).symm h.halted rfl rfl

/-- The clocks are stopped. -/
theorem Agrees.stop (h : c.Agrees m es) : c.stop.Agrees m (es ++ [.stop]) := by
  have hdeeds := m.deeds_concat_stop es
  have hany : (es ++ [Event.stop]).any Event.isStop = true := by simp [Event.isStop]
  constructor
  case machine => rw [hdeeds, ← h.machine]; rfl
  case halt => rw [hdeeds, ← h.halt]; rfl
  case halted => exact h.halted
  case instructionClock => rw [hany]; rfl
  case timerClock => rw [hany]; rfl

/-- A console agrees with its machine after every event. -/
theorem agrees_handle (h : c.Agrees m es) (e : Event σ) :
    (c.handle e).state.Agrees m (es ++ [e]) := by
  cases e with
  | instruction => exact h.fireInstruction
  | timer => exact h.fireTimer
  | host action => exact h.useMachine action
  | stop => exact h.stop

/-- The errors told at an event are the fault that halts the console at it. -/
theorem Agrees.recorded_clockNoticesAt (h : c.Agrees m es) (e : Event σ) :
    (c.handle e).state.halt.toList.map Notice.halted =
      c.halt.toList.map Notice.halted ++ Notice.recorded .error (c.clockNoticesAt e) := by
  cases e with
  | instruction =>
    change c.fireInstruction.state.halt.toList.map Notice.halted =
      c.halt.toList.map Notice.halted ++ Notice.recorded .error c.fireInstruction.notices
    rcases c.fireInstruction_cases with ⟨_, hfire⟩ | ⟨_, _, hfire⟩ | ⟨_, _, _, _, hfire⟩ |
      ⟨fault, _, hh, _, hfire⟩
    · rw [hfire]
      exact (List.append_nil _).symm
    · rw [hfire]
      exact (List.append_nil _).symm
    · rw [hfire, c.machine.recorded_notices_step, List.append_nil]
    · have hnone : c.halt = none := h.halt_eq_none hh
      rw [hfire, Notice.recorded_append, c.machine.recorded_notices_step, hnone]
      rfl
  | timer =>
    change c.fireTimer.state.halt.toList.map Notice.halted =
      c.halt.toList.map Notice.halted ++ Notice.recorded .error c.fireTimer.notices
    unfold Console.fireTimer
    split <;> exact (List.append_nil _).symm
  | host action => exact (List.append_nil _).symm
  | stop => exact (List.append_nil _).symm

end Agrees

section Start

variable (m : Machine σ) (rates : Rates) (es : List (Event σ))

/-- The console of a machine after some events. -/
def driven : Console σ := ((start m rates).handleAll es).state

theorem driven_append (es' : List (Event σ)) :
    driven m rates (es ++ es') = ((driven m rates es).handleAll es').state :=
  state_handleAll_append (start m rates) es es'

theorem agrees_driven : (driven m rates es).Agrees m es := by
  induction es using List.reverseRecOn with
  | nil => exact agrees_start m rates
  | append_singleton es e ih =>
    rw [driven_append]
    exact agrees_handle ih e

/-- There is one error for the fault that halted the console, and no other. -/
theorem recorded_clockNotices :
    Notice.recorded .error ((start m rates).clockNotices es) =
      (driven m rates es).halt.toList.map Notice.halted := by
  induction es using List.reverseRecOn with
  | nil => rfl
  | append_singleton es e ih =>
    rw [clockNotices_concat, Notice.recorded_append, ih, driven_append]
    exact ((agrees_driven m rates es).recorded_clockNoticesAt e).symm

/-- A fault that halted a console is never replaced nor forgotten. -/
theorem halt_driven_append {fault : Fault} (es' : List (Event σ))
    (h : (driven m rates es).halt = some fault) :
    (driven m rates (es ++ es')).halt = some fault := by
  obtain ⟨later, hlater⟩ := m.exists_deeds_append es es'
  rw [(agrees_driven m rates es).halt] at h
  rw [(agrees_driven m rates (es ++ es')).halt, hlater, Machine.firstFault_append, h,
    Option.some_or]

/-- **A console refines its machine**, whatever the order of the events. The console is halted by
the first fault of its instruction clock, tells that fault once, and keeps it. It runs until it is
stopped. -/
theorem refinement_of_start :
    (driven m rates es).machine = m.after (m.deeds es) ∧
      (driven m rates es).halt = m.firstFault (m.deeds es) ∧
      (driven m rates es).isHalted = (driven m rates es).halt.isSome ∧
      (∀ fault es', (driven m rates es).halt = some fault →
        (driven m rates (es ++ es')).halt = some fault) ∧
      (Notice.recorded .error ((start m rates).clockNotices es)).map Notice.text =
        (driven m rates es).halt.toList.map (fun fault => "halting after: " ++ fault.text) ∧
      (driven m rates es).isRunning = !es.any Event.isStop := by
  have h : (driven m rates es).Agrees m es := agrees_driven m rates es
  refine ⟨h.machine, h.halt, h.halted, ?_, ?_, ?_⟩
  · exact fun fault es' => halt_driven_append m rates es es'
  · rw [recorded_clockNotices, List.map_map]
    rfl
  · rw [isRunning, h.instructionClock, h.timerClock, Bool.or_self]

/-- A machine that has nothing to execute. -/
def withoutProgram : Machine Screen := .new Screen.blank .released (.cycle #[])

/-- Its console is halted for good when the instruction clock fires for the first time. -/
theorem refinement_of_start_withoutProgram :
    (driven withoutProgram {} [.instruction]).halt =
        some ⟨0x200, some 0, .unknownOpcode 0⟩ ∧
      ∀ es, (driven withoutProgram {} ([.instruction] ++ es)).halt =
        some ⟨0x200, some 0, .unknownOpcode 0⟩ := by
  have hhalt : (driven withoutProgram {} [.instruction]).halt =
      some ⟨0x200, some 0, .unknownOpcode 0⟩ := by
    decide +kernel
  obtain ⟨-, -, -, hkeeps, -⟩ := refinement_of_start withoutProgram {} [.instruction]
  exact ⟨hhalt, fun es => hkeeps _ es hhalt⟩

end Start

end Console

end Chip8

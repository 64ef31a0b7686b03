import Chip8.Proofs.FaultCondition
import Chip8.Proofs.Keys
import Chip8.Proofs.Runs
import Chip8.Screen

/-!
# What a surface is asked to do

The surface is cleared by a reset and by the instruction that clears it, and rows are drawn on it by
the instruction that draws a sprite; nothing else reaches it. What it is asked to do can be observed
by a recorder between the machine and its surface, which neither of them notices.

## Main definitions

* `SurfaceRequest`: what is asked of a surface, without the answer
* `Machine.watchedBy`, `Machine.unwatched`: a machine with a recorder in front of its surface, and
  the machine without it
* `Machine.requestsOf`, `Moment.requests`: what an instruction, and what a command, asks of the
  surface

## Main results

* `effect_watchedBy`, `step_watchedBy`, `performAll_watchedBy`: a recorder changes nothing, and
  remembers the calls of an instruction, of a step and of a run
* `signal_of_effect`: which signal an instruction gives
* `requests_of_run`: a run asks its surface for what its commands ask for, one after the other
-/

universe u

namespace Chip8

/-- What is asked of a surface. -/
inductive SurfaceRequest where
  | clear
  | drawRow (x y : Nat) (row : UInt8)
  deriving DecidableEq, Repr

namespace SurfaceCall

/-- What was asked. -/
def request : SurfaceCall → SurfaceRequest
  | clear => .clear
  | drawRow x y row _ => .drawRow x y row

/-- Whether the answer was that a pixel was unset. -/
def collided : SurfaceCall → Bool
  | clear => false
  | drawRow _ _ _ collided => collided

end SurfaceCall

section Rows

variable {σ : Type u} [Surface σ]

/-- The calls by which rows are drawn on a surface, one below the other. -/
def Surface.rowCalls (s : σ) (x y : Nat) : List UInt8 → List SurfaceCall
  | [] => []
  | row :: rows =>
    let drawn := drawRow s x y row
    .drawRow x y row drawn.2 :: rowCalls drawn.1 x (y + 1) rows

theorem getElem?_map_request_rowCalls (s : σ) (x y : Nat) (rows : List UInt8) (k : Nat) :
    ((Surface.rowCalls s x y rows).map SurfaceCall.request)[k]? =
      rows[k]?.map fun row => .drawRow x (y + k) row := by
  induction rows generalizing s y k with
  | nil => rfl
  | cons row rows ih =>
    cases k with
    | zero => rfl
    | succ k =>
      have hlater := ih (Surface.drawRow s x y row).1 (y + 1) k
      rwa [Nat.add_right_comm y 1 k] at hlater

/-- The surface's answer to a sprite is that one of its rows unset a pixel. -/
theorem any_collided_rowCalls (s : σ) (x y : Nat) (rows : List UInt8) :
    (Surface.rowCalls s x y rows).any SurfaceCall.collided = (Surface.drawRows s x y rows).2 := by
  induction rows generalizing s y with
  | nil => rfl
  | cons row rows ih => exact congrArg ((Surface.drawRow s x y row).2 || ·) (ih _ (y + 1))

/-- A recorder remembers each row that is drawn on it. -/
theorem past_drawRows (r : Recorder σ) (x y : Nat) (rows : List UInt8) :
    (Surface.drawRows r x y rows).1.past =
      (Surface.rowCalls r.surface x y rows).reverse ++ r.past := by
  induction rows generalizing r y with
  | nil => rfl
  | cons row rows ih =>
    have hlater := ih (Surface.drawRow r x y row).1 (y + 1)
    simp only [Surface.drawRows, Surface.rowCalls, List.reverse_cons, List.append_assoc]
    exact hlater

/-- A recorder changes nothing about the drawing of a sprite. -/
theorem drawRows_watched (s : σ) (past : List SurfaceCall) (x y : Nat) (rows : List UInt8) :
    Surface.drawRows (⟨s, past⟩ : Recorder σ) x y rows =
      (⟨(Surface.drawRows s x y rows).1, (Surface.rowCalls s x y rows).reverse ++ past⟩,
        (Surface.drawRows s x y rows).2) := by
  have hpast := past_drawRows ⟨s, past⟩ x y rows
  obtain ⟨hsurface, hanswer⟩ := Prod.mk.inj (Recorder.drawRows_recorder ⟨s, past⟩ x y rows)
  rw [← hsurface, ← hanswer, ← hpast]

end Rows

namespace Machine

variable {σ : Type u}

/-- The machine with a recorder in front of its surface, which already remembers some calls. -/
def watchedBy (m : Machine σ) (past : List SurfaceCall) : Machine (Recorder σ) :=
  { m with surface := ⟨m.surface, past⟩ }

/-- The machine without the recorder in front of its surface. -/
def unwatched (m : Machine (Recorder σ)) : Machine σ := { m with surface := m.surface.surface }

@[simp] theorem surface_watchedBy (m : Machine σ) (past : List SurfaceCall) :
    (m.watchedBy past).surface = ⟨m.surface, past⟩ := rfl

/-- What an instruction asks of the surface. -/
def requestsOf (m : Machine σ) : Instruction → List SurfaceRequest
  | .clear => [.clear]
  | .draw x y n =>
    (List.range n).map fun k =>
      .drawRow (m.registers.get x).toNat ((m.registers.get y).toNat + k)
        (m.memory.byte (m.index.toNat + k))
  | _ => []

theorem setFlag_watchedBy (m : Machine σ) (past : List SurfaceCall) (flag : Option UInt8) :
    (m.watchedBy past).setFlag flag = (m.setFlag flag).watchedBy past := by
  cases flag <;> rfl

variable [Surface σ]

/-- The calls by which an instruction uses the surface. -/
def callsOf (m : Machine σ) : Instruction → List SurfaceCall
  | .clear => [.clear]
  | .draw x y n =>
    Surface.rowCalls m.surface (m.registers.get x).toNat (m.registers.get y).toNat
      ((List.range n).map fun k => m.memory.byte (m.index.toNat + k))
  | _ => []

/-- The calls of an instruction ask for what it asks for. -/
theorem map_request_callsOf (m : Machine σ) (i : Instruction) :
    (m.callsOf i).map SurfaceCall.request = m.requestsOf i := by
  cases i with
  | draw x y n =>
    refine List.ext_getElem? fun k => ?_
    rw [callsOf, requestsOf, getElem?_map_request_rowCalls, List.getElem?_map, List.getElem?_map,
      Option.map_map]
    by_cases hk : k < n.val
    · rw [List.getElem?_range hk]
      rfl
    · rw [List.getElem?_eq_none (by simpa using hk)]
      rfl
  | _ => rfl

end Machine

/-- The outcome with a recorder in front of the surface. -/
def Outcome.watchedBy {σ : Type u} (o : Outcome σ) (past : List SurfaceCall) :
    Outcome (Recorder σ) :=
  ⟨o.machine.watchedBy past, o.step, o.signal, o.notices⟩

namespace Machine

variable {σ : Type u} [Surface σ] {m : Machine σ} {i : Instruction} (past : List SurfaceCall)

/-- A recorder does not change the effect of an instruction, and remembers its calls. -/
theorem effect_watchedBy {o : Outcome σ} (h : m.effect i = .ok o) :
    (m.watchedBy past).effect i = .ok (o.watchedBy ((m.callsOf i).reverse ++ past)) := by
  cases i with
  | ret | call | storeDecimal | storeBlock | loadBlock =>
    obtain ⟨a, ha, rfl⟩ := map_eq_ok_iff.mp h
    exact map_eq_ok_iff.mpr ⟨a, ha, rfl⟩
  | draw x y n =>
    obtain ⟨rows, hrows, rfl⟩ := map_eq_ok_iff.mp h
    refine map_eq_ok_iff.mpr ⟨rows, hrows, ?_⟩
    obtain rfl := Memory.eq_of_slice_eq_ok hrows
    unfold drawEffect
    rw [surface_watchedBy, drawRows_watched]
    rfl
  | arithmetic op x y =>
    cases h
    let result := op.compute m.behaviour (m.registers.get x) (m.registers.get y)
    have hflag := setFlag_watchedBy (m.setRegister x result.1) past result.2
    exact congrArg (fun machine => Except.ok ({ machine } : Outcome (Recorder σ))) hflag
  | awaitKey x =>
    cases h
    have hkeypad : (m.watchedBy past).keypad = m.keypad := rfl
    refine congrArg Except.ok ?_
    unfold awaitKeyEffect
    rw [hkeypad]
    cases m.keypad.firstDown <;> rfl
  | _ =>
    cases h
    rfl

/-! ## Calls of a run -/

/-- The calls by which a step uses the surface; one that is a fault does not use it. -/
def stepCalls (m : Machine σ) : List SurfaceCall :=
  match m.executed? with
  | some i => m.callsOf i
  | none => []

/-- The calls by which the surface is used at a moment. -/
def Moment.calls (t : Moment σ) : List SurfaceCall :=
  match t.command with
  | .step => t.machine.stepCalls
  | .reset => [.clear]
  | _ => []

/-- What is asked of the surface at a moment: a reset clears it, and a step asks for what the
instruction asks for that it executes. -/
def Moment.requests (t : Moment σ) : List SurfaceRequest :=
  match t.command with
  | .step =>
    match t.machine.executed? with
    | some i => t.machine.requestsOf i
    | none => []
  | .reset => [.clear]
  | _ => []

theorem Moment.map_request_calls (t : Moment σ) :
    t.calls.map SurfaceCall.request = t.requests := by
  obtain ⟨m, c⟩ := t
  cases c with
  | step =>
    simp only [calls, requests, stepCalls]
    cases m.executed? with
    | none => rfl
    | some i => exact m.map_request_callsOf i
  | _ => rfl

theorem stepCalls_of_error {fault : Fault} (h : m.step.result = .error fault) :
    m.stepCalls = [] := by
  rw [stepCalls, Machine.executed?, h]

theorem stepCalls_of_executed? (h : m.executed? = some i) : m.stepCalls = m.callsOf i := by
  rw [stepCalls, h]

/-- A recorder does not change a step, and remembers its calls. -/
theorem step_watchedBy :
    (m.watchedBy past).step =
      ⟨m.step.state.watchedBy (m.stepCalls.reverse ++ past), m.step.result, m.step.notices⟩ := by
  have hfetch : (m.watchedBy past).fetch = m.fetch := rfl
  rcases m.step_cases with ⟨cause, hf, hs⟩ | ⟨op, hf, hd, hs⟩ | ⟨op, i, cause, hf, hd, he, hs⟩ |
    ⟨op, i, o, hf, hd, he, hs⟩
  · rw [stepCalls_of_error (congrArg Reply.result hs), hs,
      step_of_fetch_error (hfetch.trans hf)]
    rfl
  · rw [stepCalls_of_error (congrArg Reply.result hs), hs,
      step_of_decode_eq_none (hfetch.trans hf) hd]
    rfl
  · have hstack : (m.watchedBy past).stack = m.stack := rfl
    have hindex : (m.watchedBy past).index = m.index := rfl
    rw [stepCalls_of_error (congrArg Reply.result hs), hs, step_of_effect_error (hfetch.trans hf) hd
      (effect_advanced_eq_error_congr hstack hindex he)]
    rfl
  · have hi : m.executed? = some i := executed?_eq_some_iff.mpr ⟨op, o, hf, hd, he⟩
    have hwatched := effect_watchedBy past he
    rw [stepCalls_of_executed? hi, hs, step_of_effect_ok (hfetch.trans hf) hd hwatched]
    cases i <;> rfl

theorem perform_watchedBy (c : Command) :
    (m.watchedBy past).perform c =
      ⟨(m.perform c).state.watchedBy ((Moment.calls ⟨m, c⟩).reverse ++ past), (m.perform c).result,
        (m.perform c).notices⟩ := by
  cases c with
  | step =>
    unfold perform
    rw [step_watchedBy]
    rfl
  | loadProgram bytes =>
    have hmemory : (m.watchedBy past).memory = m.memory := rfl
    simp only [perform, loadProgram, writeProgram, hmemory]
    cases m.memory.load programStart bytes <;> rfl
  | loadRom | loadFont =>
    simp only [perform, loadRom_eq, loadFont_eq]
    rfl
  | _ => rfl

/-- A recorder does not change a run, and remembers its calls. -/
theorem performAll_watchedBy (m : Machine σ) (past : List SurfaceCall) (cs : List Command) :
    (m.watchedBy past).performAll cs =
      ⟨(m.performAll cs).state.watchedBy (((m.moments cs).flatMap Moment.calls).reverse ++ past),
        (m.performAll cs).result, (m.performAll cs).notices⟩ := by
  induction cs generalizing m past with
  | nil => rfl
  | cons c cs ih =>
    simp only [performAll, perform_watchedBy, ih, moments_cons, List.flatMap_cons,
      List.reverse_append, List.append_assoc]

/-! ## Signals -/

/-- Drawing is signalled by the instructions that use the surface, and waiting by the one that waits
for a key. -/
theorem signal_of_effect {o : Outcome σ} (h : m.effect i = .ok o) :
    (o.signal = .draw ↔ i = .clear ∨ ∃ x y n, i = .draw x y n) ∧
      (o.signal = .wait ↔ (∃ x, i = .awaitKey x) ∧ m.keypad.firstDown = none) := by
  cases i with
  | ret | call | storeDecimal | storeBlock | loadBlock | draw =>
    obtain ⟨_, -, rfl⟩ := map_eq_ok_iff.mp h
    simp [drawEffect]
  | awaitKey x =>
    cases h
    unfold awaitKeyEffect
    cases m.keypad.firstDown <;> simp
  | _ =>
    cases h
    simp [arithmeticEffect, addIndexEffect]

/-- An executed instruction gives its signal. -/
theorem exists_signal_of_executed? (h : m.executed? = some i) :
    ∃ signal, m.step.result = .ok signal ∧
      (signal = .draw ↔ i = .clear ∨ ∃ x y n, i = .draw x y n) ∧
      (signal = .wait ↔ (∃ x, i = .awaitKey x) ∧ m.keypad.firstDown = none) := by
  obtain ⟨op, o, hf, hd, he⟩ := executed?_eq_some_iff.mp h
  have hsignal := signal_of_effect he
  exact ⟨o.signal, congrArg Reply.result (step_of_effect_ok hf hd he), hsignal⟩

theorem result_step_eq_draw_iff :
    m.step.result = .ok .draw ↔
      m.executed? = some .clear ∨ ∃ x y n, m.executed? = some (.draw x y n) := by
  constructor
  · intro h
    obtain ⟨i, hi, -⟩ := exists_executed_of_ok h
    obtain ⟨signal, hsignal, hdraw, -⟩ := exists_signal_of_executed? hi
    rw [h, Except.ok.injEq] at hsignal
    rcases hdraw.mp hsignal.symm with rfl | ⟨x, y, n, rfl⟩
    · exact .inl hi
    · exact .inr ⟨x, y, n, hi⟩
  · rintro (hi | ⟨x, y, n, hi⟩)
    · obtain ⟨signal, hsignal, hdraw, -⟩ := exists_signal_of_executed? hi
      rw [hsignal, hdraw.mpr (.inl rfl)]
    · obtain ⟨signal, hsignal, hdraw, -⟩ := exists_signal_of_executed? hi
      rw [hsignal, hdraw.mpr (.inr ⟨x, y, n, rfl⟩)]

theorem result_step_eq_wait_iff :
    m.step.result = .ok .wait ↔
      (∃ x, m.executed? = some (.awaitKey x)) ∧ ∀ key, m.keypad.isDown key = false := by
  rw [← Keypad.firstDown_eq_none_iff]
  constructor
  · intro h
    obtain ⟨i, hi, -⟩ := exists_executed_of_ok h
    obtain ⟨signal, hsignal, -, hwait⟩ := exists_signal_of_executed? hi
    rw [h, Except.ok.injEq] at hsignal
    obtain ⟨⟨x, rfl⟩, hnone⟩ := hwait.mp hsignal.symm
    exact ⟨⟨x, hi⟩, hnone⟩
  · rintro ⟨⟨x, hi⟩, hnone⟩
    obtain ⟨signal, hsignal, -, hwait⟩ := exists_signal_of_executed? hi
    rw [hsignal, hwait.mpr ⟨⟨x, rfl⟩, hnone⟩]

/-- The machine with a recorder in front of its surface that remembers nothing yet. -/
def watched (m : Machine σ) : Machine (Recorder σ) := m.watchedBy []

theorem calls_step_watched (m : Machine σ) :
    m.watched.step.state.surface.calls = m.stepCalls := by
  unfold watched
  rw [step_watchedBy, surface_watchedBy, List.append_nil]
  exact List.reverse_reverse _

theorem get_flag_step_of_draw {x y : Register} {n : Fin 16}
    (h : m.executed? = some (.draw x y n)) :
    m.step.state.registers.get .flag =
      (m.stepCalls.any SurfaceCall.collided).toUInt8 := by
  obtain ⟨op, o, hf, hd, he⟩ := executed?_eq_some_iff.mp h
  obtain ⟨rows, hrows, rfl⟩ := map_eq_ok_iff.mp he
  obtain rfl := Memory.eq_of_slice_eq_ok hrows
  rw [stepCalls_of_executed? h, callsOf, any_collided_rowCalls, step_of_effect_ok hf hd he]
  exact Registers.get_set_self _ _ _

/-- **What a surface is asked to do.** A recorder in front of the surface does not change a run, and
what it remembers is what the commands asked for, one after the other. A step signals that it drew
if it executed an instruction that uses the surface, and that it waits if it executed one that waits
for a key and no key is down. After a sprite was drawn, the flag says whether any of its rows unset
a pixel. -/
theorem requests_of_run (m : Machine σ) :
    (∀ cs : List Command,
      (m.watched.performAll cs).result = (m.performAll cs).result ∧
      (m.watched.performAll cs).state.unwatched = (m.performAll cs).state ∧
      (m.watched.performAll cs).state.surface.calls.map SurfaceCall.request =
        (m.moments cs).flatMap Moment.requests) ∧
    (m.step.result = .ok .draw ↔
      m.executed? = some .clear ∨ ∃ x y n, m.executed? = some (.draw x y n)) ∧
    (m.step.result = .ok .wait ↔
      (∃ x, m.executed? = some (.awaitKey x)) ∧ ∀ key, m.keypad.isDown key = false) ∧
    ∀ x y n, m.executed? = some (.draw x y n) →
      m.step.state.registers.get .flag =
        (m.watched.step.state.surface.calls.any SurfaceCall.collided).toUInt8 := by
  refine ⟨fun cs => ?_, result_step_eq_draw_iff, result_step_eq_wait_iff, fun x y n hi => ?_⟩
  · have hrun := m.performAll_watchedBy [] cs
    refine ⟨congrArg Reply.result hrun, congrArg (fun r => r.state.unwatched) hrun, ?_⟩
    unfold watched
    rw [hrun, surface_watchedBy, List.append_nil, Recorder.calls, List.reverse_reverse,
      List.map_flatMap]
    simp only [Moment.map_request_calls]
  · rw [calls_step_watched]
    exact get_flag_step_of_draw hi

/-- A program that draws the glyph of zero twice at the same place. -/
def erasingRom : Rom := ⟨"erasing", [0xA0, 0x50, 0xD0, 0x05, 0xD0, 0x05], by decide⟩

/-- The second glyph erases the first one, so the flag is set. -/
theorem requests_of_run_erasingRom :
    let start := build (some erasingRom) .chip8 Screen.blank .released (.cycle #[])
    let m := (start.performAll [.step, .step]).state
    m.executed? = some (.draw 0 0 5) ∧ m.step.result = .ok .draw ∧
      m.step.state.registers.get .flag = 1 ∧
      (m.watched.performAll [.step, .reset]).state.surface.calls.map SurfaceCall.request =
        [.drawRow 0 0 0xF0, .drawRow 0 1 0x90, .drawRow 0 2 0x90, .drawRow 0 3 0x90,
          .drawRow 0 4 0xF0, .clear] := by
  intro start m
  have hi : m.executed? = some (.draw 0 0 5) := by decide +kernel
  obtain ⟨hrun, hdraw, -, hflag⟩ := requests_of_run m
  have hcollided : m.watched.step.state.surface.calls.any SurfaceCall.collided = true := by
    decide +kernel
  refine ⟨hi, hdraw.mpr (.inr ⟨0, 0, 5, hi⟩), ?_, ?_⟩
  · rw [hflag 0 0 5 hi, hcollided]
    rfl
  · rw [(hrun [.step, .reset]).2.2]
    decide +kernel

end Machine

end Chip8

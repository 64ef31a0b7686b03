import Chip8.Proofs.InformationFlow
import Chip8.Proofs.Keys
import Chip8.Proofs.WriteSets

/-!
# Tracing

A machine that is being debugged tells its state before each instruction, in one line of text. That
is all the debug flag is for: such a machine does what it would do otherwise, and what it tells
besides these traces is what it would tell otherwise. A trace shows the machine as the step found
it, but for the opcode, which is the fetched one already.

## Main definitions

* `Notice.traces`, `Notice.untraced`: the traces among some notices, and the other ones
* `Machine.tracedLine?`, `Moment.tracedLine?`: the line by which a step is traced
* `Moment.notices`: what is told at a moment of a run

## Main results

* `exists_told_step`: what a step tells is its trace, and then what it tells in any case
* `AgreesBeside.performAll_of_debug`: the debug flag has no influence on a run, nor on what is told
  besides traces
* `tracing_observes`: tracing has no influence on a run, and traces each fetched opcode once
-/

universe u

namespace Chip8

namespace Notice

/-- The traces among some notices. -/
def traces (ns : List Notice) : List Notice := ns.filter fun n => n.severity == .trace

/-- Some notices without the traces among them. -/
def untraced (ns : List Notice) : List Notice := ns.filter fun n => n.severity != .trace

@[simp] theorem untraced_append (ns ns' : List Notice) :
    untraced (ns ++ ns') = untraced ns ++ untraced ns' :=
  List.filter_append ..

/-- A notice of one of these severities is no trace. -/
theorem ne_trace_of_mem_singleton {n : Notice} (h : n.severity = .debug ∨ n.severity = .warn) :
    ∀ n' ∈ [n], n'.severity ≠ .trace := by
  refine List.forall_mem_singleton.mpr fun htrace => ?_
  rw [htrace] at h
  rcases h with h | h <;> cases h

section Parts

variable {lines : List String} {told : List Notice} (h : ∀ n ∈ told, n.severity ≠ .trace)

include h

theorem traces_append_of_ne : traces (lines.map .traced ++ told) = lines.map .traced := by
  have htold : told.filter (fun n => n.severity == .trace) = [] :=
    List.filter_eq_nil_iff.mpr fun n hn htrace => h n hn (beq_iff_eq.mp htrace)
  have hlines : (lines.map traced).filter (fun n => n.severity == .trace) = lines.map .traced :=
    List.filter_eq_self.mpr <| List.forall_mem_map.mpr fun _ _ => rfl
  rw [traces, List.filter_append, hlines, htold, List.append_nil]

theorem untraced_append_of_ne : untraced (lines.map .traced ++ told) = told := by
  have htold : told.filter (fun n => n.severity != .trace) = told :=
    List.filter_eq_self.mpr fun n hn => bne_iff_ne.mpr (h n hn)
  have hlines : (lines.map traced).filter (fun n => n.severity != .trace) = [] :=
    List.filter_eq_nil_iff.mpr <| List.forall_mem_map.mpr fun _ _ => Bool.false_ne_true
  rw [untraced, List.filter_append, hlines, htold, List.nil_append]

end Parts

end Notice

/-- What is told about keys that do not exist is no trace. -/
theorem Keypad.severity_of_mem_act {k : Keypad} {action : Keypad.Action} :
    ∀ n ∈ (k.act action).2, n.severity ≠ .trace := by
  intro n hn
  rw [notices_act, Option.mem_toList] at hn
  rw [severity_of_warning hn]
  exact Severity.noConfusion

namespace Machine

variable {σ : Type u}

/-- The line by which a step is traced: the state of the machine, with the opcode that was fetched.
If none was fetched there is no such line. -/
def tracedLine? (m : Machine σ) : Option String :=
  match m.fetch with
  | .ok op => some (m.withOpcode op).traceLine
  | .error _ => none

/-- The line by which a moment is traced, if it is a step. -/
def Moment.tracedLine? (t : Moment σ) : Option String :=
  match t.command with
  | .step => t.machine.tracedLine?
  | _ => none

/-- The lines that a machine traces out of those, all of them if it is being debugged. -/
def shownLines (m : Machine σ) (line : Option String) : List String :=
  if m.debug then line.toList else []

section Lines

variable {m : Machine σ}

theorem trace_withOpcode {op : Opcode} (h : m.fetch = .ok op) :
    (m.withOpcode op).trace = (m.shownLines m.tracedLine?).map .traced := by
  have hdebug : (m.withOpcode op).debug = m.debug := rfl
  rw [trace, shownLines, tracedLine?, h, hdebug]
  split <;> rfl

theorem shownLines_of_fetch_error {cause : Cause} (h : m.fetch = .error cause) :
    m.shownLines m.tracedLine? = [] := by
  rw [shownLines, tracedLine?, h]
  split <;> rfl

/-- A traced line begins with the address of the instruction. -/
theorem exists_of_tracedLine? {line : String} (h : m.tracedLine? = some line) :
    ∃ rest, line = Hex.digits 4 m.counter.toNat ++ ": " ++ rest := by
  unfold tracedLine? at h
  split at h
  next op hf =>
    rw [← Option.some.inj h, traceLine]
    simp only [String.append_assoc]
    exact ⟨_, rfl⟩
  next => cases h

theorem Moment.exists_of_tracedLine? {t : Moment σ} {line : String}
    (h : t.tracedLine? = some line) :
    ∃ rest, line = Hex.digits 4 t.machine.counter.toNat ++ ": " ++ rest := by
  obtain ⟨m, c⟩ := t
  cases c with
  | step => exact m.exists_of_tracedLine? h
  | _ => cases h

theorem agreesBeside_setDebug (m : Machine σ) (on : Bool) :
    AgreesBeside [.debug] m (m.setDebug on) :=
  { debug := fun hshown => absurd (List.mem_singleton.mpr rfl) hshown }

theorem AgreesBeside.eq_setDebug {n : Machine σ} (h : AgreesBeside [.debug] m n) :
    n = m.setDebug n.debug := by
  have htimers : n.timers = m.timers :=
    calc n.timers = ⟨n.timers.delay, n.timers.sound⟩ := rfl
      _ = m.timers := by rw [h.delay (by decide), h.sound (by decide)]
  rw [h.rest, h.name (by decide), h.keypad (by decide), h.random (by decide), htimers,
    h.surface (by decide)]
  rfl

end Lines

/-- The moment with the debug flag of its machine set. -/
def Moment.withDebug (t : Moment σ) (on : Bool) : Moment σ := ⟨t.machine.setDebug on, t.command⟩

variable [Surface σ]

/-- What is told at a moment. -/
def Moment.notices (t : Moment σ) : List Notice := (t.machine.perform t.command).notices

/-! ## What is told at a moment -/

section Told

/-- **What a step tells**: first the trace, if there is one, and then what it tells also without the
debug flag. -/
theorem exists_told_step (m : Machine σ) (on : Bool) :
    ∃ told : List Notice, (∀ n ∈ told, n.severity ≠ .trace) ∧
      m.step.notices = (m.shownLines m.tracedLine?).map .traced ++ told ∧
      (m.setDebug on).step.notices =
        ((m.setDebug on).shownLines (m.setDebug on).tracedLine?).map .traced ++ told := by
  have hagree := m.agreesBeside_setDebug on
  have hfetch : (m.setDebug on).fetch = m.fetch := rfl
  rcases m.step_cases with ⟨cause, hf, hs⟩ | ⟨op, hf, hd, hs⟩ | ⟨op, i, cause, hf, hd, he, hs⟩ |
    ⟨op, i, o, hf, hd, he, hs⟩
  · have hf' := hfetch.trans hf
    refine ⟨[], List.forall_mem_nil _, ?_, ?_⟩
    · rw [hs, shownLines_of_fetch_error hf]
      rfl
    · rw [step_of_fetch_error hf', shownLines_of_fetch_error hf']
      rfl
  · have hf' := hfetch.trans hf
    refine ⟨[], List.forall_mem_nil _, ?_, ?_⟩
    · rw [hs, trace_withOpcode hf, List.append_nil]
    · rw [step_of_decode_eq_none hf' hd, trace_withOpcode hf', List.append_nil]
  · have hf' := hfetch.trans hf
    have hstack : (m.setDebug on).stack = m.stack := rfl
    have hindex : (m.setDebug on).index = m.index := rfl
    have he' := effect_advanced_eq_error_congr hstack hindex he
    refine ⟨[.executing m.counter op i], Notice.ne_trace_of_mem_singleton (.inl rfl), ?_, ?_⟩
    · rw [hs, trace_withOpcode hf]
    · rw [step_of_effect_error hf' hd he', trace_withOpcode hf']
      rfl
  · have hf' := hfetch.trans hf
    have hadvanced := (hagree.withOpcode op).advanced
    have hsees := hadvanced.seesAlike (i := i) (List.forall_mem_singleton.mpr rfl)
    obtain ⟨p, he', hsame⟩ := hadvanced.exists_effect_of_seesAlike hsees he
    refine ⟨.executing m.counter op i :: o.notices, ?_, ?_, ?_⟩
    · rw [List.forall_mem_cons]
      refine ⟨nofun, fun n hn htrace => ?_⟩
      rw [severity_of_effect he n hn] at htrace
      cases htrace
    · rw [hs, trace_withOpcode hf]
    · rw [step_of_effect_ok hf' hd he', trace_withOpcode hf', hsame.notices]
      rfl

/-- What is told at a moment: first the trace of a step, if there is one, and then what is told also
without the debug flag. -/
theorem Moment.exists_told (t : Moment σ) (on : Bool) :
    ∃ told : List Notice, (∀ n ∈ told, n.severity ≠ .trace) ∧
      t.notices = (t.machine.shownLines t.tracedLine?).map .traced ++ told ∧
      (t.withDebug on).notices =
        ((t.withDebug on).machine.shownLines (t.withDebug on).tracedLine?).map .traced ++ told := by
  have hnone (k : Machine σ) : k.shownLines none = [] := by
    unfold shownLines
    split <;> rfl
  obtain ⟨m, c⟩ := t
  cases c with
  | step => exact m.exists_told_step on
  | tick | setDebug =>
    simp only [tracedLine?, withDebug, hnone]
    exact ⟨[], List.forall_mem_nil _, rfl, rfl⟩
  | loadFont font =>
    simp only [tracedLine?, withDebug, hnone, notices, perform, loadFont_eq]
    exact ⟨[], List.forall_mem_nil _, rfl, rfl⟩
  | loadRom rom =>
    simp only [tracedLine?, withDebug, hnone, notices, perform, loadRom_eq]
    exact ⟨[_], Notice.ne_trace_of_mem_singleton (.inl rfl), rfl, rfl⟩
  | reset | setLevel =>
    simp only [tracedLine?, withDebug, hnone]
    exact ⟨[_], Notice.ne_trace_of_mem_singleton (.inl rfl), rfl, rfl⟩
  | loadProgram bytes =>
    have hmemory : (m.setDebug on).memory = m.memory := rfl
    simp only [tracedLine?, withDebug, hnone, notices, perform, loadProgram, writeProgram, hmemory]
    cases m.memory.load programStart bytes with
    | ok memory => exact ⟨[_], Notice.ne_trace_of_mem_singleton (.inl rfl), rfl, rfl⟩
    | error cause => exact ⟨[_], Notice.ne_trace_of_mem_singleton (.inr rfl), rfl, rfl⟩
  | keys action =>
    simp only [tracedLine?, withDebug, hnone]
    exact ⟨(m.keypad.act action).2, Keypad.severity_of_mem_act, rfl, rfl⟩

/-- A machine that is not being debugged traces nothing. -/
theorem Moment.severity_of_mem_notices {t : Moment σ} (h : t.machine.debug = false) :
    ∀ n ∈ t.notices, n.severity ≠ .trace := by
  obtain ⟨told, hne, htold, -⟩ := t.exists_told false
  have hshown : t.machine.shownLines t.tracedLine? = [] := if_neg (h ▸ Bool.false_ne_true)
  rw [htold, hshown]
  exact hne

theorem AgreesBeside.untraced_perform {m n : Machine σ} (h : AgreesBeside [.debug] m n)
    (c : Command) :
    Notice.untraced (n.perform c).notices = Notice.untraced (m.perform c).notices := by
  obtain ⟨told, hne, hm, hn⟩ := Moment.exists_told ⟨m, c⟩ n.debug
  rw [h.eq_setDebug]
  show Notice.untraced (Moment.notices (.withDebug ⟨m, c⟩ n.debug)) =
    Notice.untraced (Moment.notices ⟨m, c⟩)
  rw [hm, hn, Notice.untraced_append_of_ne hne, Notice.untraced_append_of_ne hne]

end Told

/-! ## Runs -/

section Run

variable {m n : Machine σ} {cs : List Command}

/-- Machines that differ in the debug flag only do the same throughout a run, and tell the same but
for the traces. -/
theorem AgreesBeside.performAll_of_debug (h : AgreesBeside [.debug] m n) (cs : List Command) :
    Reply.Alike (AgreesBeside [.debug]) (m.performAll cs) (n.performAll cs) ∧
      Notice.untraced (n.performAll cs).notices = Notice.untraced (m.performAll cs).notices := by
  induction cs generalizing m n with
  | nil => exact ⟨⟨rfl, h⟩, rfl⟩
  | cons c cs ih =>
    have hfirst := h.perform (c := c) fun i _ => h.seesAlike (List.forall_mem_singleton.mpr rfl)
    obtain ⟨hrest, htold⟩ := ih hfirst.state
    refine ⟨⟨?_, hrest.state⟩, ?_⟩
    · rw [result_performAll_cons, result_performAll_cons, hfirst.result, hrest.result]
    · simp only [performAll, Notice.untraced_append, h.untraced_perform c, htold]

/-- Nothing but the switch changes the debug flag. -/
theorem debug_perform {c : Command} (h : ∀ on, c ≠ .setDebug on) :
    (m.perform c).state.debug = m.debug := by
  cases c with
  | setDebug on => exact absurd rfl (h on)
  | step =>
    rcases m.state_step_cases with ⟨op, hstate⟩ | ⟨i, -, hwrites⟩
    · show m.step.state.debug = m.debug
      rw [hstate]
      rfl
    · exact hwrites.debug
  | loadProgram | loadRom | loadFont =>
    simp only [perform, Reply.state_map, state_loadProgram, loadRom_eq, loadFont_eq]
  | _ => rfl

theorem debug_of_mem_moments (hcs : ∀ on, .setDebug on ∉ cs) :
    ∀ t ∈ m.moments cs, t.machine.debug = m.debug := by
  refine (performAll_invariant (P := fun m' => m'.debug = m.debug) rfl fun t ht hdebug => ?_).2
  have hmem := command_mem_of_mem_moments ht
  exact (debug_perform fun on hon => hcs on (hon ▸ hmem)).trans hdebug

/-- The notices of a run are those of its moments. -/
theorem notices_performAll (m : Machine σ) (cs : List Command) :
    (m.performAll cs).notices = (m.moments cs).flatMap Moment.notices := by
  induction cs generalizing m with
  | nil => rfl
  | cons c cs ih =>
    simp only [performAll, moments_cons, List.flatMap_cons, ih]
    rfl

theorem untraced_notices_performAll (hoff : m.debug = false) (hcs : ∀ on, .setDebug on ∉ cs) :
    Notice.untraced (m.performAll cs).notices = (m.performAll cs).notices := by
  have hne : ∀ n ∈ (m.performAll cs).notices, n.severity ≠ .trace := by
    rw [notices_performAll]
    intro n hn
    obtain ⟨t, ht, hn⟩ := List.mem_flatMap.mp hn
    exact Moment.severity_of_mem_notices ((debug_of_mem_moments hcs t ht).trans hoff) n hn
  exact @Notice.untraced_append_of_ne [] _ hne

end Run

/-- **Tracing observes.** Two machines that differ in the debug flag only give the same answers in a
run and stay equal in everything else. Unless the flag is switched in the run, what the machine
without it tells is what the machine with it tells besides traces. The latter traces each step that
fetches an opcode once, and before it tells anything else about the step. What is traced is the
state before the step with the fetched opcode, so it begins with the address of the instruction. -/
theorem tracing_observes (m n : Machine σ) (cs : List Command) (hagree : AgreesBeside [.debug] m n)
    (hcs : ∀ on, .setDebug on ∉ cs) :
    Reply.Alike (AgreesBeside [.debug]) (m.performAll cs) (n.performAll cs) ∧
      (m.debug = false → n.debug = true →
        (m.performAll cs).notices = Notice.untraced (n.performAll cs).notices) ∧
      (n.debug = true → ∀ t ∈ n.moments cs,
        (Notice.traces t.notices).map Notice.text = t.tracedLine?.toList ∧
          t.notices = Notice.traces t.notices ++ Notice.untraced t.notices ∧
          ∀ line ∈ t.tracedLine?,
            ∃ rest, line = Hex.digits 4 t.machine.counter.toNat ++ ": " ++ rest) := by
  obtain ⟨halike, htold⟩ := hagree.performAll_of_debug cs
  refine ⟨halike, fun hoff _ => ?_, fun hon t ht => ?_⟩
  · rw [htold, untraced_notices_performAll hoff hcs]
  · have hdebug : t.machine.debug = true := (debug_of_mem_moments hcs t ht).trans hon
    obtain ⟨told, hne, hnotices, -⟩ := t.exists_told true
    have hshown : t.machine.shownLines t.tracedLine? = t.tracedLine?.toList := if_pos hdebug
    rw [hnotices, Notice.traces_append_of_ne hne, Notice.untraced_append_of_ne hne, hshown,
      List.map_map]
    refine ⟨List.map_id _, rfl, fun line hline => ?_⟩
    exact Moment.exists_of_tracedLine? hline

/-- A program that jumps to the last byte of memory, where there is no room for an instruction. -/
def leavingRom : Rom := ⟨"leaving", [0x1F, 0xFF], by decide⟩

/-- The first step is traced, the second one is a fault that fetches nothing and is not. -/
theorem tracing_observes_leavingRom :
    let m := build (some leavingRom) .chip8 Screen.blank .released (.cycle #[])
    let n := m.setDebug true
    let cs : List Command := [.step, .tick, .step]
    let last : Moment Screen := ⟨(n.performAll [.step, .tick]).state, .step⟩
    AgreesBeside [.debug] m n ∧ (∀ on, .setDebug on ∉ cs) ∧
      (m.performAll cs).result = (n.performAll cs).result ∧ m.debug = false ∧ n.debug = true ∧
      (m.performAll cs).notices = Notice.untraced (n.performAll cs).notices ∧
      ⟨n, .step⟩ ∈ n.moments cs ∧ last ∈ n.moments cs ∧
      (Notice.traces (Moment.notices ⟨n, .step⟩)).map Notice.text =
        [(n.withOpcode 0x1FFF).traceLine] ∧
      (Notice.traces last.notices).map Notice.text = [] := by
  intro m n cs last
  have hagree : AgreesBeside [.debug] m n := m.agreesBeside_setDebug true
  have hcs : ∀ on, .setDebug on ∉ cs := by simp [cs]
  have hfirst : ⟨n, .step⟩ ∈ n.moments cs := List.mem_cons_self
  have hlast : last ∈ n.moments cs := List.mem_of_mem_getLast? rfl
  obtain ⟨halike, htold, htraced⟩ := tracing_observes m n cs hagree hcs
  obtain ⟨hinside, houtside⟩ :
      (n.counter.toNat + 1 < Memory.size ∧ n.nextWord = 0x1FFF) ∧
        ¬last.machine.counter.toNat + 1 < Memory.size := by
    decide +kernel
  have hfetch : n.fetch = .ok 0x1FFF := fetch_eq_ok_iff.mpr hinside
  have hnone : last.tracedLine? = none := by
    show last.machine.tracedLine? = none
    rw [tracedLine?, fetch_eq, if_neg houtside]
  refine ⟨hagree, hcs, halike.result, rfl, rfl, htold rfl rfl, hfirst, hlast, ?_, ?_⟩
  · rw [(htraced rfl _ hfirst).1]
    show n.tracedLine?.toList = _
    rw [tracedLine?, hfetch]
    rfl
  · rw [(htraced rfl _ hlast).1, hnone]
    rfl

end Machine

end Chip8

import Chip8.Machine.Step
import Chip8.Proofs.Effect

/-!
# How a step ends

A step ends in one of four ways: its opcode cannot be fetched, the opcode is no instruction, the
instruction is refused, or it is executed. Each of them determines the whole reply of the step.

## Main definitions

* `Machine.nextWord`: the word that the counter points to
* `Machine.StepCase`: the ways in which a step ends
* `Machine.afterFault`: what a fault leaves
* `Machine.executed?`: the instruction that a step executes
* `Machine.Leaves`, `Machine.Signals`: what an instruction leaves, and the signal that it gives, by
  itself and in a step

## Main results

* `fetch_eq`: an opcode is fetched where both of its bytes lie inside of memory
* `step_cases`: there are no other ways for a step to end
* `state_step_of_error`, `exists_effect_of_ok`: what a fault leaves, and what a success leaves
* `executed?_eq_some_iff`, `exists_executed_of_ok`: the executed instruction is the fetched one, and
  has an effect; a step that succeeds executes one
-/

universe u

namespace Chip8.Machine

variable {σ : Type u}

/-- The word that the counter points to, the high byte first. -/
def nextWord (m : Machine σ) : Opcode :=
  word (m.memory.byte m.counter.toNat) (m.memory.byte (m.counter.toNat + 1))

/-- An opcode is fetched where both of its bytes lie inside of memory. -/
theorem fetch_eq (m : Machine σ) :
    m.fetch =
      if m.counter.toNat + 1 < Memory.size then .ok m.nextWord
      else .error (.outOfBounds (max m.counter.toNat Memory.size) Memory.size) := by
  unfold fetch
  rw [Memory.read_eq, Memory.read_eq]
  by_cases hlow : m.counter.toNat + 1 < Memory.size
  · simp only [if_pos hlow, if_pos (Nat.lt_of_succ_lt hlow)]
    rfl
  · simp only [if_neg hlow]
    by_cases hhigh : m.counter.toNat < Memory.size
    · have hlast : m.counter.toNat + 1 = Memory.size := by omega
      rw [if_pos hhigh, hlast, Nat.max_eq_right (Nat.le_of_lt hhigh)]
    · rw [if_neg hhigh, Nat.max_eq_left (Nat.le_of_not_lt hhigh)]

theorem fetch_eq_ok_iff {m : Machine σ} {op : Opcode} :
    m.fetch = .ok op ↔ m.counter.toNat + 1 < Memory.size ∧ m.nextWord = op := by
  rw [fetch_eq]
  split
  next h => simp [h]
  next h => simp [h]

/-- The machine that a fault leaves: the opcode is the one that was fetched, if one was. -/
def afterFault (m : Machine σ) (fault : Fault) : Machine σ :=
  { m with opcode := fault.opcode.getD m.opcode }

@[simp] theorem counter_withOpcode (m : Machine σ) (op : Opcode) :
    (m.withOpcode op).counter = m.counter := rfl

@[simp] theorem counter_advanced (m : Machine σ) : m.advanced.counter = m.counter + 2 := rfl

/-- An opcode is fetched from memory, so the counter behind it is at most the size of memory. -/
theorem toNat_counter_advanced {m : Machine σ} {op : Opcode} (h : m.fetch = .ok op) :
    (m.withOpcode op).advanced.counter.toNat = m.counter.toNat + 2 ∧
      m.counter.toNat + 2 ≤ 0x1000 := by
  have hlt := (fetch_eq_ok_iff.mp h).1
  unfold Memory.size at hlt
  rw [counter_advanced, counter_withOpcode, UInt16.toNat_add]
  simp only [UInt16.reduceToNat]
  omega

theorem severity_of_mem_trace {m : Machine σ} : ∀ n ∈ m.trace, n.severity = .trace := by
  unfold trace
  split
  · exact List.forall_mem_singleton.mpr rfl
  · exact List.forall_mem_nil _

variable [Surface σ]

/-- **The ways in which a step ends.** -/
inductive StepCase (m : Machine σ) : Prop where
  | unfetched (cause : Cause) (fetch : m.fetch = .error cause)
      (step : m.step = ⟨m, .error ⟨m.counter, none, cause⟩, []⟩)
  | undecoded (op : Opcode) (fetch : m.fetch = .ok op) (decode : Instruction.decode op = none)
      (step : m.step =
        ⟨m.withOpcode op, .error ⟨m.counter, some op, .unknownOpcode op⟩, (m.withOpcode op).trace⟩)
  | refused (op : Opcode) (i : Instruction) (cause : Cause) (fetch : m.fetch = .ok op)
      (decode : Instruction.decode op = some i)
      (effect : (m.withOpcode op).advanced.effect i = .error cause)
      (step : m.step =
        ⟨m.withOpcode op, .error ⟨m.counter, some op, cause⟩,
          (m.withOpcode op).trace ++ [.executing m.counter op i]⟩)
  | executed (op : Opcode) (i : Instruction) (o : Outcome σ) (fetch : m.fetch = .ok op)
      (decode : Instruction.decode op = some i)
      (effect : (m.withOpcode op).advanced.effect i = .ok o)
      (step : m.step =
        ⟨o.final, .ok o.signal,
          (m.withOpcode op).trace ++ .executing m.counter op i :: o.notices⟩)

section Equations

variable {m : Machine σ} {op : Opcode} {i : Instruction}

theorem dispatch_of_decode_eq_none (hd : Instruction.decode op = none) :
    (m.withOpcode op).dispatch = ⟨m.withOpcode op, .error ⟨m.counter, some op, .unknownOpcode op⟩,
      (m.withOpcode op).trace⟩ := by
  simp only [dispatch, withOpcode, hd]

/-- The counter is put back to where it was before it was moved behind the instruction. -/
theorem dispatch_of_effect_error {cause : Cause} (hd : Instruction.decode op = some i)
    (he : (m.withOpcode op).advanced.effect i = .error cause) :
    (m.withOpcode op).dispatch = ⟨m.withOpcode op, .error ⟨m.counter, some op, cause⟩,
      (m.withOpcode op).trace ++ [.executing m.counter op i]⟩ := by
  simp only [dispatch, withOpcode, hd, advanced] at he ⊢
  rw [execute_of_error he]

theorem dispatch_of_effect_ok {o : Outcome σ} (hd : Instruction.decode op = some i)
    (he : (m.withOpcode op).advanced.effect i = .ok o) :
    (m.withOpcode op).dispatch = ⟨o.final, .ok o.signal,
      (m.withOpcode op).trace ++ .executing m.counter op i :: o.notices⟩ := by
  simp only [dispatch, withOpcode, hd, advanced] at he ⊢
  rw [execute_of_ok he]

theorem step_of_decode_eq_none (hf : m.fetch = .ok op) (hd : Instruction.decode op = none) :
    m.step = ⟨m.withOpcode op, .error ⟨m.counter, some op, .unknownOpcode op⟩,
      (m.withOpcode op).trace⟩ := by
  rw [step_of_fetch_ok hf, dispatch_of_decode_eq_none hd]

theorem step_of_effect_error {cause : Cause} (hf : m.fetch = .ok op)
    (hd : Instruction.decode op = some i)
    (he : (m.withOpcode op).advanced.effect i = .error cause) :
    m.step = ⟨m.withOpcode op, .error ⟨m.counter, some op, cause⟩,
      (m.withOpcode op).trace ++ [.executing m.counter op i]⟩ := by
  rw [step_of_fetch_ok hf, dispatch_of_effect_error hd he]

theorem step_of_effect_ok {o : Outcome σ} (hf : m.fetch = .ok op)
    (hd : Instruction.decode op = some i) (he : (m.withOpcode op).advanced.effect i = .ok o) :
    m.step = ⟨o.final, .ok o.signal,
      (m.withOpcode op).trace ++ .executing m.counter op i :: o.notices⟩ := by
  rw [step_of_fetch_ok hf, dispatch_of_effect_ok hd he]

end Equations

/-- There are no other ways for a step to end. -/
theorem step_cases (m : Machine σ) : m.StepCase := by
  cases hf : m.fetch with
  | error cause => exact .unfetched cause hf (step_of_fetch_error hf)
  | ok op =>
    cases hd : Instruction.decode op with
    | none => exact .undecoded op hf hd (step_of_decode_eq_none hf hd)
    | some i =>
      cases he : (m.withOpcode op).advanced.effect i with
      | error cause => exact .refused op i cause hf hd he (step_of_effect_error hf hd he)
      | ok o => exact .executed op i o hf hd he (step_of_effect_ok hf hd he)

/-- A fault leaves the machine as it was, but for the opcode, and it carries the opcode that was
fetched, if one was. -/
theorem state_step_of_error {m : Machine σ} {fault : Fault} (h : m.step.result = .error fault) :
    m.step.state = m.afterFault fault ∧ fault.opcode = m.fetch.toOption := by
  rcases m.step_cases with ⟨cause, hf, hs⟩ | ⟨op, hf, -, hs⟩ | ⟨op, _, cause, hf, -, -, hs⟩ |
    ⟨_, _, _, -, -, -, hs⟩
  · rw [hs, Except.error.injEq] at h
    rw [hs, hf, ← h]
    exact ⟨rfl, rfl⟩
  · rw [hs, Except.error.injEq] at h
    rw [hs, hf, ← h]
    exact ⟨rfl, rfl⟩
  · rw [hs, Except.error.injEq] at h
    rw [hs, hf, ← h]
    exact ⟨rfl, rfl⟩
  · rw [hs] at h
    cases h

/-- A step that succeeds leaves what the effect of its instruction led to. -/
theorem exists_effect_of_ok {m : Machine σ} {signal : Signal} (h : m.step.result = .ok signal) :
    ∃ op i o, m.fetch = .ok op ∧ Instruction.decode op = some i ∧
      (m.withOpcode op).advanced.effect i = .ok o ∧ m.step.state = o.final ∧ o.signal = signal := by
  rcases m.step_cases with ⟨_, -, hs⟩ | ⟨_, -, -, hs⟩ | ⟨_, _, _, -, -, -, hs⟩ |
    ⟨op, i, o, hf, hd, he, hs⟩
  · rw [hs] at h
    cases h
  · rw [hs] at h
    cases h
  · rw [hs] at h
    cases h
  · rw [hs, Except.ok.injEq] at h
    exact ⟨op, i, o, hf, hd, he, by rw [hs], h⟩

/-- Nothing that is noticed during an instruction is an error. -/
theorem severity_of_effect {m : Machine σ} {i : Instruction} {o : Outcome σ}
    (h : m.effect i = .ok o) : ∀ n ∈ o.notices, n.severity = .debug := by
  cases i with
  | ret | call =>
    obtain ⟨_, -, rfl⟩ := map_eq_ok_iff.mp h
    exact List.forall_mem_singleton.mpr rfl
  | awaitKey x =>
    cases h
    unfold awaitKeyEffect
    split
    · exact List.forall_mem_singleton.mpr rfl
    · exact List.forall_mem_nil _
  | draw | storeDecimal | storeBlock | loadBlock =>
    obtain ⟨_, -, rfl⟩ := map_eq_ok_iff.mp h
    exact List.forall_mem_nil _
  | _ =>
    cases h
    exact List.forall_mem_nil _

/-- A step does not tell an error, not even if it is a fault. -/
theorem recorded_notices_step (m : Machine σ) : Notice.recorded .error m.step.notices = [] := by
  have hbelow : ∀ n ∈ m.step.notices, n.severity = .trace ∨ n.severity = .debug := by
    rcases m.step_cases with ⟨_, _, hs⟩ | ⟨_, _, _, hs⟩ | ⟨_, _, _, _, _, _, hs⟩ |
      ⟨_, _, o, _, _, he, hs⟩
    · rw [hs]
      exact List.forall_mem_nil _
    · rw [hs]
      exact fun n hn => .inl (severity_of_mem_trace n hn)
    · rw [hs, List.forall_mem_append, List.forall_mem_singleton]
      exact ⟨fun n hn => .inl (severity_of_mem_trace n hn), .inr rfl⟩
    · rw [hs, List.forall_mem_append, List.forall_mem_cons]
      exact ⟨fun n hn => .inl (severity_of_mem_trace n hn), .inr rfl,
        fun n hn => .inr (severity_of_effect he n hn)⟩
  rw [Notice.recorded, List.filter_eq_nil_iff]
  intro n hn
  rcases hbelow n hn with h | h <;>
  · rw [h]
    decide

/-- The instruction that a step executes, unless the step is a fault. -/
def executed? (m : Machine σ) : Option Instruction :=
  match m.step.result with
  | .ok _ => Instruction.decode m.nextWord
  | .error _ => none

/-- The executed instruction is the fetched one, and it has an effect. -/
theorem executed?_eq_some_iff {m : Machine σ} {i : Instruction} :
    m.executed? = some i ↔
      ∃ op o, m.fetch = .ok op ∧ Instruction.decode op = some i ∧
        (m.withOpcode op).advanced.effect i = .ok o := by
  unfold executed?
  constructor
  · cases hresult : m.step.result with
    | error fault => exact fun h => nomatch h
    | ok signal =>
      intro h
      obtain ⟨op, i', o, hf, hd, he, -, -⟩ := exists_effect_of_ok hresult
      rw [(fetch_eq_ok_iff.mp hf).2, hd, Option.some.injEq] at h
      subst h
      exact ⟨op, o, hf, hd, he⟩
  · rintro ⟨op, o, hf, hd, he⟩
    rw [step_of_effect_ok hf hd he, (fetch_eq_ok_iff.mp hf).2, hd]

/-- A step that succeeds executes the instruction that the counter points to. -/
theorem exists_executed_of_ok {m : Machine σ} {signal : Signal} (h : m.step.result = .ok signal) :
    ∃ i, m.executed? = some i ∧ i.encode = m.nextWord := by
  obtain ⟨op, i, o, hf, hd, he, -, -⟩ := exists_effect_of_ok h
  refine ⟨i, executed?_eq_some_iff.mpr ⟨op, o, hf, hd, he⟩, ?_⟩
  rw [(fetch_eq_ok_iff.mp hf).2]
  exact Instruction.encode_of_decode hd

/-! ## Instructions by themselves -/

/-- What an instruction leaves if it is executed, by itself or by a step that fetches it. -/
inductive Leaves (m : Machine σ) (i : Instruction) : Machine σ → Prop
  | execute : Leaves m i (m.execute i).state
  | step (fetch : m.fetch = .ok i.encode) : Leaves m i m.step.state

/-- An instruction is not refused and gives the signal, by itself and in a step that fetches it. -/
def Signals (m : Machine σ) (i : Instruction) (signal : Signal) : Prop :=
  (m.execute i).result = .ok signal ∧ (m.fetch = .ok i.encode → m.step.result = .ok signal)

omit [Surface σ] in
/-- The machine with another counter and another opcode. -/
def movedTo (m : Machine σ) (counter : Address) (op : Opcode) : Machine σ :=
  { m with counter := counter, opcode := op }

section Alone

variable {m m' : Machine σ} {i : Instruction} {o : Address → Opcode → Outcome σ}

/-- An instruction leaves what its effect leads to, from some counter and opcode. -/
theorem Leaves.exists_final (h : m.Leaves i m')
    (he : ∀ counter op, (m.movedTo counter op).effect i = .ok (o counter op)) :
    ∃ counter op, m' = (o counter op).final := by
  cases h with
  | execute => exact ⟨_, _, congrArg Reply.state (execute_of_ok (he m.counter m.opcode))⟩
  | step hfetch =>
    have hstep := step_of_effect_ok hfetch i.decode_encode (he (m.counter + 2) i.encode)
    exact ⟨_, _, congrArg Reply.state hstep⟩

/-- An instruction gives the signal of its effect. -/
theorem signals_of_effect {signal : Signal}
    (he : ∀ counter op, (m.movedTo counter op).effect i = .ok (o counter op))
    (hsignal : ∀ counter op, (o counter op).signal = signal) : m.Signals i signal := by
  constructor
  · have hexecute := execute_of_ok (he m.counter m.opcode)
    rw [hsignal] at hexecute
    exact congrArg Reply.result hexecute
  · intro hfetch
    have hstep := step_of_effect_ok hfetch i.decode_encode (he (m.counter + 2) i.encode)
    rw [hsignal] at hstep
    exact congrArg Reply.result hstep

end Alone

end Chip8.Machine

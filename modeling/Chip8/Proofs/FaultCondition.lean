import Chip8.Proofs.StepCases

/-!
# When a step is a fault

A step is a fault exactly if its opcode lies outside of memory, if it is not the opcode of any
instruction, or if the instruction uses a part of the machine in a way that is refused. In that
order: the first of these makes the fault. The level of the machine has no influence on it.

## Main definitions

* `Instruction.RefusedAt`: the instructions that are refused at a depth of the stack and an index
* `Machine.FaultsWith`: the faults of the next step, in terms of the state of the machine

## Main results

* `effect_eq_error_iff`: an instruction is refused exactly if it is one of those
* `result_step_eq_error_iff`: a step is a fault exactly if it is one of those
* `fault_iff`: and it succeeds in every other state
-/

universe u

namespace Chip8

/-- **The instructions that are refused** by a machine with so many return addresses on its stack
and that value in its index register, and why they are. -/
inductive Instruction.RefusedAt (depth index : Nat) : Instruction → Cause → Prop
  | ret (empty : depth = 0) : RefusedAt depth index .ret .stackEmpty
  | call {nnn : Fin 4096} (full : depth = 16) : RefusedAt depth index (.call nnn) .stackFull
  | draw {x y : Register} {n : Fin 16} (outside : 4096 < index + n) :
    RefusedAt depth index (.draw x y n) (.outOfBounds (Memory.firstOutside index n) 4096)
  | storeDecimal {x : Register} (outside : 4096 < index + 3) :
    RefusedAt depth index (.storeDecimal x) (.outOfBounds (Memory.firstOutside index 3) 4096)
  | storeBlock {x : Register} (outside : 4096 < index + (x + 1)) :
    RefusedAt depth index (.storeBlock x) (.outOfBounds (Memory.firstOutside index (x + 1)) 4096)
  | loadBlock {x : Register} (outside : 4096 < index + (x + 1)) :
    RefusedAt depth index (.loadBlock x) (.outOfBounds (Memory.firstOutside index (x + 1)) 4096)

namespace Machine

variable {σ : Type u}

/-- **The faults of the next step.** -/
inductive FaultsWith (m : Machine σ) : Fault → Prop
  | fetch (outside : 4096 ≤ m.counter.toNat + 1) :
    FaultsWith m ⟨m.counter, none, .outOfBounds (max m.counter.toNat 4096) 4096⟩
  | decode (inside : m.counter.toNat + 1 < 4096)
    (unknown : ∀ i : Instruction, i.encode ≠ m.nextWord) :
    FaultsWith m ⟨m.counter, some m.nextWord, .unknownOpcode m.nextWord⟩
  | execute {i : Instruction} {cause : Cause} (inside : m.counter.toNat + 1 < 4096)
    (known : i.encode = m.nextWord) (refused : i.RefusedAt m.stack.depth m.index.toNat cause) :
    FaultsWith m ⟨m.counter, some m.nextWord, cause⟩

variable [Surface σ]

/-- An instruction is refused exactly if it is one of those. -/
theorem effect_eq_error_iff {m : Machine σ} {i : Instruction} {cause : Cause} :
    m.effect i = .error cause ↔ i.RefusedAt m.stack.depth m.index.toNat cause := by
  constructor
  · intro h
    cases i with
    | ret =>
      obtain ⟨hempty, rfl⟩ := CallStack.pop_eq_error_iff.mp (map_eq_error_iff.mp h)
      exact .ret (congrArg List.length hempty)
    | call nnn =>
      obtain ⟨hfull, rfl⟩ := CallStack.push_eq_error_iff.mp (map_eq_error_iff.mp h)
      exact .call hfull
    | draw x y n =>
      obtain ⟨houtside, rfl⟩ := Memory.slice_eq_error_iff.mp (map_eq_error_iff.mp h)
      exact .draw houtside
    | storeDecimal x =>
      obtain ⟨houtside, rfl⟩ := Memory.load_eq_error_iff.mp (map_eq_error_iff.mp h)
      exact .storeDecimal houtside
    | storeBlock x =>
      obtain ⟨houtside, rfl⟩ := Memory.load_eq_error_iff.mp (map_eq_error_iff.mp h)
      rw [Registers.length_block] at houtside ⊢
      exact .storeBlock houtside
    | loadBlock x =>
      obtain ⟨houtside, rfl⟩ := Memory.slice_eq_error_iff.mp (map_eq_error_iff.mp h)
      exact .loadBlock houtside
    | _ => cases h
  · rintro (hempty | hfull | houtside | houtside | houtside | houtside)
    · exact map_eq_error_iff.mpr
        (CallStack.pop_eq_error_iff.mpr ⟨List.eq_nil_of_length_eq_zero hempty, rfl⟩)
    · exact map_eq_error_iff.mpr (CallStack.push_eq_error_iff.mpr ⟨hfull, rfl⟩)
    · exact map_eq_error_iff.mpr (Memory.slice_eq_error_iff.mpr ⟨houtside, rfl⟩)
    · exact map_eq_error_iff.mpr (Memory.load_eq_error_iff.mpr ⟨houtside, rfl⟩)
    · refine map_eq_error_iff.mpr (Memory.load_eq_error_iff.mpr ?_)
      rw [Registers.length_block]
      exact ⟨houtside, rfl⟩
    · exact map_eq_error_iff.mpr (Memory.slice_eq_error_iff.mpr ⟨houtside, rfl⟩)

theorem effect_advanced_eq_error_iff {m : Machine σ} {op : Opcode} {i : Instruction}
    {cause : Cause} :
    (m.withOpcode op).advanced.effect i = .error cause ↔
      i.RefusedAt m.stack.depth m.index.toNat cause :=
  effect_eq_error_iff

/-- What an instruction is refused for depends on the stack and the index register only. -/
theorem effect_advanced_eq_error_congr {τ : Type u} [Surface τ] {m : Machine σ} {n : Machine τ}
    (hstack : n.stack = m.stack) (hindex : n.index = m.index) {op : Opcode} {i : Instruction}
    {cause : Cause} (h : (m.withOpcode op).advanced.effect i = .error cause) :
    (n.withOpcode op).advanced.effect i = .error cause := by
  rw [effect_advanced_eq_error_iff] at h ⊢
  rwa [hstack, hindex]

/-- An instruction has an effect unless it is one of those. -/
theorem exists_effect_iff {m : Machine σ} {i : Instruction} :
    (∃ o, m.effect i = .ok o) ↔ ∀ cause, ¬i.RefusedAt m.stack.depth m.index.toNat cause := by
  constructor
  · rintro ⟨o, ho⟩ cause hrefused
    rw [effect_eq_error_iff.mpr hrefused] at ho
    cases ho
  · intro hnone
    cases he : m.effect i with
    | ok o => exact ⟨o, rfl⟩
    | error cause => exact absurd (effect_eq_error_iff.mp he) (hnone cause)

/-- A step executes the instruction whose opcode it fetches, unless that one is refused. -/
theorem executed?_eq_some_iff_not_refusedAt {m : Machine σ} {i : Instruction} :
    m.executed? = some i ↔
      m.fetch = .ok i.encode ∧ ∀ cause, ¬i.RefusedAt m.stack.depth m.index.toNat cause := by
  rw [executed?_eq_some_iff]
  constructor
  · rintro ⟨op, o, hf, hd, he⟩
    refine ⟨by rw [hf, Instruction.encode_of_decode hd], ?_⟩
    exact (exists_effect_iff (m := (m.withOpcode op).advanced)).mp ⟨o, he⟩
  · rintro ⟨hf, hnone⟩
    obtain ⟨o, he⟩ := (exists_effect_iff (m := (m.withOpcode i.encode).advanced)).mpr hnone
    exact ⟨i.encode, _, hf, i.decode_encode, he⟩

/-- A step is a fault exactly if it is one of those. -/
theorem result_step_eq_error_iff {m : Machine σ} {fault : Fault} :
    m.step.result = .error fault ↔ m.FaultsWith fault := by
  constructor
  · intro h
    rcases m.step_cases with ⟨cause, hf, hs⟩ | ⟨op, hf, hd, hs⟩ | ⟨op, i, cause, hf, hd, he, hs⟩ |
      ⟨_, _, _, _, _, _, hs⟩
    · rw [hs, Except.error.injEq] at h
      rw [fetch_eq] at hf
      split at hf
      · cases hf
      next houtside =>
        cases hf
        rw [← h]
        exact .fetch (Nat.le_of_not_lt houtside)
    · rw [hs, Except.error.injEq] at h
      obtain ⟨hinside, rfl⟩ := fetch_eq_ok_iff.mp hf
      rw [← h]
      refine .decode hinside fun i hi => ?_
      rw [← hi, Instruction.decode_encode] at hd
      cases hd
    · rw [hs, Except.error.injEq] at h
      obtain ⟨hinside, rfl⟩ := fetch_eq_ok_iff.mp hf
      rw [← h]
      exact .execute hinside (Instruction.encode_of_decode hd)
        (effect_advanced_eq_error_iff.mp he)
    · rw [hs] at h
      cases h
  · rintro (houtside | ⟨hinside, hunknown⟩ | ⟨hinside, hknown, hrefused⟩)
    · have hf : m.fetch = .error (.outOfBounds (max m.counter.toNat 4096) 4096) := by
        rw [fetch_eq, Memory.size, if_neg (Nat.not_lt_of_le houtside)]
      rw [step_of_fetch_error hf]
    · have hf : m.fetch = .ok m.nextWord := fetch_eq_ok_iff.mpr ⟨hinside, rfl⟩
      have hd : Instruction.decode m.nextWord = none := by
        rw [Option.eq_none_iff_forall_ne_some]
        exact fun i hi => hunknown i (Instruction.encode_of_decode hi)
      rw [step_of_decode_eq_none hf hd]
    · have hf : m.fetch = .ok m.nextWord := fetch_eq_ok_iff.mpr ⟨hinside, rfl⟩
      have hd := Instruction.decode_eq_some_iff.mpr hknown
      rw [step_of_effect_error hf hd (effect_advanced_eq_error_iff.mpr hrefused)]

/-- **When a step is a fault**, and which one. In every other state it succeeds, whatever the level
of the machine. -/
theorem fault_iff (m : Machine σ) :
    (∀ fault, m.step.result = .error fault ↔ m.FaultsWith fault) ∧
      ((∃ signal, m.step.result = .ok signal) ↔ ∀ fault, ¬m.FaultsWith fault) := by
  refine ⟨fun fault => result_step_eq_error_iff, ?_⟩
  constructor
  · rintro ⟨signal, hok⟩ fault hfault
    rw [result_step_eq_error_iff.mpr hfault] at hok
    cases hok
  · intro hnone
    cases hresult : m.step.result with
    | ok signal => exact ⟨signal, rfl⟩
    | error fault => exact absurd (result_step_eq_error_iff.mp hresult) (hnone fault)

end Machine

end Chip8

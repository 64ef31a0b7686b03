import Chip8.Proofs.WriteSets

/-!
# Subroutines

A call puts the address behind it on the stack. As long as the subroutine runs, the frames below are
not touched: calls put new frames on top of them, and a return takes the topmost one. So it is the
return that brings the stack back to the depth it had before the call which finds the address that
the call left, however many calls and returns are in between. That the machine is stopped by faults,
that time passes, or that the program is replaced while it runs makes no difference.

## Main results

* `frames_step_of_call`, `frames_step_of_ret`, `stack_step_cases`: what a step does to the stack
* `isSuffix_frames_perform`: frames that are not returned to stay at the bottom of the stack
* `return_behind_call`: the return from a subroutine leads behind its call
-/

universe u

namespace Chip8.Machine

variable {σ : Type u} [Surface σ] {m : Machine σ}

/-! ## The stack after a step -/

section Step

/-- A call stores the address behind it. -/
theorem frames_step_of_call {nnn : Fin 4096} (h : m.executed? = some (.call nnn)) :
    m.step.state.stack.frames = (m.counter + 2) :: m.stack.frames := by
  obtain ⟨op, o, hf, hd, he⟩ := executed?_eq_some_iff.mp h
  rw [step_of_effect_ok hf hd he, Outcome.stack_final]
  obtain ⟨stack, hpush, rfl⟩ := map_eq_ok_iff.mp he
  exact CallStack.frames_of_push hpush

/-- A return leads to the address that it takes. -/
theorem frames_step_of_ret (h : m.executed? = some .ret) :
    m.stack.frames = m.step.state.counter :: m.step.state.stack.frames := by
  obtain ⟨op, o, hf, hd, he⟩ := executed?_eq_some_iff.mp h
  rw [step_of_effect_ok hf hd he, Outcome.stack_final, Outcome.counter_final]
  obtain ⟨popped, hpop, rfl⟩ := map_eq_ok_iff.mp he
  exact CallStack.frames_of_pop hpop

/-- A step that neither returns nor calls, or is a fault, keeps the stack. -/
theorem stack_step_cases (m : Machine σ) :
    m.executed? = some .ret ∨ (∃ nnn, m.executed? = some (.call nnn)) ∨
      m.step.state.stack = m.stack := by
  rcases m.state_step_cases with ⟨op, hstate⟩ | ⟨i, hi, hwrites⟩
  · rw [hstate]
    exact .inr (.inr rfl)
  · by_cases hret : i = .ret
    · exact .inl (hret ▸ hi)
    by_cases hcall : ∃ nnn, i = .call nnn
    · obtain ⟨nnn, rfl⟩ := hcall
      exact .inr (.inl ⟨nnn, hi⟩)
    · exact .inr (.inr (hwrites.stack hret (not_exists.mp hcall)))

/-- A step that leaves fewer frames on the stack is a return. -/
theorem executed?_of_depth_lt (h : m.step.state.stack.depth < m.stack.depth) :
    m.executed? = some .ret := by
  rcases m.stack_step_cases with hret | ⟨nnn, hcall⟩ | hkept
  · exact hret
  · have hframes := congrArg List.length (frames_step_of_call hcall)
    rw [List.length_cons] at hframes
    unfold CallStack.depth at h
    omega
  · rw [hkept] at h
    exact absurd h (Nat.lt_irrefl _)

end Step

/-! ## The frames below a call -/

section Frames

variable {base : List Address}

/-- A step that leaves at least as many frames as there are at the bottom leaves these. -/
theorem isSuffix_frames_step (h : base <:+ m.stack.frames)
    (hdepth : base.length ≤ m.step.state.stack.depth) : base <:+ m.step.state.stack.frames := by
  rcases m.stack_step_cases with hret | ⟨nnn, hcall⟩ | hkept
  · rw [frames_step_of_ret hret] at h
    rcases List.suffix_cons_iff.mp h with rfl | h
    · exact absurd hdepth (Nat.not_succ_le_self _)
    · exact h
  · rw [frames_step_of_call hcall]
    exact h.trans (List.suffix_cons _ _)
  · rwa [hkept]

/-- What is asked of a machine does not touch the frames at the bottom of its stack, unless it is
started anew or returns to one of them. -/
theorem isSuffix_frames_perform {c : Command} (hreset : c ≠ .reset) (h : base <:+ m.stack.frames)
    (hdepth : base.length ≤ (m.perform c).state.stack.depth) :
    base <:+ (m.perform c).state.stack.frames := by
  cases c with
  | step => exact isSuffix_frames_step h hdepth
  | reset => exact absurd rfl hreset
  | loadProgram | loadRom | loadFont =>
    simp only [perform, Reply.state_map, state_loadProgram, loadRom_eq, loadFont_eq]
    exact h
  | tick | setLevel | setDebug | keys => exact h

/-- Throughout a run that never leaves fewer frames than there are at the bottom, these stay. -/
theorem isSuffix_frames_performAll {cs : List Command} (hreset : Command.reset ∉ cs)
    (h : base <:+ m.stack.frames)
    (hdepth : ∀ t ∈ m.moments cs, base.length ≤ t.machine.stack.depth)
    (hlast : base.length ≤ (m.performAll cs).state.stack.depth) :
    base <:+ (m.performAll cs).state.stack.frames := by
  -- the depth after a command is that of the next moment, so it is a premise of the invariant
  refine (performAll_invariant
    (P := fun m => base.length ≤ m.stack.depth → base <:+ m.stack.frames) (fun _ => h) ?_).1 hlast
  intro t ht hbefore hafter
  have hcommand : t.command ≠ .reset := by
    intro hc
    exact hreset (hc ▸ command_mem_of_mem_moments ht)
  exact isSuffix_frames_perform hcommand (hbefore (hdepth t ht)) hafter

end Frames

/-- **The return from a subroutine leads behind its call.** Whatever is asked of the machine in
between, as long as it is not started anew: the first step that brings the stack back to the depth
it had before the call is a return, and leaves the stack as it was, with the counter behind the
call. -/
theorem return_behind_call {nnn : Fin 4096} {cs : List Command}
    (hcall : m.executed? = some (.call nnn)) (hreset : Command.reset ∉ cs)
    (hdeep : ∀ t ∈ m.step.state.moments (cs ++ [.step]), m.stack.depth < t.machine.stack.depth)
    (hback : (m.step.state.performAll (cs ++ [.step])).state.stack.depth = m.stack.depth) :
    (m.step.state.performAll cs).state.executed? = some .ret ∧
      (m.step.state.performAll (cs ++ [.step])).state.counter.toNat = m.counter.toNat + 2 ∧
      (m.step.state.performAll (cs ++ [.step])).state.stack = m.stack := by
  have hfinal : (m.step.state.performAll (cs ++ [.step])).state =
      (m.step.state.performAll cs).state.step.state := by
    rw [performAll_append]
    rfl
  rw [moments_append, List.forall_mem_append] at hdeep
  obtain ⟨hdeep, hlast⟩ := hdeep
  rw [hfinal] at hback ⊢
  generalize hinner : (m.step.state.performAll cs).state = inner at hback hlast ⊢
  have hdepth : m.stack.depth < inner.stack.depth := hlast _ List.mem_cons_self
  have hret : inner.executed? = some .ret := executed?_of_depth_lt (hback ▸ hdepth)
  have hbottom : ((m.counter + 2) :: m.stack.frames) <:+ inner.stack.frames := by
    rw [← hinner]
    refine isSuffix_frames_performAll hreset ?_ hdeep (hinner ▸ hdepth)
    exact ⟨[], (frames_step_of_call hcall).symm⟩
  rw [frames_step_of_ret hret] at hbottom
  have hlength : ((m.counter + 2) :: m.stack.frames).length =
      (inner.step.state.counter :: inner.step.state.stack.frames).length :=
    congrArg Nat.succ hback.symm
  obtain ⟨hcounter, hframes⟩ := List.cons.inj (hbottom.eq_of_length hlength)
  refine ⟨hret, ?_, CallStack.ext hframes.symm⟩
  obtain ⟨op, o, hf, -, -⟩ := executed?_eq_some_iff.mp hcall
  rw [← hcounter]
  exact (toNat_counter_advanced hf).1

/-- A program whose subroutine at `206` calls another one. -/
def nestedRom : Rom :=
  ⟨"nested", [0x22, 0x06, 0x00, 0x00, 0x00, 0x00, 0x22, 0x0A, 0x00, 0xEE, 0x00, 0xEE], by decide⟩

/-- The outer subroutine returns behind its call, although the inner one returned first. -/
theorem return_behind_call_nestedRom :
    let m := build (some nestedRom) .chip8 Screen.blank .released (.cycle #[])
    let cs : List Command := [.step, .tick, .step]
    m.executed? = some (.call 0x206) ∧ Command.reset ∉ cs ∧
      (∀ t ∈ m.step.state.moments (cs ++ [.step]), m.stack.depth < t.machine.stack.depth) ∧
      (m.step.state.performAll (cs ++ [.step])).state.stack.depth = m.stack.depth ∧
      (m.step.state.performAll (cs ++ [.step])).state.counter.toNat = 0x202 ∧
      (m.step.state.performAll (cs ++ [.step])).state.stack = m.stack := by
  intro m cs
  have hreset : Command.reset ∉ cs := by simp [cs]
  obtain ⟨hcall, hdeep, hback⟩ : m.executed? = some (.call 0x206) ∧
      (∀ t ∈ m.step.state.moments (cs ++ [.step]), m.stack.depth < t.machine.stack.depth) ∧
      (m.step.state.performAll (cs ++ [.step])).state.stack.depth = m.stack.depth := by
    decide +kernel
  obtain ⟨-, hcounter, hstack⟩ := return_behind_call hcall hreset hdeep hback
  exact ⟨hcall, hreset, hdeep, hback, hcounter, hstack⟩

end Chip8.Machine

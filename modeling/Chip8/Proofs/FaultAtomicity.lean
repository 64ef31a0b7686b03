import Chip8.Proofs.Runs
import Chip8.Screen

/-!
# Faults change nothing

A step that is a fault leaves the machine as it was. Only the opcode that was fetched last is
another one, if an opcode could be fetched. So the next step is the same fault again, and so is any
step after it.

This rests on the order in which instructions work: an instruction is an action that changes the
machine bit by bit, and nothing is taken back when it is refused. That a refused instruction left no
trace is `execute_of_error`.

## Main results

* `step_afterFault`: the next step is the same fault
* `fault_changes_nothing`: a fault leaves the machine as it was, however many steps follow; so does
  an instruction that is refused on its own
-/

universe u

namespace Chip8.Machine

variable {σ : Type u}

@[simp] theorem fetch_withOpcode (m : Machine σ) (op : Opcode) :
    (m.withOpcode op).fetch = m.fetch := rfl

variable [Surface σ] {m : Machine σ} {fault : Fault}

/-- Fetching an opcode once more does not make a difference. -/
theorem step_withOpcode {op : Opcode} (h : m.fetch = .ok op) : (m.withOpcode op).step = m.step := by
  have hagain : (m.withOpcode op).fetch = .ok op := by rw [fetch_withOpcode, h]
  rw [step_of_fetch_ok h, step_of_fetch_ok hagain]
  rfl

/-- The step after a fault is the same fault, with the same notices. -/
theorem step_afterFault (h : m.step.result = .error fault) :
    (m.afterFault fault).step = m.step := by
  obtain ⟨-, hopcode⟩ := state_step_of_error h
  unfold afterFault
  cases hf : m.fetch with
  | error cause =>
    rw [hopcode, hf]
    rfl
  | ok op =>
    rw [hopcode, hf]
    exact step_withOpcode hf

/-- So are any number of steps. -/
theorem performAll_replicate_of_fault (h : m.step.result = .error fault) (n : Nat) :
    ((m.afterFault fault).performAll (List.replicate n .step)).state = m.afterFault fault ∧
      ((m.afterFault fault).performAll (List.replicate n .step)).result =
        List.replicate n (.faulted fault) := by
  have hperform : (m.afterFault fault).perform .step = m.step.map .ofStep := by
    rw [perform, step_afterFault h]
  have hstate : (m.step.map Response.ofStep).state = m.afterFault fault :=
    (state_step_of_error h).1
  have hresult : (m.step.map Response.ofStep).result = .faulted fault := by
    rw [Reply.result_map, h, Response.ofStep]
  induction n with
  | zero => exact ⟨rfl, rfl⟩
  | succ n ih =>
    rw [List.replicate_succ, state_performAll_cons, result_performAll_cons, hperform, hstate,
      hresult]
    exact ⟨ih.1, congrArg _ ih.2⟩

/-- An instruction that is refused changes nothing. -/
theorem state_execute_of_error {i : Instruction} {cause : Cause}
    (h : (m.execute i).result = .error cause) : (m.execute i).state = m := by
  cases he : m.effect i with
  | error cause' => rw [execute_of_error he]
  | ok o =>
    rw [execute_of_ok he] at h
    cases h

/-- **A fault changes nothing** but the opcode that was fetched last. The surface is not asked for
anything, no random byte is taken, and any number of further steps are the same fault and change
nothing more. Neither does an instruction that is refused when it is executed on its own. -/
theorem fault_changes_nothing :
    (∀ (m : Machine σ) (fault : Fault), m.step.result = .error fault →
      fault.opcode = m.fetch.toOption ∧
        m.step.state = { m with opcode := fault.opcode.getD m.opcode } ∧
        ∀ n, (m.step.state.performAll (List.replicate n .step)).state = m.step.state ∧
          (m.step.state.performAll (List.replicate n .step)).result =
            List.replicate n (.faulted fault)) ∧
    (∀ (m : Machine (Recorder σ)) (fault : Fault), m.step.result = .error fault →
      m.step.state.surface.calls = m.surface.calls ∧ m.step.state.random.taken = m.random.taken) ∧
    ∀ (m : Machine σ) (i : Instruction) (cause : Cause), (m.execute i).result = .error cause →
      (m.execute i).state = m := by
  refine ⟨fun m fault h => ?_, fun m fault h => ?_, fun m i cause => state_execute_of_error⟩
  · obtain ⟨hstate, hopcode⟩ := state_step_of_error h
    refine ⟨hopcode, hstate, fun n => ?_⟩
    rw [hstate]
    exact performAll_replicate_of_fault h n
  · rw [(state_step_of_error h).1]
    exact ⟨rfl, rfl⟩

/-- A machine that calls one more subroutine than its stack has room for. -/
def overflowing : Machine (Recorder Screen) where
  memory := ⟨Vector.replicate 4096 0x22⟩
  stack := ⟨List.replicate 16 0x0202, by decide⟩
  surface := ⟨Screen.blank, []⟩
  keypad := .released
  random := .cycle #[]

theorem result_step_overflowing :
    overflowing.step.result = .error ⟨0x200, some 0x2222, .stackFull⟩ := by
  have hfetch : overflowing.fetch = .ok 0x2222 := by
    simp [fetch, Memory.read, overflowing]
    rfl
  rw [step_of_fetch_ok hfetch]
  rfl

theorem fault_changes_nothing_overflowing :
    overflowing.step.result = .error ⟨0x200, some 0x2222, .stackFull⟩ ∧
      overflowing.step.state = { overflowing with opcode := 0x2222 } ∧
      (overflowing.step.state.performAll (List.replicate 3 .step)).result =
        List.replicate 3 (.faulted ⟨0x200, some 0x2222, .stackFull⟩) ∧
      overflowing.step.state.surface.calls = [] ∧ overflowing.step.state.random.taken = 0 ∧
      (overflowing.advanced.execute (.call 0x222)).state = overflowing.advanced := by
  have hfault := result_step_overflowing
  obtain ⟨-, hstate, hrepeats⟩ := fault_changes_nothing.1 overflowing _ hfault
  obtain ⟨hcalls, htaken⟩ := fault_changes_nothing.2.1 overflowing _ hfault
  refine ⟨hfault, hstate, (hrepeats 3).2, hcalls, htaken, ?_⟩
  exact fault_changes_nothing.2.2 overflowing.advanced (.call 0x222) .stackFull rfl

end Chip8.Machine

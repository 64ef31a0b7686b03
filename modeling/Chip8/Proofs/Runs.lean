import Chip8.Machine.Host
import Chip8.Proofs.StepCases

/-!
# Runs

A run is a sequence of commands, given to a machine one after the other. Before each of them there
is a moment at which the machine and the command can be looked at. What every moment preserves is
preserved by the run.

## Main definitions

* `Machine.Moment`: a machine that is about to do what a command asks for
* `Machine.moments`: the moments of a run, in order
* `Moment.executed?`: the instruction that is executed, if the command is a step

## Main results

* `performAll_invariant`: a property that every moment of a run preserves holds throughout the run
-/

universe u

namespace Chip8.Machine

variable {σ : Type u}

/-- A machine that is about to do what a command asks for. -/
structure Moment (σ : Type u) where
  machine : Machine σ
  command : Command

variable [Surface σ]

/-- The machine after the command was done. -/
def Moment.next (t : Moment σ) : Machine σ := (t.machine.perform t.command).state

/-- The instruction that is executed at a moment, if the command is a step and succeeds. -/
def Moment.executed? (t : Moment σ) : Option Instruction :=
  match t.command with
  | .step => t.machine.executed?
  | _ => none

theorem Moment.command_of_executed? {t : Moment σ} {i : Instruction} (h : t.executed? = some i) :
    t.command = .step := by
  obtain ⟨m, c⟩ := t
  cases c with
  | step => rfl
  | _ => cases h

/-- The moments of a run, in order. -/
def moments (m : Machine σ) : List Command → List (Moment σ)
  | [] => []
  | c :: cs => ⟨m, c⟩ :: (m.perform c).state.moments cs

section Run

variable (m : Machine σ) (c : Command) (cs : List Command)

@[simp] theorem moments_nil : m.moments [] = [] := rfl

@[simp] theorem moments_cons :
    m.moments (c :: cs) = ⟨m, c⟩ :: (m.perform c).state.moments cs := rfl

@[simp] theorem state_performAll_nil : (m.performAll []).state = m := rfl

@[simp] theorem state_performAll_cons :
    (m.performAll (c :: cs)).state = ((m.perform c).state.performAll cs).state := rfl

@[simp] theorem result_performAll_cons :
    (m.performAll (c :: cs)).result =
      (m.perform c).result :: ((m.perform c).state.performAll cs).result := rfl

end Run

theorem moments_append (m : Machine σ) (cs ds : List Command) :
    m.moments (cs ++ ds) = m.moments cs ++ (m.performAll cs).state.moments ds := by
  induction cs generalizing m with
  | nil => rfl
  | cons c cs ih => simp [ih]

/-- The commands at the moments of a run are those of the run. -/
theorem command_mem_of_mem_moments {m : Machine σ} {cs : List Command} {t : Moment σ}
    (h : t ∈ m.moments cs) : t.command ∈ cs := by
  induction cs generalizing m with
  | nil => cases h
  | cons c cs ih =>
    rcases List.mem_cons.mp h with rfl | h
    · exact List.mem_cons_self
    · exact List.mem_cons_of_mem _ (ih h)

/-- A property that every moment of a run preserves holds throughout the run. The moments that have
to preserve it are those of this run only, so what the run never does may well break the
property. -/
theorem performAll_invariant {P : Machine σ → Prop} {m : Machine σ} {cs : List Command} (hm : P m)
    (h : ∀ t ∈ m.moments cs, P t.machine → P t.next) :
    P (m.performAll cs).state ∧ ∀ t ∈ m.moments cs, P t.machine := by
  induction cs generalizing m with
  | nil => exact ⟨hm, by simp⟩
  | cons c cs ih =>
    have hfirst : P (m.perform c).state := h ⟨m, c⟩ (by simp) hm
    obtain ⟨hlast, hrest⟩ := ih hfirst fun t ht => h t (by simp [ht])
    refine ⟨hlast, ?_⟩
    rw [moments_cons, List.forall_mem_cons]
    exact ⟨hm, hrest⟩

end Chip8.Machine

import Chip8.Proofs.Reset

/-!
# The use of random bytes

A program gets random bytes by `CXNN` only, one byte for each that is executed. Nothing else takes a
byte, neither another instruction nor a fault nor the host, and nothing brings one back. So the
bytes are used in the order in which the source delivers them, from the time on when the machine was
built.

## Main definitions

* `Machine.Operation`, `Machine.operateAll`: what can be done to a machine, its surface included
* `Machine.executions`: the instructions that are executed by several operations
* `Machine.drawn`: how many of them take a random byte

## Main results

* `random_operateAll`: operations take as many bytes as they execute `CXNN`
* `random_bytes_in_order`: each executed `CXNN` uses the byte that is next in the order
-/

universe u

namespace Chip8

/-- `CXNN` takes a random byte. -/
def Instruction.takesByte : Instruction → Bool
  | random _ _ => true
  | _ => false

theorem Instruction.takesByte_eq_true_iff {i : Instruction} :
    i.takesByte = true ↔ ∃ x nn, i = .random x nn := by
  cases i <;> simp [takesByte]

namespace Machine

variable {σ : Type u}

/-- What can be done to a machine: what a command asks for, or anything that its host does to the
surface. -/
inductive Operation (σ : Type u) where
  | command (c : Command)
  | surface (change : σ → σ)

variable [Surface σ]

/-- The machine after an operation. -/
def operate (m : Machine σ) : Operation σ → Machine σ
  | .command c => (m.perform c).state
  | .surface change => { m with surface := change m.surface }

/-- The machine after several operations, one after the other. -/
def operateAll (m : Machine σ) : List (Operation σ) → Machine σ
  | [] => m
  | o :: os => (m.operate o).operateAll os

/-- The instruction that an operation executes, if it is a step that succeeds. -/
def executedBy? (m : Machine σ) : Operation σ → Option Instruction
  | .command c => Moment.executed? ⟨m, c⟩
  | .surface _ => none

/-- The instructions that are executed by several operations, in order. -/
def executions (m : Machine σ) : List (Operation σ) → List Instruction
  | [] => []
  | o :: os => (m.executedBy? o).toList ++ (m.operate o).executions os

/-- How many of the executed instructions are `CXNN`. -/
def drawn (m : Machine σ) (os : List (Operation σ)) : Nat :=
  (m.executions os).countP Instruction.takesByte

variable {m : Machine σ}

/-- `CXNN` sets `VX` to the next byte of the source, of which the bits of `NN` are kept. -/
theorem get_step_of_random {x : Register} {nn : UInt8} (h : m.executed? = some (.random x nn)) :
    m.step.state.registers.get x = nn &&& m.random.coming 0 := by
  obtain ⟨op, o, hf, hd, he⟩ := executed?_eq_some_iff.mp h
  rw [step_of_effect_ok hf hd he]
  cases he
  exact Registers.get_set_self _ _ _

/-- An operation that does not execute `CXNN` leaves the random source alone. -/
theorem random_operate_of_ne {o : Operation σ}
    (h : ∀ x nn, m.executedBy? o ≠ some (.random x nn)) : (m.operate o).random = m.random := by
  cases o with
  | surface change => rfl
  | command c =>
    by_cases hc : c = .step
    · subst hc
      exact random_step_of_ne h
    · exact random_perform hc

/-- An operation takes a byte if it executes `CXNN`. -/
theorem random_operate (m : Machine σ) (o : Operation σ) :
    (m.operate o).random =
      { m.random with
        taken := m.random.taken + (m.executedBy? o).toList.countP Instruction.takesByte } := by
  by_cases htakes : ∃ x nn, m.executedBy? o = some (.random x nn)
  · obtain ⟨x, nn, hi⟩ := htakes
    cases o with
    | surface change => cases hi
    | command c =>
      obtain rfl : c = .step := Moment.command_of_executed? hi
      rw [hi]
      exact random_step_of_random hi
  · have hne : ∀ x nn, m.executedBy? o ≠ some (.random x nn) := fun x nn hi => htakes ⟨x, nn, hi⟩
    have hnone : (m.executedBy? o).toList.countP Instruction.takesByte = 0 := by
      rw [List.countP_eq_zero]
      intro i hi htaken
      obtain ⟨x, nn, rfl⟩ := Instruction.takesByte_eq_true_iff.mp htaken
      exact hne x nn (Option.mem_toList.mp hi)
    rw [random_operate_of_ne hne, hnone]
    rfl

/-- Operations take as many bytes as they execute `CXNN`. -/
theorem random_operateAll (m : Machine σ) (os : List (Operation σ)) :
    (m.operateAll os).random = { m.random with taken := m.random.taken + m.drawn os } := by
  induction os generalizing m with
  | nil => rfl
  | cons o os ih =>
    rw [operateAll, ih, random_operate, drawn, drawn, executions, List.countP_append, Nat.add_assoc]

/-- **Random bytes are used in order.** Let `b` be the bytes that the source of a machine will
deliver. Whatever was done to the machine since then, as many bytes were taken as `CXNN` were
executed. If it was executed `k` times, its next execution sets `VX` to the bits of the byte `b k`
that are set in `NN`, and whatever does not execute it takes no byte and gives none back. -/
theorem random_bytes_in_order (m : Machine σ) (b : Nat → UInt8) (hb : ∀ k, m.random.coming k = b k)
    (os : List (Operation σ)) :
    (m.operateAll os).random.taken = m.random.taken + m.drawn os ∧
      (∀ k, (m.operateAll os).random.coming k = b (m.drawn os + k)) ∧
      (∀ x nn, (m.operateAll os).executed? = some (.random x nn) →
        (m.operateAll os).step.state.registers.get x = nn &&& b (m.drawn os)) ∧
      ∀ o, (∀ x nn, (m.operateAll os).executedBy? o ≠ some (.random x nn)) →
        ((m.operateAll os).operate o).random = (m.operateAll os).random := by
  have hcoming (k : Nat) : (m.operateAll os).random.coming k = b (m.drawn os + k) := by
    rw [random_operateAll, ← hb]
    exact congrArg m.random.bytes (Nat.add_assoc ..)
  refine ⟨congrArg RandomSource.taken (m.random_operateAll os), hcoming, fun x nn hi => ?_,
    fun o => random_operate_of_ne⟩
  rw [get_step_of_random hi, hcoming 0, Nat.add_zero]

/-- A program that sets `V0` to a random byte. -/
def drawingRom : Rom := ⟨"drawing", [0xC0, 0x0F], by decide⟩

/-- A reset lets the program run again, which then gets the second byte. -/
theorem random_bytes_in_order_drawingRom :
    let m := build (some drawingRom) .chip8 Screen.blank .released (.cycle #[0x12, 0x34])
    let b : Nat → UInt8 := fun k => if k % 2 = 0 then 0x12 else 0x34
    let os : List (Operation Screen) :=
      [.command .step, .surface fun _ => Screen.blank, .command .tick, .command .step,
        .command .reset]
    (∀ k, m.random.coming k = b k) ∧ m.drawn os = 1 ∧ (m.operateAll os).random.taken = 1 ∧
      (m.operateAll os).executed? = some (.random 0 0x0F) ∧
      (m.operateAll os).step.state.registers.get 0 = 0x04 ∧
      ((m.operateAll os).operate (.command .reset)).random = (m.operateAll os).random := by
  intro m b os
  have hb : ∀ k, m.random.coming k = b k := by
    intro k
    have hcycle : m.random.coming k = #[(0x12 : UInt8), 0x34][(0 + k) % 2]?.getD 0 := rfl
    rw [hcycle, Nat.zero_add]
    rcases Nat.mod_two_eq_zero_or_one k with h | h <;> simp [b, h]
  obtain ⟨hdrawn, hi⟩ :
      m.drawn os = 1 ∧ (m.operateAll os).executed? = some (.random 0 0x0F) := by
    decide +kernel
  obtain ⟨htaken, -, hnext, hkeeps⟩ := random_bytes_in_order m b hb os
  refine ⟨hb, hdrawn, ?_, hi, ?_, hkeeps (.command .reset) fun x nn h => nomatch h⟩
  · rw [htaken, hdrawn]
    rfl
  · have hsecond : b 1 = 0x34 := rfl
    rw [hnext 0 0x0F hi, hdrawn, hsecond]
    decide

end Machine

end Chip8

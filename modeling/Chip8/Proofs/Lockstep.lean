import Chip8.Proofs.FaultCondition
import Chip8.Proofs.Runs

/-!
# Machines in lockstep

A program does not notice a change of the machine in something that it does not look at: the steps
before and after the change have the same results, and leave machines that differ in that change
only. Machines that are related in such a way do the same when they are given the same commands, up
to the first command that tells them apart.

## Main definitions

* `Machine.IsLateral`: changes that have no influence on what is fetched, nor on what is refused
* `Outcome.withMachine`: the outcome of an instruction on a machine that was changed
* `Reply.Alike`: replies with the same result, from machines that are related

## Main results

* `executed?_congr`: what the executed instruction depends on
* `IsLateral.step`: a change that an instruction does not notice can be made before or after it
* `exists_alike_prefix`: related machines run alike up to the first moment that tells them apart
-/

universe u v

namespace Chip8

/-- Two replies with the same result, from machines that are related. -/
structure Reply.Alike {σ : Type u} {α : Type v} (R : σ → σ → Prop) (r s : Reply σ α) : Prop where
  result : r.result = s.result
  state : R r.state s.state

/-- The outcome with something more done to its machine. -/
def Outcome.withMachine {σ : Type u} (f : Machine σ → Machine σ) (o : Outcome σ) : Outcome σ :=
  { o with machine := f o.machine }

namespace Machine

variable {σ : Type u}

/-- **A lateral change** of a machine leaves alone what is fetched, what can refuse an instruction,
the registers and the keys. It can be made before or after the opcode, the counter and the registers
are written. -/
structure IsLateral (f : Machine σ → Machine σ) : Prop where
  memory : ∀ m, (f m).memory = m.memory := by intros; rfl
  counter : ∀ m, (f m).counter = m.counter := by intros; rfl
  stack : ∀ m, (f m).stack = m.stack := by intros; rfl
  index : ∀ m, (f m).index = m.index := by intros; rfl
  registers : ∀ m, (f m).registers = m.registers := by intros; rfl
  keypad : ∀ m, (f m).keypad = m.keypad := by intros; rfl
  withOpcode : ∀ m op, f (m.withOpcode op) = (f m).withOpcode op := by intros; rfl
  withCounter : ∀ m a, f { m with counter := a } = { f m with counter := a } := by intros; rfl
  setRegister : ∀ m x b, f (m.setRegister x b) = (f m).setRegister x b := by intros; rfl

theorem fetch_congr {m n : Machine σ} (hmemory : m.memory = n.memory)
    (hcounter : m.counter = n.counter) : m.fetch = n.fetch := by
  rw [fetch_eq, fetch_eq, nextWord, nextWord, hmemory, hcounter]

/-! ## Changes that an instruction does not notice -/

section Map

variable {f : Machine σ → Machine σ}

/-- What is done with the result of an access commutes with a change of the machine if the access
itself does not depend on it. -/
theorem map_withMachine {α : Type v} {p q : α → Outcome σ} {r : Except Cause α}
    (h : ∀ a, q a = (p a).withMachine f) : r.map q = (r.map p).map (.withMachine f) := by
  cases r with
  | error cause => rfl
  | ok a => exact congrArg Except.ok (h a)

theorem IsLateral.arithmeticEffect (hf : IsLateral f) {m : Machine σ} {op : Arithmetic}
    {x y : Register}
    (hcompute : op.compute (f m).behaviour (m.registers.get x) (m.registers.get y) =
      op.compute m.behaviour (m.registers.get x) (m.registers.get y)) :
    (f m).arithmeticEffect op x y = (m.arithmeticEffect op x y).withMachine f := by
  have hflag (n : Machine σ) (flag : Option UInt8) : (f n).setFlag flag = f (n.setFlag flag) := by
    cases flag with
    | none => rfl
    | some b => exact (hf.setRegister n .flag b).symm
  rw [Machine.arithmeticEffect, hf.registers, hcompute, ← hf.setRegister, hflag]
  rfl

theorem IsLateral.awaitKeyEffect (hf : IsLateral f) (m : Machine σ) (x : Register) :
    (f m).awaitKeyEffect x = (m.awaitKeyEffect x).withMachine f := by
  unfold Machine.awaitKeyEffect
  rw [hf.keypad]
  cases m.keypad.firstDown with
  | none => rfl
  | some key =>
    simp only
    rw [← hf.setRegister]
    rfl

theorem IsLateral.advanced (hf : IsLateral f) (m : Machine σ) (op : Opcode) :
    ((f m).withOpcode op).advanced = f (m.withOpcode op).advanced := by
  calc ((f m).withOpcode op).advanced
      = { (f m).withOpcode op with counter := m.counter + 2 } :=
        congrArg (fun a => { (f m).withOpcode op with counter := a + 2 }) (hf.counter m)
    _ = { f (m.withOpcode op) with counter := m.counter + 2 } := by rw [hf.withOpcode]
    _ = f (m.withOpcode op).advanced := (hf.withCounter _ _).symm

theorem IsLateral.final (hf : IsLateral f) (o : Outcome σ) :
    (o.withMachine f).final = f o.final := by
  calc (o.withMachine f).final
      = { f o.machine with counter := o.step.apply o.machine.counter } :=
        congrArg (fun a => { f o.machine with counter := o.step.apply a }) (hf.counter o.machine)
    _ = f o.final := (hf.withCounter _ _).symm

end Map

variable [Surface σ]

/-- Which instruction a step executes depends on what is fetched, and on what can refuse it. -/
theorem executed?_congr {m n : Machine σ} (hmemory : m.memory = n.memory)
    (hcounter : m.counter = n.counter) (hstack : m.stack = n.stack) (hindex : m.index = n.index) :
    m.executed? = n.executed? := by
  apply Option.ext
  intro i
  rw [executed?_eq_some_iff_not_refusedAt, executed?_eq_some_iff_not_refusedAt,
    fetch_congr hmemory hcounter, hstack, hindex]

theorem IsLateral.executed? {f : Machine σ → Machine σ} (hf : IsLateral f) (m : Machine σ) :
    (f m).executed? = m.executed? :=
  executed?_congr (hf.memory m) (hf.counter m) (hf.stack m) (hf.index m)

/-- **A change that an instruction does not notice** can be made before or after the step. Only the
instruction that is executed has to be asked: a fault is the same for both machines. -/
theorem IsLateral.step {f : Machine σ → Machine σ} (hf : IsLateral f) {m : Machine σ}
    (heffect : ∀ op, ∀ i ∈ m.executed?, (f (m.withOpcode op).advanced).effect i =
      ((m.withOpcode op).advanced.effect i).map (.withMachine f)) :
    (f m).step.result = m.step.result ∧ (f m).step.state = f m.step.state := by
  have hcounter : (f m).counter = m.counter := hf.counter m
  have hfetch : (f m).fetch = m.fetch := fetch_congr (hf.memory m) hcounter
  rcases m.step_cases with ⟨cause, hfetched, hs⟩ | ⟨op, hfetched, hd, hs⟩ |
    ⟨op, i, cause, hfetched, hd, he, hs⟩ | ⟨op, i, o, hfetched, hd, he, hs⟩
  · rw [hs, step_of_fetch_error (hfetch.trans hfetched), hcounter]
    exact ⟨rfl, rfl⟩
  · rw [hs, step_of_decode_eq_none (hfetch.trans hfetched) hd, hcounter]
    exact ⟨rfl, (hf.withOpcode m op).symm⟩
  · rw [hs, step_of_effect_error (hfetch.trans hfetched) hd
      (effect_advanced_eq_error_congr (hf.stack m) (hf.index m) he), hcounter]
    exact ⟨rfl, (hf.withOpcode m op).symm⟩
  · have hchanged := heffect op i (executed?_eq_some_iff.mpr ⟨op, o, hfetched, hd, he⟩)
    rw [he, ← hf.advanced] at hchanged
    rw [hs, step_of_effect_ok (hfetch.trans hfetched) hd hchanged]
    exact ⟨rfl, hf.final o⟩

/-! ## Runs of related machines -/

variable {R : Machine σ → Machine σ → Prop} {m n : Machine σ}

/-- **Related machines run alike** up to the first moment that tells them apart, if there is one in
the run: they are alike after each part of the run that ends before it. -/
theorem exists_alike_prefix (Parts : Moment σ → Prop) {cs : List Command}
    (hperform : ∀ c ∈ cs, ∀ m n : Machine σ, R m n → ¬Parts ⟨m, c⟩ →
      Reply.Alike R (m.perform c) (n.perform c)) (h : R m n) :
    ∃ agreed rest, cs = agreed ++ rest ∧
      (∀ p, p <+: agreed → Reply.Alike R (m.performAll p) (n.performAll p)) ∧
      (∀ t ∈ m.moments agreed, ¬Parts t) ∧
      ∀ c ∈ rest.head?, Parts ⟨(m.performAll agreed).state, c⟩ := by
  have hnothing (m n : Machine σ) (h : R m n) (p : List Command) (hp : p <+: []) :
      Reply.Alike R (m.performAll p) (n.performAll p) := by
    rw [List.prefix_nil.mp hp]
    exact ⟨rfl, h⟩
  induction cs generalizing m n with
  | nil => exact ⟨[], [], rfl, hnothing m n h, List.forall_mem_nil _, fun c hc => nomatch hc⟩
  | cons c cs ih =>
    by_cases hparts : Parts ⟨m, c⟩
    · refine ⟨[], c :: cs, rfl, hnothing m n h, List.forall_mem_nil _, fun c' hc' => ?_⟩
      obtain rfl : c = c' := Option.some.inj hc'
      exact hparts
    · have hfirst := hperform c List.mem_cons_self m n h hparts
      obtain ⟨agreed, rest, rfl, halike, hnone, hrest⟩ :=
        ih (fun c' hc' => hperform c' (List.mem_cons_of_mem _ hc')) hfirst.state
      refine ⟨c :: agreed, rest, rfl, fun p hp => ?_, ?_, hrest⟩
      · rcases List.prefix_cons_iff.mp hp with rfl | ⟨p, rfl, htail⟩
        · exact ⟨rfl, h⟩
        · have hlater := halike p htail
          refine ⟨?_, hlater.state⟩
          rw [result_performAll_cons, result_performAll_cons, hfirst.result, hlater.result]
      · rw [moments_cons, List.forall_mem_cons]
        exact ⟨hparts, hnone⟩

end Machine

end Chip8

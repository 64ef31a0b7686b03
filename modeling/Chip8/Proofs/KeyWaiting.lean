import Chip8.Proofs.Runs
import Chip8.Proofs.SurfaceCalls

/-!
# Waiting for a key

A machine that waits for a key executes the same instruction again and again, while its timers go on
and its keys are put down and up in between. Nothing else changes as long as no key is down when the
instruction is executed. Then the lowest of the keys that are down ends the waiting.

## Main definitions

* `Command.IsPatient`: what may happen to a machine that waits
* `Machine.Waiting`: a machine that has been waiting

## Main results

* `step_of_released`, `step_of_pressed`: the two steps of a machine that waits
* `Waiting.append`, `waiting_performAll`: waiting can be done in parts, and by every run
* `key_awaited`: a machine waits until a key is down
-/

universe u

namespace Chip8

namespace Machine

variable {σ : Type u}

/-- What may happen to a machine that waits for a key: steps, ticks and changes of the keys. -/
inductive Command.IsPatient : Command → Prop
  | step : IsPatient .step
  | tick : IsPatient .tick
  | keys (action : Keypad.Action) : IsPatient (.keys action)

/-- **A machine that has been waiting** for a key, while the commands were done. All but the timers,
the keys and the opcode is as it was. -/
structure Waiting (m : Machine σ) (op : Opcode) (cs : List Command) (w : Machine σ) : Prop where
  machine : w = { m with opcode := w.opcode, timers := w.timers, keypad := w.keypad }
  opcode : w.opcode = if .step ∈ cs then op else m.opcode
  delay : w.timers.delay.toNat = m.timers.delay.toNat - cs.count .tick
  sound : w.timers.sound.toNat = m.timers.sound.toNat - cs.count .tick

section Waiting

variable {m m' w : Machine σ} {op : Opcode} {cs ds : List Command}

theorem Waiting.fetch (h : m.Waiting op cs w) : w.fetch = m.fetch := by
  rw [h.machine]
  rfl

theorem Waiting.registers (h : m.Waiting op cs w) : w.registers = m.registers := by
  rw [h.machine]

theorem Waiting.counter (h : m.Waiting op cs w) : w.counter = m.counter := by
  rw [h.machine]

theorem waiting_nil (m : Machine σ) (op : Opcode) : m.Waiting op [] m where
  machine := rfl
  opcode := rfl
  delay := rfl
  sound := rfl

/-- Waiting can be done in parts. -/
theorem Waiting.append (h : m.Waiting op cs m') (h' : m'.Waiting op ds w) :
    m.Waiting op (cs ++ ds) w := by
  constructor
  case machine =>
    rw [h'.machine, h.machine]
  case opcode =>
    rw [h'.opcode, h.opcode]
    by_cases hds : .step ∈ ds
    · rw [if_pos hds, if_pos (List.mem_append_right cs hds)]
    · simp only [List.mem_append, hds, or_false, if_false]
  case delay =>
    rw [h'.delay, h.delay, List.count_append, Nat.sub_sub]
  case sound =>
    rw [h'.sound, h.sound, List.count_append, Nat.sub_sub]

end Waiting

section Effect

variable {m : Machine σ} {key : Fin 16}

theorem awaitKeyEffect_of_released (x : Register) (h : ∀ key, m.keypad.isDown key = false) :
    m.awaitKeyEffect x = { machine := m, step := .again, signal := .wait } := by
  rw [awaitKeyEffect, Keypad.firstDown_eq_none_iff.mpr h]

theorem awaitKeyEffect_of_pressed (x : Register)
    (h : IsLeast {n | m.keypad.isDown n = true} key.val) :
    m.awaitKeyEffect x =
      { machine := m.setRegister x (UInt8.ofNat key), notices := [.keyReceived key] } := by
  rw [awaitKeyEffect, Keypad.firstDown_eq_some_iff.mpr h]

end Effect

variable [Surface σ]

section Step

variable {m : Machine σ} {op : Opcode} {x : Register}

/-- A step of a machine that is about to wait for a key. -/
theorem step_awaitKey (hfetch : m.fetch = .ok op)
    (hdecode : Instruction.decode op = some (.awaitKey x)) :
    let o := (m.withOpcode op).advanced.awaitKeyEffect x
    m.step.result = .ok o.signal ∧ m.step.state = o.final := by
  intro o
  have hstep := step_of_effect_ok (o := o) hfetch hdecode rfl
  rw [hstep]
  exact ⟨rfl, rfl⟩

/-- While no key is down, the machine is about to execute the same instruction again. -/
theorem step_of_released (hfetch : m.fetch = .ok op)
    (hdecode : Instruction.decode op = some (.awaitKey x))
    (hup : ∀ key, m.keypad.isDown key = false) :
    m.step.result = .ok .wait ∧ m.step.state = m.withOpcode op := by
  have heffect := awaitKeyEffect_of_released (m := (m.withOpcode op).advanced) x hup
  obtain ⟨hresult, hstate⟩ := step_awaitKey hfetch hdecode
  rw [heffect] at hresult hstate
  refine ⟨hresult, hstate.trans ?_⟩
  have hcounter : CounterStep.again.apply (m.counter + 2) = m.counter :=
    CounterStep.apply_again_add_two m.counter
  simp only [Outcome.final, advanced, withOpcode, hcounter]

/-- The least key that is down ends the waiting. -/
theorem step_of_pressed (hfetch : m.fetch = .ok op)
    (hdecode : Instruction.decode op = some (.awaitKey x)) {key : Fin 16}
    (hkey : IsLeast {n | m.keypad.isDown n = true} key.val) :
    m.step.result = .ok .none ∧
      m.step.state =
        { m with
          opcode := op
          registers := m.registers.set x (UInt8.ofNat key)
          counter := m.counter + 2 } := by
  have heffect := awaitKeyEffect_of_pressed (m := (m.withOpcode op).advanced) x hkey
  obtain ⟨hresult, hstate⟩ := step_awaitKey hfetch hdecode
  rw [heffect] at hresult hstate
  exact ⟨hresult, hstate⟩

end Step

section Run

variable {m : Machine σ} {op : Opcode} {x : Register}

/-- Whatever may happen to a machine that waits, it goes on waiting. -/
theorem waiting_perform {c : Command} (hfetch : m.fetch = .ok op)
    (hdecode : Instruction.decode op = some (.awaitKey x)) (hc : c.IsPatient)
    (hup : c = .step → ∀ key, m.keypad.isDown key = false) :
    m.Waiting op [c] (m.perform c).state := by
  cases hc with
  | step =>
    have hstate : (m.perform .step).state = m.withOpcode op :=
      (step_of_released hfetch hdecode (hup rfl)).2
    rw [hstate]
    exact { machine := rfl, opcode := rfl, delay := rfl, sound := rfl }
  | tick =>
    exact { machine := rfl, opcode := rfl, delay := toNat_countDown _, sound := toNat_countDown _ }
  | keys action => exact { machine := rfl, opcode := rfl, delay := rfl, sound := rfl }

/-- A machine waits throughout a run if no key is down at any of the steps. -/
theorem waiting_performAll {cs : List Command} (hfetch : m.fetch = .ok op)
    (hdecode : Instruction.decode op = some (.awaitKey x)) (hcs : ∀ c ∈ cs, c.IsPatient)
    (hup : ∀ t ∈ m.moments cs, t.command = .step → ∀ key, t.machine.keypad.isDown key = false) :
    m.Waiting op cs (m.performAll cs).state ∧ ∀ t ∈ m.moments cs, t.machine.fetch = .ok op := by
  induction cs generalizing m with
  | nil => exact ⟨m.waiting_nil op, List.forall_mem_nil _⟩
  | cons c cs ih =>
    obtain ⟨hc, hcs⟩ := List.forall_mem_cons.mp hcs
    rw [moments_cons, List.forall_mem_cons] at hup ⊢
    have hfirst : m.Waiting op [c] (m.perform c).state := waiting_perform hfetch hdecode hc hup.1
    obtain ⟨hrest, hfetches⟩ := ih (hfirst.fetch.trans hfetch) hcs hup.2
    exact ⟨hfirst.append hrest, hfetch, hfetches⟩

/-- **Waiting for a key.** Whatever the host does in between, each step of a machine that is about
to wait says so and changes nothing but the opcode, as long as no key is down at a step, and the
timers count the ticks down to zero. When some keys are down, the next step stores the least of them
and goes on to the next instruction. -/
theorem key_awaited {cs : List Command} (hfetch : m.fetch = .ok (Instruction.awaitKey x).encode)
    (hcs : ∀ c ∈ cs, c.IsPatient)
    (hup : ∀ t ∈ m.moments cs, t.command = .step → ∀ key, t.machine.keypad.isDown key = false) :
    (∀ t ∈ m.moments cs, t.command = .step →
      t.machine.step.result = .ok .wait ∧
        t.machine.step.state = t.machine.withOpcode (Instruction.awaitKey x).encode) ∧
      m.Waiting (Instruction.awaitKey x).encode cs (m.performAll cs).state ∧
      ∀ keys : Keypad, (∃ n, keys.isDown n = true) →
        let pressed := { (m.performAll cs).state with keypad := keys }
        pressed.step.result = .ok .none ∧
          ∃ b : UInt8, IsLeast {n | keys.isDown n = true} b.toNat ∧
            pressed.step.state =
              { pressed with
                opcode := (Instruction.awaitKey x).encode
                registers := m.registers.set x b
                counter := m.counter + 2 } ∧
            (m.counter + 2).toNat = m.counter.toNat + 2 := by
  have hdecode := Instruction.decode_encode (.awaitKey x)
  generalize (Instruction.awaitKey x).encode = op at hfetch hdecode ⊢
  obtain ⟨hwaiting, hfetches⟩ := waiting_performAll hfetch hdecode hcs hup
  refine ⟨?_, hwaiting, ?_⟩
  · intro t ht hstep
    exact step_of_released (hfetches t ht) hdecode (hup t ht hstep)
  · rintro keys ⟨n, hn⟩ pressed
    obtain ⟨key, hkey⟩ := Keypad.exists_isLeast_of_isDown hn
    have hfetch' : pressed.fetch = .ok op := hwaiting.fetch.trans hfetch
    obtain ⟨hresult, hstate⟩ := step_of_pressed (m := pressed) hfetch' hdecode hkey
    rw [show pressed.registers = m.registers from hwaiting.registers,
      show pressed.counter = m.counter from hwaiting.counter] at hstate
    have hvalue : (UInt8.ofNat key.val).toNat = key.val :=
      UInt8.toNat_ofNat_of_lt' (Nat.lt_trans key.isLt (by decide))
    refine ⟨hresult, UInt8.ofNat key.val, ?_, hstate, (toNat_counter_advanced hfetch).1⟩
    rwa [hvalue]

end Run

/-- A program that waits for a key. -/
def waitingRom : Rom := ⟨"waiting", [0xF5, 0x0A], by decide⟩

/-- A key that is put down and up between two steps goes unnoticed. At last two keys are down. -/
theorem key_awaited_waitingRom :
    let m : Machine Screen :=
      { build (some waitingRom) .chip8 Screen.blank .released (.cycle #[]) with timers := ⟨1, 9⟩ }
    let cs : List Command :=
      [.step, .keys (.set 7 true), .tick, .keys (.toggle 7), .step, .tick, .keys (.set 7 true)]
    let keys : Keypad := .setAll [false, false, true, false, false, false, false, true]
    m.fetch = .ok (Instruction.awaitKey 5).encode ∧
      (m.performAll cs).state.counter = m.counter ∧
      (m.performAll cs).state.timers.delay.toNat = 0 ∧
      (m.performAll cs).state.timers.sound.toNat = 7 ∧
      ({ (m.performAll cs).state with keypad := keys } : Machine Screen).step.state.registers =
        m.registers.set 5 2 := by
  intro m cs keys
  -- one evaluation of the program tells what is to be known about the run
  obtain ⟨hnext, hnone⟩ :
      (m.counter.toNat + 1 < Memory.size ∧ m.nextWord = (Instruction.awaitKey 5).encode) ∧
        ∀ t ∈ m.moments cs, t.command = .step → t.machine.keypad.firstDown = none := by
    decide +kernel
  have hfetch : m.fetch = .ok (Instruction.awaitKey 5).encode := fetch_eq_ok_iff.mpr hnext
  have hcs : ∀ c ∈ cs, c.IsPatient := by
    simp only [cs, List.forall_mem_cons]
    exact ⟨.step, .keys _, .tick, .keys _, .step, .tick, .keys _, List.forall_mem_nil _⟩
  obtain ⟨-, hwaiting, hpressed⟩ := key_awaited hfetch hcs fun t ht hstep =>
    Keypad.firstDown_eq_none_iff.mp (hnone t ht hstep)
  obtain ⟨-, b, hleast, hstate, -⟩ := hpressed keys ⟨7, by decide⟩
  have hkey : IsLeast {n | keys.isDown n = true} (2 : UInt8).toNat :=
    Keypad.firstDown_eq_some_iff.mp (by decide : keys.firstDown = some 2)
  obtain rfl : b = 2 := UInt8.toNat_inj.mp (hleast.unique hkey)
  exact ⟨hfetch, hwaiting.counter, hwaiting.delay, hwaiting.sound, congrArg registers hstate⟩

end Machine

end Chip8

import Chip8.Proofs.Control
import Chip8.Proofs.Runs
import Chip8.Screen

/-!
# Alignment

An instruction takes two bytes, and programs are written with their instructions at even addresses.
The machine does not insist on it: an odd address is jumped to like any other. But there are only
three instructions that bring in an address, the jump, the call and the jump with an offset. All
others move the counter by whole instructions, or to a return address, which a call left behind
itself. So a machine is aligned until one of the three leads to an odd address, and from then on it
is not.

The counter and the return addresses depend on each other, so they are aligned together or not at
all.

## Main definitions

* `Machine.IsAligned`: the counter and the return addresses are even
* `Machine.target?`: the address that an instruction brings in
* `Moment.LeadsEvenly`: an executed instruction brings in no odd address

## Main results

* `CounterStep.even_apply_iff`: only a jump makes an even counter odd
* `step_of_target?`, `even_of_step_eq_jump`: the jumps of an aligned machine are those to an address
  that is brought in, and those to an even one
* `isAligned_next_iff`: an aligned machine stays aligned unless it is led to an odd address
* `aligned_of_build`: the alignment of a machine that was built, at every moment of a run
-/

universe u

namespace Chip8

/-- Only a jump makes an even counter odd, and not one to an even address. -/
theorem CounterStep.even_apply_iff {step : CounterStep} {c : Address} (h : 2 ∣ c.toNat) :
    2 ∣ (step.apply c).toNat ↔ ∀ a, step = .jump a → 2 ∣ a.toNat := by
  cases step with
  | next => simpa using h
  | skip =>
    simp only [apply_skip, UInt16.toNat_add, UInt16.reduceToNat, reduceCtorEq, false_implies,
      implies_true, iff_true]
    omega
  | again =>
    simp only [apply_again, UInt16.toNat_sub, UInt16.reduceToNat, reduceCtorEq, false_implies,
      implies_true, iff_true]
    omega
  | jump target =>
    rw [apply_jump]
    constructor
    · intro htarget a ha
      cases ha
      exact htarget
    · intro heven
      exact heven target rfl

namespace Machine

variable {σ : Type u}

/-- **The counter and all return addresses are even.** -/
structure IsAligned (m : Machine σ) : Prop where
  counter : 2 ∣ m.counter.toNat
  frames : ∀ a ∈ m.stack.frames, 2 ∣ a.toNat

/-- The address that an instruction brings in: that of its opcode, or the one that a jump with an
offset computes. -/
def target? (m : Machine σ) : Instruction → Option Address
  | .jump nnn | .call nnn => some (UInt16.ofNat nnn)
  | .jumpOffset nnn => some (m.jumpTarget nnn)
  | _ => none

theorem isAligned_build (rom : Option Rom) (level : Level) (surface : σ) (keypad : Keypad)
    (random : RandomSource) : (build rom level surface keypad random).IsAligned := by
  obtain ⟨name, memory, hbuild⟩ := exists_build_eq rom level surface keypad random
  rw [hbuild]
  exact ⟨(by decide : 2 ∣ (0x200 : Address).toNat), fun a ha => absurd ha List.not_mem_nil⟩

variable [Surface σ]

section Effect

variable {m : Machine σ} {i : Instruction} {o : Outcome σ}

/-- An instruction that brings in an address jumps to it. -/
theorem step_of_target? (h : m.effect i = .ok o) {a : Address} (ha : m.target? i = some a) :
    o.step = .jump a := by
  cases i with
  | jump | jumpOffset =>
    cases h
    cases ha
    rfl
  | call nnn =>
    obtain ⟨stack, -, rfl⟩ := map_eq_ok_iff.mp h
    cases ha
    rfl
  | _ => cases ha

/-- Any other jump of an aligned machine is a return, and leads to an even address. -/
theorem even_of_step_eq_jump (h : m.effect i = .ok o) (hframes : ∀ a ∈ m.stack.frames, 2 ∣ a.toNat)
    {a : Address} (ha : o.step = .jump a) : m.target? i = some a ∨ 2 ∣ a.toNat := by
  cases flow_of_effect h with
  | next step | skip step | again step =>
    rw [step] at ha
    cases ha
  | jump step | jumpOffset step | call step =>
    rw [step] at ha
    cases ha
    exact .inl rfl
  | @ret b _ step stack =>
    rw [step] at ha
    cases ha
    right
    apply hframes
    rw [CallStack.frames_of_pop stack]
    exact List.mem_cons_self

/-- The outcome of an instruction is aligned unless the instruction brings in an odd address. -/
theorem isAligned_final_iff (h : m.effect i = .ok o) (hm : m.IsAligned) :
    o.final.IsAligned ↔ ∀ a ∈ m.target? i, 2 ∣ a.toNat := by
  have hcounter : 2 ∣ o.machine.counter.toNat := by
    rw [counter_of_effect h]
    exact hm.counter
  have hframes : ∀ a ∈ o.final.stack.frames, 2 ∣ a.toNat := by
    intro a ha
    rcases frames_of_effect h ha with rfl | ha
    · exact hm.counter
    · exact hm.frames a ha
  constructor
  · intro hfinal a ha
    have heven := (CounterStep.even_apply_iff hcounter).mp hfinal.counter
    exact heven a (step_of_target? h ha)
  · intro htarget
    refine ⟨(CounterStep.even_apply_iff hcounter).mpr ?_, hframes⟩
    intro a ha
    rcases even_of_step_eq_jump h hm.frames ha with ha | ha
    · exact htarget a ha
    · exact ha

end Effect

/-- A step keeps a machine aligned unless the executed instruction brings in an odd address. -/
theorem isAligned_step_iff {m : Machine σ} (hm : m.IsAligned) :
    m.step.state.IsAligned ↔ ∀ i ∈ m.executed?, ∀ a ∈ m.target? i, 2 ∣ a.toNat := by
  cases hresult : m.step.result with
  | error fault =>
    rw [(state_step_of_error hresult).1, executed?, hresult]
    exact iff_of_true ⟨hm.counter, hm.frames⟩ (fun i hi => nomatch hi)
  | ok signal =>
    obtain ⟨op, i, o, hf, hd, he, hstate, -⟩ := exists_effect_of_ok hresult
    have hi : m.executed? = some i := executed?_eq_some_iff.mpr ⟨op, o, hf, hd, he⟩
    have hbehind : (m.withOpcode op).advanced.IsAligned := by
      refine ⟨?_, hm.frames⟩
      rw [(toNat_counter_advanced hf).1]
      exact Nat.dvd_add hm.counter (Nat.dvd_refl 2)
    have htarget : (m.withOpcode op).advanced.target? i = m.target? i := by cases i <;> rfl
    rw [hstate, hi, isAligned_final_iff he hbehind, htarget]
    constructor
    · intro heven j hj
      cases hj
      exact heven
    · intro heven
      exact heven i rfl

/-- No instruction is executed that brings in an odd address. -/
def Moment.LeadsEvenly (t : Moment σ) : Prop :=
  ∀ i ∈ t.executed?, ∀ a ∈ t.machine.target? i, 2 ∣ a.toNat

theorem Moment.leadsEvenly_iff {t : Moment σ} :
    t.LeadsEvenly ↔ (t.executed?.bind t.machine.target?).all (fun a => a.toNat % 2 == 0) := by
  unfold Moment.LeadsEvenly
  cases t.executed? with
  | none => simp
  | some i =>
    cases htarget : t.machine.target? i with
    | none => simp [htarget]
    | some a => simp [htarget, Nat.dvd_iff_mod_eq_zero]

instance (t : Moment σ) : Decidable t.LeadsEvenly := decidable_of_iff' _ t.leadsEvenly_iff

/-- Whatever is asked of an aligned machine, it stays aligned unless it is led to an odd address. -/
theorem isAligned_next_iff {t : Moment σ} (h : t.machine.IsAligned) :
    t.next.IsAligned ↔ t.LeadsEvenly := by
  obtain ⟨m, c⟩ := t
  cases c with
  | step => exact isAligned_step_iff h
  | reset =>
    refine iff_of_true ⟨(by decide : 2 ∣ (0x200 : Address).toNat), ?_⟩ (fun i hi => nomatch hi)
    exact fun a ha => absurd ha List.not_mem_nil
  | loadProgram | loadRom | loadFont =>
    simp only [Moment.next, perform, Reply.state_map, state_loadProgram, loadRom_eq, loadFont_eq]
    exact iff_of_true ⟨h.counter, h.frames⟩ (fun i hi => nomatch hi)
  | tick | setLevel | setDebug | keys =>
    exact iff_of_true ⟨h.counter, h.frames⟩ (fun i hi => nomatch hi)

/-- An executed instruction is the word at the counter. -/
theorem Moment.encode_of_executed? {t : Moment σ} {i : Instruction} (h : t.executed? = some i) :
    i.encode = word (t.machine.memory.byte t.machine.counter.toNat)
      (t.machine.memory.byte (t.machine.counter.toNat + 1)) := by
  obtain ⟨m, c⟩ := t
  obtain rfl : c = .step := Moment.command_of_executed? h
  obtain ⟨op, o, hf, hd, -⟩ := executed?_eq_some_iff.mp h
  rw [Instruction.encode_of_decode hd]
  exact (fetch_eq_ok_iff.mp hf).2.symm

/-- **The alignment of a machine that was built.** In a run in which no executed instruction brings
in an odd address, the counter and all return addresses are even at every moment and at the end, and
every executed instruction is a word at an even address. At no moment of whatever run is alignment
lost by anything else. -/
theorem aligned_of_build (rom : Option Rom) (level : Level) (surface : σ) (keypad : Keypad)
    (random : RandomSource) (cs : List Command) :
    let m := build rom level surface keypad random
    ((∀ t ∈ m.moments cs, t.LeadsEvenly) →
      (m.performAll cs).state.IsAligned ∧
        ∀ t ∈ m.moments cs, t.machine.IsAligned ∧
          ∀ i ∈ t.executed?, ∃ k, t.machine.counter.toNat = 2 * k ∧
            i.encode = word (t.machine.memory.byte (2 * k)) (t.machine.memory.byte (2 * k + 1))) ∧
    ∀ t ∈ m.moments cs, t.machine.IsAligned → (t.next.IsAligned ↔ t.LeadsEvenly) := by
  intro m
  refine ⟨?_, fun t _ => isAligned_next_iff⟩
  intro heven
  have hm : m.IsAligned := isAligned_build rom level surface keypad random
  obtain ⟨hlast, hall⟩ := performAll_invariant hm fun t ht ht' =>
    (isAligned_next_iff ht').mpr (heven t ht)
  refine ⟨hlast, fun t ht => ⟨hall t ht, ?_⟩⟩
  intro i hi
  obtain ⟨k, hk⟩ := (hall t ht).counter
  refine ⟨k, hk, ?_⟩
  rw [← hk]
  exact Moment.encode_of_executed? hi

/-- A program with a subroutine at `206`, which returns to a jump to an odd address. -/
def oddlyEndingRom : Rom :=
  ⟨"oddly ending", [0x22, 0x06, 0x12, 0x05, 0x00, 0x00, 0x00, 0xEE], by decide⟩

/-- A machine with that program. -/
def oddlyEnding : Machine Screen :=
  build (some oddlyEndingRom) .chip8 Screen.blank .released (.cycle #[])

/-- The moment at which it is about to jump. -/
def oddMoment : Moment Screen := ⟨(oddlyEnding.performAll [.step, .tick, .step]).state, .step⟩

/-- The call and the return keep the machine aligned, and the jump behind them does not. -/
theorem aligned_of_build_oddlyEnding :
    (∀ t ∈ oddlyEnding.moments [.step, .tick, .step], t.LeadsEvenly) ∧
      oddMoment.machine.IsAligned ∧ oddMoment.machine.counter = 0x202 ∧
      oddMoment ∈ oddlyEnding.moments [.step, .tick, .step, .step] ∧
      ¬oddMoment.LeadsEvenly ∧ ¬oddMoment.next.IsAligned := by
  have hbuild (cs : List Command) :=
    aligned_of_build (some oddlyEndingRom) .chip8 Screen.blank .released (.cycle #[]) cs
  have hmachine : build (some oddlyEndingRom) .chip8 Screen.blank .released (.cycle #[]) =
      oddlyEnding := rfl
  simp only [hmachine] at hbuild
  have heven : ∀ t ∈ oddlyEnding.moments [.step, .tick, .step], t.LeadsEvenly := by decide +kernel
  have hcounter : oddMoment.machine.counter = 0x202 := by decide +kernel
  have hodd : ¬oddMoment.LeadsEvenly := by decide +kernel
  have hlast : oddMoment ∈ oddlyEnding.moments ([.step, .tick, .step] ++ [.step]) := by
    rw [moments_append]
    exact List.mem_append_right _ List.mem_cons_self
  have haligned : oddMoment.machine.IsAligned := by
    obtain ⟨hend, -⟩ := (hbuild [.step, .tick, .step]).1 heven
    rw [oddMoment]
    dsimp only
    exact hend
  have hnext : oddMoment.next.IsAligned ↔ oddMoment.LeadsEvenly :=
    (hbuild [.step, .tick, .step, .step]).2 oddMoment hlast haligned
  refine ⟨heven, haligned, hcounter, hlast, hodd, ?_⟩
  intro hstays
  exact hodd (hnext.mp hstays)

end Machine

end Chip8

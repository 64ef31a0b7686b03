import Chip8.Proofs.Lockstep
import Chip8.Screen

/-!
# What a program sees

A program sees some parts of its machine through a few instructions only: the keys through the three
that ask for one, the random bytes through the one that takes one, the delay timer through the one
that reads it, and the drawing through the collisions of a sprite. The sound timer, the name and the
debug flag it does not see at all. Machines that agree in everything but such parts run alike for as
long as no instruction is executed that sees one of them.

## Main definitions

* `Machine.Part`, `Part.isSeenBy`: the parts in question, and the instructions that see them
* `Machine.AgreesBeside`: two machines agree in everything but some parts
* `Machine.SeesAlike`: an instruction reads the same from these parts on both machines

## Main results

* `exists_effect_of_seesAlike`: an instruction that reads the same has the same effect
* `AgreesBeside.perform`: machines agree after any command for which they read the same
* `alike_until_seen`: they run alike up to the first instruction that sees a part they may differ in
-/

universe u

namespace Chip8

namespace Machine

/-- The parts of a machine that a program sees through a few instructions, or not at all. -/
inductive Part where
  | name
  | debug
  | keypad
  | random
  | delay
  | sound
  | surface
  deriving DecidableEq, Repr

/-- **The instructions that see a part.** `EX9E`, `EXA1` and `FX0A` ask for keys, `CXNN` takes a
random byte, `FX07` reads the delay timer, and `DXYN` learns what it collides with. -/
def Part.isSeenBy : Part → Instruction → Bool
  | keypad, .skipIfDown _ | keypad, .skipUnlessDown _ | keypad, .awaitKey _ => true
  | random, .random _ _ => true
  | delay, .readDelay _ => true
  | surface, .draw _ _ _ => true
  | _, _ => false

/-- No instruction sees the sound timer, the name or the debug flag. -/
theorem Part.isSeenBy_eq_false {p : Part} (h : p ∈ [sound, name, debug]) {i : Instruction} :
    p.isSeenBy i = false := by
  simp only [List.mem_cons, List.not_mem_nil, or_false] at h
  rcases h with rfl | rfl | rfl <;> rfl

variable {σ : Type u}

/-- **Agreement beside some parts.** Two machines are equal in everything but the hidden parts. -/
structure AgreesBeside (hidden : List Part) (m n : Machine σ) : Prop where
  /-- Whatever is none of the parts is equal. -/
  rest : n =
    { m with
      name := n.name
      debug := n.debug
      keypad := n.keypad
      random := n.random
      timers := n.timers
      surface := n.surface } := by rfl
  name : .name ∉ hidden → n.name = m.name := by intros; rfl
  debug : .debug ∉ hidden → n.debug = m.debug := by intros; rfl
  keypad : .keypad ∉ hidden → n.keypad = m.keypad := by intros; rfl
  random : .random ∉ hidden → n.random = m.random := by intros; rfl
  delay : .delay ∉ hidden → n.timers.delay = m.timers.delay := by intros; rfl
  sound : .sound ∉ hidden → n.timers.sound = m.timers.sound := by intros; rfl
  surface : .surface ∉ hidden → n.surface = m.surface := by intros; rfl

/-- An instruction reads the same from the keys, the random bytes, the delay timer and the surface
of both machines, if it reads any of these. -/
def SeesAlike (m n : Machine σ) : Instruction → Prop
  | .skipIfDown _ | .skipUnlessDown _ | .awaitKey _ => n.keypad = m.keypad
  | .random _ _ => n.random.byte = m.random.byte
  | .readDelay _ => n.timers.delay = m.timers.delay
  | .draw _ _ _ => n.surface = m.surface
  | _ => True

end Machine

/-- The same step and signal and the same notices, and machines that agree. -/
structure Outcome.AgreesBeside {σ : Type u} (hidden : List Machine.Part) (o p : Outcome σ) :
    Prop where
  machine : Machine.AgreesBeside hidden o.machine p.machine
  step : p.step = o.step := by rfl
  signal : p.signal = o.signal := by rfl
  notices : p.notices = o.notices := by rfl

namespace Machine

variable {σ : Type u} {hidden : List Part} {m n : Machine σ} {i : Instruction}

section Agreement

theorem AgreesBeside.exists_eq (h : AgreesBeside hidden m n) :
    ∃ name debug keypad random timers surface,
      n = { m with name, debug, keypad, random, timers, surface } :=
  ⟨n.name, n.debug, n.keypad, n.random, n.timers, n.surface, h.rest⟩

theorem AgreesBeside.setRegister (h : AgreesBeside hidden m n) (x : Register) (b : UInt8) :
    AgreesBeside hidden (m.setRegister x b) (n.setRegister x b) := by
  obtain ⟨name, debug, keypad, random, timers, surface, rfl⟩ := h.exists_eq
  exact { h with rest := rfl }

theorem AgreesBeside.setFlag (h : AgreesBeside hidden m n) (flag : Option UInt8) :
    AgreesBeside hidden (m.setFlag flag) (n.setFlag flag) := by
  cases flag with
  | none => exact h
  | some b => exact h.setRegister .flag b

theorem AgreesBeside.withOpcode (h : AgreesBeside hidden m n) (op : Opcode) :
    AgreesBeside hidden (m.withOpcode op) (n.withOpcode op) := by
  obtain ⟨name, debug, keypad, random, timers, surface, rfl⟩ := h.exists_eq
  exact { h with rest := rfl }

theorem AgreesBeside.advanced (h : AgreesBeside hidden m n) :
    AgreesBeside hidden m.advanced n.advanced := by
  obtain ⟨name, debug, keypad, random, timers, surface, rfl⟩ := h.exists_eq
  exact { h with rest := rfl }

theorem AgreesBeside.advance (h : AgreesBeside hidden m n) (step : CounterStep) :
    AgreesBeside hidden (m.advance step) (n.advance step) := by
  obtain ⟨name, debug, keypad, random, timers, surface, rfl⟩ := h.exists_eq
  exact { h with rest := rfl }

theorem AgreesBeside.final {o p : Outcome σ} (h : o.AgreesBeside hidden p) :
    AgreesBeside hidden o.final p.final := by
  show AgreesBeside hidden (o.machine.advance o.step) (p.machine.advance p.step)
  rw [h.step]
  exact h.machine.advance o.step

/-- What a step looks at before it executes an instruction cannot be hidden. -/
theorem AgreesBeside.fetched (h : AgreesBeside hidden m n) :
    n.memory = m.memory ∧ n.counter = m.counter ∧ n.stack = m.stack ∧ n.index = m.index := by
  obtain ⟨name, debug, keypad, random, timers, surface, rfl⟩ := h.exists_eq
  exact ⟨rfl, rfl, rfl, rfl⟩

/-- Instructions that do not see what is hidden read the same. -/
theorem AgreesBeside.seesAlike (h : AgreesBeside hidden m n)
    (hunseen : ∀ p ∈ hidden, p.isSeenBy i = false) : m.SeesAlike n i := by
  cases i with
  | skipIfDown | skipUnlessDown | awaitKey => exact h.keypad fun hp => nomatch hunseen _ hp
  | random => exact congrArg RandomSource.byte (h.random fun hp => nomatch hunseen _ hp)
  | readDelay => exact h.delay fun hp => nomatch hunseen _ hp
  | draw => exact h.surface fun hp => nomatch hunseen _ hp
  | _ => trivial

end Agreement

variable [Surface σ]

/-- An instruction that reads the same has the same effect. -/
theorem AgreesBeside.exists_effect_of_seesAlike {o : Outcome σ} (h : AgreesBeside hidden m n)
    (hsees : m.SeesAlike n i) (ho : m.effect i = .ok o) :
    ∃ p, n.effect i = .ok p ∧ o.AgreesBeside hidden p := by
  obtain ⟨name, debug, keypad, random, timers, surface, rfl⟩ := h.exists_eq
  cases i with
  | ret | call | storeDecimal | storeBlock | loadBlock =>
    obtain ⟨a, ha, rfl⟩ := map_eq_ok_iff.mp ho
    exact ⟨_, map_eq_ok_iff.mpr ⟨a, ha, rfl⟩, { machine := { h with rest := rfl } }⟩
  | draw x y n =>
    obtain ⟨rows, hrows, rfl⟩ := map_eq_ok_iff.mp ho
    obtain rfl : surface = m.surface := hsees
    refine ⟨_, map_eq_ok_iff.mpr ⟨rows, hrows, rfl⟩, { machine := ?_ }⟩
    exact { h with rest := rfl, surface := fun _ => rfl }
  | skipIfDown x | skipUnlessDown x =>
    obtain rfl : keypad = m.keypad := hsees
    cases ho
    exact ⟨_, rfl, { machine := { h with rest := rfl } }⟩
  | awaitKey x =>
    obtain rfl : keypad = m.keypad := hsees
    cases ho
    refine ⟨_, rfl, ?_⟩
    unfold awaitKeyEffect
    cases m.keypad.firstDown <;> exact { machine := { h with rest := rfl } }
  | readDelay x =>
    obtain ⟨delay, sound⟩ := timers
    obtain rfl : delay = m.timers.delay := hsees
    cases ho
    exact ⟨_, rfl, { machine := { h with rest := rfl } }⟩
  | random x nn =>
    have hbyte : random.byte = m.random.byte := hsees
    cases ho
    rw [← hbyte]
    refine ⟨_, rfl, { machine := { h with rest := rfl, random := fun hr => ?_ } }⟩
    exact congrArg RandomSource.next (h.random hr)
  | arithmetic op x y =>
    cases ho
    exact ⟨_, rfl, { machine := (h.setRegister x _).setFlag _ }⟩
  | clear =>
    cases ho
    refine ⟨_, rfl, { machine := { h with rest := rfl, surface := fun hs => ?_ } }⟩
    exact congrArg Surface.clear (h.surface hs)
  | setDelay x =>
    cases ho
    exact ⟨_, rfl, { machine := { h with rest := rfl, delay := fun _ => rfl } }⟩
  | setSound x =>
    cases ho
    exact ⟨_, rfl, { machine := { h with rest := rfl, sound := fun _ => rfl } }⟩
  | _ =>
    cases ho
    exact ⟨_, rfl, { machine := { h with rest := rfl } }⟩

theorem AgreesBeside.executed? (h : AgreesBeside hidden m n) : n.executed? = m.executed? := by
  obtain ⟨hmemory, hcounter, hstack, hindex⟩ := h.fetched
  exact executed?_congr hmemory hcounter hstack hindex

/-- Machines that agree do so after a step, if the instruction that it executes reads the same. -/
theorem AgreesBeside.step (h : AgreesBeside hidden m n)
    (hsees : ∀ i ∈ m.executed?, m.SeesAlike n i) :
    Reply.Alike (AgreesBeside hidden) m.step n.step := by
  obtain ⟨hmemory, hcounter, hstack, hindex⟩ := h.fetched
  have hfetch : n.fetch = m.fetch := fetch_congr hmemory hcounter
  rcases m.step_cases with ⟨cause, hfetched, hs⟩ | ⟨op, hfetched, hd, hs⟩ |
    ⟨op, i, cause, hfetched, hd, he, hs⟩ | ⟨op, i, o, hfetched, hd, he, hs⟩
  · rw [hs, step_of_fetch_error (hfetch.trans hfetched), hcounter]
    exact ⟨rfl, h⟩
  · rw [hs, step_of_decode_eq_none (hfetch.trans hfetched) hd, hcounter]
    exact ⟨rfl, h.withOpcode op⟩
  · rw [hs, step_of_effect_error (hfetch.trans hfetched) hd
      (effect_advanced_eq_error_congr hstack hindex he), hcounter]
    exact ⟨rfl, h.withOpcode op⟩
  · have hi : m.executed? = some i := executed?_eq_some_iff.mpr ⟨op, o, hfetched, hd, he⟩
    obtain ⟨p, hp, hagree⟩ :=
      (h.withOpcode op).advanced.exists_effect_of_seesAlike (hsees i hi) he
    rw [hs, step_of_effect_ok (hfetch.trans hfetched) hd hp]
    exact ⟨congrArg Except.ok hagree.signal.symm, AgreesBeside.final hagree⟩

/-- Machines that agree do so after whatever is asked of them, if what is executed reads
the same. -/
theorem AgreesBeside.perform (h : AgreesBeside hidden m n) {c : Command}
    (hsees : ∀ i ∈ Moment.executed? ⟨m, c⟩, m.SeesAlike n i) :
    Reply.Alike (AgreesBeside hidden) (m.perform c) (n.perform c) := by
  cases c with
  | step =>
    obtain ⟨hresult, hstate⟩ := h.step hsees
    exact ⟨congrArg Response.ofStep hresult, hstate⟩
  | loadProgram bytes =>
    obtain ⟨name, debug, keypad, random, timers, surface, rfl⟩ := h.exists_eq
    simp only [Machine.perform, loadProgram, writeProgram]
    cases m.memory.load programStart bytes <;> exact ⟨rfl, { h with rest := rfl }⟩
  | tick =>
    obtain ⟨name, debug, keypad, random, timers, surface, rfl⟩ := h.exists_eq
    refine ⟨rfl, { h with rest := rfl, delay := fun hd => ?_, sound := fun hs => ?_ }⟩
    · exact congrArg countDown (h.delay hd)
    · exact congrArg countDown (h.sound hs)
  | reset =>
    obtain ⟨name, debug, keypad, random, timers, surface, rfl⟩ := h.exists_eq
    refine ⟨rfl, { h with
      rest := rfl, delay := fun _ => rfl, sound := fun _ => rfl, surface := fun hs => ?_ }⟩
    exact congrArg Surface.clear (h.surface hs)
  | setDebug on =>
    obtain ⟨name, debug, keypad, random, timers, surface, rfl⟩ := h.exists_eq
    exact ⟨rfl, { h with rest := rfl, debug := fun _ => rfl }⟩
  | loadRom rom =>
    obtain ⟨name, debug, keypad, random, timers, surface, rfl⟩ := h.exists_eq
    simp only [Machine.perform, loadRom_eq]
    exact ⟨rfl, { h with rest := rfl, name := fun _ => rfl }⟩
  | keys action =>
    obtain ⟨name, debug, keypad, random, timers, surface, rfl⟩ := h.exists_eq
    refine ⟨rfl, { h with rest := rfl, keypad := fun hk => ?_ }⟩
    exact congrArg (fun k => (Keypad.act k action).1) (h.keypad hk)
  | loadFont font =>
    obtain ⟨name, debug, keypad, random, timers, surface, rfl⟩ := h.exists_eq
    simp only [Machine.perform, loadFont_eq]
    exact ⟨rfl, { h with rest := rfl }⟩
  | setLevel level =>
    obtain ⟨name, debug, keypad, random, timers, surface, rfl⟩ := h.exists_eq
    exact ⟨rfl, { h with rest := rfl }⟩

/-- The instruction that is executed sees a part in which the machines may differ. -/
def Moment.Sees (hidden : List Part) (t : Moment σ) : Prop :=
  ∃ i, t.executed? = some i ∧ ∃ p ∈ hidden, p.isSeenBy i = true

theorem Moment.not_sees_iff {t : Moment σ} :
    ¬t.Sees hidden ↔ ∀ i ∈ t.executed?, ∀ p ∈ hidden, p.isSeenBy i = false := by
  unfold Sees
  simp only [not_exists, not_and, Bool.not_eq_true, Option.mem_def]

/-- **What a program sees.** Machines that agree in everything but some parts give the same answers
and agree in all else, up to the first step at which they execute an instruction that sees one of
these parts. If there is no such step they do so throughout the run, and for the sound timer, the
name and the debug flag there never is one. -/
theorem alike_until_seen (hidden : List Part) (m n : Machine σ) (cs : List Command)
    (h : AgreesBeside hidden m n) :
    (∃ agreed rest, cs = agreed ++ rest ∧
      (∀ p, p <+: agreed →
        Reply.Alike (AgreesBeside hidden) (m.performAll p) (n.performAll p)) ∧
      (∀ t ∈ m.moments agreed, ∀ i ∈ t.executed?, ∀ p ∈ hidden, p.isSeenBy i = false) ∧
      (rest = [] ∨ ∃ i after, rest = .step :: after ∧
        (m.performAll agreed).state.executed? = some i ∧
        (n.performAll agreed).state.executed? = some i ∧ ∃ p ∈ hidden, p.isSeenBy i = true)) ∧
    (hidden ⊆ [.sound, .name, .debug] →
      Reply.Alike (AgreesBeside hidden) (m.performAll cs) (n.performAll cs)) := by
  have hperform : ∀ c ∈ cs, ∀ m n : Machine σ, AgreesBeside hidden m n →
      ¬Moment.Sees hidden ⟨m, c⟩ →
      Reply.Alike (AgreesBeside hidden) (m.perform c) (n.perform c) := by
    intro c _ m n hagree hnone
    exact hagree.perform fun i hi => hagree.seesAlike (Moment.not_sees_iff.mp hnone i hi)
  obtain ⟨agreed, rest, rfl, halike, hnone, hrest⟩ := exists_alike_prefix _ hperform h
  constructor
  · refine ⟨agreed, rest, rfl, halike, fun t ht => Moment.not_sees_iff.mp (hnone t ht), ?_⟩
    cases rest with
    | nil => exact .inl rfl
    | cons c after =>
      obtain ⟨i, hi, hseen⟩ := hrest c rfl
      obtain rfl : c = .step := Moment.command_of_executed? hi
      refine .inr ⟨i, after, rfl, hi, ?_, hseen⟩
      -- the machines still agree, so the other one executes the same instruction
      exact (halike agreed (List.prefix_refl _)).state.executed?.trans hi
  · intro hsub
    cases rest with
    | nil =>
      rw [List.append_nil]
      exact halike agreed (List.prefix_refl _)
    | cons c after =>
      obtain ⟨i, -, p, hp, hseen⟩ := hrest c rfl
      rw [Part.isSeenBy_eq_false (hsub hp)] at hseen
      cases hseen

/-- A program that skips an instruction if the first key is down. -/
def askingRom : Rom := ⟨"asking", [0x60, 0x00, 0xE0, 0x9E], by decide⟩

/-- Whether the first key is down shows in the counter, so the run gets to the instruction that asks
for it. The sound timer does not show. -/
theorem alike_until_seen_askingRom :
    let m := build (some askingRom) .chip8 Screen.blank .released (.cycle #[])
    let n := { m with keypad := .setAll [true] }
    let loud := { m with timers := ⟨0, 7⟩ }
    let cs : List Command := [.step, .tick, .step]
    AgreesBeside [.keypad] m n ∧
      (∃ agreed after i, cs = agreed ++ .step :: after ∧
        (m.performAll agreed).state.executed? = some i ∧
        (n.performAll agreed).state.executed? = some i ∧ Part.isSeenBy .keypad i = true) ∧
      AgreesBeside [.sound] m loud ∧ (m.performAll cs).result = (loud.performAll cs).result := by
  intro m n loud cs
  have hkeypad : AgreesBeside [.keypad] m n :=
    { keypad := fun hshown => absurd (List.mem_singleton.mpr rfl) hshown }
  have hsound : AgreesBeside [.sound] m loud :=
    { sound := fun hshown => absurd (List.mem_singleton.mpr rfl) hshown }
  refine ⟨hkeypad, ?_, hsound, ((alike_until_seen _ m loud cs hsound).2 (by decide)).result⟩
  obtain ⟨agreed, rest, hcs, halike, -, hrest⟩ := (alike_until_seen _ m n cs hkeypad).1
  rcases hrest with rfl | ⟨i, after, rfl, hleft, hright, p, hp, hseen⟩
  · rw [List.append_nil] at hcs
    have hcounter := (halike cs (hcs ▸ List.prefix_refl _)).state.fetched.2.1
    exact absurd hcounter (by decide +kernel)
  · obtain rfl := List.mem_singleton.mp hp
    exact ⟨agreed, after, i, hcs, hleft, hright, hseen⟩

end Machine

end Chip8

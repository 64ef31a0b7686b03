import Chip8.Proofs.InformationFlow
import Chip8.Proofs.WriteSets

/-!
# Starting anew

A reset keeps what was loaded, the level, the keys and the random bytes that are still to come, and
brings everything else that a program can see to where it was when the machine was built. So
whatever happened before a reset has no influence on what happens after it.

## Main definitions

* `RandomSource.coming`: the bytes that were not taken yet
* `Machine.InSamePlace`: two machines are equal in all that a program can ever see

## Main results

* `InSamePlace.performAll`: machines in the same place run alike
* `inSamePlace_reset`: a reset brings machines with the same memory, level, keys and random bytes to
  the same place
* `state_reset_of_run`: a reset takes back a run that leaves the memory as it was
* `reset_erases_history`: what a reset leaves, and that nothing else remains
-/

universe u

namespace Chip8

namespace RandomSource

/-- The byte that is delivered after so many others. -/
def coming (r : RandomSource) (k : Nat) : UInt8 := r.bytes (r.taken + k)

theorem coming_next (r : RandomSource) : r.next.coming = fun k => r.coming (k + 1) := by
  funext k
  exact congrArg r.bytes (Nat.add_right_comm r.taken 1 k)

end RandomSource

namespace Machine

variable {σ : Type u}

/-- **Machines in the same place** are equal in everything but their names, their debug flags, and
the random bytes that were taken before. -/
structure InSamePlace (m n : Machine σ) : Prop where
  agree : AgreesBeside [.name, .debug, .random] m n
  coming : n.random.coming = m.random.coming

variable {m n : Machine σ}

/-- A program sees the same on machines in the same place, also of the random bytes. -/
theorem InSamePlace.seesAlike (h : InSamePlace m n) (i : Instruction) : m.SeesAlike n i := by
  cases i with
  | random x nn => exact congrFun h.coming 0
  | _ =>
    refine h.agree.seesAlike ?_
    simp [Part.isSeenBy]

variable [Surface σ]

/-! ## Runs from the same place -/

section Run

theorem random_step_of_random {x : Register} {nn : UInt8} (h : m.executed? = some (.random x nn)) :
    m.step.state.random = m.random.next := by
  obtain ⟨op, o, hf, hd, he⟩ := executed?_eq_some_iff.mp h
  rw [step_of_effect_ok hf hd he]
  cases he
  rfl

theorem random_step_of_ne (h : ∀ x nn, m.executed? ≠ some (.random x nn)) :
    m.step.state.random = m.random := by
  rcases m.state_step_cases with ⟨op, hstate⟩ | ⟨i, hi, hwrites⟩
  · rw [hstate]
    rfl
  · apply hwrites.random
    rintro x nn rfl
    exact h x nn hi

/-- Only a step takes random bytes. -/
theorem random_perform {c : Command} (h : c ≠ .step) : (m.perform c).state.random = m.random := by
  cases c with
  | step => exact absurd rfl h
  | loadProgram | loadRom | loadFont =>
    simp only [perform, Reply.state_map, state_loadProgram, loadRom_eq, loadFont_eq]
  | _ => rfl

/-- Machines in the same place take the same bytes from their random sources. -/
theorem InSamePlace.coming_step (h : InSamePlace m n) :
    n.step.state.random.coming = m.step.state.random.coming := by
  have hexecuted := h.agree.executed?
  by_cases htakes : ∃ x nn, m.executed? = some (.random x nn)
  · obtain ⟨x, nn, hi⟩ := htakes
    rw [random_step_of_random hi, random_step_of_random (hexecuted.trans hi),
      RandomSource.coming_next, RandomSource.coming_next, h.coming]
  · have hkeeps : ∀ x nn, m.executed? ≠ some (.random x nn) := fun x nn hi => htakes ⟨x, nn, hi⟩
    rw [random_step_of_ne hkeeps, random_step_of_ne (hexecuted ▸ hkeeps), h.coming]

theorem InSamePlace.perform (h : InSamePlace m n) (c : Command) :
    Reply.Alike InSamePlace (m.perform c) (n.perform c) := by
  obtain ⟨hresult, hstate⟩ := h.agree.perform (c := c) fun i _ => h.seesAlike i
  refine ⟨hresult, hstate, ?_⟩
  by_cases hc : c = .step
  · subst hc
    exact h.coming_step
  · rw [random_perform hc, random_perform hc, h.coming]

/-- Machines in the same place run alike. -/
theorem InSamePlace.performAll (h : InSamePlace m n) (cs : List Command) :
    Reply.Alike InSamePlace (m.performAll cs) (n.performAll cs) := by
  induction cs generalizing m n with
  | nil => exact ⟨rfl, h⟩
  | cons c cs ih =>
    obtain ⟨hfirst, hplace⟩ := h.perform c
    obtain ⟨hrest, hlast⟩ := ih hplace
    refine ⟨?_, hlast⟩
    rw [result_performAll_cons, result_performAll_cons, hfirst, hrest]

end Run

/-! ## Resets -/

section Reset

variable {m n : Machine Screen}

/-- A reset brings machines to the same place if what it keeps is the same. -/
theorem inSamePlace_reset (hmemory : n.memory = m.memory) (hlevel : n.level = m.level)
    (hkeypad : n.keypad = m.keypad) (hcoming : n.random.coming = m.random.coming) :
    InSamePlace m.reset.state n.reset.state where
  agree :=
    { rest := by simp only [reset, hmemory, hlevel]
      name := fun hshown => absurd (by decide) hshown
      debug := fun hshown => absurd (by decide) hshown
      keypad := fun _ => hkeypad
      random := fun hshown => absurd (by decide) hshown }
  coming := hcoming

/-- A reset leaves the same machine if all that it keeps is the same. -/
theorem state_reset_congr (hname : n.name = m.name) (hlevel : n.level = m.level)
    (hdebug : n.debug = m.debug) (hmemory : n.memory = m.memory) (hkeypad : n.keypad = m.keypad)
    (hrandom : n.random = m.random) : n.reset.state = m.reset.state := by
  simp only [reset, hname, hlevel, hdebug, hmemory, hkeypad, hrandom]
  rfl

/-- A machine is built as a reset would leave it. -/
theorem state_reset_build (rom : Option Rom) (level : Level) (keypad : Keypad)
    (random : RandomSource) :
    (build rom level Screen.blank keypad random).reset.state =
      build rom level Screen.blank keypad random := by
  obtain ⟨name, memory, hbuild⟩ := exists_build_eq rom level Screen.blank keypad random
  rw [hbuild]
  rfl

end Reset

/-- Steps and ticks that take no random byte keep all that a reset keeps, but for the memory. -/
theorem kept_of_run {cs : List Command} (hcs : ∀ c ∈ cs, c = .step ∨ c = .tick)
    (hrandom : ∀ t ∈ m.moments cs, ∀ x nn, t.executed? ≠ some (.random x nn)) :
    (m.performAll cs).state.name = m.name ∧ (m.performAll cs).state.level = m.level ∧
      (m.performAll cs).state.debug = m.debug ∧ (m.performAll cs).state.keypad = m.keypad ∧
      (m.performAll cs).state.random = m.random := by
  refine (performAll_invariant (P := fun m' => m'.name = m.name ∧ m'.level = m.level ∧
    m'.debug = m.debug ∧ m'.keypad = m.keypad ∧ m'.random = m.random)
    ⟨rfl, rfl, rfl, rfl, rfl⟩ ?_).1
  rintro ⟨m', c⟩ ht ⟨hname, hlevel, hdebug, hkeypad, htaken⟩
  rcases hcs c (command_mem_of_mem_moments ht) with rfl | rfl
  · have hkeeps : m'.step.state.random = m'.random := random_step_of_ne (hrandom _ ht)
    rcases m'.state_step_cases with ⟨op, hstate⟩ | ⟨i, -, hwrites⟩
    · show m'.step.state.name = _ ∧ m'.step.state.level = _ ∧ m'.step.state.debug = _ ∧
        m'.step.state.keypad = _ ∧ m'.step.state.random = _
      rw [hstate]
      exact ⟨hname, hlevel, hdebug, hkeypad, htaken⟩
    · exact ⟨hwrites.name.trans hname, hwrites.level.trans hlevel, hwrites.debug.trans hdebug,
        hwrites.keypad.trans hkeypad, hkeeps.trans htaken⟩
  · exact ⟨hname, hlevel, hdebug, hkeypad, htaken⟩

/-- Steps and ticks that store nothing keep the memory. -/
theorem memory_of_run {cs : List Command} (hcs : ∀ c ∈ cs, c = .step ∨ c = .tick)
    (hstores : ∀ t ∈ m.moments cs, ∀ i ∈ t.executed?, i.bytesStored = 0) :
    (m.performAll cs).state.memory = m.memory := by
  refine (performAll_invariant (P := fun m' => m'.memory = m.memory) rfl ?_).1
  rintro ⟨m', c⟩ ht hmemory
  rcases hcs c (command_mem_of_mem_moments ht) with rfl | rfl
  · have hkeeps : m'.step.state.memory = m'.memory := by
      refine Memory.ext fun a _ => byte_step fun i hi hstore => ?_
      obtain ⟨hle, hlt⟩ := hstore
      rw [hstores _ ht i hi] at hlt
      omega
    exact hkeeps.trans hmemory
  · exact hmemory

/-- A reset takes back a run of steps and ticks that takes no random byte and leaves the memory as
it was, if the run began where a reset leads. -/
theorem state_reset_of_run {m : Machine Screen} {cs : List Command} (hm : m.reset.state = m)
    (hcs : ∀ c ∈ cs, c = .step ∨ c = .tick)
    (hrandom : ∀ t ∈ m.moments cs, ∀ x nn, t.executed? ≠ some (.random x nn))
    (hmemory : (m.performAll cs).state.memory = m.memory) :
    (m.performAll cs).state.reset.state = m := by
  obtain ⟨hname, hlevel, hdebug, hkeypad, htaken⟩ := kept_of_run hcs hrandom
  exact (state_reset_congr hname hlevel hdebug hmemory hkeypad htaken).trans hm

/-- **A reset erases history.** It leaves zeros, an empty stack, a blank screen and the counter at
the start of the program, and keeps the memory, the name, the level, the debug flag, the keys and
the random source. Two machines with the same memory, level, keys and random bytes to come answer
alike after a reset, and stay equal in all but what was different and cannot be seen. A machine that
is as it was built comes back to where it was, after any steps and ticks that take no random byte
and leave the memory as it was, and repeats them. -/
theorem reset_erases_history :
    (∀ m : Machine Screen,
      (m.reset.state.opcode = 0 ∧ (∀ x, m.reset.state.registers.get x = 0) ∧
        m.reset.state.index = 0 ∧ m.reset.state.counter = 0x200 ∧
        m.reset.state.stack.frames = [] ∧ m.reset.state.timers.delay = 0 ∧
        m.reset.state.timers.sound = 0 ∧ ∀ x y, m.reset.state.surface.pixel x y = false) ∧
      m.reset.state.memory = m.memory ∧ m.reset.state.name = m.name ∧
        m.reset.state.level = m.level ∧ m.reset.state.debug = m.debug ∧
        m.reset.state.keypad = m.keypad ∧ m.reset.state.random = m.random) ∧
    (∀ (m n : Machine Screen) (cs : List Command), n.memory = m.memory → n.level = m.level →
      n.keypad = m.keypad → n.random.coming = m.random.coming →
      Reply.Alike InSamePlace (m.reset.state.performAll cs) (n.reset.state.performAll cs)) ∧
    (∀ rom level keypad random, (build rom level Screen.blank keypad random).reset.state =
      build rom level Screen.blank keypad random) ∧
    ∀ (m : Machine Screen) (cs : List Command), m.reset.state = m →
      (∀ c ∈ cs, c = .step ∨ c = .tick) →
      (∀ t ∈ m.moments cs, ∀ x nn, t.executed? ≠ some (.random x nn)) →
      (m.performAll cs).state.memory = m.memory →
      ∀ p, p <+: cs → (m.performAll cs).state.reset.state.performAll p = m.performAll p := by
  refine ⟨fun m => ?_, fun m n cs hmemory hlevel hkeypad hcoming => ?_, state_reset_build,
    fun m cs hm hcs hrandom hmemory p _ => ?_⟩
  · exact ⟨⟨rfl, Registers.get_zero, rfl, rfl, rfl, rfl, rfl, Screen.pixel_blank⟩,
      rfl, rfl, rfl, rfl, rfl, rfl⟩
  · exact (inSamePlace_reset hmemory hlevel hkeypad hcoming).performAll cs
  · rw [state_reset_of_run hm hcs hrandom hmemory]

/-- A program that sets a register and adds to it. -/
def addingRom : Rom := ⟨"adding", [0x60, 0x05, 0x70, 0x05], by decide⟩

/-- The program runs again as it did at first, and as it does on a machine that stood elsewhere. -/
theorem reset_erases_history_addingRom :
    let start := build (some addingRom) .chip8 Screen.blank .released (.cycle #[])
    let cs : List Command := [.step, .tick, .step]
    let m := (start.performAll cs).state
    let n := { start with index := 0x300, timers := ⟨3, 1⟩, random := ⟨fun _ => 0, 7⟩ }
    (n.memory = m.memory ∧ n.level = m.level ∧ n.keypad = m.keypad ∧
        n.random.coming = m.random.coming) ∧
      (m.reset.state.performAll cs).result = (n.reset.state.performAll cs).result ∧
      (start.reset.state = start ∧ (∀ c ∈ cs, c = .step ∨ c = .tick) ∧
        (∀ t ∈ start.moments cs, ∀ x nn, t.executed? ≠ some (.random x nn)) ∧
        m.memory = start.memory) ∧
      m.reset.state.performAll cs = start.performAll cs := by
  intro start cs m n
  have hcs : ∀ c ∈ cs, c = .step ∨ c = .tick := by simp [cs]
  have hexecuted : ∀ t ∈ start.moments cs, ∀ i ∈ t.executed?, i = .set 0 5 ∨ i = .add 0 5 := by
    decide +kernel
  have hmemory : m.memory = start.memory := by
    refine memory_of_run hcs fun t ht i hi => ?_
    rcases hexecuted t ht i hi with rfl | rfl <;> rfl
  have hrandom : ∀ t ∈ start.moments cs, ∀ x nn, t.executed? ≠ some (.random x nn) := by
    intro t ht x nn hi
    rcases hexecuted t ht _ hi with h | h <;> cases h
  obtain ⟨-, hlevel, -, hkeypad, htaken⟩ := kept_of_run hcs hrandom
  have hcoming : n.random.coming = m.random.coming := by
    rw [htaken]
    funext k
    simp [RandomSource.coming, start, n, build, new, blank, RandomSource.cycle, loadRom_eq,
      loadFont_eq]
  obtain ⟨-, halike, hbuilt, hrepeat⟩ := reset_erases_history
  have hstart := hbuilt (some addingRom) .chip8 .released (.cycle #[])
  exact ⟨⟨hmemory.symm, hlevel.symm, hkeypad.symm, hcoming⟩,
    (halike m n cs hmemory.symm hlevel.symm hkeypad.symm hcoming).result,
    ⟨hstart, hcs, hrandom, hmemory⟩,
    hrepeat start cs hstart hcs hrandom hmemory cs (List.prefix_refl cs)⟩

end Machine

end Chip8

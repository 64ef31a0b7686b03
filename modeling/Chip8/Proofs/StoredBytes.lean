import Chip8.Proofs.MemoryRanges
import Chip8.Proofs.WriteSets

/-!
# Stored bytes

Bytes are put into memory by the instructions that store and by the host when it loads an image, and
by nothing else. So what a byte of memory holds after a run is told by the moments of the run: it is
what was stored at its address last, or what was there before the run.

## Main definitions

* `Memory.Patch`: bytes that are put into memory from an address on
* `Machine.storedBy`, `Moment.patch`: the bytes that an instruction, and any command, puts there
* `Machine.lastStored?`: the byte that a run stores last at an address

## Main results

* `isPatched_next`: a command puts its bytes into memory and leaves all others
* `byte_performAll`: after a run, memory holds what was stored last
-/

universe u

namespace Chip8

namespace Memory

/-- Bytes that are put into memory from the address `start` on. -/
structure Patch where
  start : Nat := 0
  bytes : List UInt8 := []
  deriving DecidableEq, Repr

/-- The byte that is put at an address. -/
def Patch.byte? (p : Patch) (a : Nat) : Option UInt8 :=
  if p.start ≤ a then p.bytes[a - p.start]? else none

theorem Patch.byte?_eq_none_iff {p : Patch} {a : Nat} :
    p.byte? a = none ↔ ¬(p.start ≤ a ∧ a < p.start + p.bytes.length) := by
  unfold byte?
  split
  · rw [List.getElem?_eq_none_iff]
    omega
  next hbefore => exact iff_of_true rfl fun h => hbefore h.1

/-- After bytes were put into it, a memory holds them, and otherwise what it held. -/
theorem IsPatched.byte_eq {m m' : Memory} {p : Patch} (h : m.IsPatched p.start p.bytes m')
    (a : Nat) : m'.byte a = (p.byte? a).getD (m.byte a) := by
  by_cases hin : p.start ≤ a ∧ a < p.start + p.bytes.length
  · obtain ⟨k, rfl⟩ := Nat.exists_eq_add_of_le hin.1
    have hk : k < p.bytes.length := Nat.lt_of_add_lt_add_left hin.2
    rw [h.inside k hk, Patch.byte?, if_pos (Nat.le_add_right _ _), Nat.add_sub_cancel_left,
      List.getElem?_eq_getElem hk, Option.getD_some]
  · rw [h.outside a hin, Patch.byte?_eq_none_iff.mpr hin, Option.getD_none]

end Memory

namespace Machine

variable {σ : Type u}

/-- The bytes that an instruction stores, from the index register on. -/
def storedBy (m : Machine σ) : Instruction → List UInt8
  | .storeDecimal x => decimal (m.registers.get x)
  | .storeBlock x => m.registers.block x
  | _ => []

@[simp] theorem length_storedBy (m : Machine σ) (i : Instruction) :
    (m.storedBy i).length = i.bytesStored := by
  cases i with
  | storeBlock x => exact Registers.length_block _ _
  | _ => rfl

variable [Surface σ]

/-- An instruction puts the bytes that it stores into memory. -/
theorem isPatched_of_effect {m : Machine σ} {i : Instruction} {o : Outcome σ}
    (h : m.effect i = .ok o) :
    m.memory.IsPatched m.index.toNat (m.storedBy i) o.machine.memory := by
  have hwrites := writesOnly_of_effect h
  cases i with
  | storeDecimal x | storeBlock x =>
    obtain ⟨memory, hload, rfl⟩ := map_eq_ok_iff.mp h
    exact (Memory.load_eq_ok_iff.mp hload).2
  | _ =>
    exact ⟨fun k hk => absurd hk (Nat.not_lt_zero k), fun a ha => hwrites.memory a ha⟩

/-- The bytes that are put into memory at a moment: an instruction is executed that stores, or an
image is loaded that is not rejected. -/
def Moment.patch (t : Moment σ) : Memory.Patch :=
  match t.command with
  | .step =>
    match t.machine.executed? with
    | some i => ⟨t.machine.index.toNat, t.machine.storedBy i⟩
    | none => {}
  | .loadProgram bytes => if bytes.length ≤ programCapacity then ⟨programStart, bytes⟩ else {}
  | .loadRom rom => ⟨programStart, rom.bytes⟩
  | .loadFont font => ⟨fontStart, font.bytes⟩
  | .tick | .reset | .setLevel _ | .setDebug _ | .keys _ => {}

/-- A step puts into memory what the executed instruction stores. -/
theorem isPatched_step (m : Machine σ) :
    m.memory.IsPatched (Moment.patch ⟨m, .step⟩).start (Moment.patch ⟨m, .step⟩).bytes
      m.step.state.memory := by
  unfold Moment.patch
  cases hi : m.executed? with
  | some i =>
    obtain ⟨op, o, hf, hd, he⟩ := executed?_eq_some_iff.mp hi
    have hpatched := isPatched_of_effect he
    rw [step_of_effect_ok hf hd he]
    exact hpatched
  | none =>
    rcases m.state_step_cases with ⟨op, hstate⟩ | ⟨i, hexecuted, -⟩
    · rw [hstate]
      exact Memory.isPatched_nil _ _
    · rw [hi] at hexecuted
      cases hexecuted

/-- **A command puts its bytes into memory** and leaves all others. -/
theorem isPatched_next (t : Moment σ) :
    t.machine.memory.IsPatched t.patch.start t.patch.bytes t.next.memory := by
  obtain ⟨m, c⟩ := t
  cases c with
  | step => exact m.isPatched_step
  | loadProgram bytes =>
    change m.memory.IsPatched _ _ (m.loadProgram bytes).state.memory
    unfold Moment.patch
    dsimp only
    split
    next hfits =>
      rw [loadProgram_of_fits m hfits]
      exact Memory.isPatched_splice _ (programStart_add_le_size_iff.mpr hfits)
    next hexceeds =>
      rw [loadProgram_of_exceeds m (Nat.lt_of_not_le hexceeds)]
      exact Memory.isPatched_nil _ _
  | loadRom rom =>
    obtain ⟨memory, -, hpatched, hstate, -⟩ := m.exists_memory_of_rom rom
    change m.memory.IsPatched _ _ (m.loadRom rom).state.memory
    rw [hstate]
    exact hpatched
  | loadFont font =>
    obtain ⟨memory, -, hpatched, hreply⟩ := m.exists_memory_of_font font
    change m.memory.IsPatched _ _ (m.loadFont font).state.memory
    rw [hreply]
    exact hpatched
  | tick | reset | setLevel | setDebug | keys => exact Memory.isPatched_nil _ _

/-- The byte that a run stores last at an address, if it stores one there. -/
def lastStored? (m : Machine σ) (cs : List Command) (a : Nat) : Option UInt8 :=
  (m.moments cs).reverse.findSome? fun t => t.patch.byte? a

theorem lastStored?_cons (m : Machine σ) (c : Command) (cs : List Command) (a : Nat) :
    m.lastStored? (c :: cs) a =
      ((m.perform c).state.lastStored? cs a).or ((Moment.patch ⟨m, c⟩).byte? a) := by
  simp only [lastStored?, moments_cons, List.reverse_cons, List.findSome?_append,
    List.findSome?_singleton]

/-- **After a run, memory holds what was stored last**, whoever stored it, and where nothing was
stored it holds what was there before. -/
theorem byte_performAll (m : Machine σ) (cs : List Command) (a : Nat) :
    (m.performAll cs).state.memory.byte a = (m.lastStored? cs a).getD (m.memory.byte a) := by
  induction cs generalizing m with
  | nil => rfl
  | cons c cs ih =>
    have hfirst : (m.perform c).state.memory.byte a =
        ((Moment.patch ⟨m, c⟩).byte? a).getD (m.memory.byte a) :=
      (isPatched_next ⟨m, c⟩).byte_eq a
    rw [state_performAll_cons, ih, lastStored?_cons, hfirst, Option.getD_or]

/-- A byte that nothing is stored over is kept. -/
theorem byte_performAll_of_patch {m : Machine σ} {cs : List Command} {a : Nat}
    (h : ∀ t ∈ m.moments cs, t.patch.byte? a = none) :
    (m.performAll cs).state.memory.byte a = m.memory.byte a := by
  have hnone : m.lastStored? cs a = none := by
    rw [lastStored?, List.findSome?_eq_none_iff]
    exact fun t ht => h t (List.mem_reverse.mp ht)
  rw [byte_performAll, hnone, Option.getD_none]

end Machine

end Chip8

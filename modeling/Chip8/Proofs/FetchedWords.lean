import Chip8.Machine.Dump
import Chip8.Proofs.Decoding
import Chip8.Proofs.ShownWords
import Chip8.Proofs.StoredBytes

/-!
# Fetched words

A step takes its opcode from memory byte by byte, each access checked. The dump takes its entries
from a list of all bytes. Both find the same word at the same address, and none where a byte of it
is missing. The word is all that a step takes from memory to decide what it does, so what was stored
over an instruction is what is executed.

## Main definitions

* `Machine.wordAfter`: the word at an address after a run, by what the run stored last
* `Machine.Obeys`: a step does what an opcode asks for

## Main results

* `toOption_fetch`: a step fetches the word that the bytes of memory have at the counter
* `opcode_step`: the opcode behind a step is the fetched one
* `fetched_iff_shown`: what is fetched, obeyed and shown at any point of a run
-/

universe u

namespace Chip8

/-- The word at an address inside of memory. -/
theorem wordAt?_toList (memory : Memory) (a : Nat) :
    wordAt? memory.toList a =
      if a + 1 < Memory.size then some (word (memory.byte a) (memory.byte (a + 1))) else none := by
  split
  next hlow =>
    refine wordAt?_eq_some_iff.mpr ⟨_, _, ?_, ?_, rfl⟩
    · rw [Memory.getElem?_toList, if_pos (Nat.lt_of_succ_lt hlow)]
    · rw [Memory.getElem?_toList, if_pos hlow]
  next hlow =>
    rw [wordAt?_eq_none_iff, Memory.length_toList]
    exact Nat.le_of_not_lt hlow

namespace Machine

variable {σ : Type u}

/-- A step fetches the word that the bytes of memory have at the counter. -/
theorem toOption_fetch (m : Machine σ) :
    m.fetch.toOption = wordAt? m.memory.toList m.counter.toNat := by
  rw [fetch_eq, wordAt?_toList, apply_ite Except.toOption]
  rfl

theorem fetch_eq_ok_iff_wordAt? {m : Machine σ} {op : Opcode} :
    m.fetch = .ok op ↔ wordAt? m.memory.toList m.counter.toNat = some op := by
  rw [← toOption_fetch]
  cases m.fetch <;> simp [Except.toOption]

variable [Surface σ]

omit [Surface σ] in
@[simp] theorem opcode_setFlag (m : Machine σ) (flag : Option UInt8) :
    (m.setFlag flag).opcode = m.opcode := by
  cases flag <;> rfl

/-- No instruction changes the opcode. -/
theorem opcode_of_effect {m : Machine σ} {i : Instruction} {o : Outcome σ}
    (h : m.effect i = .ok o) : o.machine.opcode = m.opcode := by
  cases i with
  | arithmetic op x y =>
    cases h
    exact opcode_setFlag _ _
  | awaitKey x =>
    cases h
    unfold awaitKeyEffect
    split <;> rfl
  | ret | call | draw | storeDecimal | storeBlock | loadBlock =>
    obtain ⟨_, -, rfl⟩ := map_eq_ok_iff.mp h
    rfl
  | _ =>
    cases h
    rfl

/-- The opcode behind a step is the fetched one, or the old one if none was fetched. -/
theorem opcode_step (m : Machine σ) :
    m.step.state.opcode = m.fetch.toOption.getD m.opcode := by
  rcases m.step_cases with ⟨_, hf, hs⟩ | ⟨_, hf, -, hs⟩ | ⟨_, _, _, hf, -, -, hs⟩ |
    ⟨op, _, o, hf, -, he, hs⟩
  · rw [hs, hf]
    rfl
  · rw [hs, hf]
    rfl
  · rw [hs, hf]
    rfl
  · rw [hs, hf]
    exact opcode_of_effect he

/-- **A step does what an opcode asks for**: it refuses the opcode if no instruction has it, and
otherwise does exactly what the instruction does on the machine whose counter was moved
behind it. -/
structure Obeys (m : Machine σ) (op : Opcode) : Prop where
  opcode : m.step.state.opcode = op
  unknown : (∀ i : Instruction, i.encode ≠ op) →
    m.step.result = .error ⟨m.counter, some op, .unknownOpcode op⟩ ∧
      m.step.state = m.withOpcode op
  refused : ∀ (i : Instruction) (cause : Cause), i.encode = op →
    i.RefusedAt m.stack.depth m.index.toNat cause →
      m.step.result = .error ⟨m.counter, some op, cause⟩ ∧ m.step.state = m.withOpcode op
  executed : ∀ i : Instruction, i.encode = op →
    (∀ cause, ¬i.RefusedAt m.stack.depth m.index.toNat cause) →
      ∃ signal, m.step.result = .ok signal ∧
        ((m.withOpcode op).advanced.execute i).result = .ok signal ∧
        m.step.state = ((m.withOpcode op).advanced.execute i).state

/-- A step obeys the opcode that it fetches. -/
theorem obeys_of_fetch {m : Machine σ} {op : Opcode} (h : m.fetch = .ok op) : m.Obeys op where
  opcode := by
    rw [opcode_step, h]
    rfl
  unknown hnone := by
    rw [step_of_decode_eq_none h (Instruction.decode_eq_none_iff.mpr hnone)]
    exact ⟨rfl, rfl⟩
  refused i cause hi hrefused := by
    rw [step_of_effect_error h (Instruction.decode_eq_some_iff.mpr hi)
      (effect_advanced_eq_error_iff.mpr hrefused)]
    exact ⟨rfl, rfl⟩
  executed i hi hnot := by
    obtain ⟨o, ho⟩ := (exists_effect_iff (m := (m.withOpcode op).advanced)).mpr hnot
    rw [step_of_effect_ok h (Instruction.decode_eq_some_iff.mpr hi) ho, execute_of_ok ho]
    exact ⟨o.signal, rfl, rfl, rfl⟩

/-- A step fails to fetch where there is no word. -/
theorem exists_unfetched_iff {m : Machine σ} :
    (∃ fault, m.step.result = .error fault ∧ fault.opcode = none) ↔
      wordAt? m.memory.toList m.counter.toNat = none := by
  rw [← toOption_fetch]
  constructor
  · rintro ⟨fault, hresult, hopcode⟩
    rw [← (state_step_of_error hresult).2, hopcode]
  · intro hnone
    cases hf : m.fetch with
    | ok op =>
      rw [hf] at hnone
      cases hnone
    | error cause =>
      rw [step_of_fetch_error hf]
      exact ⟨_, rfl, rfl⟩

/-- The word at an address after a run, put together from the bytes that were stored there last. -/
def wordAfter (m : Machine σ) (cs : List Command) (a : Nat) : Opcode :=
  word ((m.lastStored? cs a).getD (m.memory.byte a))
    ((m.lastStored? cs (a + 1)).getD (m.memory.byte (a + 1)))

theorem wordAt?_performAll {m : Machine σ} {cs : List Command} {a : Nat} {op : Opcode}
    (h : wordAt? (m.performAll cs).state.memory.toList a = some op) : op = m.wordAfter cs a := by
  rw [wordAt?_toList] at h
  split at h
  · rw [wordAfter, ← byte_performAll, ← byte_performAll]
    exact (Option.some.inj h).symm
  · cases h

omit [Surface σ] in
/-- The dump shows what is fetched. -/
theorem exists_fetch_and_shows (m : Machine σ) {a : Nat} (heven : a % 2 = 0)
    (ha : a < Memory.size) :
    ∃ op, ({ m with counter := UInt16.ofNat a } : Machine σ).fetch = .ok op ∧
      (∃ row ∈ MemoryTable.rows m.memory.toList, row.Covers a) ∧
      ∀ row ∈ MemoryTable.rows m.memory.toList, row.Covers a →
        row.Shows a op ∧ Table.indent 2 ++ row.text ∈ m.dumpLines := by
  have hsize : Memory.size = 4096 := rfl
  have hcounter : (UInt16.ofNat a).toNat = a :=
    UInt16.toNat_ofNat_of_lt' (Nat.lt_trans ha (by decide))
  have hword : wordAt? m.memory.toList a =
      some (word (m.memory.byte a) (m.memory.byte (a + 1))) := by
    rw [wordAt?_toList, if_pos (by omega)]
  refine ⟨_, fetch_eq_ok_iff_wordAt?.mpr (by rw [hcounter]; exact hword), ?_, ?_⟩
  · refine MemoryTable.exists_row (MemoryTable.contiguous_rows _) (Nat.zero_le a) ?_
    rwa [Memory.length_toList]
  · intro row hrow hcovers
    refine ⟨MemoryTable.Row.shows_of_entry?
      (MemoryTable.entry?_of_mem_rows heven hword hrow hcovers), ?_⟩
    have hline : Table.indent 2 ++ row.text ∈ MemoryTable.lines 2 m.memory.toList :=
      List.mem_map_of_mem hrow
    simp [dumpLines, hline]

/-- **What is fetched, obeyed and shown.** At any point of any run a step fails to fetch exactly if
memory has no word at the counter. Otherwise it obeys that word, each byte of which is the one that
was stored there last. And the word that is fetched at an even address is the one that the dump
shows for it, in the row whose range has the address. -/
theorem fetched_iff_shown (m : Machine σ) (cs : List Command) :
    let now := (m.performAll cs).state
    ((∃ fault, now.step.result = .error fault ∧ fault.opcode = none) ↔
      wordAt? now.memory.toList now.counter.toNat = none) ∧
    (∀ op, wordAt? now.memory.toList now.counter.toNat = some op →
      now.Obeys op ∧ op = m.wordAfter cs now.counter.toNat) ∧
    ∀ a, a % 2 = 0 → a < Memory.size →
      ∃ op, ({ now with counter := UInt16.ofNat a } : Machine σ).fetch = .ok op ∧
        (∃ row ∈ MemoryTable.rows now.memory.toList, row.Covers a) ∧
        ∀ row ∈ MemoryTable.rows now.memory.toList, row.Covers a →
          row.Shows a op ∧ Table.indent 2 ++ row.text ∈ now.dumpLines := by
  intro now
  refine ⟨exists_unfetched_iff, fun op hop => ⟨?_, wordAt?_performAll hop⟩,
    fun a => now.exists_fetch_and_shows⟩
  exact obeys_of_fetch (fetch_eq_ok_iff_wordAt?.mpr hop)

/-- A program that stores `V0` over the high byte of its last instruction. -/
def patchingRom : Rom := ⟨"patching", [0xA2, 0x06, 0x60, 0x61, 0xF0, 0x55, 0x12, 0x34], by decide⟩

/-- The last instruction was loaded as `1234`, and it is fetched, obeyed and shown as `6134`. -/
theorem fetched_iff_shown_patchingRom :
    let m := build (some patchingRom) .chip8 Screen.blank .released (.cycle #[])
    let cs := List.replicate 3 .step
    let now := (m.performAll cs).state
    m.memory.byte 0x206 = 0x12 ∧ now.Obeys 0x6134 ∧ m.wordAfter cs 0x206 = 0x6134 ∧
      ∃ row ∈ MemoryTable.rows now.memory.toList, row.Covers 0x206 ∧ row.Shows 0x206 0x6134 := by
  intro m cs
  obtain ⟨hbefore, hcounter, hword⟩ : m.memory.byte 0x206 = 0x12 ∧
      (m.performAll cs).state.counter = 0x206 ∧ (m.performAll cs).state.nextWord = 0x6134 := by
    decide +kernel
  obtain ⟨-, hobeys, hshown⟩ := fetched_iff_shown m cs
  dsimp only
  generalize (m.performAll cs).state = now at hcounter hword hobeys hshown ⊢
  have haddress : now.counter.toNat = 0x206 := congrArg UInt16.toNat hcounter
  have hnow : wordAt? now.memory.toList 0x206 = some 0x6134 := by
    rw [← haddress]
    exact fetch_eq_ok_iff_wordAt?.mp (fetch_eq_ok_iff.mpr ⟨by rw [haddress]; decide, hword⟩)
  rw [haddress] at hobeys
  obtain ⟨hobeyed, hafter⟩ := hobeys 0x6134 hnow
  obtain ⟨op, hfetch, ⟨row, hrow, hcovers⟩, hrows⟩ := hshown 0x206 (by decide) (by decide)
  have hop : some op = some 0x6134 := (fetch_eq_ok_iff_wordAt?.mp hfetch).symm.trans hnow
  rw [Option.some.inj hop] at hrows
  exact ⟨hbefore, hobeyed, hafter.symm, row, hrow, hcovers, (hrows row hrow hcovers).1⟩

end Machine

end Chip8

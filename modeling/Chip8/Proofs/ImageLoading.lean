import Chip8.Machine.Host
import Chip8.Screen

/-!
# What is loaded by an image

Two checks guard the loading of an image. One compares its length when a rom or a font is made of
bytes, the other compares the range with the end of memory when bytes are stored. They agree on
every program, so the second one never refuses what has passed the first. An accepted image replaces
the bytes that it covers, and where a shorter program follows a longer one the rest of that stays.

## Main definitions

* `Memory.IsPatched`: a memory that holds given bytes and is otherwise as before

## Main results

* `Memory.load_eq_ok_iff`: the bytes that memory accepts, and what it holds then
* `Memory.splice_comm`: the order does not matter when two images do not overlap
* `images_loaded_exactly`: which images are accepted, and what they change
-/

universe u

namespace Chip8

namespace Memory

variable {m m' m'' : Memory} {start : Nat} {bytes : List UInt8}

/-- The memory `m'` holds the bytes from `start` on, and otherwise what `m` holds. -/
structure IsPatched (m : Memory) (start : Nat) (bytes : List UInt8) (m' : Memory) : Prop where
  inside : ∀ (k : Nat) (h : k < bytes.length), m'.byte (start + k) = bytes[k]
  outside : ∀ a, ¬(start ≤ a ∧ a < start + bytes.length) → m'.byte a = m.byte a

theorem isPatched_splice (m : Memory) (h : start + bytes.length ≤ size) :
    m.IsPatched start bytes (m.splice start bytes) where
  inside k hk := by
    rw [byte_splice, if_pos (by omega), Nat.add_sub_cancel_left, List.getElem?_eq_getElem hk,
      Option.getD_some]
  outside a ha := by
    rw [byte_splice, if_neg fun hin => ha ⟨hin.1, hin.2.1⟩]

/-- There is one such memory only. -/
theorem IsPatched.eq (h : m.IsPatched start bytes m') (h' : m.IsPatched start bytes m'') :
    m' = m'' := by
  ext a
  by_cases hin : start ≤ a ∧ a < start + bytes.length
  · obtain ⟨k, rfl⟩ := Nat.exists_eq_add_of_le hin.1
    have hk : k < bytes.length := Nat.lt_of_add_lt_add_left hin.2
    rw [h.inside k hk, h'.inside k hk]
  · rw [h.outside a hin, h'.outside a hin]

/-- Memory accepts the bytes that end inside of it, and then holds them. -/
theorem load_eq_ok_iff :
    m.load start bytes = .ok m' ↔ start + bytes.length ≤ size ∧ m.IsPatched start bytes m' := by
  constructor
  · intro h
    have hfits : start + bytes.length ≤ size := fits_of_load_eq_ok h
    rw [load_eq m hfits, Except.ok.injEq] at h
    exact ⟨hfits, h ▸ isPatched_splice m hfits⟩
  · rintro ⟨hfits, hpatched⟩
    rw [load_eq m hfits, (isPatched_splice m hfits).eq hpatched]

/-- Bytes are put into two ranges in any order if the first range ends before the second one. -/
theorem splice_comm (m : Memory) {s t : Nat} {bs cs : List UInt8} (h : s + bs.length ≤ t) :
    (m.splice s bs).splice t cs = (m.splice t cs).splice s bs := by
  ext a
  simp only [byte_splice]
  by_cases hfirst : s ≤ a ∧ a < s + bs.length ∧ a < size
  · have hsecond : ¬(t ≤ a ∧ a < t + cs.length ∧ a < size) := by omega
    rw [if_neg hsecond, if_pos hfirst, if_pos hfirst]
  · rw [if_neg hfirst, if_neg hfirst]

end Memory

/-- A rom has the name and the bytes that it was made of. -/
theorem Rom.ofBytes_eq_ok_iff {name : String} {bytes : List UInt8} {rom : Rom} :
    (Rom.ofBytes name bytes).1 = .ok rom ↔ rom.name = name ∧ rom.bytes = bytes := by
  unfold ofBytes
  constructor
  · intro h
    split at h
    · cases h
      exact ⟨rfl, rfl⟩
    · cases h
  · rintro ⟨rfl, rfl⟩
    rw [dif_pos rom.length_le]

theorem Rom.exists_ofBytes_eq_ok_iff {name : String} {bytes : List UInt8} :
    (∃ rom, (Rom.ofBytes name bytes).1 = .ok rom) ↔ bytes.length ≤ programCapacity := by
  simp only [ofBytes_eq_ok_iff]
  constructor
  · rintro ⟨rom, -, rfl⟩
    exact rom.length_le
  · intro h
    exact ⟨⟨name, bytes, h⟩, rfl, rfl⟩

theorem Rom.ofBytes_of_exceeds {bytes : List UInt8} (name : String)
    (h : programCapacity < bytes.length) :
    (Rom.ofBytes name bytes).1 = .error (.programTooLarge bytes.length programCapacity) := by
  rw [ofBytes, dif_neg (Nat.not_le.mpr h)]

/-- A font has the bytes that it was made of. -/
theorem Font.ofBytes_eq_ok_iff {bytes : List UInt8} {font : Font} :
    (Font.ofBytes bytes).1 = .ok font ↔ font.bytes = bytes := by
  unfold ofBytes
  constructor
  · intro h
    split at h
    · cases h
      rfl
    · cases h
  · rintro rfl
    rw [dif_pos font.length_eq]

theorem Font.ofBytes_of_ne {bytes : List UInt8} (h : bytes.length ≠ fontSize) :
    (Font.ofBytes bytes).1 = .error (.wrongFontSize bytes.length fontSize) := by
  rw [ofBytes, dif_neg h]

/-- The message about a program that is too large tells how large it may be. -/
theorem ImageError.message_programTooLarge (n : Nat) :
    (programTooLarge n 3584).message = "The program is " ++ toString n ++
      " bytes long, but at most 3584 bytes fit into memory." := by
  have hlimit : " bytes long, but at most " ++ (toString 3584 ++ " bytes fit into memory.") =
      " bytes long, but at most 3584 bytes fit into memory." := rfl
  calc (programTooLarge n 3584).message
    _ = "The program is " ++ toString n ++ " bytes long, but at most " ++ toString 3584
          ++ " bytes fit into memory." := rfl
    _ = _ := by rw [String.append_assoc, String.append_assoc, hlimit]

/-- The font ends before programs begin. -/
theorem Font.end_le_programStart (font : Font) : fontStart + font.bytes.length ≤ programStart := by
  rw [font.length_eq]
  decide

namespace Machine

variable {σ : Type u}

theorem result_loadProgram_eq_ok_iff (m : Machine σ) {bytes : List UInt8} :
    (m.loadProgram bytes).result = .ok () ↔ bytes.length ≤ programCapacity := by
  rcases Nat.lt_or_ge programCapacity bytes.length with hexceeds | hfits
  · rw [loadProgram_of_exceeds m hexceeds]
    exact iff_of_false (fun h => nomatch h) (Nat.not_le.mpr hexceeds)
  · rw [loadProgram_of_fits m hfits]
    exact iff_of_true rfl hfits

/-- A rom is stored by its bytes, as a program is. -/
theorem exists_memory_of_rom (m : Machine σ) (rom : Rom) :
    ∃ memory, m.memory.load programStart rom.bytes = .ok memory ∧
      m.memory.IsPatched programStart rom.bytes memory ∧
      (m.loadRom rom).state = { m with name := rom.name, memory := memory } ∧
      (m.loadProgram rom.bytes).state = { m with memory := memory } := by
  have hload := load_rom_eq m.memory rom
  refine ⟨_, hload, (Memory.load_eq_ok_iff.mp hload).2, ?_, ?_⟩
  · rw [loadRom_eq]
  · rw [loadProgram_of_fits m rom.length_le]

theorem exists_memory_of_font (m : Machine σ) (font : Font) :
    ∃ memory, m.memory.load fontStart font.bytes = .ok memory ∧
      m.memory.IsPatched fontStart font.bytes memory ∧
      m.loadFont font = ⟨{ m with memory := memory }, (), []⟩ := by
  have hload := load_font_eq m.memory font
  exact ⟨_, hload, (Memory.load_eq_ok_iff.mp hload).2, m.loadFont_eq font⟩

/-- A font does not touch the place of programs, nor the other way round. -/
theorem loadProgram_loadFont (m : Machine σ) (font : Font) (bytes : List UInt8) :
    (m.loadFont font).state.loadProgram bytes =
      ⟨((m.loadProgram bytes).state.loadFont font).state, (m.loadProgram bytes).result,
        (m.loadProgram bytes).notices⟩ := by
  rcases Nat.lt_or_ge programCapacity bytes.length with hexceeds | hfits
  · rw [loadProgram_of_exceeds _ hexceeds, loadProgram_of_exceeds _ hexceeds]
  · rw [loadProgram_of_fits _ hfits, loadProgram_of_fits _ hfits]
    simp only [loadFont_eq, m.memory.splice_comm font.end_le_programStart]

theorem loadRom_loadFont (m : Machine σ) (font : Font) (rom : Rom) :
    ((m.loadFont font).state.loadRom rom).state =
      ((m.loadRom rom).state.loadFont font).state := by
  simp only [loadRom_eq, loadFont_eq, m.memory.splice_comm font.end_le_programStart]

/-- **What the loading of an image does.** A rom is made of the same bytes as are loaded as a
program, which are at most 3584; all others are rejected with the same error, and nothing changes.
The bytes of an accepted program replace those from `0x200` on, where memory never refuses them, and
a rom gives its name to the machine. A font is made of exactly 80 bytes, which replace those from
`0x50` on. Nothing else is touched, so it does not matter which of the two is loaded first. -/
theorem images_loaded_exactly (m : Machine σ) (name : String) (bytes : List UInt8) (font : Font) :
    (((∃ rom, (Rom.ofBytes name bytes).1 = .ok rom) ↔ (m.loadProgram bytes).result = .ok ()) ∧
      ((m.loadProgram bytes).result = .ok () ↔ bytes.length ≤ 3584)) ∧
    (3584 < bytes.length →
      (Rom.ofBytes name bytes).1 = .error (.programTooLarge bytes.length 3584) ∧
      (m.loadProgram bytes).result = .error (.programTooLarge bytes.length 3584) ∧
      (ImageError.programTooLarge bytes.length 3584).message = "The program is " ++
        toString bytes.length ++ " bytes long, but at most 3584 bytes fit into memory." ∧
      (m.loadProgram bytes).state = m) ∧
    (∀ rom, (Rom.ofBytes name bytes).1 = .ok rom →
      ∃ memory, m.memory.load 0x200 rom.bytes = .ok memory ∧
        m.memory.IsPatched 0x200 bytes memory ∧
        (m.loadRom rom).state = { m with name := name, memory := memory } ∧
        (m.loadProgram bytes).state = { m with memory := memory }) ∧
    (((Font.ofBytes bytes).1 = .ok font ↔ font.bytes = bytes) ∧ font.bytes.length = 80 ∧
      (bytes.length ≠ 80 → (Font.ofBytes bytes).1 = .error (.wrongFontSize bytes.length 80))) ∧
    (∃ memory, m.memory.load 0x50 font.bytes = .ok memory ∧
      m.memory.IsPatched 0x50 font.bytes memory ∧
      m.loadFont font = ⟨{ m with memory := memory }, (), []⟩) ∧
    ((m.loadFont font).state.loadProgram bytes).state =
      ((m.loadProgram bytes).state.loadFont font).state ∧
    ∀ rom, ((m.loadFont font).state.loadRom rom).state =
      ((m.loadRom rom).state.loadFont font).state := by
  refine ⟨⟨?_, m.result_loadProgram_eq_ok_iff⟩, fun hexceeds => ?_, fun rom hrom => ?_,
    ⟨Font.ofBytes_eq_ok_iff, font.length_eq, Font.ofBytes_of_ne⟩, m.exists_memory_of_font font, ?_,
    m.loadRom_loadFont font⟩
  · exact Rom.exists_ofBytes_eq_ok_iff.trans m.result_loadProgram_eq_ok_iff.symm
  · rw [loadProgram_of_exceeds m hexceeds]
    exact ⟨Rom.ofBytes_of_exceeds name hexceeds, rfl, ImageError.message_programTooLarge _, rfl⟩
  · obtain ⟨rfl, rfl⟩ := Rom.ofBytes_eq_ok_iff.mp hrom
    exact m.exists_memory_of_rom rom
  · rw [loadProgram_loadFont]

/-- A program of three bytes. -/
def shortRom : Rom := ⟨"short", [0x00, 0xE0, 0x12], by decide⟩

/-- The short program leaves the fourth byte of the long one where it is. -/
theorem images_loaded_exactly_shortRom :
    let m : Machine Screen :=
      build (some ⟨"long", [1, 2, 3, 4], by decide⟩) .chip8 Screen.blank .released (.cycle #[])
    let tooLong : List UInt8 := List.replicate 3585 0
    (m.loadRom shortRom).state.name = "short" ∧
      (m.loadProgram shortRom.bytes).state.memory.byte 0x202 = 0x12 ∧
      (m.loadProgram shortRom.bytes).state.memory.byte 0x203 = 4 ∧
      (m.loadProgram tooLong).state = m ∧
      (Font.ofBytes tooLong).1 = .error (.wrongFontSize 3585 80) := by
  intro m tooLong
  have hlength : tooLong.length = 3585 := List.length_replicate
  have hmade : (Rom.ofBytes "short" shortRom.bytes).1 = .ok shortRom :=
    Rom.ofBytes_eq_ok_iff.mpr ⟨rfl, rfl⟩
  obtain ⟨-, -, hloaded, -⟩ := images_loaded_exactly m "short" shortRom.bytes .standard
  obtain ⟨memory, -, hpatched, hrom, hprogram⟩ := hloaded shortRom hmade
  obtain ⟨-, hexceeds, -, ⟨-, -, hfont⟩, -⟩ := images_loaded_exactly m "long" tooLong .standard
  have hbehind : m.memory.byte 0x203 = 4 := by decide +kernel
  refine ⟨?_, ?_, ?_, (hexceeds (by omega)).2.2.2, hlength ▸ hfont (by omega)⟩
  · rw [hrom]
  · rw [hprogram]
    exact hpatched.inside 2 (by decide)
  · rw [hprogram]
    exact (hpatched.outside 0x203 (by decide)).trans hbehind

end Machine

end Chip8

import Chip8.Proofs.StoredBytes
import Chip8.Proofs.SurfaceCalls

/-!
# Glyphs

A font is loaded to a place of its own, in front of the programs. Programs are loaded behind it, and
nothing else that the host does reaches memory, so the font stays there until an instruction stores
a byte over it. As long as none does, `FX29` finds the glyph of the low digit of `VX`, and a sprite
of five rows that is drawn from there is that glyph.

## Main definitions

* `Font.row`: a row of the glyph of a byte
* `Memory.HoldsFont`: a memory has a font at the place of fonts
* `Moment.SparesFont`: the executed instruction stores nothing over the font

## Main results

* `holdsFont_performAll`: a run that loads no other font and spares the one that is there keeps it
* `index_of_leaves_glyph`, `byte_of_leaves_glyph`: what `FX29` finds, and the bytes there
* `requests_of_leaves_draw`: what a sprite of a memory's bytes asks of the surface
* `glyphs_are_drawn`: from a font that was loaded to the rows on the surface
-/

universe u

namespace Chip8

theorem Font.index_lt (font : Font) (b : UInt8) (k : Fin glyphSize) :
    glyphSize * (b.toNat % 16) + k < font.bytes.length := by
  have hk := k.isLt
  rw [font.length_eq]
  unfold glyphSize fontSize at *
  omega

/-- A row of the glyph of the low digit of a byte. -/
def Font.row (font : Font) (b : UInt8) (k : Fin glyphSize) : UInt8 :=
  font.bytes.get ⟨glyphSize * (b.toNat % 16) + k, font.index_lt b k⟩

/-- A memory has a font at the place of fonts. -/
def Memory.HoldsFont (m : Memory) (font : Font) : Prop :=
  ∀ (k : Nat) (hk : k < font.bytes.length), m.byte (fontStart + k) = font.bytes[k]

namespace Machine

variable {σ : Type u} [Surface σ]

/-- The instruction that is executed at a moment stores no byte at the place of fonts. -/
def Moment.SparesFont (t : Moment σ) : Prop :=
  ∀ i ∈ t.executed?, ∀ a ≤ 0x9F, 0x50 ≤ a → ¬t.machine.StoresAt i a

instance (t : Moment σ) : Decidable t.SparesFont :=
  inferInstanceAs (Decidable (∀ i ∈ t.executed?, ∀ a ≤ 0x9F, 0x50 ≤ a → ¬t.machine.StoresAt i a))

omit [Surface σ] in
theorem holdsFont_loadFont (m : Machine σ) (font : Font) :
    (m.loadFont font).state.memory.HoldsFont font := by
  obtain ⟨memory, -, hpatched, hstate⟩ := m.exists_memory_of_font font
  rw [hstate]
  exact hpatched.inside

/-- Bytes that are put into memory miss the place of fonts, unless they are those of a font or are
stored over it. -/
theorem Moment.patch_byte? {t : Moment σ} (hfont : ∀ font, t.command ≠ .loadFont font)
    (hspares : t.SparesFont) {a : Nat} (hfirst : 0x50 ≤ a) (hlast : a ≤ 0x9F) :
    t.patch.byte? a = none := by
  have hbefore : ¬programStart ≤ a := by
    unfold programStart
    omega
  rw [Memory.Patch.byte?_eq_none_iff]
  intro hin
  obtain ⟨m, c⟩ := t
  unfold patch at hin
  cases c with
  | step =>
    dsimp only at hin
    split at hin
    next i hi =>
      rw [length_storedBy] at hin
      exact hspares i hi a hlast hfirst hin
    next => exact Nat.not_lt_zero a hin.2
  | loadProgram bytes =>
    dsimp only at hin
    split at hin
    next => exact hbefore hin.1
    next => exact Nat.not_lt_zero a hin.2
  | loadRom rom => exact hbefore hin.1
  | loadFont font => exact hfont font rfl
  | tick | reset | setLevel | setDebug | keys => exact Nat.not_lt_zero a hin.2

/-- A run that loads no other font and never stores over the loaded one keeps it. -/
theorem holdsFont_performAll (m : Machine σ) {font : Font} {cs : List Command}
    (hfonts : ∀ other, .loadFont other ∉ cs)
    (hspares : ∀ t ∈ (m.loadFont font).state.moments cs, t.SparesFont) :
    ((m.loadFont font).state.performAll cs).state.memory.HoldsFont font := by
  intro k hk
  have hlast : fontStart + k ≤ 0x9F := by
    rw [font.length_eq] at hk
    unfold fontStart fontSize at *
    omega
  have hmissed : ∀ t ∈ (m.loadFont font).state.moments cs,
      t.patch.byte? (fontStart + k) = none := by
    intro t ht
    refine t.patch_byte? (fun other hother => hfonts other ?_) (hspares t ht)
      (Nat.le_add_right _ _) hlast
    rw [← hother]
    exact command_mem_of_mem_moments ht
  rw [byte_performAll_of_patch hmissed]
  exact m.holdsFont_loadFont font k hk

/-! ## Finding a glyph -/

section Glyph

variable {m found : Machine σ} {x : Register}

theorem signals_glyph (m : Machine σ) (x : Register) : m.Signals (.glyph x) .none :=
  signals_of_effect (fun _ _ => rfl) fun _ _ => rfl

/-- `FX29` finds the place of the glyph. -/
theorem index_of_leaves_glyph (h : m.Leaves (.glyph x) found) :
    found.index.toNat = fontStart + glyphSize * ((m.registers.get x).toNat % 16) := by
  have hdigit : (m.registers.get x).toNat % 16 < 16 := Nat.mod_lt _ (by decide)
  obtain ⟨counter, op, rfl⟩ := h.exists_final fun _ _ => rfl
  have hindex : fontStart + glyphSize * ((m.registers.get x).toNat % 16) < UInt16.size := by
    unfold fontStart glyphSize UInt16.size
    omega
  exact UInt16.toNat_ofNat_of_lt' hindex

theorem memory_of_leaves_glyph (h : m.Leaves (.glyph x) found) : found.memory = m.memory := by
  obtain ⟨counter, op, rfl⟩ := h.exists_final fun _ _ => rfl
  rfl

/-- There the rows of the glyph lie, if there is a font. -/
theorem byte_of_leaves_glyph {font : Font} (hfont : m.memory.HoldsFont font)
    (h : m.Leaves (.glyph x) found) (k : Fin glyphSize) :
    found.memory.byte (found.index.toNat + k) = font.row (m.registers.get x) k := by
  rw [index_of_leaves_glyph h, memory_of_leaves_glyph h, Nat.add_assoc]
  exact hfont _ (font.index_lt _ k)

end Glyph

/-! ## Drawing a sprite -/

section Draw

variable {m : Machine σ} {x y : Register} {n : Fin 16}

theorem signals_draw (h : m.index.toNat + n ≤ Memory.size) : m.Signals (.draw x y n) .draw := by
  have heffect (counter : Address) (op : Opcode) :=
    effect_draw_of_inside (m := m.movedTo counter op) h x y
  exact signals_of_effect heffect fun _ _ => rfl

omit [Surface σ] in
/-- A recorder does not change what is fetched. -/
theorem fetch_watched (m : Machine σ) : m.watched.fetch = m.fetch := rfl

/-- A sprite that lies inside of memory asks the surface for its rows. -/
theorem requests_of_leaves_draw (h : m.index.toNat + n ≤ Memory.size)
    {drawn : Machine (Recorder σ)} (hdrawn : m.watched.Leaves (.draw x y n) drawn) :
    drawn.surface.calls.map SurfaceCall.request = m.requestsOf (.draw x y n) := by
  obtain ⟨counter, op, rfl⟩ := hdrawn.exists_final fun counter op =>
    effect_watchedBy [] (effect_draw_of_inside (m := m.movedTo counter op) h x y)
  have hcalls : ((((m.movedTo counter op).callsOf (.draw x y n)).reverse ++ []).reverse).map
      SurfaceCall.request = (m.movedTo counter op).requestsOf (.draw x y n) := by
    rw [List.append_nil, List.reverse_reverse, map_request_callsOf]
  exact hcalls

omit [Surface σ] in
/-- The rows of a sprite by their number. -/
theorem requestsOf_draw {rows : Fin n → UInt8}
    (h : ∀ k : Fin n, m.memory.byte (m.index.toNat + k) = rows k) :
    m.requestsOf (.draw x y n) = (List.finRange n).map fun k =>
      .drawRow (m.registers.get x).toNat ((m.registers.get y).toNat + k) (rows k) := by
  refine List.ext_getElem (by simp [requestsOf]) fun k hk _ => ?_
  have hk : k < n := by simpa [requestsOf] using hk
  simp only [requestsOf, List.getElem_map, List.getElem_range, List.getElem_finRange]
  exact congrArg (SurfaceRequest.drawRow _ _) (h ⟨k, hk⟩)

end Draw

/-- **Glyphs are drawn.** After a font was loaded and any run that loads no other one and never
stores over it, `FX29` finds the glyph of the low digit of `VX`, whatever the registers hold. A
sprite of five rows that is drawn next is never refused, and sends the rows of that glyph to the
surface in order. -/
theorem glyphs_are_drawn (m : Machine σ) (font : Font) (cs : List Command)
    (hfonts : ∀ other, .loadFont other ∉ cs)
    (hspares : ∀ t ∈ (m.loadFont font).state.moments cs, t.SparesFont) (registers : Registers)
    (x : Register) :
    let now := { ((m.loadFont font).state.performAll cs).state with registers := registers }
    now.Signals (.glyph x) .none ∧
    ∀ found, now.Leaves (.glyph x) found →
      0x50 ≤ found.index.toNat ∧ found.index.toNat ≤ 0x9B ∧
      (∀ k : Fin glyphSize,
        found.memory.byte (found.index.toNat + k) = font.row (registers.get x) k) ∧
      ∀ y z, found.Signals (.draw y z 5) .draw ∧
        ∀ drawn, found.watched.Leaves (.draw y z 5) drawn →
          drawn.surface.calls.map SurfaceCall.request =
            (List.finRange glyphSize).map fun k =>
              .drawRow (found.registers.get y).toNat ((found.registers.get z).toNat + k)
                (font.row (registers.get x) k) := by
  intro now
  have hholds : now.memory.HoldsFont font := m.holdsFont_performAll hfonts hspares
  refine ⟨now.signals_glyph x, fun found hfound => ?_⟩
  have hindex : found.index.toNat = 0x50 + 5 * ((registers.get x).toNat % 16) :=
    index_of_leaves_glyph hfound
  have hrows := byte_of_leaves_glyph hholds hfound
  have hinside : found.index.toNat + (5 : Fin 16) ≤ Memory.size := by
    have hsize : Memory.size = 4096 := rfl
    have hfive : ((5 : Fin 16) : Nat) = 5 := rfl
    omega
  refine ⟨by omega, by omega, hrows, fun y z => ⟨signals_draw hinside, fun drawn hdrawn => ?_⟩⟩
  rw [requests_of_leaves_draw hinside hdrawn]
  exact requestsOf_draw (n := 5) hrows

/-- A font whose bytes are numbered. -/
def numberedFont : Font := ⟨(List.range 80).map UInt8.ofNat, by decide⟩

/-- A program that stores `V0` right behind the place of fonts and draws the glyph of `V1`. -/
def glyphProgram : List UInt8 := [0xA0, 0xA0, 0xF0, 0x55, 0xF1, 0x29, 0xD2, 0x35]

/-- After the store the next two steps draw the glyph of `A`, which `V1` holds the digit of. -/
theorem glyphs_are_drawn_numberedFont :
    let m := build none .chip8 Screen.blank .released (.cycle #[])
    let cs : List Command := [.reset, .loadProgram glyphProgram, .step, .tick, .step]
    let now := { ((m.loadFont numberedFont).state.performAll cs).state with
      registers := Registers.zero.set 1 0x2A }
    now.step.result = .ok .none ∧ now.step.state.step.result = .ok .draw ∧
      now.step.state.watched.step.state.surface.calls.map SurfaceCall.request =
        [.drawRow 0 0 50, .drawRow 0 1 51, .drawRow 0 2 52, .drawRow 0 3 53, .drawRow 0 4 54] := by
  intro m cs
  obtain ⟨hspares, hcounter, hword, hnext, hnextWord, hx, hy⟩ :
      let now := { ((m.loadFont numberedFont).state.performAll cs).state with
        registers := Registers.zero.set 1 0x2A }
      (∀ t ∈ (m.loadFont numberedFont).state.moments cs, t.SparesFont) ∧
        now.counter.toNat + 1 < Memory.size ∧ now.nextWord = (Instruction.glyph 1).encode ∧
        now.step.state.counter.toNat + 1 < Memory.size ∧
        now.step.state.nextWord = (Instruction.draw 2 3 5).encode ∧
        now.step.state.registers.get 2 = 0 ∧ now.step.state.registers.get 3 = 0 := by
    decide +kernel
  have hdrawn := glyphs_are_drawn m numberedFont cs
    (fun other hother => by simp [cs] at hother) hspares (Registers.zero.set 1 0x2A) 1
  dsimp only at hdrawn ⊢
  generalize ({ ((m.loadFont numberedFont).state.performAll cs).state with
    registers := Registers.zero.set 1 0x2A } : Machine Screen) = now at *
  obtain ⟨hglyph, hfound⟩ := hdrawn
  have hfetch : now.fetch = .ok (Instruction.glyph 1).encode :=
    fetch_eq_ok_iff.mpr ⟨hcounter, hword⟩
  have hfetchNext : now.step.state.fetch = .ok (Instruction.draw 2 3 5).encode :=
    fetch_eq_ok_iff.mpr ⟨hnext, hnextWord⟩
  obtain ⟨-, -, -, hdraw⟩ := hfound _ (.step hfetch)
  obtain ⟨hsignal, hrequests⟩ := hdraw 2 3
  have hwatched := hrequests _ (.step ((fetch_watched _).trans hfetchNext))
  refine ⟨hglyph.2 hfetch, hsignal.2 hfetchNext, hwatched.trans ?_⟩
  rw [hx, hy]
  decide

end Machine

end Chip8

import Chip8.Proofs.StepCases
import Chip8.Machine.Host
import Chip8.Screen

/-!
# Sprites

A sprite is drawn row by row, and each row pixel by pixel; the coordinates wrap around at both edges
of the screen. A sprite has at most fifteen rows of eight pixels, so it never meets itself: no line
is drawn on by two of its rows, and no column by two bits of a row. Therefore each pixel is inverted
once or not at all, and the rows' answers together say exactly whether some pixel was lit before the
sprite was drawn and is not lit any more.

## Main definitions

* `Screen.Meets`: the pixels under the set bits of a sprite
* `Machine.SpriteMeets`: the pixels under the set bits of the sprite in memory
* `Machine.Drawn`: what a drawn sprite makes of a machine

## Main results

* `Screen.pixel_drawRows`: a sprite inverts the pixels under its set bits
* `Screen.collided_drawRows_iff`: what the answer of a screen says about its pixels
* `sprite_drawn`: what becomes of a machine that draws a sprite
-/

namespace Chip8

namespace Screen

/-- A sprite that is drawn from the column `x` of the line `y` on has a set bit over a pixel. -/
def Meets (rows : List UInt8) (x y px py : Nat) : Prop :=
  ∃ i < rows.length, ∃ b < 8,
    bit (rows[i]?.getD 0) b = true ∧ (x + b) % 64 = px % 64 ∧ (y + i) % 32 = py % 32

instance (rows : List UInt8) (x y px py : Nat) : Decidable (Meets rows x y px py) :=
  inferInstanceAs (Decidable (∃ i < rows.length, ∃ b < 8, _ ∧ _ ∧ _))

/-- A row has a set bit over a pixel of its line. -/
def RowMeets (row : UInt8) (x y px py : Nat) : Prop :=
  py % 32 = y % 32 ∧ ∃ b < 8, bit row b = true ∧ (x + b) % 64 = px % 64

instance (row : UInt8) (x y px py : Nat) : Decidable (RowMeets row x y px py) :=
  inferInstanceAs (Decidable (_ ∧ ∃ b < 8, _ ∧ _))

variable {row : UInt8} {rows : List UInt8} {x y px py : Nat}

theorem not_meets_nil : ¬Meets [] x y px py := by
  rintro ⟨i, hi, -⟩
  exact absurd hi (Nat.not_lt_zero i)

/-- The rows behind the first one are drawn from the next line on. -/
theorem meets_cons_iff :
    Meets (row :: rows) x y px py ↔ RowMeets row x y px py ∨ Meets rows x (y + 1) px py := by
  constructor
  · rintro ⟨i, hi, b, hb, hbit, hcolumn, hline⟩
    cases i with
    | zero => exact .inl ⟨hline.symm, b, hb, hbit, hcolumn⟩
    | succ i =>
      refine .inr ⟨i, Nat.lt_of_succ_lt_succ hi, b, hb, hbit, hcolumn, ?_⟩
      rw [Nat.add_right_comm]
      exact hline
  · rintro (⟨hline, b, hb, hbit, hcolumn⟩ | ⟨i, hi, b, hb, hbit, hcolumn, hline⟩)
    · exact ⟨0, Nat.succ_pos _, b, hb, hbit, hcolumn, hline.symm⟩
    · refine ⟨i + 1, Nat.succ_lt_succ hi, b, hb, hbit, hcolumn, ?_⟩
      rw [Nat.add_right_comm] at hline
      exact hline

/-- The rows behind the first one do not get around to its line. -/
theorem line_ne_of_meets (hlength : rows.length < 32) (h : Meets rows x (y + 1) px py) :
    py % 32 ≠ y % 32 := by
  obtain ⟨i, hi, b, hb, hbit, hcolumn, hline⟩ := h
  omega

/-- Coordinates wrap around at the edges. -/
theorem pixel_congr (s : Screen) {px' py' : Nat} (hcolumn : px % 64 = px' % 64)
    (hline : py % 32 = py' % 32) : s.pixel px py = s.pixel px' py' := by
  have hx : Fin.ofNat 64 px = Fin.ofNat 64 px' := Fin.ext hcolumn
  have hy : Fin.ofNat 32 py = Fin.ofNat 32 py' := Fin.ext hline
  simp only [pixel, line, hx, hy]

theorem pixel_drawRow_eq (s : Screen) (row : UInt8) (x y px py : Nat) :
    (s.drawRow x y row).1.pixel px py = (s.pixel px py ^^ decide (RowMeets row x y px py)) := by
  rw [pixel_drawRow]
  congr 1
  rw [Bool.eq_iff_iff, Bool.and_eq_true, decide_eq_true_iff, covers_iff]
  exact decide_eq_true_iff.symm

/-- **A sprite inverts the pixels under its set bits.** -/
theorem pixel_drawRows (s : Screen) (hlength : rows.length ≤ 32) :
    (Surface.drawRows s x y rows).1.pixel px py =
      (s.pixel px py ^^ decide (Meets rows x y px py)) := by
  induction rows generalizing s y with
  | nil =>
    rw [decide_eq_false not_meets_nil, Bool.xor_false]
    rfl
  | cons row rows ih =>
    have hrest : rows.length < 32 := hlength
    have hpixel := ih (y := y + 1) (s.drawRow x y row).1 (Nat.le_of_lt hrest)
    rw [pixel_drawRow_eq] at hpixel
    refine hpixel.trans ?_
    rw [Bool.xor_assoc]
    congr 1
    by_cases hfirst : RowMeets row x y px py
    · have hlater : ¬Meets rows x (y + 1) px py := fun h => line_ne_of_meets hrest h hfirst.1
      simp only [meets_cons_iff, hfirst, hlater, decide_true, decide_false, or_false,
        Bool.xor_false]
    · simp only [meets_cons_iff, hfirst, decide_false, false_or, Bool.false_xor]

/-- A row's answer is that one of the pixels under its set bits was lit. -/
theorem collided_drawRow_iff (s : Screen) :
    (s.drawRow x y row).2 = true ↔
      ∃ px < 64, ∃ py < 32, s.pixel px py = true ∧ RowMeets row x y px py := by
  simp only [drawRow, List.any_eq_true, List.mem_range, Bool.and_eq_true]
  constructor
  · rintro ⟨b, hb, hbit, hlit⟩
    refine ⟨(x + b) % 64, column_lt _, y % 32, line_lt y, ?_, ?_⟩
    · rw [← hlit]
      exact s.pixel_congr (Nat.mod_mod _ _) (Nat.mod_mod _ _)
    · exact ⟨Nat.mod_mod y 32, b, hb, hbit, (Nat.mod_mod (x + b) 64).symm⟩
  · rintro ⟨px, -, py, -, hlit, hline, b, hb, hbit, hcolumn⟩
    refine ⟨b, hb, hbit, ?_⟩
    rw [← hlit]
    exact s.pixel_congr hcolumn hline.symm

/-- The answer to a sprite is that one of the pixels under its set bits was lit. -/
theorem collided_drawRows_iff_meets (s : Screen) (hlength : rows.length ≤ 32) :
    (Surface.drawRows s x y rows).2 = true ↔
      ∃ px < 64, ∃ py < 32, s.pixel px py = true ∧ Meets rows x y px py := by
  induction rows generalizing s y with
  | nil =>
    constructor
    · exact fun h => nomatch h
    · rintro ⟨px, -, py, -, -, hmeets⟩
      exact absurd hmeets not_meets_nil
  | cons row rows ih =>
    have hrest : rows.length < 32 := hlength
    -- where the later rows are drawn, the first one has changed nothing
    have hlater : ∀ px py, Meets rows x (y + 1) px py →
        (s.drawRow x y row).1.pixel px py = s.pixel px py := by
      intro px py hmeets
      rw [pixel_drawRow_eq, decide_eq_false (fun hrow => line_ne_of_meets hrest hmeets hrow.1),
        Bool.xor_false]
    rw [Surface.drawRows, Bool.or_eq_true, surface_drawRow, collided_drawRow_iff,
      ih _ (Nat.le_of_lt hrest)]
    constructor
    · rintro (⟨px, hpx, py, hpy, hlit, hrow⟩ | ⟨px, hpx, py, hpy, hlit, hmeets⟩)
      · exact ⟨px, hpx, py, hpy, hlit, meets_cons_iff.mpr (.inl hrow)⟩
      · rw [hlater px py hmeets] at hlit
        exact ⟨px, hpx, py, hpy, hlit, meets_cons_iff.mpr (.inr hmeets)⟩
    · rintro ⟨px, hpx, py, hpy, hlit, hmeets⟩
      rcases meets_cons_iff.mp hmeets with hrow | hmeets
      · exact .inl ⟨px, hpx, py, hpy, hlit, hrow⟩
      · rw [← hlater px py hmeets] at hlit
        exact .inr ⟨px, hpx, py, hpy, hlit, hmeets⟩

/-- Some pixel is lit on a screen, but not any more on the screen that has become of it. -/
def LosesPixel (s s' : Screen) : Prop :=
  ∃ px < 64, ∃ py < 32, s.pixel px py = true ∧ s'.pixel px py = false

instance (s s' : Screen) : Decidable (s.LosesPixel s') :=
  inferInstanceAs (Decidable (∃ px < 64, ∃ py < 32, _ ∧ _))

/-- **The answer to a sprite** is that some pixel was lit before and is not lit any more. -/
theorem collided_drawRows_iff (s : Screen) (hlength : rows.length ≤ 32) :
    (Surface.drawRows s x y rows).2 = true ↔ s.LosesPixel (Surface.drawRows s x y rows).1 := by
  rw [collided_drawRows_iff_meets s hlength]
  constructor
  · rintro ⟨px, hpx, py, hpy, hlit, hmeets⟩
    refine ⟨px, hpx, py, hpy, hlit, ?_⟩
    rw [pixel_drawRows s hlength, hlit, decide_eq_true hmeets, Bool.xor_self]
  · rintro ⟨px, hpx, py, hpy, hlit, hunlit⟩
    refine ⟨px, hpx, py, hpy, hlit, ?_⟩
    rw [pixel_drawRows s hlength, hlit, Bool.true_xor, Bool.not_eq_false'] at hunlit
    exact of_decide_eq_true hunlit

end Screen

namespace Machine

/-- The sprite of `n` bytes at the index register, drawn at the position `VX`, `VY`, has a set bit
over a pixel. -/
def SpriteMeets (m : Machine Screen) (x y : Register) (n : Fin 16) (px py : Nat) : Prop :=
  ∃ i < n.val, ∃ b < 8,
    px = ((m.registers.get x).toNat + b) % 64 ∧ py = ((m.registers.get y).toNat + i) % 32 ∧
      (m.memory.byte (m.index.toNat + i)).toNat.testBit (7 - b) = true

instance (m : Machine Screen) (x y : Register) (n : Fin 16) (px py : Nat) :
    Decidable (m.SpriteMeets x y n px py) :=
  inferInstanceAs (Decidable (∃ i < n.val, ∃ b < 8, _ ∧ _ ∧ _))

/-- **A machine after a sprite was drawn.** The sprite is that of the machine `m`, and `m'` is what
has become of it. -/
structure Drawn (m : Machine Screen) (x y : Register) (n : Fin 16) (m' : Machine Screen) :
    Prop where
  inverted : ∀ px < 64, ∀ py < 32, m.SpriteMeets x y n px py →
    m'.surface.pixel px py = !m.surface.pixel px py
  kept : ∀ px < 64, ∀ py < 32, ¬m.SpriteMeets x y n px py →
    m'.surface.pixel px py = m.surface.pixel px py
  flag : m'.registers.get .flag = if m.surface.LosesPixel m'.surface then 1 else 0
  registers : ∀ z, z ≠ .flag → m'.registers.get z = m.registers.get z
  index : m'.index = m.index
  memory : m'.memory = m.memory

/-- The bytes of the sprite. -/
def sprite (m : Machine Screen) (n : Fin 16) : List UInt8 :=
  (List.range n).map fun i => m.memory.byte (m.index.toNat + i)

@[simp] theorem length_sprite (m : Machine Screen) (n : Fin 16) : (m.sprite n).length = n := by
  rw [sprite, List.length_map, List.length_range]

theorem getElem?_sprite (m : Machine Screen) {n : Fin 16} {i : Nat} (hi : i < n) :
    (m.sprite n)[i]? = some (m.memory.byte (m.index.toNat + i)) := by
  rw [sprite, List.getElem?_map, List.getElem?_range hi, Option.map_some]

/-- The sprite meets the pixels that its rows meet. -/
theorem meets_sprite_iff (m : Machine Screen) (x y : Register) (n : Fin 16) {px py : Nat}
    (hpx : px < 64) (hpy : py < 32) :
    Screen.Meets (m.sprite n) (m.registers.get x).toNat (m.registers.get y).toNat px py ↔
      m.SpriteMeets x y n px py := by
  unfold Screen.Meets SpriteMeets
  rw [length_sprite, Nat.mod_eq_of_lt hpx, Nat.mod_eq_of_lt hpy]
  constructor
  · rintro ⟨i, hi, b, hb, hbit, hcolumn, hline⟩
    rw [m.getElem?_sprite hi] at hbit
    exact ⟨i, hi, b, hb, hcolumn.symm, hline.symm, hbit⟩
  · rintro ⟨i, hi, b, hb, hcolumn, hline, hbit⟩
    refine ⟨i, hi, b, hb, ?_, hcolumn.symm, hline.symm⟩
    rw [m.getElem?_sprite hi]
    exact hbit

theorem drawn_drawEffect (m : Machine Screen) (x y : Register) (n : Fin 16) :
    m.Drawn x y n (m.drawEffect x y (m.sprite n)).final := by
  have hlength : (m.sprite n).length ≤ 32 := by
    rw [length_sprite]
    omega
  constructor
  case inverted =>
    intro px hpx py hpy hmeets
    rw [← meets_sprite_iff m x y n hpx hpy] at hmeets
    refine (Screen.pixel_drawRows m.surface hlength).trans ?_
    rw [decide_eq_true hmeets, Bool.xor_true]
  case kept =>
    intro px hpx py hpy hmeets
    rw [← meets_sprite_iff m x y n hpx hpy] at hmeets
    refine (Screen.pixel_drawRows m.surface hlength).trans ?_
    rw [decide_eq_false hmeets, Bool.xor_false]
  case flag =>
    let drawn := Surface.drawRows m.surface (m.registers.get x).toNat (m.registers.get y).toNat
      (m.sprite n)
    have hcollided : drawn.2 = true ↔ m.surface.LosesPixel drawn.1 :=
      Screen.collided_drawRows_iff m.surface hlength
    refine (Registers.get_set_self _ _ _).trans ?_
    show drawn.2.toUInt8 = if m.surface.LosesPixel drawn.1 then 1 else 0
    by_cases hloses : m.surface.LosesPixel drawn.1
    · rw [if_pos hloses, hcollided.mpr hloses]
      rfl
    · rw [if_neg hloses, Bool.eq_false_iff.mpr (mt hcollided.mp hloses)]
      rfl
  case registers =>
    intro z hz
    exact (Registers.get_set _ _ _ _).trans (if_neg hz)
  case index => rfl
  case memory => rfl

/-- A sprite that lies inside of memory is drawn. -/
theorem effect_draw {m : Machine Screen} {n : Fin 16} (hinside : m.index.toNat + n ≤ Memory.size)
    (x y : Register) : m.effect (.draw x y n) = .ok (m.drawEffect x y (m.sprite n)) :=
  effect_draw_of_inside hinside x y

/-- **The drawing of a sprite.** The instruction succeeds if the sprite lies inside of memory, be it
executed alone or in a step, and the machine afterwards has drawn the sprite. -/
theorem sprite_drawn (m : Machine Screen) (x y : Register) (n : Fin 16)
    (hinside : m.index.toNat + n ≤ Memory.size) :
    ((m.execute (.draw x y n)).result = .ok .draw ∧
      m.Drawn x y n (m.execute (.draw x y n)).state) ∧
    (m.fetch = .ok (Instruction.draw x y n).encode →
      m.step.result = .ok .draw ∧ m.Drawn x y n m.step.state) := by
  constructor
  · rw [execute_of_ok (effect_draw hinside x y)]
    exact ⟨rfl, m.drawn_drawEffect x y n⟩
  · intro hfetch
    let behind := (m.withOpcode (Instruction.draw x y n).encode).advanced
    have hbehind : behind.index.toNat + n ≤ Memory.size := hinside
    rw [step_of_effect_ok hfetch (Instruction.decode_encode _) (effect_draw hbehind x y)]
    obtain ⟨hinverted, hkept, hflag, hregisters, hindex, hmemory⟩ := behind.drawn_drawEffect x y n
    exact ⟨rfl, hinverted, hkept, hflag, hregisters, hindex, hmemory⟩

/-- A machine that is about to draw the upper half of a glyph over the corner of the screen. The
column is taken from the flag. -/
def cornerMachine : Machine Screen :=
  let rom : Rom :=
    ⟨"corner", [0x6F, 0x3E, 0x61, 0x1F, 0xA0, 0x50, 0xDF, 0x12], by decide⟩
  let start := build (some rom) .chip8 Screen.blank .released (.cycle #[])
  (start.performAll [.step, .step, .step]).state

/-- The second line of the glyph is drawn at the top of the screen and has its right end at the left
edge. -/
theorem sprite_drawn_cornerMachine :
    let m := cornerMachine
    m.step.result = .ok .draw ∧ m.SpriteMeets .flag 1 2 1 0 ∧ ¬m.SpriteMeets .flag 1 2 0 0 ∧
      m.step.state.surface.pixel 1 0 = true ∧ m.step.state.surface.pixel 0 0 = false := by
  have hinside : cornerMachine.index.toNat + (2 : Fin 16) ≤ Memory.size := by decide +kernel
  have hfetch : cornerMachine.fetch = .ok (Instruction.draw .flag 1 2).encode :=
    fetch_eq_ok_iff.mpr (by decide +kernel)
  obtain ⟨hmeets, hmisses⟩ : cornerMachine.SpriteMeets .flag 1 2 1 0 ∧
      ¬cornerMachine.SpriteMeets .flag 1 2 0 0 := by
    decide +kernel
  obtain ⟨hunlit, hunlit'⟩ : cornerMachine.surface.pixel 1 0 = false ∧
      cornerMachine.surface.pixel 0 0 = false := by
    decide +kernel
  obtain ⟨hresult, hdrawn⟩ := (sprite_drawn cornerMachine .flag 1 2 hinside).2 hfetch
  refine ⟨hresult, hmeets, hmisses, ?_, ?_⟩
  · rw [hdrawn.inverted 1 (by decide) 0 (by decide) hmeets, hunlit, Bool.not_false]
  · rw [hdrawn.kept 0 (by decide) 0 (by decide) hmisses, hunlit']

end Machine

end Chip8

import Chip8.Surface

/-!
# The screen

The screen has 64 × 32 pixels that are lit or not. A row of a sprite inverts the pixels under its
set bits; coordinates wrap around at the edges.

## Main definitions

* `Screen`, `Screen.pixel`, `Screen.lit`: the pixels, one of them, and how many are lit
* `Screen.covers`: which pixels of a line a row of a sprite inverts
* `Screen.drawRow`: the drawing of a row

## Main results

* `covers_iff`: a row inverts the pixels under its set bits
* `pixel_drawRow`: the screen after a row was drawn
-/

namespace Chip8

/-- The pixels of the screen by line and column, true for a lit one. -/
structure Screen where
  lines : Vector (Vector Bool 64) 32
  deriving DecidableEq

namespace Screen

/-- A screen without a lit pixel. -/
def blank : Screen := ⟨Vector.replicate 32 (Vector.replicate 64 false)⟩

/-- The pixels of line `y`, which wraps around. -/
def line (s : Screen) (y : Nat) : Vector Bool 64 := s.lines[Fin.ofNat 32 y]

/-- The pixel in column `x` of line `y`, both wrap around. -/
def pixel (s : Screen) (x y : Nat) : Bool := (s.line y)[Fin.ofNat 64 x]

/-- The amount of lit pixels. -/
def lit (s : Screen) : Nat := (s.lines.toList.flatMap Vector.toList).count true

/-- Bit `b` of a row counts from the left, as the pixels of a line do. -/
def bit (row : UInt8) (b : Nat) : Bool := row.toNat.testBit (7 - b)

/-- Whether a row that is drawn from column `x` on has a set bit in column `c`. -/
def covers (row : UInt8) (x : Nat) (c : Fin 64) : Bool :=
  let b := (c + (64 - x % 64)) % 64
  decide (b < 8) && bit row b

/-- Inverts the pixels under the set bits of a row. Answers whether one of them was lit. -/
def drawRow (s : Screen) (x y : Nat) (row : UInt8) : Screen × Bool :=
  (⟨s.lines.set (y % 32) (Vector.ofFn fun c => (s.line y)[c] ^^ covers row x c)
      (Nat.mod_lt _ (by decide))⟩,
    (List.range 8).any fun b => bit row b && s.pixel (x + b) y)

/-- A column wraps around at the edges, and so does a line. -/
theorem column_lt (x : Nat) : x % 64 < 64 := Nat.mod_lt x (by decide)

theorem line_lt (y : Nat) : y % 32 < 32 := Nat.mod_lt y (by decide)

instance : Surface Screen where
  clear _ := blank
  drawRow := drawRow

@[simp] theorem surface_drawRow (s : Screen) (x y : Nat) (row : UInt8) :
    Surface.drawRow s x y row = s.drawRow x y row := rfl

@[simp] theorem pixel_blank (x y : Nat) : blank.pixel x y = false := by
  simp [pixel, line, blank]

/-- A row inverts the pixels under its set bits. -/
theorem covers_iff {row : UInt8} {x : Nat} {c : Fin 64} :
    covers row x c = true ↔ ∃ b < 8, bit row b = true ∧ (x + b) % 64 = c := by
  simp only [covers, Bool.and_eq_true, decide_eq_true_eq]
  constructor
  · rintro ⟨h, hb⟩
    exact ⟨_, h, hb, by omega⟩
  · rintro ⟨b, h, hb, hc⟩
    have : (c + (64 - x % 64)) % 64 = b := by omega
    rw [this]
    exact ⟨h, hb⟩

/-- Drawing a row changes the pixels of its line that it covers. -/
theorem pixel_drawRow (s : Screen) (x y : Nat) (row : UInt8) (px py : Nat) :
    (s.drawRow x y row).1.pixel px py =
      (s.pixel px py ^^
        (decide (py % 32 = y % 32) && covers row x ⟨px % 64, Nat.mod_lt _ (by decide)⟩)) := by
  unfold drawRow pixel line
  by_cases h : py % 32 = y % 32
  · simp [h]
  · simp [h, Ne.symm h]

@[ext] theorem ext {s t : Screen} (h : ∀ x < 64, ∀ y < 32, s.pixel x y = t.pixel x y) : s = t := by
  obtain ⟨ls⟩ := s
  obtain ⟨lt⟩ := t
  refine congrArg mk (Vector.ext fun y hy => Vector.ext fun x hx => ?_)
  simpa [pixel, line, Nat.mod_eq_of_lt hx, Nat.mod_eq_of_lt hy] using h x hx y hy

end Screen

end Chip8

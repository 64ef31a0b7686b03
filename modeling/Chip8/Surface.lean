/-!
# Drawing surfaces

The machine draws on a surface that it cannot look at: all it learns is whether a row that it drew
collided with what was there.

## Main definitions

* `Surface`: what can be drawn on
* `Surface.drawRows`: the rows of a sprite, drawn one below the other
* `SurfaceCall`, `Recorder`: a surface that remembers what was asked of it

## Main results

* `drawRows_recorder`: a recorder draws like the surface it watches
-/

universe u

namespace Chip8

/-- Something that sprites can be drawn on. -/
class Surface (σ : Type u) where
  /-- The surface without a drawing. -/
  clear : σ → σ
  /-- Draws the eight pixels `row` from the column `x` of the line `y` on, the leftmost pixel in the
  highest bit. Answers whether this unset a pixel. -/
  drawRow : σ → (x y : Nat) → (row : UInt8) → σ × Bool

namespace Surface

variable {σ : Type u} [Surface σ]

/-- Draws rows one below the other, the first one on the line `y`. Answers whether any of them unset
a pixel. -/
def drawRows (s : σ) (x y : Nat) : List UInt8 → σ × Bool
  | [] => (s, false)
  | row :: rows =>
    let drawn := drawRow s x y row
    let rest := drawRows drawn.1 x (y + 1) rows
    (rest.1, drawn.2 || rest.2)

end Surface

/-- Something that a surface was asked to do. -/
inductive SurfaceCall where
  | clear
  /-- To draw a row; the last component is the answer. -/
  | drawRow (x y : Nat) (row : UInt8) (collided : Bool)
  deriving DecidableEq, Repr

/-- **A recorder** passes everything on to a surface and remembers it. -/
structure Recorder (σ : Type u) where
  /-- The surface that does the drawing. -/
  surface : σ
  /-- What the surface was asked to do, the last call first. -/
  past : List SurfaceCall := []

namespace Recorder

variable {σ : Type u} [Surface σ]

instance : Surface (Recorder σ) where
  clear r := ⟨Surface.clear r.surface, .clear :: r.past⟩
  drawRow r x y row :=
    let drawn := Surface.drawRow r.surface x y row
    (⟨drawn.1, .drawRow x y row drawn.2 :: r.past⟩, drawn.2)

/-- What the surface was asked to do, the first call first. -/
def calls (r : Recorder σ) : List SurfaceCall := r.past.reverse

/-- A recorder draws like the surface it watches. -/
theorem drawRows_recorder (r : Recorder σ) (x y : Nat) (rows : List UInt8) :
    ((Surface.drawRows r x y rows).1.surface, (Surface.drawRows r x y rows).2) =
      Surface.drawRows r.surface x y rows := by
  induction rows generalizing r y with
  | nil => rfl
  | cons row rows ih =>
    have h := ih (Surface.drawRow r x y row).1 (y + 1)
    simp only [Surface.drawRows]
    rw [show (Surface.drawRow r x y row).1.surface = (Surface.drawRow r.surface x y row).1 from rfl,
      Prod.ext_iff] at h
    exact Prod.ext h.1 (congrArg ((Surface.drawRow r.surface x y row).2 || ·) h.2)

end Recorder

end Chip8

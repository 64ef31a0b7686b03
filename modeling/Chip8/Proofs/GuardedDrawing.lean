import Chip8.Proofs.Guarded
import Chip8.Screen

/-!
# Guarded drawing

A row of a sprite is drawn bit by bit, each of them inverting a pixel in place. Line and column wrap
around, so there is no breach at the number of a pixel; and the eight bits of a row fall on
different columns, so drawing them one after the other is the same as drawing them at once.

## Main definitions

* `Screen.guardedBit`, `Screen.guardedDrawRow`: the drawing of a bit and of a row, with guards
* `Screen.drawnBits`: a line on which the first bits of a row were drawn
* `GuardedAction.drawRows`: the drawing of the rows of a sprite

## Main results

* `drawnBits_succ`: a line on which one more bit was drawn
* `guardedBit_drawnBits`, `foldlM_guardedBit`: what one bit, and what the first bits, do to a line
* `guardedDrawRow_eq`: drawing a row bit by bit is drawing it
* `drawRows_eq`: drawing a sprite is no breach
-/

namespace Chip8

namespace Screen

open Guarded

/-- Draws a bit of a row. What is changed are the pixels of the line and the answer so far. -/
def guardedBit (row : UInt8) (x : Nat) (drawn : Vector Bool 64 × Bool) (b : Nat) :
    Guarded (Vector Bool 64 × Bool) := do
  let mask ← shiftRight 0x80 b
  if row &&& mask = 0 then return drawn
  else
    let column ← within 64 (x + b)
    let lit ← entry drawn.1 (column % 64)
    let pixels ← setEntry drawn.1 (column % 64) (!lit)
    return (pixels, drawn.2 || lit)

/-- Draws a row, its leftmost bit first. -/
def guardedDrawRow (s : Screen) (x y : Nat) (row : UInt8) : Guarded (Screen × Bool) := do
  let pixels ← entry s.lines (y % 32)
  let drawn ← (List.range 8).foldlM (guardedBit row x) (pixels, false)
  let lines ← setEntry s.lines (y % 32) drawn.1
  return (⟨lines⟩, drawn.2)

/-- Whether one of the first `k` bits of a row is set and falls on a column. -/
def coversBelow (row : UInt8) (x k c : Nat) : Bool :=
  (List.range k).any fun b => bit row b && (x + b) % 64 == c

/-- A line on which the first `k` bits of a row were drawn, and the answer. -/
def drawnBits (pixels : Vector Bool 64) (row : UInt8) (x k : Nat) : Vector Bool 64 × Bool :=
  (pixels.mapIdx fun c lit => lit ^^ coversBelow row x k c,
    (List.range k).any fun b => bit row b && pixels[(x + b) % 64]?.getD false)

/-- The masks cut out the bits of a row. -/
theorem and_mask_eq_zero_iff (row : UInt8) {b : Nat} (hb : b < 8) :
    row &&& (0x80 >>> UInt8.ofNat b) = 0 ↔ bit row b = false := by
  have hmask : ∀ b < 8, ((0x80 : UInt8) >>> UInt8.ofNat b).toNat = 2 ^ (7 - b) := by decide
  rw [← UInt8.toNat_inj, UInt8.toNat_and, hmask b hb, Nat.and_two_pow, UInt8.toNat_zero,
    Nat.mul_eq_zero, bit]
  cases row.toNat.testBit (7 - b) <;> simp

/-- Counting one more bit. -/
theorem countP_range_succ (p : Nat → Bool) (k : Nat) :
    (List.range (k + 1)).countP p = (List.range k).countP p + (p k).toNat := by
  rw [List.range_succ, List.countP_append, List.countP_singleton]
  cases p k <;> rfl

theorem coversBelow_succ (row : UInt8) (x k c : Nat) :
    coversBelow row x (k + 1) c = (coversBelow row x k c || (bit row k && (x + k) % 64 == c)) := by
  simp [coversBelow, List.range_succ]

/-- The bits of a row fall on different columns. -/
theorem coversBelow_column (row : UInt8) (x : Nat) {k : Nat} (hk : k < 8) :
    coversBelow row x k ((x + k) % 64) = false := by
  rw [coversBelow, List.any_eq_false]
  intro b hb hset
  rw [List.mem_range] at hb
  rw [Bool.and_eq_true, beq_iff_eq] at hset
  omega

theorem coversBelow_eight (row : UInt8) (x : Nat) (c : Fin 64) :
    coversBelow row x 8 c = covers row x c := by
  rw [Bool.eq_iff_iff, covers_iff, coversBelow, List.any_eq_true]
  simp only [List.mem_range, Bool.and_eq_true, beq_iff_eq]

theorem drawnBits_zero (pixels : Vector Bool 64) (row : UInt8) (x : Nat) :
    drawnBits pixels row x 0 = (pixels, false) := by
  refine Prod.ext (Vector.ext fun c hc => ?_) rfl
  simp [drawnBits, coversBelow]

/-- The earlier bits leave the pixel of a bit as it was. -/
theorem getElem_drawnBits (pixels : Vector Bool 64) (row : UInt8) (x : Nat) {k : Nat} (hk : k < 8)
    (hcolumn : (x + k) % 64 < 64) :
    (drawnBits pixels row x k).1[(x + k) % 64] = pixels[(x + k) % 64] := by
  simp [drawnBits, coversBelow_column row x hk]

/-- One more bit inverts its pixel if it is set, and the answer is then whether that was lit. -/
theorem drawnBits_succ (pixels : Vector Bool 64) (row : UInt8) (x : Nat) {k : Nat} (hk : k < 8)
    (hcolumn : (x + k) % 64 < 64) :
    drawnBits pixels row x (k + 1) =
      if bit row k then
        ((drawnBits pixels row x k).1.set ((x + k) % 64) (!pixels[(x + k) % 64]),
          (drawnBits pixels row x k).2 || pixels[(x + k) % 64])
      else drawnBits pixels row x k := by
  cases hbit : bit row k with
  | false =>
    refine Prod.ext (Vector.ext fun c hc => ?_) ?_
    · simp [drawnBits, coversBelow_succ, hbit]
    · simp [drawnBits, List.range_succ, hbit]
  | true =>
    refine Prod.ext (Vector.ext fun c hc => ?_) ?_
    · by_cases hc' : (x + k) % 64 = c
      · subst hc'
        simp [drawnBits, coversBelow_succ, coversBelow_column row x hk, hbit]
      · simp [drawnBits, coversBelow_succ, hbit, hc']
    · simp [drawnBits, List.range_succ, hbit, hcolumn]

/-- **What a bit does to a line** on which the earlier bits were drawn: it is drawn as well. -/
theorem guardedBit_drawnBits (pixels : Vector Bool 64) (row : UInt8) {x k : Nat} (hk : k < 8)
    (hx : x + k < 2 ^ 64) :
    guardedBit row x (drawnBits pixels row x k) k = .ok (drawnBits pixels row x (k + 1)) := by
  have hcolumn : (x + k) % 64 < 64 := column_lt (x + k)
  unfold guardedBit
  rw [shiftRight_eq 0x80 hk, drawnBits_succ pixels row x hk hcolumn]
  simp only [bind, Except.bind, and_mask_eq_zero_iff row hk]
  cases hbit : bit row k with
  | false => rfl
  | true =>
    rw [if_neg Bool.true_eq_false.mp, if_pos rfl, within_eq hx]
    simp only [entry_eq _ hcolumn, setEntry_eq _ hcolumn, getElem_drawnBits pixels row x hk hcolumn]
    rfl

/-- The first bits of a row, drawn one after the other. -/
theorem foldlM_guardedBit (pixels : Vector Bool 64) (row : UInt8) {x k : Nat} (hk : k ≤ 8)
    (hx : x + k ≤ 2 ^ 64) :
    (List.range k).foldlM (guardedBit row x) (pixels, false) = .ok (drawnBits pixels row x k) := by
  induction k with
  | zero =>
    rw [drawnBits_zero]
    rfl
  | succ k ih =>
    rw [List.range_succ, List.foldlM_append, ih (Nat.le_of_succ_le hk) (Nat.le_of_succ_le hx)]
    simp only [bind, Except.bind, List.foldlM_cons, List.foldlM_nil]
    rw [guardedBit_drawnBits pixels row hk hx]
    rfl

/-- To draw a row is to draw its bits. -/
theorem drawRow_eq_drawnBits (s : Screen) (x y : Nat) (row : UInt8) :
    s.drawRow x y row =
      (⟨s.lines.set (y % 32) (drawnBits (s.line y) row x 8).1 (line_lt y)⟩,
        (drawnBits (s.line y) row x 8).2) := by
  have hpixels : (drawnBits (s.line y) row x 8).1 =
      Vector.ofFn fun c => (s.line y)[c] ^^ covers row x c := by
    refine Vector.ext fun c hc => ?_
    simp [drawnBits, ← coversBelow_eight]
  have hanswer : (drawnBits (s.line y) row x 8).2 =
      (List.range 8).any fun b => bit row b && s.pixel (x + b) y := by
    simp [drawnBits, pixel, Fin.ofNat, Nat.mod_lt]
  rw [hpixels, hanswer]
  rfl

/-- Drawing a row bit by bit is drawing it. -/
theorem guardedDrawRow_eq (s : Screen) {x : Nat} (y : Nat) (row : UInt8) (hx : x + 8 ≤ 2 ^ 64) :
    s.guardedDrawRow x y row = .ok (s.drawRow x y row) := by
  have hentry : entry s.lines (y % 32) = .ok (s.line y) := entry_eq s.lines (line_lt y)
  unfold guardedDrawRow
  rw [hentry, drawRow_eq_drawnBits]
  simp only [bind, Except.bind, foldlM_guardedBit (s.line y) row (Nat.le_refl 8) hx,
    setEntry_eq s.lines (line_lt y)]
  rfl

end Screen

namespace GuardedAction

/-- Draws a row on the screen. -/
def drawRow (x y : Nat) (row : UInt8) : GuardedAction Screen Bool := fun m =>
  (m.surface.guardedDrawRow x y row).map fun drawn =>
    ⟨{ m with surface := drawn.1 }, .ok drawn.2, []⟩

/-- Draws rows one below the other; the first one is the row `i` of a sprite at the line `y`. -/
def drawRows (x y i : Nat) : List UInt8 → GuardedAction Screen Bool
  | [] => return false
  | row :: rows => do
    let line ← guard (Guarded.within 64 (y + i))
    let collided ← drawRow x line row
    let later ← drawRows x y (i + 1) rows
    return collided || later

theorem drawRow_eq {x : Nat} (y : Nat) (row : UInt8) (hx : x + 8 ≤ 2 ^ 64) :
    drawRow x y row = of (Action.drawRow x y row) := by
  funext m
  show (m.surface.guardedDrawRow x y row).map _ = _
  rw [Screen.guardedDrawRow_eq m.surface y row hx]
  rfl

/-- Drawing a sprite is no breach. -/
theorem drawRows_eq {x y i : Nat} {rows : List UInt8} (hx : x + 8 ≤ 2 ^ 64)
    (hy : y + i + rows.length ≤ 2 ^ 64) :
    drawRows x y i rows = of (Action.drawRows x (y + i) rows) := by
  induction rows generalizing i with
  | nil => rfl
  | cons row rows ih =>
    rw [List.length_cons] at hy
    have hline : y + i < 2 ^ 64 := by omega
    have hrest := ih (i := i + 1) (by omega)
    rw [drawRows, Guarded.within_eq hline, guard_ok_bind, drawRow_eq _ row hx, hrest]
    simp only [Action.drawRows, of_bind, of_pure]
    rfl

end GuardedAction

end Chip8

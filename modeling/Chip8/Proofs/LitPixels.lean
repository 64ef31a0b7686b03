import Chip8.Proofs.GuardedDrawing
import Mathlib.Algebra.BigOperators.Group.List.Basic

/-!
# How many pixels are lit

A row lights the pixels under its set bits that were dark, and puts out those that were lit. So the
amount of lit pixels grows by the set bits, less twice those that were over a lit pixel; and the
answer to the row is that there were such bits. The row's bits fall on different columns, so what
the earlier bits have done does not matter for the later ones, and the balance holds
from bit to bit.

## Main definitions

* `popcount`: how many bits of a row are set
* `Screen.hits`: how many of them are over a lit pixel

## Main results

* `count_drawnBits`: the lit pixels of a line after the first bits of a row
* `lit_set_line`: the lit pixels of the screen after a line was replaced
* `lit_drawRow`: the lit pixels after a row was drawn
-/

namespace Chip8

/-- How many bits of a row are set. -/
def popcount (row : UInt8) : Nat := (List.range 8).countP fun b => row.toNat.testBit b

namespace Screen

/-- How many set bits of a row are over a lit pixel. -/
def hits (s : Screen) (x y : Nat) (row : UInt8) : Nat :=
  (List.range 8).countP fun b => bit row b && s.pixel (x + b) y

/-- The bits are as many when they are counted from the left. -/
theorem countP_bit_eq_popcount (row : UInt8) : (List.range 8).countP (bit row) = popcount row := by
  have hreverse : (List.range 8).map (fun b => 7 - b) = (List.range 8).reverse := by decide
  calc (List.range 8).countP (bit row)
      = ((List.range 8).map fun b => 7 - b).countP row.toNat.testBit := List.countP_map.symm
    _ = (List.range 8).reverse.countP row.toNat.testBit := by rw [hreverse]
    _ = popcount row := List.countP_reverse

/-! ## A line -/

/-- A pixel that is put out makes one lit pixel less, and one that is lit makes one more. -/
theorem count_set_not {n c : Nat} (pixels : Vector Bool n) (hc : c < n) :
    (pixels.set c (!pixels[c])).count true + 2 * pixels[c].toNat = pixels.count true + 1 := by
  rw [Vector.count_set hc]
  cases hlit : pixels[c] with
  | false => rfl
  | true =>
    have hpos : 0 < pixels.count true := Vector.count_pos_iff.mpr (hlit ▸ Vector.getElem_mem hc)
    have hdark : ((!true) == true) = false := rfl
    rw [hdark, if_pos (beq_self_eq_true true), if_neg Bool.false_ne_true, Bool.toNat_true]
    omega

/-- How many of the first `k` bits of a row are set and over a lit pixel of a line. -/
def hitsBelow (pixels : Vector Bool 64) (row : UInt8) (x k : Nat) : Nat :=
  (List.range k).countP fun b => bit row b && pixels[(x + b) % 64]?.getD false

/-- **The lit pixels of a line** after the first bits of a row. -/
theorem count_drawnBits (pixels : Vector Bool 64) (row : UInt8) (x : Nat) {k : Nat} (hk : k ≤ 8) :
    (drawnBits pixels row x k).1.count true + 2 * hitsBelow pixels row x k =
      pixels.count true + (List.range k).countP (bit row) := by
  induction k with
  | zero =>
    rw [drawnBits_zero]
    rfl
  | succ k ih =>
    have hcolumn : (x + k) % 64 < 64 := column_lt (x + k)
    have hcount := ih (Nat.le_of_succ_le hk)
    have hhits : hitsBelow pixels row x (k + 1) =
        hitsBelow pixels row x k + (bit row k && pixels[(x + k) % 64]).toNat := by
      rw [hitsBelow, countP_range_succ, getElem?_pos pixels _ hcolumn]
      rfl
    rw [drawnBits_succ pixels row x hk hcolumn, hhits, countP_range_succ]
    cases hbit : bit row k with
    | false => exact hcount
    | true =>
      -- the pixel is still the one that was there before the row
      have hset := count_set_not (drawnBits pixels row x k).1 hcolumn
      rw [getElem_drawnBits pixels row x hk hcolumn] at hset
      simp only [if_true, Bool.true_and, Bool.toNat_true]
      omega

/-! ## The screen -/

/-- A sum of which one part was replaced. -/
theorem sum_set_add {parts : List Nat} {i : Nat} (h : i < parts.length) (n : Nat) :
    (parts.set i n).sum + parts[i] = parts.sum + n := by
  have hself := List.sum_set parts i parts[i]
  rw [List.set_getElem_self, if_pos h] at hself
  rw [hself, List.sum_set, if_pos h]
  omega

/-- The lit pixels of the screen are those of its lines. -/
theorem lit_eq_sum (s : Screen) : s.lit = (s.lines.toList.map fun l => l.count true).sum := by
  rw [lit, List.count_flatMap]
  refine congrArg List.sum (List.map_congr_left fun l _ => ?_)
  exact Vector.count_toList

/-- Replacing a line replaces its lit pixels. -/
theorem lit_set_line (s : Screen) (y : Nat) (pixels : Vector Bool 64) (hy : y % 32 < 32) :
    Screen.lit ⟨s.lines.set (y % 32) pixels hy⟩ + (s.line y).count true =
      s.lit + pixels.count true := by
  have hlength : y % 32 < (s.lines.toList.map fun l => l.count true).length := by
    rwa [List.length_map, Vector.length_toList]
  have hline : (s.lines.toList.map fun l => l.count true)[y % 32] = (s.line y).count true := by
    rw [List.getElem_map, Vector.getElem_toList]
    rfl
  rw [lit_eq_sum, lit_eq_sum, Vector.toList_set, List.map_set, ← hline]
  exact sum_set_add hlength _

theorem hitsBelow_eight (s : Screen) (x y : Nat) (row : UInt8) :
    hitsBelow (s.line y) row x 8 = s.hits x y row := by
  refine List.countP_congr fun b _ => ?_
  simp [pixel, Fin.ofNat, Nat.mod_lt]

/-- The answer to a row is that some of its bits are over a lit pixel. -/
theorem collided_drawRow_iff_hits (s : Screen) (x y : Nat) (row : UInt8) :
    (s.drawRow x y row).2 = true ↔ 0 < s.hits x y row := by
  rw [hits, List.countP_pos_iff, ← List.any_eq_true]
  rfl

/-- A row does not reach the other lines. -/
theorem pixel_drawRow_of_ne (s : Screen) {x y px py : Nat} (row : UInt8) (h : py % 32 ≠ y % 32) :
    (s.drawRow x y row).1.pixel px py = s.pixel px py := by
  rw [pixel_drawRow, decide_eq_false h, Bool.false_and, Bool.xor_false]

/-- **How many pixels are lit** after a row was drawn, which is to draw it bit by bit, and what the
answer says about them. -/
theorem lit_drawRow (s : Screen) {x : Nat} (y : Nat) (row : UInt8) (hx : x + 7 < 2 ^ 64) :
    s.guardedDrawRow x y row = .ok (s.drawRow x y row) ∧
      (s.drawRow x y row).1.lit + 2 * s.hits x y row = s.lit + popcount row ∧
      ((s.drawRow x y row).2 = true ↔ 0 < s.hits x y row) ∧
      (∀ px py, py % 32 ≠ y % 32 → (s.drawRow x y row).1.pixel px py = s.pixel px py) ∧
      ((s.drawRow x y row).2 = false ↔ (s.drawRow x y row).1.lit = s.lit + popcount row) := by
  have hanswer := s.collided_drawRow_iff_hits x y row
  have hcount : (s.drawRow x y row).1.lit + 2 * s.hits x y row = s.lit + popcount row := by
    have hline := count_drawnBits (s.line y) row x (Nat.le_refl 8)
    have hlit := s.lit_set_line y (drawnBits (s.line y) row x 8).1 (line_lt y)
    rw [hitsBelow_eight, countP_bit_eq_popcount] at hline
    rw [drawRow_eq_drawnBits]
    dsimp only
    omega
  refine ⟨s.guardedDrawRow_eq y row hx, hcount, hanswer, ?_, ?_⟩
  · intro px py hne
    exact s.pixel_drawRow_of_ne row hne
  · rw [← Bool.not_eq_true, hanswer]
    omega

/-- A screen with the pixels of one row, at both ends of a line. -/
def fringed : Screen := (blank.drawRow 60 1 0xFF).1

/-- Two of four bits are over a lit pixel, and there are as many lit pixels as before. -/
theorem lit_drawRow_fringed :
    (fringed.drawRow 2 33 0xF0).2 = true ∧ (fringed.drawRow 2 33 0xF0).1.lit = 8 := by
  obtain ⟨-, hcount, hanswer, -, -⟩ := lit_drawRow fringed 33 0xF0 (show 2 + 7 < 2 ^ 64 by decide)
  have hhits : fringed.hits 2 33 0xF0 = 2 := by decide +kernel
  have hlit : fringed.lit = 8 := by decide +kernel
  have hbits : popcount 0xF0 = 4 := by decide
  rw [hhits] at hanswer
  exact ⟨hanswer.mpr (Nat.succ_pos 1), by omega⟩

end Screen

end Chip8

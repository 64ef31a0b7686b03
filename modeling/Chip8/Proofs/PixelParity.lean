import Chip8.Proofs.GuardedDrawing
import Mathlib.Algebra.BigOperators.Group.Finset.Lemmas
import Mathlib.Algebra.Group.Nat.Even
import Mathlib.Data.List.ProdSigma
import Mathlib.Data.Nat.Bits

/-!
# Many rows on one screen

Each set bit of a row inverts one pixel. So after any number of rows a pixel is what it was,
inverted if an odd number of set bits fell on it. The order of the rows does not matter for that
number, nor how often a coordinate went around the screen, and a row that is drawn twice undoes
itself.

## Main definitions

* `Screen.DrawnRow`, `Screen.drawAll`: a row and where it is drawn, and the drawing of many
* `Screen.guardedDrawAll`: the same, bit by bit
* `Screen.strikes`: how many set bits of the rows fall on a pixel

## Main results

* `coversBelow_eq_bodd`, `pixel_drawRow_eq_bodd`: the bits of a row invert a pixel one by one
* `pixel_drawAll`: the pixels after any number of rows
* `drawAll_eq_of_strikes`: rows are the same to a screen if their parities are
* `rows_combine`: what follows for the order, the place and the repetition of rows
-/

namespace Chip8

namespace Screen

/-- A row, and where it is drawn. -/
structure DrawnRow where
  x : Nat
  y : Nat
  row : UInt8
  deriving DecidableEq

/-- The screen after rows were drawn, one after the other. -/
def drawAll (s : Screen) (calls : List DrawnRow) : Screen :=
  calls.foldl (fun t c => (t.drawRow c.x c.y c.row).1) s

/-- The screen after rows were drawn bit by bit. -/
def guardedDrawAll (s : Screen) (calls : List DrawnRow) : Guarded Screen :=
  calls.foldlM (fun t c => (t.guardedDrawRow c.x c.y c.row).map Prod.fst) s

namespace DrawnRow

/-- The same row, with the residues of its coordinates. -/
def reduced (c : DrawnRow) : DrawnRow := ⟨c.x % 64, c.y % 32, c.row⟩

/-- A bit of the row is set and falls on a pixel. -/
def strikes (c : DrawnRow) (px py b : Nat) : Bool :=
  bit c.row b && (c.x + b) % 64 == px % 64 && c.y % 32 == py % 32

/-- How many set bits of the row fall on a pixel. -/
def count (c : DrawnRow) (px py : Nat) : Nat := (List.range 8).countP (c.strikes px py)

theorem count_reduced (c : DrawnRow) (px py : Nat) : c.reduced.count px py = c.count px py := by
  refine List.countP_congr fun b _ => ?_
  simp only [strikes, reduced, Nat.mod_add_mod, Nat.mod_mod]

end DrawnRow

/-- How many set bits of the rows fall on a pixel: pairs of a row and a bit of it. -/
def strikes (calls : List DrawnRow) (px py : Nat) : Nat :=
  (calls ×ˢ List.range 8).countP fun p => p.1.strikes px py p.2

section Strikes

variable (px py : Nat)

theorem strikes_cons (c : DrawnRow) (calls : List DrawnRow) :
    strikes (c :: calls) px py = c.count px py + strikes calls px py := by
  rw [strikes, List.product_cons, List.countP_append, List.countP_map]
  rfl

theorem strikes_eq_sum (calls : List DrawnRow) :
    strikes calls px py = (calls.map fun c => c.count px py).sum := by
  induction calls with
  | nil => rfl
  | cons c calls ih => rw [strikes_cons, List.map_cons, List.sum_cons, ih]

theorem strikes_perm {calls calls' : List DrawnRow} (h : calls.Perm calls') :
    strikes calls px py = strikes calls' px py := by
  rw [strikes_eq_sum, strikes_eq_sum]
  exact (h.map _).sum_eq

theorem strikes_map_reduced (calls : List DrawnRow) :
    strikes (calls.map DrawnRow.reduced) px py = strikes calls px py := by
  rw [strikes_eq_sum, strikes_eq_sum, List.map_map]
  refine congrArg List.sum (List.map_congr_left fun c _ => ?_)
  exact c.count_reduced px py

/-- Rows that are drawn in pairs fall on each pixel in pairs. -/
theorem even_strikes {calls : List DrawnRow} (h : ∀ c ∈ calls, Even (calls.count c)) :
    Even (strikes calls px py) := by
  rw [strikes_eq_sum, Finset.sum_list_map_count]
  refine Finset.even_sum _ fun c hc => ?_
  show Even (calls.count c * c.count px py)
  exact Nat.even_mul.mpr (.inl (h c (List.mem_toFinset.mp hc)))

end Strikes

/-! ## Parities -/

theorem bodd_toNat (b : Bool) : b.toNat.bodd = b := by cases b <;> rfl

theorem bodd_of_even {n : Nat} (h : Even n) : n.bodd = false := by
  obtain ⟨k, rfl⟩ := h
  rw [Nat.bodd_add, Bool.xor_self]

/-- Bit by bit, the bits on a column invert its pixel. No two of them fall on the same one. -/
theorem coversBelow_eq_bodd (row : UInt8) (x c : Nat) {k : Nat} (hk : k ≤ 8) :
    coversBelow row x k c =
      ((List.range k).countP fun b => bit row b && (x + b) % 64 == c).bodd := by
  induction k with
  | zero => exact Nat.bodd_zero.symm
  | succ k ih =>
    rw [countP_range_succ, Nat.bodd_add, bodd_toNat, ← ih (Nat.le_of_succ_le hk), coversBelow_succ]
    cases hnew : bit row k && (x + k) % 64 == c with
    | false => rw [Bool.or_false, Bool.xor_false]
    | true =>
      rw [Bool.and_eq_true, beq_iff_eq] at hnew
      rw [← hnew.2, coversBelow_column row x hk]
      rfl

/-- The pixels after a row, by the bits that fall on them. -/
theorem pixel_drawRow_eq_bodd (s : Screen) (c : DrawnRow) (px py : Nat) :
    (s.drawRow c.x c.y c.row).1.pixel px py = (s.pixel px py ^^ (c.count px py).bodd) := by
  rw [pixel_drawRow, ← coversBelow_eight, coversBelow_eq_bodd c.row c.x _ (Nat.le_refl 8)]
  congr 1
  unfold DrawnRow.count DrawnRow.strikes
  by_cases hline : py % 32 = c.y % 32
  · simp [hline]
  · have hbeq : (c.y % 32 == py % 32) = false := beq_false_of_ne (Ne.symm hline)
    simp [hline, hbeq]

/-- **The pixels after any number of rows**, by the bits that fall on them. -/
theorem pixel_drawAll (s : Screen) (calls : List DrawnRow) (px py : Nat) :
    (s.drawAll calls).pixel px py = (s.pixel px py ^^ (strikes calls px py).bodd) := by
  induction calls generalizing s with
  | nil =>
    have hnone : (strikes [] px py).bodd = false := Nat.bodd_zero
    rw [hnone, Bool.xor_false]
    rfl
  | cons c calls ih =>
    calc (s.drawAll (c :: calls)).pixel px py
        = ((s.drawRow c.x c.y c.row).1.pixel px py ^^ (strikes calls px py).bodd) := ih _
      _ = (s.pixel px py ^^ (c.count px py).bodd ^^ (strikes calls px py).bodd) := by
        rw [pixel_drawRow_eq_bodd]
      _ = (s.pixel px py ^^ (strikes (c :: calls) px py).bodd) := by
        rw [strikes_cons, Nat.bodd_add, Bool.xor_assoc]

/-- Rows that fall on each pixel as often make the same of a screen. -/
theorem drawAll_eq_of_strikes (s : Screen) {calls calls' : List DrawnRow}
    (h : ∀ px py, strikes calls px py = strikes calls' px py) :
    s.drawAll calls = s.drawAll calls' := by
  ext px _ py _
  rw [pixel_drawAll, pixel_drawAll, h]

/-- Drawing rows bit by bit is drawing them. -/
theorem guardedDrawAll_eq (s : Screen) {calls : List DrawnRow}
    (h : ∀ c ∈ calls, c.x + 7 < 2 ^ 64) : s.guardedDrawAll calls = .ok (s.drawAll calls) := by
  induction calls generalizing s with
  | nil => rfl
  | cons c calls ih =>
    obtain ⟨hfirst, hrest⟩ := List.forall_mem_cons.mp h
    rw [guardedDrawAll, List.foldlM_cons, guardedDrawRow_eq s c.y c.row hfirst]
    exact ih (s.drawRow c.x c.y c.row).1 hrest

/-- **Rows combine by the parity of their bits.** Rows that are drawn bit by bit invert each pixel
on which an odd number of their set bits falls. So their order does not matter, neither do the
numbers of times that their coordinates go around the screen, and the screen is as it was when every
row was drawn an even number of times. -/
theorem rows_combine (s : Screen) {calls : List DrawnRow} (h : ∀ c ∈ calls, c.x + 7 < 2 ^ 64) :
    s.guardedDrawAll calls = .ok (s.drawAll calls) ∧
      (∀ px py, (s.drawAll calls).pixel px py =
        (s.pixel px py ^^ (strikes calls px py).bodd)) ∧
      (∀ calls' : List DrawnRow, calls.Perm calls' →
        s.guardedDrawAll calls' = s.guardedDrawAll calls) ∧
      s.guardedDrawAll (calls.map DrawnRow.reduced) = s.guardedDrawAll calls ∧
      ((∀ c ∈ calls, Even (calls.count c)) → s.guardedDrawAll calls = .ok s) := by
  have hloop : s.guardedDrawAll calls = .ok (s.drawAll calls) := s.guardedDrawAll_eq h
  refine ⟨hloop, s.pixel_drawAll calls, ?_, ?_, ?_⟩
  · intro calls' hperm
    have h' : ∀ c ∈ calls', c.x + 7 < 2 ^ 64 := fun c hc => h c (hperm.mem_iff.mpr hc)
    rw [hloop, s.guardedDrawAll_eq h']
    exact congrArg Except.ok (s.drawAll_eq_of_strikes fun px py => strikes_perm px py hperm.symm)
  · have h' : ∀ c ∈ calls.map DrawnRow.reduced, c.x + 7 < 2 ^ 64 := by
      intro c hc
      obtain ⟨d, -, rfl⟩ := List.mem_map.mp hc
      have hcolumn : d.x % 64 < 64 := column_lt d.x
      show d.x % 64 + 7 < 2 ^ 64
      omega
    rw [hloop, s.guardedDrawAll_eq h']
    exact congrArg Except.ok
      (s.drawAll_eq_of_strikes fun px py => strikes_map_reduced px py calls)
  · intro heven
    rw [hloop]
    refine congrArg Except.ok ?_
    ext px _ py _
    rw [pixel_drawAll, bodd_of_even (even_strikes px py heven), Bool.xor_false]

/-- Two rows at the same place, one of which got there around both edges. -/
def edgeRows : List DrawnRow := [⟨60, 1, 0xFF⟩, ⟨124, 33, 0x81⟩]

/-- Where both rows have a bit the screen stays dark. Drawn once more, they leave nothing at all. -/
theorem rows_combine_edgeRows :
    (blank.drawAll edgeRows).pixel 60 1 = false ∧ (blank.drawAll edgeRows).pixel 61 1 = true ∧
      blank.guardedDrawAll edgeRows.reverse = blank.guardedDrawAll edgeRows ∧
      blank.guardedDrawAll (edgeRows ++ edgeRows) = .ok blank := by
  have hcolumns : ∀ c ∈ edgeRows, c.x + 7 < 2 ^ 64 := by decide
  have hcolumns' : ∀ c ∈ edgeRows ++ edgeRows, c.x + 7 < 2 ^ 64 := by decide
  obtain ⟨-, hpixels, horder, -, -⟩ := rows_combine blank hcolumns
  obtain ⟨-, -, -, -, hrestored⟩ := rows_combine blank hcolumns'
  have hboth : strikes edgeRows 60 1 = 2 := by decide +kernel
  have hone : strikes edgeRows 61 1 = 1 := by decide +kernel
  refine ⟨?_, ?_, horder _ edgeRows.reverse_perm.symm, hrestored (by decide)⟩
  · rw [hpixels, hboth, pixel_blank]
    rfl
  · rw [hpixels, hone, pixel_blank]
    rfl

end Screen

end Chip8

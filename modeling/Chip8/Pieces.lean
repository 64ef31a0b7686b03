import Mathlib.Logic.Function.Basic

/-!
# Pieces of text

A character cuts a text into pieces: a line break into lines, a blank into words. Nothing is lost,
the text is its pieces joined again. Texts that are joined by a character are found again if they do
not contain it.

## Main definitions

* `pieces c text`: the pieces of a text between the places where `c` stands

## Main results

* `pieces_injective`: texts with the same pieces are equal
* `pieces_intercalate`: the pieces of joined texts are the pieces of each of them, in order
-/

namespace Chip8

/-- The pieces of a text between the places where a character stands. -/
def pieces (c : Char) (text : String) : List String := (text.toList.splitOn c).map String.ofList

/-- A text without the character is one piece. -/
theorem pieces_of_notMem {c : Char} {text : String} (h : c ∉ text.toList) :
    pieces c text = [text] := by
  rw [pieces, List.splitOn_eq_singleton h, List.map_singleton, String.ofList_toList]

theorem pieces_append (c : Char) (s t : String) :
    pieces c (s ++ String.singleton c ++ t) = pieces c s ++ pieces c t := by
  simp only [pieces, String.toList_append, String.toList_singleton, List.append_assoc,
    List.singleton_append, List.splitOn_append_cons_self, List.map_append]

/-- A text is its pieces joined again. -/
theorem intercalate_pieces (c : Char) (text : String) :
    (String.singleton c).intercalate (pieces c text) = text := by
  rw [← String.toList_inj, String.toList_intercalate, String.toList_singleton, pieces, List.map_map]
  simp only [Function.comp_def, String.toList_ofList, List.map_id']
  exact List.intercalate_splitOn c

/-- Texts with the same pieces are equal. -/
theorem pieces_injective (c : Char) : Function.Injective (pieces c) :=
  Function.LeftInverse.injective (intercalate_pieces c)

/-- The pieces of joined texts are the pieces of each of them, in order. -/
theorem pieces_intercalate (c : Char) {texts : List String} (h : texts ≠ []) :
    pieces c ((String.singleton c).intercalate texts) = texts.flatMap (pieces c) := by
  induction texts with
  | nil => exact absurd rfl h
  | cons s rest ih =>
    cases rest with
    | nil => simp
    | cons t rest =>
      rw [String.intercalate_cons_cons, pieces_append, ih (List.cons_ne_nil t rest),
        List.flatMap_cons, List.flatMap_cons, List.flatMap_cons]

/-- Texts without the character are pieces. -/
theorem flatMap_pieces_of_notMem {c : Char} {texts : List String}
    (h : ∀ s ∈ texts, c ∉ s.toList) : texts.flatMap (pieces c) = texts := by
  induction texts with
  | nil => rfl
  | cons s rest ih =>
    rw [List.flatMap_cons, pieces_of_notMem (h s List.mem_cons_self),
      ih fun t ht => h t (List.mem_cons_of_mem s ht), List.singleton_append]

end Chip8

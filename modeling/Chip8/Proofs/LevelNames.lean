import Chip8.Level
import Mathlib.Logic.Relation

/-!
# Names of levels

A level can be named by several words, and each word can be spelled in many ways: separators can
stand anywhere in it, and each letter can be small or large. A text names a level exactly if it can
be reached from one of the words of the level by putting separators in, taking them out, and
changing the case of letters. So none of this ever changes what a text names.

## Main definitions

* `Level.words`: the words for a level
* `Level.plain`: a text without its separators, in small letters
* `Level.Edit`, `Level.Respelled`: a change of the spelling, and any number of them

## Main results

* `parse_eq_ok_iff`, `parse_eq_error_iff`: which texts name a level, and what is said about others
* `respelled_iff`: texts are spelled from each other if they have the same normal form
* `parse_eq_ok_iff_respelled`: a text names a level if it is spelled from one of its words
* `names_read`: what a text names, and that its spelling does not matter
-/

namespace Chip8

namespace Level

/-- The words for a level. -/
def words : Level → List String
  | chip8 => ["chip8"]
  | chip48 => ["chip48"]
  | schip10 => ["schip10", "superchip10"]
  | schip11 => ["schip11", "superchip11", "schip", "superchip"]
  | xochip => ["xochip"]

/-- A text without the four separators, its ASCII letters small. -/
def plain (text : String) : String :=
  String.ofList ((text.toList.filter fun c => c ∉ ['-', '_', '.', ' ']).map Char.toLower)

/-! ## Characters

The case of a character is a matter of its code: capital letters have those from 65 to 90, and small
letters those from 97 to 122. -/

section Characters

variable (c : Char)

theorem toNat_toLower :
    c.toLower.toNat = if 65 ≤ c.toNat ∧ c.toNat ≤ 90 then c.toNat + 32 else c.toNat := by
  unfold Char.toLower
  split
  next h =>
    have hcapital : 65 ≤ c.toNat ∧ c.toNat ≤ 90 := h
    have hsum : (c.val + ('a'.val - 'A'.val)).toNat = (c.toNat + 32) % 2 ^ 32 :=
      UInt32.toNat_add c.val ('a'.val - 'A'.val)
    rw [if_pos hcapital]
    exact hsum.trans (Nat.mod_eq_of_lt (by omega))
  next h => exact (if_neg h).symm

theorem toNat_toUpper :
    c.toUpper.toNat = if 97 ≤ c.toNat ∧ c.toNat ≤ 122 then c.toNat - 32 else c.toNat := by
  unfold Char.toUpper
  split
  next h =>
    have hsmall : 97 ≤ c.toNat ∧ c.toNat ≤ 122 := h
    have hsum : (c.val + ('A'.val - 'a'.val)).toNat = (c.toNat + (2 ^ 32 - 32)) % 2 ^ 32 :=
      UInt32.toNat_add c.val ('A'.val - 'a'.val)
    rw [if_pos hsmall]
    exact hsum.trans (by omega)
  next h => exact (if_neg h).symm

@[simp] theorem toLower_toLower : c.toLower.toLower = c.toLower := by
  simp only [← Char.toNat_inj, toNat_toLower]
  grind

@[simp] theorem toLower_toUpper : c.toUpper.toLower = c.toLower := by
  simp only [← Char.toNat_inj, toNat_toLower, toNat_toUpper]
  grind

/-- The case of a letter can be changed back. -/
theorem eq_or_eq_toUpper_toLower : c = c.toLower ∨ c = c.toLower.toUpper := by
  simp only [← Char.toNat_inj, toNat_toLower, toNat_toUpper]
  grind

theorem isSeparator_eq_true_iff {c : Char} :
    isSeparator c = true ↔ c ∈ ['-', '_', '.', ' '] := by
  simp [isSeparator, or_assoc]

theorem isSeparator_iff_toNat {c : Char} :
    isSeparator c = true ↔ c.toNat = 45 ∨ c.toNat = 95 ∨ c.toNat = 46 ∨ c.toNat = 32 := by
  simp only [isSeparator_eq_true_iff, ← Char.toNat_inj, List.mem_cons, List.not_mem_nil, or_false]
  rfl

/-- No letter is a separator. -/
@[simp] theorem isSeparator_toLower : isSeparator c.toLower = isSeparator c := by
  rw [Bool.eq_iff_iff, isSeparator_iff_toNat, isSeparator_iff_toNat, toNat_toLower]
  split <;> omega

@[simp] theorem isSeparator_toUpper : isSeparator c.toUpper = isSeparator c := by
  rw [Bool.eq_iff_iff, isSeparator_iff_toNat, isSeparator_iff_toNat, toNat_toUpper]
  split <;> omega

end Characters

/-! ## Words -/

theorem toList_plain (text : String) : (plain text).toList = normalize text.toList := by
  rw [plain, String.toList_ofList, normalize]
  refine congrArg (List.map Char.toLower) (List.filter_congr fun c _ => ?_)
  rw [Bool.eq_iff_iff, decide_eq_true_iff, Bool.not_eq_true', ← isSeparator_eq_true_iff,
    Bool.not_eq_true]

/-- The level that has a normal form among its spellings. -/
def lookup? (cs : List Char) : Option Level :=
  (spellings.find? fun s => s.1.toList == cs).map Prod.snd

theorem lookup?_eq_some_iff {word : String} {l : Level} :
    lookup? word.toList = some l ↔ word ∈ l.words := by
  constructor
  · intro h
    obtain ⟨s, hs, rfl⟩ := Option.map_eq_some_iff.mp h
    have hword := List.find?_some hs
    have hmem := List.mem_of_find?_eq_some hs
    rw [beq_iff_eq, String.toList_inj] at hword
    have hall : ∀ s ∈ spellings, s.1 ∈ s.2.words := by decide
    exact hword ▸ hall s hmem
  · have hall : ∀ l ∈ all, ∀ word ∈ l.words, lookup? word.toList = some l := by decide
    exact hall l (mem_all l) word

theorem parse_eq (text : String) :
    parse text = (lookup? (plain text).toList).elim (.error ⟨text⟩) .ok := by
  rw [parse, lookup?, toList_plain]
  cases spellings.find? fun s => s.1.toList == normalize text.toList <;> rfl

/-- A text names a level if its plain form is one of the words for the level. -/
theorem parse_eq_ok_iff {text : String} {l : Level} :
    parse text = .ok l ↔ plain text ∈ l.words := by
  rw [parse_eq, ← lookup?_eq_some_iff]
  cases lookup? (plain text).toList <;> simp

/-- Any other text is rejected as it is. -/
theorem parse_eq_error_iff {text : String} {e : UnknownLevel} :
    parse text = .error e ↔ (∀ l : Level, plain text ∉ l.words) ∧ e = ⟨text⟩ := by
  simp only [parse_eq, ← lookup?_eq_some_iff]
  cases lookup? (plain text).toList <;> simp [eq_comm]

/-! ## Spellings -/

/-- **A change of the spelling of a text**: a separator that is put in or taken out, or the case of
one letter. -/
inductive Edit : List Char → List Char → Prop
  | insert (before after : List Char) {c : Char} (separator : c ∈ ['-', '_', '.', ' ']) :
    Edit (before ++ after) (before ++ c :: after)
  | delete (before after : List Char) {c : Char} (separator : c ∈ ['-', '_', '.', ' ']) :
    Edit (before ++ c :: after) (before ++ after)
  | lower (before after : List Char) (c : Char) :
    Edit (before ++ c :: after) (before ++ c.toLower :: after)
  | upper (before after : List Char) (c : Char) :
    Edit (before ++ c :: after) (before ++ c.toUpper :: after)

/-- A text can be made from another one by changes of the spelling. -/
def Respelled (s t : String) : Prop := Relation.ReflTransGen Edit s.toList t.toList

section Edit

variable {cs ds : List Char}

theorem normalize_cons (c : Char) (cs : List Char) :
    normalize (c :: cs) = if isSeparator c then normalize cs else c.toLower :: normalize cs := by
  cases hc : isSeparator c <;> simp [normalize, hc]

/-- A change of the spelling does not change the normal form. -/
theorem Edit.normalize_eq (h : Edit cs ds) : normalize ds = normalize cs := by
  cases h with
  | insert before after hc =>
    exact normalize_insert_separator before after (isSeparator_eq_true_iff.mpr hc)
  | delete before after hc =>
    exact (normalize_insert_separator before after (isSeparator_eq_true_iff.mpr hc)).symm
  | lower before after c => simp [normalize_cons]
  | upper before after c => simp [normalize_cons]

/-- What is put in front of a text does not hinder its changes. -/
theorem Edit.cons (c : Char) (h : Edit cs ds) : Edit (c :: cs) (c :: ds) := by
  cases h with
  | insert before after hc => exact .insert (c :: before) after hc
  | delete before after hc => exact .delete (c :: before) after hc
  | lower before after d => exact .lower (c :: before) after d
  | upper before after d => exact .upper (c :: before) after d

theorem Edit.reflTransGen_cons (c : Char) (h : Relation.ReflTransGen Edit cs ds) :
    Relation.ReflTransGen Edit (c :: cs) (c :: ds) :=
  Relation.ReflTransGen.lift (c :: ·) (fun _ _ => Edit.cons c) cs ds h

/-- A text can be changed into its normal form, character by character. -/
theorem edits_normalize (cs : List Char) : Relation.ReflTransGen Edit cs (normalize cs) := by
  induction cs with
  | nil => exact .refl
  | cons c cs ih =>
    by_cases hc : isSeparator c = true
    · rw [normalize_cons, if_pos hc]
      exact .head (.delete [] cs (isSeparator_eq_true_iff.mp hc)) ih
    · rw [normalize_cons, if_neg hc]
      exact .head (.lower [] cs c) (Edit.reflTransGen_cons c.toLower ih)

/-- And the normal form can be changed into the text. -/
theorem edits_of_normalize (cs : List Char) : Relation.ReflTransGen Edit (normalize cs) cs := by
  induction cs with
  | nil => exact .refl
  | cons c cs ih =>
    by_cases hc : isSeparator c = true
    · rw [normalize_cons, if_pos hc]
      exact .tail ih (.insert [] cs (isSeparator_eq_true_iff.mp hc))
    · rw [normalize_cons, if_neg hc]
      have hrest : Relation.ReflTransGen Edit (c.toLower :: normalize cs) (c.toLower :: cs) :=
        Edit.reflTransGen_cons c.toLower ih
      rcases eq_or_eq_toUpper_toLower c with h | h
      · rwa [← h] at hrest ⊢
      · have hlast := Edit.upper [] cs c.toLower
        rw [← h] at hlast
        exact .tail hrest hlast

end Edit

/-- Changes of the spelling do not change the normal form. -/
theorem normalize_eq_of_edits {cs ds : List Char} (h : Relation.ReflTransGen Edit cs ds) :
    normalize ds = normalize cs := by
  induction h with
  | refl => rfl
  | tail _ hedit ih => rw [hedit.normalize_eq, ih]

/-- Texts are spelled from each other exactly if they have the same normal form. -/
theorem respelled_iff {s t : String} :
    Respelled s t ↔ normalize s.toList = normalize t.toList := by
  constructor
  · intro h
    exact (normalize_eq_of_edits h).symm
  · intro h
    have hback := edits_of_normalize t.toList
    rw [← h] at hback
    exact (edits_normalize s.toList).trans hback

/-- Every word for a level is its own normal form. -/
theorem normalize_word {l : Level} {word : String} (h : word ∈ l.words) :
    normalize word.toList = word.toList := by
  have hall : ∀ l ∈ all, ∀ word ∈ l.words, normalize word.toList = word.toList := by decide
  exact hall l (mem_all l) word h

/-- A text names a level exactly if it is spelled from one of the words for the level. -/
theorem parse_eq_ok_iff_respelled {text : String} {l : Level} :
    parse text = .ok l ↔ ∃ word ∈ l.words, Respelled word text := by
  rw [parse_eq_ok_iff]
  constructor
  · intro h
    refine ⟨plain text, h, respelled_iff.mpr ?_⟩
    rw [normalize_word h, toList_plain]
  · rintro ⟨word, hword, hspelled⟩
    have hplain : word = plain text := by
      rw [← String.toList_inj, toList_plain, ← respelled_iff.mp hspelled, normalize_word hword]
    exact hplain ▸ hword

/-- Texts with the same plain form name the same levels. -/
theorem parse_eq_ok_iff_of_respelled {s t : String} (h : Respelled s t) (l : Level) :
    parse t = .ok l ↔ parse s = .ok l := by
  have hplain : plain t = plain s := by
    rw [← String.toList_inj, toList_plain, toList_plain, respelled_iff.mp h]
  rw [parse_eq_ok_iff, parse_eq_ok_iff, hplain]

/-- **The reading of level names**: a text names a level exactly if its plain form is one of the
words for the level, and so exactly if it is spelled from one of them; any other text is rejected as
it is. Changes of the spelling change nothing about that, so whatever is spelled from the name of a
level names the level. -/
theorem names_read (s : String) :
    (∀ l : Level, parse s = .ok l ↔ plain s ∈ l.words) ∧
    (∀ e : UnknownLevel, parse s = .error e ↔ (∀ l : Level, plain s ∉ l.words) ∧ e = ⟨s⟩) ∧
    (∀ l : Level, parse s = .ok l ↔ ∃ word ∈ l.words, Respelled word s) ∧
    (∀ t : String, Respelled s t → ∀ l : Level, parse t = .ok l ↔ parse s = .ok l) ∧
    (∀ l : Level, Respelled l.name s → parse s = .ok l) := by
  refine ⟨fun l => parse_eq_ok_iff, fun e => parse_eq_error_iff,
    fun l => parse_eq_ok_iff_respelled, fun t ht l => parse_eq_ok_iff_of_respelled ht l,
    fun l hl => ?_⟩
  exact (parse_eq_ok_iff_of_respelled hl l).mpr (parse_name l)

/-- A name of SCHIP-1.1, written in two other ways. -/
theorem names_read_scattered :
    (Respelled schip11.name "_sChip 1.1." ∧ Respelled "_sChip 1.1." "SCHIP11") ∧
    parse "_sChip 1.1." = .ok schip11 ∧ parse "SCHIP11" = .ok schip11 := by
  have hname : Respelled schip11.name "_sChip 1.1." := respelled_iff.mpr (by decide)
  have hnext : Respelled "_sChip 1.1." "SCHIP11" := respelled_iff.mpr (by decide)
  obtain ⟨-, -, -, hsame, hnamed⟩ := names_read "_sChip 1.1."
  have hread : parse "_sChip 1.1." = .ok schip11 := hnamed schip11 hname
  exact ⟨⟨hname, hnext⟩, hread, (hsame "SCHIP11" hnext schip11).mpr hread⟩

end Level

end Chip8

import Chip8.Machine.Host
import Mathlib.Order.Bounds.Basic

/-!
# Keys

The keys do not depend on each other. What a host does to the keypad is, for a single key, to put it
down or up, to turn it around, or nothing at all. So the state of a key follows from those of the
actions that concern it, one after the other, whichever others came in between. Actions on keys or
places that do not exist change nothing, and the operator is warned.

## Main definitions

* `Keypad.actAll`: several actions, one after the other
* `Keypad.setEach`: all keys set one by one
* `KeyChange`, `Keypad.Action.changeOf?`: what an action does to a single key
* `Keypad.replay`: the state of a key by the changes that concern it
* `Keypad.Action.warning?`: what the operator is told about an action

## Main results

* `firstDown_eq_some_iff`, `firstDown_eq_none_iff`: the key that is found is the least one that is
  down
* `setEach_eq`: setting all keys one by one is setting them all
* `act_of_warning`: an action with a warning changes nothing
* `isDown_act`, `isDown_actAll`: a key after one action, and after many
* `keys_replayed`: the keys of a keypad that was used
-/

namespace Chip8

namespace Keypad

/-! ## The lowest key -/

/-- No key is down if there is no lowest one. -/
theorem firstDown_eq_none_iff {k : Keypad} :
    k.firstDown = none ↔ ∀ key, k.isDown key = false := by
  unfold firstDown
  rw [List.find?_eq_none]
  constructor
  · intro h key
    by_cases hkey : key < 16
    · exact Bool.eq_false_iff.mpr (h ⟨key, hkey⟩ (List.mem_finRange _))
    · exact isDown_of_le (Nat.le_of_not_lt hkey)
  · intro h key _
    rw [h key]
    exact Bool.false_ne_true

/-- The key that is found is the least one that is down. -/
theorem firstDown_eq_some_iff {k : Keypad} {key : Fin 16} :
    k.firstDown = some key ↔ IsLeast {n | k.isDown n = true} key.val := by
  unfold firstDown
  rw [List.find?_eq_some_iff_getElem]
  constructor
  · rintro ⟨hdown, i, hi, rfl, hbefore⟩
    refine ⟨hdown, fun n hn => Nat.le_of_not_lt fun hlt => ?_⟩
    have hup := hbefore n (by simpa using hlt)
    simp only [List.getElem_finRange, Bool.not_eq_true'] at hup
    exact Bool.false_ne_true (hup.symm.trans hn)
  · rintro ⟨hdown, hleast⟩
    refine ⟨hdown, key.val, by simp, by simp, fun n hn => ?_⟩
    simp only [List.getElem_finRange, Bool.not_eq_true']
    exact Bool.eq_false_iff.mpr fun h => Nat.not_lt_of_le (hleast h) hn

/-- There is such a key as soon as some key is down. -/
theorem exists_isLeast_of_isDown {k : Keypad} {n : Nat} (h : k.isDown n = true) :
    ∃ key : Fin 16, IsLeast {n | k.isDown n = true} key.val := by
  cases hfirst : k.firstDown with
  | none => exact absurd (firstDown_eq_none_iff.mp hfirst n) (Bool.not_eq_false _ ▸ h)
  | some key => exact ⟨key, firstDown_eq_some_iff.mp hfirst⟩

/-! ## Places -/

/-- The layout has four rows of four keys. -/
theorem keyAt?_eq_none_iff {row column : Nat} :
    keyAt? row column = none ↔ ¬(row < 4 ∧ column < 4) := by
  match row with
  | 0 | 1 | 2 | 3 => simp [keyAt?, layout]
  | row + 4 => simp [keyAt?, layout]

/-- Each key has one place. -/
theorem exists_place (key : Fin 16) :
    ∃ row column : Fin 4, keyAt? row column = some key.val ∧
      ∀ row' column' : Fin 4, keyAt? row' column' = some key.val →
        row' = row ∧ column' = column := by
  revert key
  decide

/-- Each place has a key that exists. -/
theorem lt_of_keyAt? {row column key : Nat} (h : keyAt? row column = some key) : key < 16 := by
  have hplace : row < 4 ∧ column < 4 := by
    by_contra hout
    rw [keyAt?_eq_none_iff.mpr hout] at h
    cases h
  have hall : ∀ r : Fin 4, ∀ c : Fin 4, ∀ n ∈ keyAt? r c, n < 16 := by decide
  exact hall ⟨row, hplace.1⟩ ⟨column, hplace.2⟩ key h

/-! ## All keys one by one -/

/-- Puts all keys up, and then each key for which the list has an entry down or up. -/
def setEach (downs : List Bool) : Keypad :=
  ((List.range 16).zip downs).foldl (fun k entry => (k.set entry.1 entry.2).1) released

/-- The keys after those from `start` on were set to the entries of a list. -/
theorem isDown_foldl_set (k : Keypad) (downs : List Bool) {start n : Nat} (h : start + n ≤ 16)
    (key : Nat) :
    (((List.range' start n).zip downs).foldl (fun k entry => (k.set entry.1 entry.2).1) k).isDown
        key =
      if start ≤ key ∧ key < start + n then downs[key - start]?.getD (k.isDown key)
      else k.isDown key := by
  induction n generalizing k downs start with
  | zero => rw [if_neg (by omega)]; rfl
  | succ n ih =>
    cases downs with
    | nil => simp
    | cons down rest =>
      rw [List.range'_succ, List.zip_cons_cons, List.foldl_cons, ih _ _ (by omega),
        isDown_set k (by omega)]
      rcases Nat.lt_trichotomy key start with hlt | rfl | hgt
      · rw [if_neg (by omega), if_neg (by omega), if_neg (by omega)]
      · rw [if_neg (by omega), if_pos rfl, if_pos (by omega), Nat.sub_self]
        rfl
      · rw [if_neg (Nat.ne_of_gt hgt), show key - start = key - (start + 1) + 1 by omega,
          List.getElem?_cons_succ]
        exact if_congr (by omega) rfl rfl

/-- Setting all keys one by one is setting them all. Entries without a key are left. -/
theorem setEach_eq (downs : List Bool) : setEach downs = setAll downs := by
  ext key hkey
  rw [setEach, List.range_eq_range', isDown_foldl_set released downs (Nat.le_refl 16),
    isDown_setAll, if_pos ⟨Nat.zero_le key, by omega⟩, isDown_released]
  simp [hkey]

/-! ## What an action does to a key -/

/-- What can happen to a single key. -/
inductive KeyChange where
  /-- It is put down or up. -/
  | put (down : Bool)
  /-- It is put down if it was up, and up if it was down. -/
  | turn
  deriving DecidableEq, Repr

/-- Whether the key is down after a change, given whether it was before. -/
def KeyChange.apply (down : Bool) : KeyChange → Bool
  | put down' => down'
  | turn => !down

namespace Action

/-- What an action does to a key, if it concerns that key. -/
def changeOf? (key : Nat) : Action → Option KeyChange
  | set key' down => if key' = key then some (.put down) else none
  | toggle key' => if key' = key then some .turn else none
  | setAt row column down => if keyAt? row column = some key then some (.put down) else none
  | setAll downs => some (.put (downs[key]?.getD false))
  | releaseAll => some (.put false)

/-- What the operator is told about an action on a key or a place that does not exist. -/
def warning? : Action → Option Notice
  | set key _ | toggle key => if key < 16 then none else some (.unknownKey key)
  | setAt row column _ =>
    if row < 4 ∧ column < 4 then none else some (.unknownPosition row column)
  | setAll _ | releaseAll => none

end Action

/-- Does several things to the keys, one after the other. -/
def actAll (k : Keypad) : List Action → Keypad × List Notice
  | [] => (k, [])
  | a :: rest =>
    let first := k.act a
    let later := first.1.actAll rest
    (later.1, first.2 ++ later.2)

/-- Whether a key is down after the changes that concern it. It is up before the first of them. -/
def replay (key : Nat) (actions : List Action) : Bool :=
  (actions.filterMap (Action.changeOf? key)).foldl KeyChange.apply false

/-! ## One action -/

section Act

variable {k : Keypad} {a : Action}

/-- An action with a warning changes nothing, and tells nothing else. -/
theorem act_of_warning {n : Notice} (h : a.warning? = some n) : k.act a = (k, [n]) := by
  cases a with
  | set key down | toggle key =>
    simp only [Action.warning?, Option.ite_none_left_eq_some, Option.some.injEq] at h
    obtain ⟨hkey, rfl⟩ := h
    exact dif_neg hkey
  | setAt row column down =>
    simp only [Action.warning?, Option.ite_none_left_eq_some, Option.some.injEq] at h
    obtain ⟨hplace, rfl⟩ := h
    simp only [act, setAt, keyAt?_eq_none_iff.mpr hplace]
  | setAll | releaseAll => cases h

theorem severity_of_warning {n : Notice} (h : a.warning? = some n) : n.severity = .warn := by
  cases a with
  | set | toggle | setAt =>
    simp only [Action.warning?, Option.ite_none_left_eq_some, Option.some.injEq] at h
    obtain ⟨-, rfl⟩ := h
    rfl
  | setAll | releaseAll => cases h

/-- All other actions tell nothing. -/
theorem notices_of_no_warning (h : a.warning? = none) : (k.act a).2 = [] := by
  have hset {key : Nat} (down : Bool) (hkey : key < 16) : (k.set key down).2 = [] := by
    rw [set, dif_pos hkey]
  cases a with
  | set key down | toggle key =>
    simp only [Action.warning?, ite_eq_left_iff, reduceCtorEq, imp_false, Nat.not_lt,
      Nat.not_le] at h
    exact hset _ h
  | setAt row column down =>
    simp only [Action.warning?, ite_eq_left_iff, reduceCtorEq, imp_false, not_not] at h
    simp only [act, setAt]
    split
    next key hkey => exact hset down (lt_of_keyAt? hkey)
    next hnone => exact absurd h (keyAt?_eq_none_iff.mp hnone)
  | setAll | releaseAll => rfl

/-- What an action tells is its warning. -/
theorem notices_act (k : Keypad) (a : Action) : (k.act a).2 = a.warning?.toList := by
  cases h : a.warning? with
  | none => exact notices_of_no_warning h
  | some n =>
    rw [act_of_warning h]
    rfl

/-- A key after an action is the key before it, with the change that concerns it. -/
theorem isDown_act (k : Keypad) (a : Action) {key : Nat} (hkey : key < 16) :
    (k.act a).1.isDown key =
      (a.changeOf? key).elim (k.isDown key) (KeyChange.apply (k.isDown key)) := by
  have hset (key' : Nat) (down : Bool) :
      (k.set key' down).1.isDown key = if key' = key then down else k.isDown key := by
    by_cases hkey' : key' < 16
    · rw [isDown_set k hkey']
      exact if_congr eq_comm rfl rfl
    · rw [set, dif_neg hkey', if_neg (by omega)]
  cases a with
  | set key' down =>
    rw [act, hset, Action.changeOf?]
    split <;> rfl
  | toggle key' =>
    rw [act, toggle, hset, Action.changeOf?]
    split
    next heq =>
      rw [heq]
      rfl
    next => rfl
  | setAt row column down =>
    rw [act, setAt, Action.changeOf?]
    cases hplace : keyAt? row column with
    | none => rfl
    | some key' =>
      simp only [hset, Option.some.injEq]
      split <;> rfl
  | setAll downs =>
    rw [act, isDown_setAll, decide_eq_true hkey, Bool.true_and]
    rfl
  | releaseAll => exact isDown_released key

end Act

/-! ## Many actions -/

/-- A key after many actions, by the changes that concern it. -/
theorem isDown_actAll (k : Keypad) (actions : List Action) {key : Nat} (hkey : key < 16) :
    (k.actAll actions).1.isDown key =
      (actions.filterMap (Action.changeOf? key)).foldl KeyChange.apply (k.isDown key) := by
  induction actions generalizing k with
  | nil => rfl
  | cons a rest ih =>
    rw [actAll, ih, isDown_act k a hkey]
    cases hchange : a.changeOf? key with
    | none => rw [List.filterMap_cons_none hchange, Option.elim_none]
    | some change => rw [List.filterMap_cons_some hchange, List.foldl_cons, Option.elim_some]

/-- What many actions tell are their warnings. -/
theorem notices_actAll (k : Keypad) (actions : List Action) :
    (k.actAll actions).2 = actions.filterMap Action.warning? := by
  induction actions generalizing k with
  | nil => rfl
  | cons a rest ih =>
    rw [actAll, ih, notices_act]
    cases hwarning : a.warning? with
    | none => rw [List.filterMap_cons_none hwarning, Option.toList_none, List.nil_append]
    | some n =>
      rw [List.filterMap_cons_some hwarning, Option.toList_some, List.singleton_append]

/-- **The keys of a keypad that was used.** Each key is what the changes that concern it make of a
key that is up; the key at a place of the layout is changed like any other, and setting all keys is
setting one after the other. What is told are warnings, one for each action on a key or a place that
does not exist; such an action changes nothing. The key that is found is the least one that is
down. -/
theorem keys_replayed (actions : List Action) :
    let used := released.actAll actions
    (∀ key < 16, used.1.isDown key = replay key actions) ∧
      (∀ key, 16 ≤ key → used.1.isDown key = false) ∧
      used.2 = actions.filterMap Action.warning? ∧
      (∀ (k : Keypad) (a : Action) (n : Notice), a.warning? = some n →
        k.act a = (k, [n]) ∧ n.severity = .warn) ∧
      (∀ key : Fin 16, ∃ row column : Fin 4, keyAt? row column = some key.val ∧
        ∀ row' column' : Fin 4, keyAt? row' column' = some key.val →
          row' = row ∧ column' = column) ∧
      (∀ downs, setEach downs = setAll downs) ∧
      (∀ key, used.1.firstDown = some key ↔ IsLeast {n | used.1.isDown n = true} key.val) ∧
      (used.1.firstDown = none ↔ ∀ key, used.1.isDown key = false) := by
  intro used
  refine ⟨fun key hkey => ?_, fun key hkey => isDown_of_le hkey, ?_, ?_, exists_place, setEach_eq,
    fun key => firstDown_eq_some_iff, firstDown_eq_none_iff⟩
  · rw [isDown_actAll released actions hkey, isDown_released]
    rfl
  · exact notices_actAll released actions
  · exact fun k a n h => ⟨act_of_warning h, severity_of_warning h⟩

/-- Keys set in all ways, among them keys and places that do not exist. -/
def strayActions : List Action :=
  [.setAll [true, false, true, true], .toggle 2, .set 0x10 true, .setAt 3 1 false, .toggle 0x42,
    .setAt 4 0 true, .setAt 0 3 true, .toggle 0xC]

/-- One key is down in the end, and three actions were ignored. -/
theorem keys_replayed_strayActions :
    let used := released.actAll strayActions
    used.1.isDown 0xC = false ∧ used.1.isDown 3 = true ∧ used.1.isDown 0x42 = false ∧
      used.2 = [.unknownKey 0x10, .unknownKey 0x42, .unknownPosition 4 0] ∧
      used.1.act (.toggle 0x42) = (used.1, [.unknownKey 0x42]) ∧ used.1.firstDown = some 3 := by
  intro used
  obtain ⟨hkeys, hbeyond, htold, hignored, -, -, hfirst, -⟩ := keys_replayed strayActions
  refine ⟨hkeys 0xC (by decide), hkeys 3 (by decide), hbeyond 0x42 (by decide), htold,
    (hignored used.1 (.toggle 0x42) _ rfl).1, (hfirst 3).mpr ⟨hkeys 3 (by decide), ?_⟩⟩
  intro n hn
  by_contra hlt
  have hup : used.1.isDown n = false := by
    have hbefore : ∀ key < 3, replay key strayActions = false := by decide
    rw [hkeys n (by omega)]
    exact hbefore n (Nat.lt_of_not_le hlt)
  exact Bool.false_ne_true (hup.symm.trans hn)

end Keypad

end Chip8

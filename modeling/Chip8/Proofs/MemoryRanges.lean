import Chip8.Proofs.ImageLoading

/-!
# Ranges of memory

The bytes of a range are stored or taken all at once, after one check of the whole range. Storing
them one after the other, each with a check of its own, comes to the same memory, and is refused for
the same address. What differs is what a refusal leaves. A byte that was stored is not taken back,
so the bytes that are stored one by one remain up to the end of memory, while the check of the whole
range comes before any of them.

## Main definitions

* `Memory.bytesAt`: the bytes in a range
* `Memory.Access`: access to a memory in place, which takes nothing back when it is refused
* `Access.write`, `Access.writeEach`: a byte is stored, and bytes are stored one after the other
* `Access.lend`, `Access.load`: a range is checked and lent, or written to

## Main results

* `lend_apply`, `load_apply`: these are `slice` and `load`, done in place
* `lend_eq_ok_iff`, `lend_eq_error_iff`: the ranges that are lent
* `writeEach_of_fits`, `writeEach_of_exceeds`: what bytes that are stored one by one leave
* `ranges_accessed_bytewise`: storing and taking at once agrees with doing so byte by byte
-/

namespace Chip8

namespace Memory

/-! ## The bytes in a range -/

variable {m m' m'' : Memory} {start : Nat} {bytes more : List UInt8}

/-- The bytes in a range of memory. -/
def bytesAt (m : Memory) (start count : Nat) : List UInt8 :=
  (List.range count).map fun i => m.byte (start + i)

@[simp] theorem length_bytesAt (m : Memory) (start count : Nat) :
    (m.bytesAt start count).length = count := by
  rw [bytesAt, List.length_map, List.length_range]

theorem bytesAt_add (m : Memory) (start a b : Nat) :
    m.bytesAt start (a + b) = m.bytesAt start a ++ m.bytesAt (start + a) b := by
  simp only [bytesAt, List.range_add, List.map_append, List.map_map, Function.comp_def,
    Nat.add_assoc]

/-- A memory that holds bytes in a range has them there. -/
theorem IsPatched.bytesAt_eq (h : m.IsPatched start bytes m') :
    m'.bytesAt start bytes.length = bytes := by
  refine List.ext_getElem (length_bytesAt m' start bytes.length) fun k hk hk' => ?_
  rw [← h.inside k hk']
  simp only [bytesAt, List.getElem_map, List.getElem_range]

theorem isPatched_nil (m : Memory) (start : Nat) : m.IsPatched start [] m where
  inside k hk := absurd hk (Nat.not_lt_zero k)
  outside _ _ := rfl

/-- Bytes that are put into memory right behind others continue them. -/
theorem IsPatched.append (h : m.IsPatched start bytes m')
    (h' : m'.IsPatched (start + bytes.length) more m'') :
    m.IsPatched start (bytes ++ more) m'' := by
  constructor
  case inside =>
    intro k hk
    rw [List.length_append] at hk
    by_cases hfirst : k < bytes.length
    · rw [List.getElem_append_left hfirst, ← h.inside k hfirst]
      exact h'.outside _ (by omega)
    · obtain ⟨j, rfl⟩ := Nat.exists_eq_add_of_le (Nat.le_of_not_lt hfirst)
      have hj : j < more.length := Nat.lt_of_add_lt_add_left hk
      rw [← Nat.add_assoc, h'.inside j hj]
      simp only [List.getElem_append_right (Nat.le_add_right _ _), Nat.add_sub_cancel_left]
  case outside =>
    intro a ha
    rw [List.length_append] at ha
    rw [h'.outside a (by omega), h.outside a (by omega)]

/-- A range that is not empty leaves memory at its start or at the end of memory. -/
theorem firstOutside_succ (start n : Nat) : firstOutside start (n + 1) = max start size := by
  unfold firstOutside
  by_cases h : size ≤ start
  · rw [if_pos ⟨h, Nat.succ_pos n⟩, Nat.max_eq_left h]
  · rw [if_neg fun hin => h hin.1, Nat.max_eq_right (Nat.le_of_not_le h)]

theorem firstOutside_length (start : Nat) (h : bytes ≠ []) :
    firstOutside start bytes.length = max start size := by
  obtain ⟨b, bs, rfl⟩ := List.exists_cons_of_ne_nil h
  exact firstOutside_succ start bs.length

/-- The bytes that are taken from a range are those that are read at its addresses. -/
theorem read_of_slice_eq_ok {count k : Nat} (h : m.slice start count = .ok bytes)
    (hk : k < bytes.length) : m.read (start + k) = .ok bytes[k] := by
  have hfits : start + count ≤ size := fits_of_slice_eq_ok h
  have hlength : bytes.length = count := length_of_slice_eq_ok h
  have hinside : start + k < size := by omega
  obtain rfl := eq_of_slice_eq_ok h
  rw [read_eq, if_pos hinside]
  simp only [List.getElem_map, List.getElem_range]

/-- Bytes that were put into memory are found there. -/
theorem slice_of_load_eq_ok (h : m.load start bytes = .ok m') :
    m'.slice start bytes.length = .ok bytes := by
  obtain ⟨hfits, hpatched⟩ := load_eq_ok_iff.mp h
  rw [slice_eq m' hfits]
  exact congrArg Except.ok hpatched.bytesAt_eq

/-! ## Access in place -/

/-- **Access to a memory in place.** What was changed before a refusal stays changed. -/
abbrev Access (α : Type) : Type := EStateM Cause Memory α

namespace Access

/-- What remains in place of a memory: the one that an access made of it, or the memory itself if it
made none. -/
def leaving (m : Memory) : Except Cause Memory → EStateM.Result Cause Memory Unit
  | .ok m' => .ok () m'
  | .error cause => .error cause m

/-- Stores a byte. -/
def write (a : Nat) (b : UInt8) : Access Unit := fun m => leaving m (m.write a b)

/-- Stores bytes one after the other. -/
def writeEach (start : Nat) : List UInt8 → Access Unit
  | [] => pure ()
  | b :: bs => do
    write start b
    writeEach (start + 1) bs

/-- Lends a range to be written to, with the bytes that are there, after it was checked. -/
def lend (start count : Nat) : Access (List UInt8) := fun m =>
  match outside? start count with
  | some a => .error (.outOfBounds a size) m
  | none => .ok (m.bytesAt start count) m

/-- Replaces the bytes from `start` on, without any check. -/
def replace (start : Nat) (bytes : List UInt8) : Access Unit :=
  modify fun m => m.splice start bytes

/-- Stores all bytes in a range that was lent. -/
def load (start : Nat) (bytes : List UInt8) : Access Unit := do
  let _ ← lend start bytes.length
  replace start bytes

variable (m : Memory) {start : Nat} {bytes : List UInt8}

theorem lend_apply (start count : Nat) :
    lend start count m =
      match m.slice start count with
      | .ok bytes => .ok bytes m
      | .error cause => .error cause m := by
  unfold lend slice
  cases outside? start count <;> rfl

/-- A range is lent exactly if its bytes can be taken, and with these bytes. -/
theorem lend_eq_ok_iff {m m' : Memory} {start count : Nat} {taken : List UInt8} :
    lend start count m = .ok taken m' ↔ m.slice start count = .ok taken ∧ m' = m := by
  rw [lend_apply]
  cases m.slice start count <;> simp [eq_comm]

/-- A range is not lent exactly if its bytes cannot be taken, and for the same cause. -/
theorem lend_eq_error_iff {m m' : Memory} {start count : Nat} {cause : Cause} :
    lend start count m = .error cause m' ↔ m.slice start count = .error cause ∧ m' = m := by
  rw [lend_apply]
  cases m.slice start count <;> simp [eq_comm]

theorem load_apply (start : Nat) (bytes : List UInt8) :
    load start bytes m = leaving m (m.load start bytes) := by
  show EStateM.bind (lend start bytes.length) _ m = _
  unfold EStateM.bind lend Memory.load
  cases outside? start bytes.length <;> rfl

theorem write_apply (a : Nat) (b : UInt8) :
    write a b m =
      if a < size then .ok () (m.splice a [b]) else .error (.outOfBounds a size) m := by
  unfold write Memory.write
  by_cases h : a < 4096
  · simp [leaving, size, splice, h, Vector.setIfInBounds, Array.setIfInBounds]
  · simp [leaving, size, h]

/-- The bytes behind the first one are stored in the memory that holds that one. -/
theorem writeEach_cons (start : Nat) (b : UInt8) (bs : List UInt8) :
    writeEach start (b :: bs) m =
      if start < size then writeEach (start + 1) bs (m.splice start [b])
      else .error (.outOfBounds start size) m := by
  show EStateM.bind (write start b) _ m = _
  unfold EStateM.bind
  rw [write_apply]
  by_cases h : start < size
  · simp only [if_pos h]
  · simp only [if_neg h]

/-- Bytes that end inside of memory are stored one by one. -/
theorem writeEach_of_fits (h : start + bytes.length ≤ size) :
    writeEach start bytes m = .ok () (m.splice start bytes) := by
  induction bytes generalizing m start with
  | nil => rfl
  | cons b bs ih =>
    rw [List.length_cons] at h
    rw [writeEach_cons, if_pos (by omega), ih _ (by omega)]
    rfl

/-- Of bytes that do not, those are stored that lie inside. The first of the others is refused. -/
theorem writeEach_of_exceeds (hne : bytes ≠ []) (h : size < start + bytes.length) :
    writeEach start bytes m =
      .error (.outOfBounds (max start size) size) (m.splice start bytes) := by
  induction bytes generalizing m start with
  | nil => exact absurd rfl hne
  | cons b bs ih =>
    rw [List.length_cons] at h
    rw [writeEach_cons]
    by_cases hstart : start < size
    · have hrest : bs ≠ [] := by
        rintro rfl
        rw [List.length_nil] at h
        omega
      rw [if_pos hstart, ih _ hrest (by omega), Nat.max_eq_right (by omega),
        Nat.max_eq_right (by omega)]
      rfl
    · have hnothing : m.splice start (b :: bs) = m := by
        ext a ha
        rw [byte_splice, if_neg (by omega)]
      rw [if_neg hstart, hnothing, Nat.max_eq_left (by omega)]

end Access

/-- **Access to a range of memory** agrees with access to its bytes. Bytes are stored exactly if
they end inside of memory, and then the memory is the one that storing them one by one leaves: they
are found in the range, and around it nothing has changed. Otherwise nothing is changed at all, and
the cause is the one for which the first byte outside is refused; no bytes at all are refused behind
the end of memory. The same ranges are refused, for the same causes, when bytes are taken from them
and when they are lent to be written to, which changes nothing by itself. Bytes that are taken are
those at the addresses of the range. -/
theorem ranges_accessed_bytewise (m : Memory) (start : Nat) (bytes : List UInt8) (count : Nat) :
    ((∃ m', m.load start bytes = .ok m') ↔ start + bytes.length ≤ 4096) ∧
    (∀ m', m.load start bytes = .ok m' →
      Access.load start bytes m = .ok () m' ∧ Access.writeEach start bytes m = .ok () m' ∧
      m'.slice start bytes.length = .ok bytes ∧
      ∀ a, ¬(start ≤ a ∧ a < start + bytes.length) → m'.byte a = m.byte a) ∧
    (∀ cause, m.load start bytes = .error cause →
      Access.load start bytes m = .error cause m ∧
      (bytes ≠ [] → cause = .outOfBounds (max start 4096) 4096 ∧
        Access.writeEach start bytes m = .error cause (m.splice start bytes)) ∧
      (bytes = [] → 4096 < start ∧ cause = .outOfBounds 4096 4096)) ∧
    (∀ cause, m.load start bytes = .error cause ↔ m.slice start bytes.length = .error cause) ∧
    ((∃ taken, m.slice start count = .ok taken) ↔ start + count ≤ 4096) ∧
    (∀ taken, m.slice start count = .ok taken → taken.length = count ∧
      ∀ k (hk : k < taken.length), m.read (start + k) = .ok taken[k]) ∧
    (∀ taken m', Access.lend start count m = .ok taken m' ↔
      m.slice start count = .ok taken ∧ m' = m) ∧
    ∀ cause m', Access.lend start count m = .error cause m' ↔
      m.slice start count = .error cause ∧ m' = m := by
  refine ⟨⟨?_, fun hfits => ⟨_, load_eq m hfits⟩⟩, fun m' hload => ?_, fun cause hload => ?_, ?_,
    ⟨?_, fun hfits => ⟨_, slice_eq m hfits⟩⟩, fun taken hslice => ?_,
    fun taken m' => Access.lend_eq_ok_iff, fun cause m' => Access.lend_eq_error_iff⟩
  · rintro ⟨m', hload⟩
    exact fits_of_load_eq_ok hload
  · have hfits : start + bytes.length ≤ size := fits_of_load_eq_ok hload
    have hm' : m.splice start bytes = m' := by
      rw [load_eq m hfits, Except.ok.injEq] at hload
      exact hload
    refine ⟨?_, ?_, slice_of_load_eq_ok hload, fun a ha => byte_of_load_eq_ok hload ha⟩
    · rw [Access.load_apply, hload, Access.leaving]
    · rw [Access.writeEach_of_fits m hfits, hm']
  · obtain ⟨hexceeds, hcause⟩ := load_eq_error_iff.mp hload
    refine ⟨?_, fun hne => ?_, fun hnil => ?_⟩
    · rw [Access.load_apply, hload, Access.leaving]
    · rw [firstOutside_length start hne] at hcause
      rw [hcause]
      exact ⟨rfl, Access.writeEach_of_exceeds m hne hexceeds⟩
    · subst hnil
      have hend : firstOutside start 0 = size := if_neg fun h => nomatch h.2
      exact ⟨hexceeds, hcause.trans (congrArg (Cause.outOfBounds · size) hend)⟩
  · intro cause
    rw [load_eq_error_iff, slice_eq_error_iff]
  · rintro ⟨taken, hslice⟩
    exact fits_of_slice_eq_ok hslice
  · exact ⟨length_of_slice_eq_ok hslice, fun k hk => read_of_slice_eq_ok hslice hk⟩

/-- Three bytes at the last two addresses: the range is refused as a whole, but one by one two of
them are stored. -/
theorem ranges_accessed_bytewise_overhanging :
    let bytes : List UInt8 := [1, 2, 3]
    Access.load 0xFFE bytes blank = .error (.outOfBounds 4096 4096) blank ∧
      (∃ m', Access.writeEach 0xFFE bytes blank = .error (.outOfBounds 4096 4096) m' ∧
        m'.byte 0xFFF = 2) ∧
      (∃ m', blank.load 0xFFD bytes = .ok m' ∧ m'.slice 0xFFD 3 = .ok bytes ∧ m'.byte 0xFFC = 0) ∧
      (∃ cause, blank.load 4097 [] = .error cause ∧ cause = .outOfBounds 4096 4096) := by
  intro bytes
  have hexceeds : blank.load 0xFFE bytes = .error (.outOfBounds 4096 4096) :=
    load_eq_error_iff.mpr ⟨by decide, rfl⟩
  have hnone : blank.load 4097 [] = .error (.outOfBounds 4096 4096) :=
    load_eq_error_iff.mpr ⟨by decide, rfl⟩
  obtain ⟨-, -, hrefused, -⟩ := ranges_accessed_bytewise blank 0xFFE bytes 0
  obtain ⟨hinPlace, heach, -⟩ := hrefused _ hexceeds
  obtain ⟨hfits, hstored, -⟩ := ranges_accessed_bytewise blank 0xFFD bytes 0
  obtain ⟨m', hload⟩ := hfits.mpr (by decide)
  obtain ⟨-, -, hslice, haround⟩ := hstored m' hload
  obtain ⟨-, -, hempty, -⟩ := ranges_accessed_bytewise blank 4097 [] 0
  refine ⟨hinPlace, ⟨_, (heach (List.cons_ne_nil _ _)).2, ?_⟩, ⟨m', hload, hslice, ?_⟩, _,
    hnone, ?_⟩
  · rw [byte_splice]
    rfl
  · rw [haround 0xFFC (by decide), byte_blank]
  · exact ((hempty _ hnone).2.2 rfl).2

end Memory

end Chip8

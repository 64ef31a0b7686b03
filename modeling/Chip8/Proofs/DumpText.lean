import Chip8.Machine.Dump
import Chip8.Proofs.MemoryRows

/-!
# Reading dumps

A dump loses nothing of what it shows. The name of a machine can be any text, so it can look like
lines of a dump. But below the true line with the level no line starts like that one, hence the last
line that does so ends the name. What is below it has a shape that depends on the depth of the stack
only, up to the table of the memory.

## Main definitions

* `Machine.DumpedAlike`: two machines are equal in what a dump shows
* `Machine.dumpBody`: the lines of a dump below the one with the level

## Main results

* `append_cons_inj_of_last`: the last element of a kind divides a list in one way
* `pieces_dump`: the lines of a dump
* `dumpedAlike_of_dumpBody_eq`: what the lines below the one with the level tell
* `dump_eq_dump_iff`: machines have the same dump if they are equal in what it shows, and only then
-/

universe u v

namespace Chip8

/-- The last element of a kind divides a list in one way. -/
theorem append_cons_inj_of_last {α : Type} {p : α → Prop} {xs ys below below' : List α} {x y : α}
    (hx : p x) (hy : p y) (hbelow : ∀ a ∈ below, ¬p a) (hbelow' : ∀ a ∈ below', ¬p a)
    (h : xs ++ x :: below = ys ++ y :: below') : xs = ys ∧ x = y ∧ below = below' := by
  rw [List.append_eq_append_iff] at h
  obtain ⟨between, hys, heq⟩ | ⟨between, hxs, heq⟩ := h
  · cases between with
    | nil => simp_all
    | cons z between =>
      obtain ⟨-, rfl⟩ := List.cons.inj heq
      exact absurd hy (hbelow y (by simp))
  · cases between with
    | nil => simp_all
    | cons z between =>
      obtain ⟨-, rfl⟩ := List.cons.inj heq
      exact absurd hx (hbelow' x (by simp))

/-- Levels with the same name are equal. -/
theorem Level.name_injective : Function.Injective Level.name := by
  intro l l' h
  have hparse := congrArg Level.parse h
  rw [parse_name, parse_name] at hparse
  exact Except.ok.inj hparse

theorem newline_notMem_toDigits (n : Nat) : '\n' ∉ Nat.toDigits 10 n := fun h =>
  absurd (Nat.isDigit_of_mem_toDigits (by decide) (by decide) h) (by decide)

/-- Numbers with the same decimal digits are equal. -/
theorem toString_injective : Function.Injective (toString : Nat → String) := by
  intro n n' h
  have hdigits := congrArg (fun s : String => Nat.ofDigitChars 10 s.toList 0) h
  simpa only [Nat.toString_eq_repr, Nat.toList_repr, Nat.ofDigitChars_ten_toDigits] using hdigits

namespace Machine

variable {σ : Type u} {τ : Type v} {m : Machine σ} {n : Machine τ}

/-- **Machines are dumped alike** when they are equal in everything that a dump shows. They may draw
on surfaces of different kinds. -/
structure DumpedAlike (m : Machine σ) (n : Machine τ) : Prop where
  name : m.name = n.name
  level : m.level = n.level
  opcode : m.opcode = n.opcode
  counter : m.counter = n.counter
  index : m.index = n.index
  delay : m.timers.delay = n.timers.delay
  sound : m.timers.sound = n.timers.sound
  registers : m.registers = n.registers
  stack : m.stack = n.stack
  memory : m.memory = n.memory

/-! ## The lines of a dump -/

/-- The line of a dump with the level. -/
def levelLine (m : Machine σ) : String := "\tcompatibility level: " ++ m.level.name

/-- The lines of a dump below the one with the level. -/
def dumpBody (m : Machine σ) : List String :=
  ("\topcode: " ++ Hex.literal 4 m.opcode.toNat) ::
  ("\tprogram counter: " ++ Hex.literal 4 m.counter.toNat) ::
  ("\tindex register: " ++ Hex.literal 4 m.index.toNat) ::
  ("\tdelay timer: " ++ Hex.literal 2 m.timers.delay.toNat) ::
  ("\tsound timer: " ++ Hex.literal 2 m.timers.sound.toNat) ::
  "\tregisters:" ::
  (Table.rows 2 2 (m.registers.toList.map UInt8.toNat) ++
    ("\tstack (" ++ toString m.stack.depth ++ "):") ::
    (Table.rows 2 4 (m.stack.oldestFirst.map UInt16.toNat) ++
      "\tmemory:" ::
      (MemoryTable.lines 2 m.memory.toList ++ ["\x7d"])))

theorem dumpLines_eq (m : Machine σ) :
    m.dumpLines = "Chipset \x7b" :: ("\tname: " ++ m.name) :: m.levelLine :: m.dumpBody := by
  unfold dumpLines
  simp only [List.cons_append, List.nil_append, List.append_assoc]
  rfl

/-- Whether a line starts like the one with the level. -/
def StartsLikeLevel (line : String) : Prop := line.toList.take 2 = ['\t', 'c']

instance (line : String) : Decidable (StartsLikeLevel line) :=
  inferInstanceAs (Decidable (line.toList.take 2 = ['\t', 'c']))

/-- What the lines below the one with the level are like: each is a single line, and starts in
another way. -/
structure IsBelowLevel (line : String) : Prop where
  newline : '\n' ∉ line.toList
  start : ¬StartsLikeLevel line

instance (line : String) : Decidable (IsBelowLevel line) :=
  decidable_of_iff ('\n' ∉ line.toList ∧ ¬StartsLikeLevel line)
    ⟨fun h => ⟨h.1, h.2⟩, fun h => ⟨h.newline, h.start⟩⟩

theorem startsLikeLevel_append {s : String} (hs : 2 ≤ s.toList.length) (t : String) :
    StartsLikeLevel (s ++ t) ↔ StartsLikeLevel s := by
  rw [StartsLikeLevel, StartsLikeLevel, String.toList_append, List.take_append_of_le_length hs]

theorem startsLikeLevel_levelLine (m : Machine σ) : StartsLikeLevel m.levelLine := by
  unfold levelLine
  rw [startsLikeLevel_append (by decide)]
  decide

theorem newline_notMem_levelLine (m : Machine σ) : '\n' ∉ m.levelLine.toList := by
  unfold levelLine
  rw [String.toList_append, List.mem_append]
  cases m.level <;> decide

/-- A line below the one with the level can be continued. -/
theorem IsBelowLevel.append {s t : String} (h : IsBelowLevel s) (hs : 2 ≤ s.toList.length)
    (ht : '\n' ∉ t.toList) : IsBelowLevel (s ++ t) where
  newline := by
    rw [String.toList_append, List.mem_append]
    exact not_or.2 ⟨h.newline, ht⟩
  start := (startsLikeLevel_append hs t).not.2 h.start

/-- Each entry of the body is a single line that does not start like the one with the level. -/
theorem isBelowLevel_of_mem_dumpBody {line : String} (h : line ∈ m.dumpBody) :
    IsBelowLevel line := by
  unfold dumpBody at h
  simp only [List.mem_cons, List.mem_append, List.not_mem_nil, or_false] at h
  have labelled {label : String} (hlabel : IsBelowLevel label ∧ 2 ≤ label.toList.length)
      (w n : Nat) : IsBelowLevel (label ++ Hex.literal w n) :=
    hlabel.1.append hlabel.2 (Table.notMem_literal rfl)
  have indented {s : String} (hs : ∃ t : String, s = Table.indent 2 ++ t ∧ '\n' ∉ t.toList) :
      IsBelowLevel s := by
    obtain ⟨t, rfl, ht⟩ := hs
    have hindent : IsBelowLevel (Table.indent 2) := by decide
    exact hindent.append (Nat.le_refl 2) ht
  rcases h with rfl | rfl | rfl | rfl | rfl | rfl | hregister | rfl | hframe | rfl | hmemory | rfl
  · exact labelled (by decide) 4 _
  · exact labelled (by decide) 4 _
  · exact labelled (by decide) 4 _
  · exact labelled (by decide) 2 _
  · exact labelled (by decide) 2 _
  · decide
  · exact indented (Table.exists_of_mem_rows hregister)
  · have hlabel : IsBelowLevel "\tstack (" := by decide
    rw [String.append_assoc]
    refine hlabel.append (by decide) ?_
    simp [newline_notMem_toDigits]
  · exact indented (Table.exists_of_mem_rows hframe)
  · decide
  · exact indented (MemoryTable.exists_of_mem_lines hmemory)
  · decide

/-- The lines of a dump. Those of the name come before the one with the level. -/
theorem pieces_dump (m : Machine σ) :
    pieces '\n' m.dump =
      ("Chipset \x7b" :: pieces '\n' ("\tname: " ++ m.name)) ++ m.levelLine :: m.dumpBody := by
  have hjoin : m.dump = (String.singleton '\n').intercalate m.dumpLines := rfl
  have hbody : m.dumpBody.flatMap (pieces '\n') = m.dumpBody :=
    flatMap_pieces_of_notMem fun _ hline => (isBelowLevel_of_mem_dumpBody hline).newline
  rw [hjoin, pieces_intercalate, dumpLines_eq]
  · simp only [List.flatMap_cons, hbody, pieces_of_notMem (newline_notMem_levelLine m)]
    rfl
  · rw [dumpLines_eq]
    exact List.cons_ne_nil _ _

/-! ## Reading a dump back -/

/-- Numbers behind the same label are equal if their lines are. -/
theorem eq_of_append_literal_eq {label : String} {w a b : Nat}
    (h : label ++ Hex.literal w a = label ++ Hex.literal w b) : a = b :=
  Hex.literal_injective w ((String.append_right_inj label).1 h)

/-- The lines below the one with the level tell everything but the name and the level. -/
theorem dumpedAlike_of_dumpBody_eq (hname : m.name = n.name) (hlevel : m.level = n.level)
    (h : m.dumpBody = n.dumpBody) : DumpedAlike m n := by
  unfold dumpBody at h
  simp only [List.cons.injEq, true_and] at h
  obtain ⟨hopcode, hcounter, hindex, hdelay, hsound, h⟩ := h
  obtain ⟨hregisters, h⟩ := List.append_inj h (by simp [Table.length_rows])
  simp only [List.cons.injEq] at h
  obtain ⟨hdepth, h⟩ := h
  replace hdepth : m.stack.depth = n.stack.depth := by
    rw [String.append_assoc, String.append_assoc, String.append_right_inj,
      String.append_left_inj] at hdepth
    exact toString_injective hdepth
  obtain ⟨hframes, h⟩ := List.append_inj h (by simp [Table.length_rows, hdepth])
  simp only [List.cons.injEq, true_and] at h
  have hmemory := List.append_cancel_right h
  have hregisters : m.registers.toList = n.registers.toList :=
    List.map_injective_iff.2 (fun _ _ => UInt8.toNat_inj.1) (Table.rows_injective 2 2 hregisters)
  have hframes : m.stack.oldestFirst = n.stack.oldestFirst :=
    List.map_injective_iff.2 (fun _ _ => UInt16.toNat_inj.1) (Table.rows_injective 2 4 hframes)
  exact {
    name := hname
    level := hlevel
    opcode := UInt16.toNat_inj.1 (eq_of_append_literal_eq hopcode)
    counter := UInt16.toNat_inj.1 (eq_of_append_literal_eq hcounter)
    index := UInt16.toNat_inj.1 (eq_of_append_literal_eq hindex)
    delay := UInt8.toNat_inj.1 (eq_of_append_literal_eq hdelay)
    sound := UInt8.toNat_inj.1 (eq_of_append_literal_eq hsound)
    registers := Registers.toList_inj.1 hregisters
    stack := CallStack.oldestFirst_inj.1 hframes
    memory := Memory.toList_inj.1 (MemoryTable.lines_injective 2 hmemory) }

/-- Machines that are dumped alike have the same dump. -/
theorem DumpedAlike.dump_eq (h : DumpedAlike m n) : m.dump = n.dump := by
  unfold dump dumpLines
  rw [h.name, h.level, h.opcode, h.counter, h.index, h.delay, h.sound, h.registers, h.stack,
    h.memory]

/-- Machines with the same dump are dumped alike. -/
theorem dumpedAlike_of_dump_eq (h : m.dump = n.dump) : DumpedAlike m n := by
  have hpieces := congrArg (pieces '\n') h
  rw [pieces_dump, pieces_dump] at hpieces
  obtain ⟨hname, hlevel, hbody⟩ := append_cons_inj_of_last
    (startsLikeLevel_levelLine m) (startsLikeLevel_levelLine n)
    (fun _ hline => (isBelowLevel_of_mem_dumpBody hline).start)
    (fun _ hline => (isBelowLevel_of_mem_dumpBody hline).start) hpieces
  refine dumpedAlike_of_dumpBody_eq ?_ ?_ hbody
  · exact (String.append_right_inj _).1 (pieces_injective '\n' (List.cons.inj hname).2)
  · exact Level.name_injective ((String.append_right_inj _).1 hlevel)

/-- **A dump loses nothing.** Two machines have the same dump exactly when their names, levels,
opcodes, counters, index registers, timers, registers, stacks and memories are equal. The tables of
two memories are already different as soon as one byte is, whichever rows of zeros were merged. -/
theorem dump_eq_dump_iff (m : Machine σ) (n : Machine τ) :
    (m.dump = n.dump ↔ DumpedAlike m n) ∧
      ∀ tabs, "\n".intercalate (MemoryTable.lines tabs m.memory.toList) =
          "\n".intercalate (MemoryTable.lines tabs n.memory.toList) ↔ m.memory = n.memory := by
  refine ⟨⟨dumpedAlike_of_dump_eq, DumpedAlike.dump_eq⟩,
    fun tabs => ⟨fun h => ?_, fun h => h ▸ rfl⟩⟩
  have hne (a : Memory) : a.toList ≠ [] :=
    List.ne_nil_of_length_pos (by rw [Memory.length_toList]; decide)
  exact Memory.toList_inj.1 (MemoryTable.eq_of_intercalate_lines_eq (hne _) (hne _) h)

end Machine

end Chip8

import Chip8.Proofs.FaultCondition
import Chip8.Proofs.MemoryRanges
import Chip8.Proofs.WriteSets

/-!
# Streams of blocks

At one level the index register moves behind each block that is stored or loaded. There blocks that
are stored one after the other lie one behind the other in memory, and when the index register is
put back to where it was, the same instructions that load find them in the same order. The stream
ends at the first block that leaves memory. At the other levels the index register stays where it
is, so what was stored last is found by the next instruction that loads.

## Main definitions

* `Direction`, `Machine.moved`: the two ways to move a block, and what that makes of a machine
* `Interlude`, `Move`: what may happen between two blocks, and a block of a stream
* `Machine.transfers`, `Machine.afterMoves`: the machines that move the blocks of a stream, and the
  machine behind it
* `Machine.Stored`, `Machine.Loaded`: what the stores and the loads of a stream do
* `Machine.EndsAt`: the blocks of a stream up to the first one that is refused

## Main results

* `execute_of_fits`, `execute_of_exceeds`: a block is moved, or it leaves memory and nothing happens
* `stored_of_fits`, `loaded_of_fits`: streams that end inside of memory
* `exists_refused`: in any other stream there is a first block that leaves memory
* `blocks_streamed`: what was stored is loaded back
-/

universe u

namespace Chip8

/-- A block that was restored is found in the registers. -/
theorem Registers.block_restore (r : Registers) {bytes : List UInt8} {x : Register}
    (h : bytes.length = x.val + 1) : (r.restore bytes).block x = bytes := by
  refine List.ext_getElem? fun i => ?_
  by_cases hi : i < bytes.length
  · have hle : i ≤ x.val := by omega
    let y : Register := ⟨i, Nat.lt_of_le_of_lt hle x.isLt⟩
    calc ((r.restore bytes).block x)[i]?
        = some ((r.restore bytes).get y) := (getElem?_block _ x y).trans (if_pos hle)
      _ = some (bytes[i]?.getD (r.get y)) := congrArg some (r.get_restore bytes y)
      _ = bytes[i]? := by rw [List.getElem?_eq_getElem hi, Option.getD_some]
  · rw [List.getElem?_eq_none (Nat.le_of_not_lt hi), List.getElem?_eq_none]
    rw [length_block, ← h]
    exact Nat.le_of_not_lt hi

/-! ## Moving a block -/

/-- The two ways to move a block. -/
inductive Direction where
  /-- From the registers into memory. -/
  | store
  /-- From memory into the registers. -/
  | load
  deriving DecidableEq, Repr

/-- The instruction that moves the block of `V0` to `VX`. -/
def Direction.instruction : Direction → Register → Instruction
  | store, x => .storeBlock x
  | load, x => .loadBlock x

namespace Machine

variable {σ : Type u}

/-- The machine after the block of `V0` to `VX` was moved. -/
def moved (m : Machine σ) : Direction → Register → Machine σ
  | .store, x =>
    { m with
      memory := m.memory.splice m.index.toNat (m.registers.block x)
      index := m.indexBehind x }
  | .load, x =>
    { m with
      registers := m.registers.restore (m.memory.bytesAt m.index.toNat (x.val + 1))
      index := m.indexBehind x }

section Moved

variable (m : Machine σ) (d : Direction) (x : Register)

@[simp] theorem index_moved : (m.moved d x).index = m.indexBehind x := by
  cases d <;> simp only [moved]

@[simp] theorem level_moved : (m.moved d x).level = m.level := by
  cases d <;> simp only [moved]

@[simp] theorem memory_moved_load : (m.moved .load x).memory = m.memory := by
  simp only [moved]

theorem block_moved_load :
    (m.moved .load x).registers.block x = m.memory.bytesAt m.index.toNat (x.val + 1) :=
  m.registers.block_restore (Memory.length_bytesAt _ _ _)

/-- A loaded block does not reach the registers behind it. -/
theorem get_moved_load {y : Register} (h : x < y) :
    (m.moved .load x).registers.get y = m.registers.get y :=
  m.registers.get_restore_of_lt (Memory.length_bytesAt _ _ _) h

end Moved

section Index

variable {m : Machine σ} {x : Register}

/-- At this level the index register moves behind the block. It may get to the end of memory. -/
theorem toNat_indexBehind_of_chip8 (hlevel : m.level = .chip8)
    (hfits : m.index.toNat + (x.val + 1) ≤ Memory.size) :
    (m.indexBehind x).toNat = m.index.toNat + (x.val + 1) := by
  unfold Memory.size at hfits
  unfold indexBehind behaviour
  rw [hlevel]
  simp only [Level.behaviour, if_true, UInt16.toNat_add, UInt16.toNat_ofNat']
  omega

end Index

variable [Surface σ] {m : Machine σ} {x : Register}

/-- A block that lies inside of memory is moved. -/
theorem execute_of_fits (d : Direction) (h : m.index.toNat + (x.val + 1) ≤ Memory.size) :
    m.execute (d.instruction x) = ⟨m.moved d x, .ok .none, []⟩ := by
  cases d with
  | store =>
    have hblock : m.index.toNat + (m.registers.block x).length ≤ Memory.size := by
      rwa [Registers.length_block]
    have heffect : m.effect (.storeBlock x) = .ok { machine := m.moved .store x } := by
      rw [effect, Memory.load_eq m.memory hblock]
      rfl
    rw [Direction.instruction, execute_of_ok heffect, Outcome.final_next]
  | load =>
    have heffect : m.effect (.loadBlock x) = .ok { machine := m.moved .load x } := by
      rw [effect, Memory.slice_eq m.memory h]
      rfl
    rw [Direction.instruction, execute_of_ok heffect, Outcome.final_next]

/-- A block that leaves memory is refused, and then nothing happens. -/
theorem execute_of_exceeds (d : Direction) (h : Memory.size < m.index.toNat + (x.val + 1)) :
    m.execute (d.instruction x) =
      ⟨m, .error (.outOfBounds (max m.index.toNat Memory.size) Memory.size), []⟩ := by
  refine execute_of_error (effect_eq_error_iff.mpr ?_)
  rw [← Memory.firstOutside_succ m.index.toNat x.val]
  cases d with
  | store => exact .storeBlock h
  | load => exact .loadBlock h

/-- At the other levels the index register stays where it is, whether the block is moved or not. -/
theorem index_execute_of_ne_chip8 (d : Direction) (h : m.level ≠ .chip8) :
    (m.execute (d.instruction x)).state.index = m.index := by
  rcases Nat.lt_or_ge Memory.size (m.index.toNat + (x.val + 1)) with hexceeds | hfits
  · rw [execute_of_exceeds d hexceeds]
  · rw [execute_of_fits d hfits, index_moved]
    exact m.indexBehind_eq_index x (beq_eq_false_iff_ne.mpr h)

/-- A block that was stored is loaded back if neither memory nor the index register have changed. -/
theorem load_stored {m' : Machine σ} {signal : Signal} (hlevel : m.level ≠ .chip8)
    (hstored : (m.execute (.storeBlock x)).result = .ok signal)
    (hindex : m'.index = (m.execute (.storeBlock x)).state.index)
    (hmemory : m'.memory = (m.execute (.storeBlock x)).state.memory) :
    (m'.execute (.loadBlock x)).result = .ok .none ∧
      (m'.execute (.loadBlock x)).state.registers.block x = m.registers.block x := by
  have hkept : m'.index = m.index := hindex.trans (index_execute_of_ne_chip8 .store hlevel)
  have hfits : m.index.toNat + (x.val + 1) ≤ Memory.size := by
    refine Nat.le_of_not_lt fun hexceeds => ?_
    have hrefused : m.execute (.storeBlock x) = _ := execute_of_exceeds .store hexceeds
    rw [hrefused] at hstored
    cases hstored
  have hstore : m.execute (.storeBlock x) = _ := execute_of_fits .store hfits
  have hload : m'.execute (.loadBlock x) = _ := execute_of_fits .load (hkept ▸ hfits)
  rw [hload]
  refine ⟨rfl, ?_⟩
  rw [block_moved_load, hkept, hmemory, hstore, ← m.registers.length_block x]
  refine (Memory.isPatched_splice m.memory ?_).bytesAt_eq
  rwa [Registers.length_block]

end Machine

/-! ## Streams -/

/-- **An interlude** is anything that happens to a machine and touches neither its memory nor its
index register, nor its level. -/
structure Interlude (σ : Type u) where
  run : Machine σ → Machine σ
  memory : ∀ m, (run m).memory = m.memory := by intros; rfl
  index : ∀ m, (run m).index = m.index := by intros; rfl
  level : ∀ m, (run m).level = m.level := by intros; rfl

/-- All registers are replaced. -/
def Interlude.replaceRegisters {σ : Type u} (r : Registers) : Interlude σ where
  run m := { m with registers := r }

/-- A block of a stream: that of `V0` to `VX` for the register `last`, moved after an interlude. -/
structure Move (σ : Type u) where
  interlude : Interlude σ
  last : Register

namespace Move

variable {σ : Type u}

/-- How many bytes the block has. -/
def size (v : Move σ) : Nat := v.last.val + 1

/-- How many bytes the blocks of a stream have. -/
def totalSize : List (Move σ) → Nat
  | [] => 0
  | v :: vs => v.size + totalSize vs

@[simp] theorem totalSize_nil : totalSize ([] : List (Move σ)) = 0 := rfl

@[simp] theorem totalSize_cons (v : Move σ) (vs : List (Move σ)) :
    totalSize (v :: vs) = v.size + totalSize vs := rfl

/-- Blocks of these sizes, one behind the other. -/
theorem length_flatten_of_sizes {vs : List (Move σ)} {blocks : List (List UInt8)}
    (h : blocks.map List.length = vs.map size) : blocks.flatten.length = totalSize vs := by
  induction vs generalizing blocks with
  | nil =>
    obtain rfl : blocks = [] := List.map_eq_nil_iff.mp h
    rfl
  | cons v vs ih =>
    obtain ⟨block, blocks, rfl, hsize, hsizes⟩ := List.map_eq_cons_iff.mp h
    rw [List.flatten_cons, List.length_append, ih hsizes, hsize, totalSize_cons]

/-- The registers up to which blocks reach tell their sizes. -/
theorem map_size_eq_of_map_last_eq {vs ws : List (Move σ)} (h : vs.map last = ws.map last) :
    vs.map size = ws.map size := by
  have hsize : ∀ us : List (Move σ), us.map size = (us.map last).map fun x => x.val + 1 := by
    intro us
    rw [List.map_map]
    rfl
  rw [hsize, h, ← hsize]

end Move

namespace Machine

variable {σ : Type u}

/-- A machine that is about to move the block up to the register `last`. -/
structure Transfer (σ : Type u) where
  machine : Machine σ
  direction : Direction
  last : Register

/-- The machine that is about to move a block, after the interlude. -/
def ready (m : Machine σ) (d : Direction) (v : Move σ) : Transfer σ :=
  ⟨v.interlude.run m, d, v.last⟩

namespace Transfer

/-- The block in the registers before it is moved. -/
def before (t : Transfer σ) : List UInt8 := t.machine.registers.block t.last

@[simp] theorem length_before (t : Transfer σ) : t.before.length = t.last.val + 1 :=
  Registers.length_block _ _

variable [Surface σ]

/-- The reply to the instruction that moves the block. -/
def reply (t : Transfer σ) : Reply (Machine σ) (Except Cause Signal) :=
  t.machine.execute (t.direction.instruction t.last)

/-- The block in the registers after it was moved. -/
def after (t : Transfer σ) : List UInt8 := t.reply.state.registers.block t.last

end Transfer

variable [Surface σ]

/-- The machines that are about to move the blocks of a stream, in order. -/
def transfers (m : Machine σ) (d : Direction) : List (Move σ) → List (Transfer σ)
  | [] => []
  | v :: vs => m.ready d v :: (m.ready d v).reply.state.transfers d vs

/-- The machine behind a stream. -/
def afterMoves (m : Machine σ) (d : Direction) : List (Move σ) → Machine σ
  | [] => m
  | v :: vs => (m.ready d v).reply.state.afterMoves d vs

section Ready

variable {m : Machine σ} {v : Move σ}

theorem reply_ready (d : Direction) (hfits : m.index.toNat + v.size ≤ Memory.size) :
    (m.ready d v).reply = ⟨(v.interlude.run m).moved d v.last, .ok .none, []⟩ := by
  refine execute_of_fits (m := v.interlude.run m) d ?_
  rw [v.interlude.index]
  exact hfits

theorem reply_ready_of_exceeds (d : Direction) (h : Memory.size < m.index.toNat + v.size) :
    (m.ready d v).reply =
      ⟨v.interlude.run m,
        .error (.outOfBounds (max m.index.toNat Memory.size) Memory.size), []⟩ := by
  rw [← v.interlude.index m] at h ⊢
  exact execute_of_exceeds d h

/-- A block that was moved leaves the machine ready for the next one. -/
theorem state_reply_ready (d : Direction) (hlevel : m.level = .chip8)
    (hfits : m.index.toNat + v.size ≤ Memory.size) :
    (m.ready d v).reply.state.level = .chip8 ∧
      (m.ready d v).reply.state.index.toNat = m.index.toNat + v.size := by
  have hlevel' : (v.interlude.run m).level = .chip8 := (v.interlude.level m).trans hlevel
  have hfits' : (v.interlude.run m).index.toNat + (v.last.val + 1) ≤ Memory.size := by
    rw [v.interlude.index]
    exact hfits
  rw [reply_ready d hfits, level_moved, index_moved, toNat_indexBehind_of_chip8 hlevel' hfits',
    v.interlude.index]
  exact ⟨hlevel', rfl⟩

/-- A stored block lies where the index register points to. -/
theorem isPatched_ready_store (hfits : m.index.toNat + v.size ≤ Memory.size) :
    m.memory.IsPatched m.index.toNat (m.ready .store v).before
      (m.ready .store v).reply.state.memory := by
  rw [reply_ready .store hfits, ← v.interlude.memory m, ← v.interlude.index m] at *
  refine Memory.isPatched_splice _ ?_
  rwa [Transfer.length_before]

/-- A loaded block is what lies where the index register points to. -/
theorem after_ready_load (hfits : m.index.toNat + v.size ≤ Memory.size) :
    (m.ready .load v).after = m.memory.bytesAt m.index.toNat v.size := by
  rw [Transfer.after, reply_ready .load hfits, ← v.interlude.memory m, ← v.interlude.index m]
  exact block_moved_load _ v.last

end Ready

/-- **What a stream of stores does.** -/
structure Stored (m : Machine σ) (vs : List (Move σ)) : Prop where
  succeed : ∀ t ∈ m.transfers .store vs, t.reply.result = .ok .none
  index : (m.afterMoves .store vs).index.toNat = m.index.toNat + Move.totalSize vs
  memory : m.memory.IsPatched m.index.toNat ((m.transfers .store vs).flatMap Transfer.before)
    (m.afterMoves .store vs).memory

/-- **What a stream of loads does** in a memory that holds these blocks. -/
structure Loaded (m : Machine σ) (vs : List (Move σ)) (blocks : List (List UInt8)) : Prop where
  succeed : ∀ t ∈ m.transfers .load vs, t.reply.result = .ok .none
  blocks : (m.transfers .load vs).map Transfer.after = blocks
  registers : ∀ t ∈ m.transfers .load vs, ∀ y, t.last < y →
    t.reply.state.registers.get y = t.machine.registers.get y
  memory : ∀ t ∈ m.transfers .load vs, t.reply.state.memory = m.memory
  index : (m.afterMoves .load vs).index.toNat = m.index.toNat + Move.totalSize vs

/-- **Where a stream ends** that does not end inside of memory: at the first block
that leaves it. -/
structure EndsAt (m : Machine σ) (d : Direction) (fitting : List (Move σ)) (v : Move σ) : Prop where
  fits : fitting = [] ∨ m.index.toNat + Move.totalSize fitting ≤ Memory.size
  exceeds : Memory.size < m.index.toNat + Move.totalSize fitting + v.size
  succeed : ∀ t ∈ m.transfers d fitting, t.reply.result = .ok .none
  index : (m.afterMoves d fitting).index.toNat = m.index.toNat + Move.totalSize fitting
  refused : ((m.afterMoves d fitting).ready d v).reply =
    ⟨v.interlude.run (m.afterMoves d fitting),
      .error (.outOfBounds (max (m.index.toNat + Move.totalSize fitting) Memory.size) Memory.size),
      []⟩

section Streams

variable {vs : List (Move σ)}

/-- At this level each block begins where the one before it has ended. -/
theorem moves_fit (d : Direction) {m : Machine σ} (hlevel : m.level = .chip8)
    (hfits : m.index.toNat + Move.totalSize vs ≤ Memory.size) :
    (∀ t ∈ m.transfers d vs, t.reply = ⟨t.machine.moved d t.last, .ok .none, []⟩) ∧
      (m.afterMoves d vs).level = .chip8 ∧
      (m.afterMoves d vs).index.toNat = m.index.toNat + Move.totalSize vs := by
  induction vs generalizing m with
  | nil => exact ⟨List.forall_mem_nil _, hlevel, rfl⟩
  | cons v vs ih =>
    rw [Move.totalSize_cons, ← Nat.add_assoc] at hfits ⊢
    have hfirst : m.index.toNat + v.size ≤ Memory.size := by omega
    obtain ⟨hlevel', hindex⟩ := state_reply_ready d hlevel hfirst
    rw [← hindex] at hfits ⊢
    obtain ⟨hreplies, hlast⟩ := ih hlevel' hfits
    exact ⟨List.forall_mem_cons.mpr ⟨reply_ready d hfirst, hreplies⟩, hlast⟩

/-- The blocks of a stream of stores lie one behind the other in memory. -/
theorem stored_of_fits {m : Machine σ} (hlevel : m.level = .chip8)
    (hfits : m.index.toNat + Move.totalSize vs ≤ Memory.size) : m.Stored vs := by
  obtain ⟨hreplies, -, hindex⟩ := moves_fit .store hlevel hfits
  refine ⟨fun t ht => congrArg Reply.result (hreplies t ht), hindex, ?_⟩
  clear hreplies hindex
  induction vs generalizing m with
  | nil => exact Memory.isPatched_nil _ _
  | cons v vs ih =>
    rw [Move.totalSize_cons, ← Nat.add_assoc] at hfits
    have hfirst : m.index.toNat + v.size ≤ Memory.size := by omega
    obtain ⟨hlevel', hindex⟩ := state_reply_ready .store hlevel hfirst
    have hpatched := isPatched_ready_store hfirst
    refine hpatched.append ?_
    have hsecond : (m.ready .store v).reply.state.index.toNat =
        m.index.toNat + (m.ready .store v).before.length := by
      rw [hindex, Transfer.length_before]
      rfl
    rw [← hsecond]
    exact ih hlevel' (by rwa [hindex])

/-- A stream of loads does not change memory, and finds what is there. -/
theorem loads_find {m : Machine σ} {blocks : List (List UInt8)} (hlevel : m.level = .chip8)
    (hfits : m.index.toNat + Move.totalSize vs ≤ Memory.size)
    (hsizes : blocks.map List.length = vs.map Move.size)
    (hthere : m.memory.bytesAt m.index.toNat (Move.totalSize vs) = blocks.flatten) :
    (m.transfers .load vs).map Transfer.after = blocks ∧
      ∀ t ∈ m.transfers .load vs, t.reply.state.memory = m.memory := by
  induction vs generalizing m blocks with
  | nil =>
    obtain rfl : blocks = [] := List.map_eq_nil_iff.mp hsizes
    exact ⟨rfl, List.forall_mem_nil _⟩
  | cons v vs ih =>
    obtain ⟨block, blocks, rfl, hsize, hsizes⟩ := List.map_eq_cons_iff.mp hsizes
    rw [Move.totalSize_cons] at hfits hthere
    rw [← Nat.add_assoc] at hfits
    have hfirst : m.index.toNat + v.size ≤ Memory.size := by omega
    obtain ⟨hlevel', hindex⟩ := state_reply_ready .load hlevel hfirst
    have hmemory : (m.ready .load v).reply.state.memory = m.memory := by
      rw [reply_ready .load hfirst, memory_moved_load]
      exact v.interlude.memory m
    rw [Memory.bytesAt_add, List.flatten_cons] at hthere
    obtain ⟨hblock, hthere⟩ :=
      List.append_inj hthere ((Memory.length_bytesAt _ _ _).trans hsize.symm)
    rw [← hindex, ← hmemory] at hthere
    obtain ⟨hblocks, hmemories⟩ := ih hlevel' (by rwa [hindex]) hsizes hthere
    rw [transfers, List.map_cons, List.forall_mem_cons, hblocks, after_ready_load hfirst, hblock]
    rw [hmemory] at hmemories
    exact ⟨rfl, hmemory, hmemories⟩

theorem loaded_of_fits {m : Machine σ} {blocks : List (List UInt8)} (hlevel : m.level = .chip8)
    (hfits : m.index.toNat + Move.totalSize vs ≤ Memory.size)
    (hsizes : blocks.map List.length = vs.map Move.size)
    (hthere : m.memory.bytesAt m.index.toNat (Move.totalSize vs) = blocks.flatten) :
    m.Loaded vs blocks := by
  obtain ⟨hreplies, -, hindex⟩ := moves_fit .load hlevel hfits
  obtain ⟨hblocks, hmemories⟩ := loads_find hlevel hfits hsizes hthere
  refine ⟨fun t ht => congrArg Reply.result (hreplies t ht), hblocks, ?_, hmemories, hindex⟩
  intro t ht y hy
  rw [hreplies t ht]
  exact get_moved_load t.machine t.last hy

/-- The sizes of the blocks of a stream are known before it begins. -/
theorem map_length_before (m : Machine σ) (d : Direction) (vs : List (Move σ)) :
    ((m.transfers d vs).map Transfer.before).map List.length = vs.map Move.size := by
  induction vs generalizing m with
  | nil => rfl
  | cons v vs ih =>
    simp only [transfers, List.map_cons, Transfer.length_before, ih]
    rfl

/-- The stored blocks are found where the stream began. -/
theorem Stored.bytesAt_eq {m : Machine σ} (h : m.Stored vs) :
    (m.afterMoves .store vs).memory.bytesAt m.index.toNat (Move.totalSize vs) =
      ((m.transfers .store vs).map Transfer.before).flatten := by
  have hlength : (((m.transfers .store vs).map Transfer.before).flatten).length =
      Move.totalSize vs := Move.length_flatten_of_sizes (m.map_length_before .store vs)
  rw [← hlength, ← List.flatMap_def]
  exact h.memory.bytesAt_eq

/-- A stream that does not end inside of memory has a first block that leaves it. -/
theorem exists_refused (d : Direction) {m : Machine σ} (hlevel : m.level = .chip8) (hne : vs ≠ [])
    (hexceeds : Memory.size < m.index.toNat + Move.totalSize vs) :
    ∃ fitting v rest, vs = fitting ++ v :: rest ∧ m.EndsAt d fitting v := by
  induction vs generalizing m with
  | nil => exact absurd rfl hne
  | cons v vs ih =>
    rcases Nat.lt_or_ge Memory.size (m.index.toNat + v.size) with hfirst | hfirst
    · exact ⟨[], v, vs, rfl, .inl rfl, hfirst, List.forall_mem_nil _, rfl,
        reply_ready_of_exceeds d hfirst⟩
    · obtain ⟨hlevel', hindex⟩ := state_reply_ready d hlevel hfirst
      rw [Move.totalSize_cons, ← Nat.add_assoc, ← hindex] at hexceeds
      have hne' : vs ≠ [] := by
        rintro rfl
        rw [hindex, Move.totalSize_nil] at hexceeds
        omega
      obtain ⟨fitting, w, rest, rfl, hends⟩ := ih hlevel' hne' hexceeds
      refine ⟨v :: fitting, w, rest, rfl, ?_⟩
      have htotal : m.index.toNat + Move.totalSize (v :: fitting) =
          (m.ready d v).reply.state.index.toNat + Move.totalSize fitting := by
        rw [Move.totalSize_cons, ← Nat.add_assoc, hindex]
      constructor
      case fits =>
        rw [htotal]
        rcases hends.fits with rfl | hfits
        · exact .inr (hindex ▸ hfirst)
        · exact .inr hfits
      case exceeds =>
        rw [htotal]
        exact hends.exceeds
      case succeed =>
        rw [transfers, List.forall_mem_cons, reply_ready d hfirst]
        exact ⟨rfl, reply_ready d hfirst ▸ hends.succeed⟩
      case index =>
        rw [htotal]
        exact hends.index
      case refused =>
        rw [htotal]
        exact hends.refused

end Streams

/-- **Streams of blocks.** At one level a stream that ends inside of memory succeeds, and what it
has stored is loaded back, in whatever way the registers were replaced. A stream that ends outside
has a first block that is refused, and the blocks before it are moved. At the other levels the index
register stays where it is, and what was stored is loaded back right away. -/
theorem blocks_streamed :
    (∀ (m : Machine σ) (stores : List (Move σ)), m.level = .chip8 →
      m.index.toNat + Move.totalSize stores ≤ Memory.size →
      m.Stored stores ∧
        ∀ (m' : Machine σ) (loads : List (Move σ)), m'.level = .chip8 → m'.index = m.index →
          m'.memory = (m.afterMoves .store stores).memory →
          loads.map Move.last = stores.map Move.last →
          m'.Loaded loads ((m.transfers .store stores).map Transfer.before)) ∧
    (∀ (m : Machine σ) (d : Direction) (vs : List (Move σ)), m.level = .chip8 → vs ≠ [] →
      Memory.size < m.index.toNat + Move.totalSize vs →
      ∃ fitting v rest, vs = fitting ++ v :: rest ∧ m.EndsAt d fitting v) ∧
    (∀ (m : Machine σ) (x : Register), m.level ≠ .chip8 →
      (∀ d : Direction, (m.execute (d.instruction x)).state.index = m.index) ∧
        ∀ (m' : Machine σ) (signal : Signal),
          (m.execute (.storeBlock x)).result = .ok signal →
          m'.index = (m.execute (.storeBlock x)).state.index →
          m'.memory = (m.execute (.storeBlock x)).state.memory →
          (m'.execute (.loadBlock x)).result = .ok .none ∧
            (m'.execute (.loadBlock x)).state.registers.block x = m.registers.block x) := by
  refine ⟨?_, fun m d vs hlevel hne => exists_refused d hlevel hne, ?_⟩
  · intro m stores hlevel hfits
    have hstored : m.Stored stores := stored_of_fits hlevel hfits
    refine ⟨hstored, ?_⟩
    intro m' loads hlevel' hindex hmemory hlast
    have hsizes : ((m.transfers .store stores).map Transfer.before).map List.length =
        loads.map Move.size := by
      rw [map_length_before, Move.map_size_eq_of_map_last_eq hlast]
    have htotal : Move.totalSize loads = Move.totalSize stores := by
      rw [← Move.length_flatten_of_sizes hsizes,
        Move.length_flatten_of_sizes (m.map_length_before .store stores)]
    refine loaded_of_fits hlevel' ?_ hsizes ?_
    · rwa [hindex, htotal]
    · rw [hmemory, hindex, htotal]
      exact hstored.bytesAt_eq
  · intro m x hlevel
    refine ⟨fun d => index_execute_of_ne_chip8 d hlevel, ?_⟩
    intro m' signal hstored hindex hmemory
    exact load_stored hlevel hstored hindex hmemory

/-- A machine whose index register points to the last three bytes of memory. -/
def brimming (level : Level) : Machine Screen :=
  { build none level Screen.blank .released (.cycle #[]) with index := 0xFFD }

/-- A block of one byte and one of two bytes, all registers being set to the same byte before. -/
def threeBytes (b c : UInt8) : List (Move Screen) :=
  [⟨.replaceRegisters ⟨Vector.replicate 16 b⟩, .first⟩,
    ⟨.replaceRegisters ⟨Vector.replicate 16 c⟩, ⟨1, by decide⟩⟩]

/-- Three bytes reach the end of memory and are loaded back, the fourth does not fit. -/
theorem blocks_streamed_brimming :
    (brimming .chip8).Stored (threeBytes 7 8) ∧
      { (brimming .chip8).afterMoves .store (threeBytes 7 8) with index := 0xFFD }.Loaded
        (threeBytes 1 2) [[7], [8, 8]] ∧
      (∃ fitting v rest, threeBytes 7 8 ++ threeBytes 1 2 = fitting ++ v :: rest ∧
        (brimming .chip8).EndsAt .store fitting v) ∧
      ((brimming .schip10).execute (.loadBlock 1)).state.index = 0xFFD ∧
      ((((brimming .schip10).execute (.storeBlock 1)).state.setRegister 0 9).execute
        (.loadBlock 1)).state.registers.block 1 = [0, 0] := by
  obtain ⟨hstream, hends, hothers⟩ := blocks_streamed (σ := Screen)
  obtain ⟨hstored, hloaded⟩ := hstream (brimming .chip8) (threeBytes 7 8) rfl (by decide)
  obtain ⟨hindex, hback⟩ := hothers (brimming .schip10) 1 (by decide)
  have hblocks : ((brimming .chip8).transfers .store (threeBytes 7 8)).map Transfer.before =
      [[7], [8, 8]] := by decide +kernel
  have hlevel : ((brimming .chip8).afterMoves .store (threeBytes 7 8)).level = .chip8 := by
    decide +kernel
  have hzeros : (brimming .schip10).registers.block 1 = [0, 0] := by decide +kernel
  have hfits : (brimming .schip10).index.toNat + ((1 : Register).val + 1) ≤ Memory.size := by
    decide
  rw [hblocks] at hloaded
  rw [hzeros] at hback
  refine ⟨hstored, hloaded _ (threeBytes 1 2) hlevel rfl rfl rfl, ?_, hindex .load, ?_⟩
  · exact hends _ _ _ rfl (by decide) (by decide)
  · exact (hback _ .none (congrArg Reply.result (execute_of_fits .store hfits)) rfl rfl).2

end Machine

end Chip8

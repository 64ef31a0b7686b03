import Chip8.Machine.Host
import Chip8.Proofs.StepCases
import Chip8.Screen
import Mathlib.Algebra.GroupWithZero.Nat

/-!
# Additions to the index register

The index register keeps twelve bits of what `FX1E` adds to it. The index is found by a remainder
and the flag by a comparison, before `VX` is overwritten if it is `VF` itself. The two agree as long
as the index starts inside of memory or right behind it: then the sum has at most one carry, and the
flag is that carry. So the flags of any number of additions account for all that the index has lost.

## Main definitions

* `IndexAddition`: an addition with the machines before and behind it
* `IndexAddition.Exact`: what one addition does to a machine
* `IndexAddition.Chained`: additions between which the index register is kept

## Main results

* `exact_addition`: each addition is exact
* `balance`: an addition loses its carry and nothing else
* `additions_account`: what a sequence of additions adds is the index in the end and all carries
-/

universe u

namespace Chip8

variable {σ : Type u}

/-- An addition leaves its effect, with some counter and opcode. -/
theorem Machine.Leaves.eq_addIndexEffect [Surface σ] {m m' : Machine σ} {x : Register}
    (h : m.Leaves (.addIndex x) m') :
    ∃ counter op, m' = (m.addIndexEffect x).machine.movedTo counter op :=
  h.exists_final fun _ _ => rfl

/-- An addition to the index register, with the machines before and behind it. -/
structure IndexAddition (σ : Type u) [Surface σ] where
  before : Machine σ
  x : Register
  after : Machine σ
  performed : before.Leaves (.addIndex x) after

namespace IndexAddition

variable [Surface σ]

/-- The number that is added. -/
def added (a : IndexAddition σ) : Nat := (a.before.registers.get a.x).toNat

/-- The addition leaves the flag set. -/
def carried (a : IndexAddition σ) : Bool := a.after.registers.get .flag == 1

/-- **What one addition does.** -/
structure Exact (a : IndexAddition σ) : Prop where
  flag : a.after.registers.get .flag = 0 ∨ a.after.registers.get .flag = 1
  flag_iff : a.after.registers.get .flag = 1 ↔ 0xFFF < a.before.index.toNat + a.added
  index : a.after.index.toNat ≤ 0xFFF
  frame : ∃ flag index counter opcode, a.after =
    { a.before with
      registers := a.before.registers.set .flag flag
      index := index
      counter := counter
      opcode := opcode }

section Single

variable (a : IndexAddition σ)

theorem flag_after :
    a.after.registers.get .flag = (decide (4096 ≤ a.before.index.toNat + a.added)).toUInt8 := by
  obtain ⟨counter, opcode, hafter⟩ := a.performed.eq_addIndexEffect
  rw [hafter]
  exact Registers.get_set_self _ _ _

theorem toNat_index_after :
    a.after.index.toNat = (a.before.index.toNat + a.added) % 4096 := by
  obtain ⟨counter, opcode, hafter⟩ := a.performed.eq_addIndexEffect
  rw [hafter]
  exact UInt16.toNat_ofNat_of_lt' (Nat.lt_trans (Nat.mod_lt _ (by decide)) (by decide))

theorem carried_eq : a.carried = decide (4096 ≤ a.before.index.toNat + a.added) := by
  rw [carried, flag_after]
  cases decide (4096 ≤ a.before.index.toNat + a.added) <;> rfl

/-- Each addition is exact, whatever the index is. -/
theorem exact_addition : a.Exact where
  flag := by
    rw [flag_after]
    cases decide (4096 ≤ a.before.index.toNat + a.added)
    · exact .inl rfl
    · exact .inr rfl
  flag_iff := by
    have hcarried := a.carried_eq
    rw [carried, Bool.eq_iff_iff, beq_iff_eq, decide_eq_true_iff] at hcarried
    exact hcarried
  index := by
    rw [toNat_index_after]
    exact Nat.le_of_lt_succ (Nat.mod_lt _ (by decide))
  frame := by
    obtain ⟨counter, opcode, hafter⟩ := a.performed.eq_addIndexEffect
    exact ⟨_, _, counter, opcode, hafter⟩

/-- An addition loses its carry and nothing else. A byte is added, so there is at most one. -/
theorem balance (h : a.before.index.toNat ≤ 0x1000) :
    a.before.index.toNat + a.added = a.after.index.toNat + 4096 * a.carried.toNat := by
  have hadded : a.added < 256 := UInt8.toNat_lt _
  rw [toNat_index_after, carried_eq]
  by_cases hcarry : 4096 ≤ a.before.index.toNat + a.added
  · simp only [hcarry, decide_true, Bool.toNat_true]
    omega
  · simp only [hcarry, decide_false, Bool.toNat_false]
    omega

end Single

/-- **Additions between which the index register is kept**: the first one begins with `start`, each
other one with what the one before it has left, and `last` is left in the end. All else may change
between them. -/
def Chained (start last : Address) : List (IndexAddition σ) → Prop
  | [] => start = last
  | a :: rest => a.before.index = start ∧ Chained a.after.index last rest

/-- What a sequence of additions adds to the index is there in the end, or was carried. -/
theorem Chained.account {start last : Address} {as : List (IndexAddition σ)}
    (h : Chained start last as) (hstart : start.toNat ≤ 0x1000) :
    start.toNat + (as.map added).sum = last.toNat + 4096 * as.countP carried := by
  induction as generalizing start with
  | nil =>
    obtain rfl : start = last := h
    rfl
  | cons a rest ih =>
    obtain ⟨rfl, hrest⟩ := h
    have hindex : a.after.index.toNat ≤ 0x1000 := Nat.le_trans a.exact_addition.index (by decide)
    have hcount : (a :: rest).countP carried = a.carried.toNat + rest.countP carried := by
      rw [List.countP_cons, Nat.add_comm]
      cases a.carried <;> rfl
    calc a.before.index.toNat + ((a :: rest).map added).sum
        = a.before.index.toNat + a.added + (rest.map added).sum := by
          rw [List.map_cons, List.sum_cons, Nat.add_assoc]
      _ = 4096 * a.carried.toNat + (a.after.index.toNat + (rest.map added).sum) := by
          rw [a.balance hstart]
          omega
      _ = 4096 * a.carried.toNat + (last.toNat + 4096 * rest.countP carried) := by
          rw [ih hrest hindex]
      _ = last.toNat + 4096 * (a :: rest).countP carried := by
          rw [hcount]
          omega

/-- **Additions to the index register keep exact account.** `FX1E` is never refused, each addition
is exact, and from an index of at most `0x1000` on, what any sequence of them adds is what the index
holds in the end and 4096 for each flag that was set. -/
theorem additions_account :
    (∀ (m : Machine σ) (x : Register), m.Signals (.addIndex x) .none) ∧
    (∀ a : IndexAddition σ, a.Exact) ∧
    ∀ (start last : Address) (as : List (IndexAddition σ)), start.toNat ≤ 0x1000 →
      Chained start last as →
      start.toNat + (as.map added).sum = last.toNat + 4096 * as.countP carried := by
  refine ⟨fun m x => ?_, exact_addition, fun start last as hstart h => h.account hstart⟩
  exact Machine.signals_of_effect (fun _ _ => rfl) fun _ _ => rfl

/-- Right behind memory, `VF` itself is added, and then `V1` that was set in between. -/
theorem additions_account_behind_memory :
    let m := { Machine.build none .chip8 Screen.blank .released (.cycle #[]) with
      index := 0x1000, registers := Registers.zero.set .flag 0xFF }
    let first : IndexAddition Screen := ⟨m, .flag, _, .execute⟩
    let second : IndexAddition Screen := ⟨first.after.setRegister 1 0x10, 1, _, .execute⟩
    0x1000 + (0xFF + 0x10) = second.after.index.toNat + 4096 * 1 ∧
      first.Exact ∧ second.after.index = 0x10F := by
  intro m first second
  have hcarried : [first, second].countP carried = 1 := by decide +kernel
  have haccount := additions_account.2.2 0x1000 second.after.index [first, second] (by decide)
    ⟨rfl, rfl, rfl⟩
  rw [hcarried] at haccount
  exact ⟨haccount, additions_account.2.1 first, by decide +kernel⟩

end IndexAddition

end Chip8

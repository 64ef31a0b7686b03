import Chip8.Machine.Host
import Chip8.Proofs.FaultCondition
import Chip8.Screen

/-!
# Which opcodes are decoded

Encoding puts the operands of an instruction side by side, and decoding takes them apart again. The
operands have the sizes of their places, so nothing is lost on the way there and nothing is added on
the way back. An opcode that no instruction has is refused, and is named in the fault as it was
fetched.

## Main results

* `Instruction.decode_eq_none_iff`: the opcodes that are not decoded are those of no instruction
* `Instruction.opcode_unique`: an instruction is decoded from one opcode only
* `Instruction.x_of_decode_jumpOffset`: the nibble `X` of `BNNN` is the first one of `NNN`
* `Machine.unknownOpcode_iff`: an opcode is called unknown if it is the fetched one and not decoded
* `Machine.decoding_exact`: decoding is inverse to encoding and refuses everything else
-/

universe u

namespace Chip8

namespace Instruction

/-- No instruction has an opcode that is not decoded. -/
theorem decode_eq_none_iff {op : Opcode} :
    decode op = none ↔ ∀ i : Instruction, i.encode ≠ op := by
  simp only [Option.eq_none_iff_forall_ne_some, ne_eq, decode_eq_some_iff]

/-- An instruction is decoded from one opcode only. -/
theorem opcode_unique {op op' : Opcode} {i : Instruction} (h : decode op = some i)
    (h' : decode op' = some i) : op = op' :=
  (encode_of_decode h).symm.trans (encode_of_decode h')

/-- The first nibble of the address is the nibble `X` of the opcode. -/
theorem x_of_decode_jumpOffset {op : Opcode} {nnn : Fin 4096}
    (h : decode op = some (.jumpOffset nnn)) : op.x.val = nnn.val / 256 := by
  rw [← encode_of_decode h, encode, Opcode.x]
  simp only [Opcode.toNat_ofAddress]
  omega

/-- An instruction that is refused is known. -/
theorem RefusedAt.ne_unknownOpcode {depth index : Nat} {i : Instruction} {cause : Cause}
    (h : i.RefusedAt depth index cause) (op : Opcode) : cause ≠ .unknownOpcode op := by
  cases h <;> exact fun hcause => nomatch hcause

end Instruction

namespace Machine

variable {σ : Type u} [Surface σ]

/-- An opcode is called unknown if it is the fetched one and not decoded. -/
theorem unknownOpcode_iff {m : Machine σ} {op op' : Opcode} :
    (∃ fault, (m.withOpcode op).dispatch.result = .error fault ∧
      fault.cause = .unknownOpcode op') ↔ op' = op ∧ Instruction.decode op = none := by
  cases hd : Instruction.decode op with
  | none =>
    rw [dispatch_of_decode_eq_none hd]
    constructor
    · rintro ⟨fault, hfault, hcause⟩
      cases hfault
      cases hcause
      exact ⟨rfl, rfl⟩
    · rintro ⟨rfl, -⟩
      exact ⟨_, rfl, rfl⟩
  | some i =>
    refine iff_of_false ?_ fun h => nomatch h.2
    rintro ⟨fault, hfault, hcause⟩
    cases he : (m.withOpcode op).advanced.effect i with
    | ok o =>
      rw [dispatch_of_effect_ok hd he] at hfault
      cases hfault
    | error cause =>
      rw [dispatch_of_effect_error hd he] at hfault
      cases hfault
      exact (effect_advanced_eq_error_iff.mp he).ne_unknownOpcode op' hcause

/-- **Decoding is exact.** Each instruction is decoded from its opcode. Each opcode is decoded to an
instruction that has it, or no instruction has it; then it is refused, and the fault names it as it
is. So no two opcodes are decoded to the same instruction. The register `X` that a jump `BNNN` can
add is no operand beside the address but the first nibble of it. -/
theorem decoding_exact :
    (∀ i : Instruction, Instruction.decode i.encode = some i) ∧
    (∀ op, (∃ i, Instruction.decode op = some i ∧ i.encode = op) ∨
      (Instruction.decode op = none ∧ ∀ i : Instruction, i.encode ≠ op)) ∧
    (∀ (m : Machine σ) (op op' : Opcode),
      (∃ fault, (m.withOpcode op).dispatch.result = .error fault ∧
        fault.cause = .unknownOpcode op') ↔ op' = op ∧ Instruction.decode op = none) ∧
    (∀ (op op' : Opcode) (i : Instruction),
      Instruction.decode op = some i → Instruction.decode op' = some i → op = op') ∧
    ∀ (op : Opcode) (nnn : Fin 4096), Instruction.decode op = some (.jumpOffset nnn) →
      op.x.val = nnn.val / 256 ∧
        ∀ m : Machine σ, m.behaviour.offsetIsVX = true → m.offsetRegister nnn = op.x := by
  refine ⟨Instruction.decode_encode, fun op => ?_, fun m op op' => unknownOpcode_iff,
    fun op op' i => Instruction.opcode_unique, fun op nnn hd => ?_⟩
  · cases hd : Instruction.decode op with
    | some i => exact .inl ⟨i, rfl, Instruction.encode_of_decode hd⟩
    | none => exact .inr ⟨rfl, Instruction.decode_eq_none_iff.mp hd⟩
  · have hx : op.x.val = nnn.val / 256 := Instruction.x_of_decode_jumpOffset hd
    refine ⟨hx, fun m hoffset => Fin.ext ?_⟩
    rw [offsetRegister, if_pos hoffset, hx]

/-- The opcode `B123` is decoded, and only it to that jump; the opcode `5121` is refused. -/
theorem decoding_exact_jumpOffset :
    let m := build none .chip48 Screen.blank .released (.cycle #[])
    Instruction.decode 0xB123 = some (.jumpOffset 0x123) ∧ m.offsetRegister 0x123 = 1 ∧
      (∀ op, Instruction.decode op = some (.jumpOffset 0x123) → op = 0xB123) ∧
      (∃ fault, (m.withOpcode 0x5121).dispatch.result = .error fault ∧
        fault.cause = .unknownOpcode 0x5121) ∧
      ∀ i : Instruction, i.encode ≠ 0x5121 := by
  intro m
  obtain ⟨-, heither, hunknown, honly, hjump⟩ := @decoding_exact Screen _
  have hd : Instruction.decode 0xB123 = some (.jumpOffset 0x123) := by decide
  have hnone : Instruction.decode 0x5121 = none := by decide
  refine ⟨hd, ((hjump _ _ hd).2 m rfl).trans (by decide), fun op hop => honly _ _ _ hop hd,
    (hunknown m _ _).mpr ⟨rfl, hnone⟩, ?_⟩
  rcases heither 0x5121 with ⟨i, hi, -⟩ | ⟨-, hi⟩
  · rw [hnone] at hi
    cases hi
  · exact hi

end Machine

end Chip8

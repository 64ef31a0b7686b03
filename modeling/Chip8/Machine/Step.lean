import Chip8.Instruction.Decode
import Chip8.Machine.Execute

/-!
# Steps of the machine

A step fetches the opcode that the program counter points to, decodes it and executes the
instruction. If any of this is refused the step is a fault, and the counter points to the refused
instruction again.

## Main definitions

* `Machine.fetch`: the opcode that the counter points to
* `Machine.step`: the execution of one instruction
-/

universe u

namespace Chip8.Machine

variable {σ : Type u}

/-- The opcode that the program counter points to. -/
def fetch (m : Machine σ) : Except Cause Opcode :=
  match m.memory.read m.counter.toNat with
  | .error cause => .error cause
  | .ok high =>
    match m.memory.read (m.counter.toNat + 1) with
    | .error cause => .error cause
    | .ok low => .ok (word high low)

/-- The machine with an opcode fetched. -/
def withOpcode (m : Machine σ) (op : Opcode) : Machine σ := { m with opcode := op }

/-- The machine with its counter moved behind the instruction. -/
def advanced (m : Machine σ) : Machine σ := { m with counter := m.counter + 2 }

/-- What a machine with a fetched opcode says about its state, if it is being debugged. -/
def trace (m : Machine σ) : List Notice := if m.debug then [.traced m.traceLine] else []

variable [Surface σ]

/-- Executes the fetched opcode. If the instruction is refused the counter goes back to it; nothing
else is taken back. -/
def dispatch (m : Machine σ) : Reply (Machine σ) (Except Fault Signal) :=
  let fault (cause : Cause) : Fault := ⟨m.counter, some m.opcode, cause⟩
  match Instruction.decode m.opcode with
  | none => ⟨m, .error (fault (.unknownOpcode m.opcode)), m.trace⟩
  | some i =>
    let done := m.advanced.execute i
    let notices := m.trace ++ .executing m.counter m.opcode i :: done.notices
    match done.result with
    | .ok signal => ⟨done.state, .ok signal, notices⟩
    | .error cause => ⟨{ done.state with counter := m.counter }, .error (fault cause), notices⟩

/-- Executes the instruction that the program counter points to. -/
def step (m : Machine σ) : Reply (Machine σ) (Except Fault Signal) :=
  match m.fetch with
  | .error cause => ⟨m, .error ⟨m.counter, none, cause⟩, []⟩
  | .ok op => (m.withOpcode op).dispatch

theorem step_of_fetch_error {m : Machine σ} {cause : Cause} (h : m.fetch = .error cause) :
    m.step = ⟨m, .error ⟨m.counter, none, cause⟩, []⟩ := by
  rw [step, h]

theorem step_of_fetch_ok {m : Machine σ} {op : Opcode} (h : m.fetch = .ok op) :
    m.step = (m.withOpcode op).dispatch := by
  rw [step, h]

end Chip8.Machine

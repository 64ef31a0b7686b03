import Chip8.Notice

/-!
# Replies

Whatever a stateful part of the machine is asked to do, it replies with its new state, a result, and
notices in the order in which they arose.
-/

universe u v

namespace Chip8

/-- A new state, a result, and what was noticed on the way. -/
structure Reply (σ : Type u) (α : Type v) where
  state : σ
  result : α
  notices : List Notice := []

namespace Reply

variable {σ : Type u} {α β : Type v}

/-- The same reply with another result. -/
def map (f : α → β) (r : Reply σ α) : Reply σ β := ⟨r.state, f r.result, r.notices⟩

@[simp] theorem state_map (f : α → β) (r : Reply σ α) : (r.map f).state = r.state := rfl

@[simp] theorem result_map (f : α → β) (r : Reply σ α) : (r.map f).result = f r.result := rfl

@[simp] theorem notices_map (f : α → β) (r : Reply σ α) : (r.map f).notices = r.notices := rfl

end Reply

end Chip8

import Chip8.Machine.Step

/-!
# What a host does to a machine

The host of a machine lets time pass, loads programs and fonts, chooses the level, presses keys and
starts the machine anew.

## Main definitions

* `Machine.tick`, `reset`, `setLevel`, `setDebug`, `loadProgram`, `loadRom`, `loadFont`
* `Machine.new`, `Machine.build`: a machine as it is built, bare or with a rom and at a level
* `Keypad.Action`, `Keypad.act`: what can be done to the keys
* `Machine.Command`, `Machine.perform`: all of this, and the step of the machine, as data
* `Machine.performAll`: a sequence of commands

## Main results

* `load_rom_eq`, `load_font_eq`: roms and fonts always fit into memory
* `loadProgram_of_fits`, `loadProgram_of_exceeds`: the two replies to a program
* `loadRom_eq`, `loadFont_eq`: roms and fonts are always accepted
* `exists_build_eq`: what of a machine depends on the rom that it was built with
* `performAll_append`: a sequence of commands can be given in parts
-/

universe u

namespace Chip8

namespace Keypad

/-- What can be done to the keys. -/
inductive Action where
  | set (key : Nat) (down : Bool)
  | toggle (key : Nat)
  | setAt (row column : Nat) (down : Bool)
  | setAll (downs : List Bool)
  | releaseAll
  deriving DecidableEq, Repr

/-- Does something to the keys. -/
def act (k : Keypad) : Action → Keypad × List Notice
  | .set key down => k.set key down
  | .toggle key => k.toggle key
  | .setAt row column down => k.setAt row column down
  | .setAll downs => (setAll downs, [])
  | .releaseAll => (released, [])

end Keypad

/-- The check of a program's length and that of memory draw the line at the same place. -/
theorem programStart_add_le_size_iff {n : Nat} :
    programStart + n ≤ Memory.size ↔ n ≤ programCapacity := by
  unfold programStart Memory.size programCapacity
  omega

namespace Machine

variable {σ : Type u}

/-- Lets one unit of the timers pass. -/
def tick (m : Machine σ) : Machine σ := { m with timers := m.timers.tick }

/-- Switches the tracing of instructions on or off. -/
def setDebug (m : Machine σ) (on : Bool) : Machine σ := { m with debug := on }

/-- Makes the machine behave like another interpreter, from the next instruction on. -/
def setLevel (m : Machine σ) (level : Level) : Reply (Machine σ) Unit :=
  ⟨{ m with level := level }, (), [.levelChanged m.level level]⟩

/-- Starts the machine anew. What was loaded stays in memory; the keys stay as they are. -/
def reset [Surface σ] (m : Machine σ) : Reply (Machine σ) Unit :=
  ⟨{ m with
      opcode := 0
      registers := .zero
      index := 0
      counter := 0x200
      stack := .empty
      timers := {}
      surface := Surface.clear m.surface }, (), [.reset m.name]⟩

/-- Stores bytes where programs begin. -/
def writeProgram (m : Machine σ) (bytes : List UInt8) : Reply (Machine σ) (Except Cause Unit) :=
  match m.memory.load programStart bytes with
  | .ok memory => ⟨{ m with memory := memory }, .ok (), [.loadedProgram bytes.length]⟩
  | .error cause => ⟨m, .error cause, []⟩

/-- Puts a program into memory, unless it has too many bytes. -/
def loadProgram (m : Machine σ) (bytes : List UInt8) :
    Reply (Machine σ) (Except ImageError Unit) :=
  let written := m.writeProgram bytes
  match written.result with
  | .ok _ => ⟨written.state, .ok (), written.notices⟩
  | .error _ =>
    ⟨written.state, .error (.programTooLarge bytes.length programCapacity),
      written.notices ++ [.rejectedProgram bytes.length]⟩

/-- Puts a rom into memory and gives its name to the machine, if memory accepts it. -/
def loadRom (m : Machine σ) (rom : Rom) : Reply (Machine σ) Unit :=
  let written := m.writeProgram rom.bytes
  match written.result with
  | .ok _ => ⟨{ written.state with name := rom.name }, (), written.notices⟩
  | .error _ => ⟨written.state, (), written.notices⟩

/-- Puts a font into memory, if memory accepts it. -/
def loadFont (m : Machine σ) (font : Font) : Reply (Machine σ) Unit :=
  match m.memory.load fontStart font.bytes with
  | .ok memory => ⟨{ m with memory := memory }, (), []⟩
  | .error cause => ⟨m, (), [.fontNotLoaded cause]⟩

/-- A rom fits into memory. -/
theorem load_rom_eq (m : Memory) (rom : Rom) :
    m.load programStart rom.bytes = .ok (m.splice programStart rom.bytes) :=
  Memory.load_eq m (programStart_add_le_size_iff.mpr rom.length_le)

/-- A font fits into memory. -/
theorem load_font_eq (m : Memory) (font : Font) :
    m.load fontStart font.bytes = .ok (m.splice fontStart font.bytes) := by
  refine Memory.load_eq m ?_
  rw [font.length_eq]
  decide

/-- A program that fits is stored, and nothing else changes. -/
theorem loadProgram_of_fits (m : Machine σ) {bytes : List UInt8}
    (h : bytes.length ≤ programCapacity) :
    m.loadProgram bytes =
      ⟨{ m with memory := m.memory.splice programStart bytes }, .ok (),
        [.loadedProgram bytes.length]⟩ := by
  simp only [loadProgram, writeProgram,
    Memory.load_eq m.memory (programStart_add_le_size_iff.mpr h)]

/-- A program that does not fit is rejected, and nothing changes. -/
theorem loadProgram_of_exceeds (m : Machine σ) {bytes : List UInt8}
    (h : programCapacity < bytes.length) :
    m.loadProgram bytes =
      ⟨m, .error (.programTooLarge bytes.length programCapacity),
        [.rejectedProgram bytes.length]⟩ := by
  have hleaves : Memory.size < programStart + bytes.length :=
    Nat.not_le.mp fun hfits => Nat.not_le.mpr h (programStart_add_le_size_iff.mp hfits)
  simp only [loadProgram, writeProgram, Memory.load_eq_error_iff.mpr ⟨hleaves, rfl⟩,
    List.nil_append]

/-- A program changes nothing but memory, whether it fits or not. -/
theorem state_loadProgram (m : Machine σ) (bytes : List UInt8) :
    (m.loadProgram bytes).state =
      { m with
        memory :=
          if bytes.length ≤ programCapacity then m.memory.splice programStart bytes
          else m.memory } := by
  by_cases h : bytes.length ≤ programCapacity
  · rw [loadProgram_of_fits m h, if_pos h]
  · rw [loadProgram_of_exceeds m (Nat.lt_of_not_le h), if_neg h]

/-- A rom is always accepted. -/
theorem loadRom_eq (m : Machine σ) (rom : Rom) :
    m.loadRom rom =
      ⟨{ m with name := rom.name, memory := m.memory.splice programStart rom.bytes }, (),
        [.loadedProgram rom.bytes.length]⟩ := by
  simp only [loadRom, writeProgram, load_rom_eq]

/-- A font is always accepted, so there is nothing to tell about it. -/
theorem loadFont_eq (m : Machine σ) (font : Font) :
    m.loadFont font = ⟨{ m with memory := m.memory.splice fontStart font.bytes }, (), []⟩ := by
  simp only [loadFont, load_font_eq]

/-- A machine as it is built, with nothing but the standard font in its memory. -/
def new (surface : σ) (keypad : Keypad) (random : RandomSource) : Machine σ :=
  ((blank surface keypad random).loadFont .standard).state

/-- A machine as it is built, with a rom, if there is one, and at a level. -/
def build (rom : Option Rom) (level : Level) (surface : σ) (keypad : Keypad)
    (random : RandomSource) : Machine σ :=
  let bare := new surface keypad random
  let loaded := match rom with
    | some rom => (bare.loadRom rom).state
    | none => bare
  { loaded with level := level }

/-- Nothing but the name and the memory of a machine depends on the rom that it was built with. -/
theorem exists_build_eq (rom : Option Rom) (level : Level) (surface : σ) (keypad : Keypad)
    (random : RandomSource) :
    ∃ name memory, build rom level surface keypad random =
      { name := name, level := level, memory := memory, surface := surface, keypad := keypad,
        random := random } := by
  cases rom with
  | none =>
    simp only [build, new, loadFont_eq]
    exact ⟨_, _, rfl⟩
  | some rom =>
    simp only [build, new, loadFont_eq, loadRom_eq]
    exact ⟨_, _, rfl⟩

/-- Does something to the keys. -/
def pressKeys (m : Machine σ) (action : Keypad.Action) : Reply (Machine σ) Unit :=
  let pressed := m.keypad.act action
  ⟨{ m with keypad := pressed.1 }, (), pressed.2⟩

/-- What can be asked of a machine. -/
inductive Command where
  | step
  | tick
  | reset
  | setLevel (level : Level)
  | setDebug (on : Bool)
  | loadProgram (bytes : List UInt8)
  | loadRom (rom : Rom)
  | loadFont (font : Font)
  | keys (action : Keypad.Action)
  deriving DecidableEq

/-- What a machine answers to a command. -/
inductive Response where
  /-- It was done. -/
  | done
  /-- An instruction was executed. -/
  | executed (signal : Signal)
  /-- An instruction was refused. -/
  | faulted (fault : Fault)
  /-- An image was rejected. -/
  | rejected (error : ImageError)
  deriving DecidableEq, Repr

/-- The answer to a step. -/
def Response.ofStep : Except Fault Signal → Response
  | .ok signal => executed signal
  | .error fault => faulted fault

/-- The answer to the loading of an image. -/
def Response.ofLoad : Except ImageError Unit → Response
  | .ok _ => done
  | .error e => rejected e

variable [Surface σ]

/-- Does what a command asks for. -/
def perform (m : Machine σ) : Command → Reply (Machine σ) Response
  | .step => m.step.map .ofStep
  | .tick => ⟨m.tick, .done, []⟩
  | .reset => m.reset.map fun _ => .done
  | .setLevel level => (m.setLevel level).map fun _ => .done
  | .setDebug on => ⟨m.setDebug on, .done, []⟩
  | .loadProgram bytes => (m.loadProgram bytes).map .ofLoad
  | .loadRom rom => (m.loadRom rom).map fun _ => .done
  | .loadFont font => (m.loadFont font).map fun _ => .done
  | .keys action => (m.pressKeys action).map fun _ => .done

/-- Does what the commands ask for, one after the other. -/
def performAll (m : Machine σ) : List Command → Reply (Machine σ) (List Response)
  | [] => ⟨m, [], []⟩
  | c :: cs =>
    let first := m.perform c
    let rest := first.state.performAll cs
    ⟨rest.state, first.result :: rest.result, first.notices ++ rest.notices⟩

/-- A sequence of commands can be given in parts. -/
theorem performAll_append (m : Machine σ) (cs ds : List Command) :
    m.performAll (cs ++ ds) =
      ⟨((m.performAll cs).state.performAll ds).state,
        (m.performAll cs).result ++ ((m.performAll cs).state.performAll ds).result,
        (m.performAll cs).notices ++ ((m.performAll cs).state.performAll ds).notices⟩ := by
  induction cs generalizing m with
  | nil => rfl
  | cons c cs ih => simp [performAll, ih]

end Machine

end Chip8

/-!
# Compatibility levels

Interpreters of different ages disagree on a handful of instructions. A level names such an
interpreter, and its behaviour lists what it decides. Level names are read leniently: letter case
does not matter, nor do hyphens, underscores, dots and spaces.

## Main definitions

* `Level`, `Level.all`, `Level.name`: the levels, in order of age, and their names
* `Behaviour`, `Level.behaviour`: the points on which the levels disagree
* `Level.normalize`, `Level.parse`: the reading of level names

## Main results

* `normalize_insert_separator`: a separator does not change how a text is read
* `parse_name`: every name is read as the level it names
-/

namespace Chip8

/-- The interpreters whose behaviour can be chosen, from the oldest to the newest. -/
inductive Level where
  | chip8
  | chip48
  | schip10
  | schip11
  | xochip
  deriving DecidableEq, Repr

/-- The points on which interpreters disagree. -/
structure Behaviour where
  /-- The bitwise operations `8XY1`, `8XY2` and `8XY3` set `VF` to zero. -/
  logicClearsFlag : Bool
  /-- The shifts `8XY6` and `8XYE` shift `VY` into `VX`, and not `VX` itself. -/
  shiftsVY : Bool
  /-- The jump `BNNN` adds `VX`, with `X` the first digit of the address, and not `V0`. -/
  offsetIsVX : Bool
  /-- The blocks `FX55` and `FX65` move the index register behind them. -/
  blocksAdvanceIndex : Bool
  deriving DecidableEq, Repr

/-- A text that names no level. -/
structure UnknownLevel where
  text : String
  deriving DecidableEq, Repr

/-- Which text it is. -/
def UnknownLevel.message (e : UnknownLevel) : String :=
  "Unknown compatibility level '" ++ e.text ++ "'."

namespace Level

/-- The levels, from the oldest to the newest. -/
def all : List Level := [chip8, chip48, schip10, schip11, xochip]

/-- What an interpreter of the level does where interpreters disagree. -/
def behaviour : Level → Behaviour
  | chip8 => ⟨true, true, false, true⟩
  | chip48 | schip10 | schip11 => ⟨false, false, true, false⟩
  | xochip => ⟨false, true, true, false⟩

/-- The name of the level. -/
def name : Level → String
  | chip8 => "CHIP-8"
  | chip48 => "CHIP-48"
  | schip10 => "SCHIP-1.0"
  | schip11 => "SCHIP-1.1"
  | xochip => "XO-CHIP"

/-- The characters that have no meaning in the name of a level. -/
def isSeparator (c : Char) : Bool := c == '-' || c == '_' || c == '.' || c == ' '

/-- A text without its separators, its ASCII letters in lower case. -/
def normalize (cs : List Char) : List Char :=
  (cs.filter fun c => !isSeparator c).map Char.toLower

/-- The normal forms that name a level. -/
def spellings : List (String × Level) :=
  [("chip8", chip8), ("chip48", chip48), ("schip10", schip10), ("superchip10", schip10),
    ("schip11", schip11), ("superchip11", schip11), ("schip", schip11), ("superchip", schip11),
    ("xochip", xochip)]

/-- The level a text names. -/
def parse (text : String) : Except UnknownLevel Level :=
  match spellings.find? fun s => s.1.toList == normalize text.toList with
  | some s => .ok s.2
  | none => .error ⟨text⟩

theorem mem_all (l : Level) : l ∈ all := by cases l <;> decide

@[simp] theorem normalize_append (cs ds : List Char) :
    normalize (cs ++ ds) = normalize cs ++ normalize ds := by
  simp [normalize]

/-- A separator does not change how a text is read. -/
theorem normalize_insert_separator (cs ds : List Char) {c : Char} (h : isSeparator c = true) :
    normalize (cs ++ c :: ds) = normalize (cs ++ ds) := by
  simp [normalize, h]

/-- Every name is read as the level it names. -/
theorem parse_name (l : Level) : parse l.name = .ok l := by cases l <;> rfl

end Level

end Chip8

/-!
# Hexadecimal text

Numbers are shown in uppercase hexadecimal, padded with zeros on the left. A number that needs more
digits than asked for keeps all of them.

## Main definitions

* `digit d`: the digit of a value below sixteen
* `fixed w n`: the last `w` digits of `n`
* `digits w n`: the digits of `n`, at least `w` of them
* `literal w n`: the digits of `n` behind `0x`
-/

namespace Chip8.Hex

/-- The uppercase digit of a value below sixteen. -/
def digit (d : Nat) : Char :=
  if d < 10 then Char.ofNat (48 + d) else Char.ofNat (55 + d)

/-- The last `w` digits of `n`, the most significant one first. -/
def fixed : Nat → Nat → List Char
  | 0, _ => []
  | w + 1, n => fixed w (n / 16) ++ [digit (n % 16)]

/-- The amount of digits `n` is written with; zero has one. -/
def width (n : Nat) : Nat := n.log2 / 4 + 1

/-- The digits of `n`, with leading zeros up to the width `w`. -/
def digits (w n : Nat) : String := String.ofList (fixed (max w (width n)) n)

/-- The digits of `n` behind `0x`, with leading zeros up to `w` digits. -/
def literal (w n : Nat) : String := "0x" ++ digits w n

end Chip8.Hex

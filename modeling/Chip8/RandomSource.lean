/-!
# Random sources

A random source delivers an endless sequence of bytes, one after the other.

## Main definitions

* `RandomSource`, `RandomSource.next`: the bytes, and the taking of one
* `RandomSource.cycle`: a source that repeats some bytes
-/

namespace Chip8

/-- An endless sequence of bytes, of which some were taken already. -/
structure RandomSource where
  /-- The bytes, in the order in which they are delivered. -/
  bytes : Nat → UInt8
  /-- How many bytes were taken. -/
  taken : Nat := 0

namespace RandomSource

/-- The byte that is delivered next. -/
def byte (r : RandomSource) : UInt8 := r.bytes r.taken

/-- The source without its next byte. -/
def next (r : RandomSource) : RandomSource := { r with taken := r.taken + 1 }

/-- The source that delivers some bytes over and over, zeros if there are none. -/
def cycle (bytes : Array UInt8) : RandomSource where
  bytes i := bytes[i % bytes.size]?.getD 0

end RandomSource

end Chip8

import Replication.Element

/-!
# Xorshift as a source of random data

The xorshift generator on four 32-bit words, and random canonical elements drawn from it by
rejection.
-/

namespace Replication.XorShift

/-- The four words of the generator, the oldest first. -/
structure Generator where
  x : UInt32
  y : UInt32
  z : UInt32
  w : UInt32

/-- The generator of a 16-byte seed read as four little-endian words. A seed of zeros, on which
the generator would stay forever, is replaced by a fixed one. -/
def Generator.ofSeed (seed : Bytes) : Generator :=
  let word (i : Nat) : UInt32 := (Bytes.toNatLE ((seed.drop (4 * i)).take 4)).toUInt32
  if seed.all (· == 0) then ⟨0x0BAD5EED, 0x0BAD5EED, 0x0BAD5EED, 0x0BAD5EED⟩
  else ⟨word 0, word 1, word 2, word 3⟩

/-- Draws a 32-bit word. -/
def Generator.next32 (g : Generator) : UInt32 × Generator :=
  let t := g.x ^^^ (g.x <<< 11)
  let w := g.w ^^^ (g.w >>> 19) ^^^ (t ^^^ (t >>> 8))
  (w, ⟨g.y, g.z, g.w, w⟩)

/-- Draws `count` words, the first one being the least significant. -/
def Generator.nextNat : Nat → Generator → Nat × Generator
  | 0, g => (0, g)
  | count + 1, g =>
    let (low, g) := g.next32
    let (high, g) := nextNat count g
    (low.toNat + 2 ^ 32 * high, g)

/-- Draws 255-bit numbers until one is below the order of the field. The first argument bounds
the number of draws; each one succeeds with a probability above nine tenths. -/
def Generator.nextScalar : Nat → Generator → Scalar × Generator
  | 0, g => (Scalar.ofNat 0, g)
  | draws + 1, g =>
    let (n, g) := g.nextNat 8
    let candidate := n % 2 ^ 255
    if h : candidate < modulus then (⟨candidate, h⟩, g) else nextScalar draws g

/-- The number of draws after which a generator is given up. -/
def drawLimit : Nat := 4096

/-- Random canonical elements, one after the other. -/
def Generator.elements : Nat → Generator → List Element
  | 0, _ => []
  | count + 1, g =>
    let (s, g) := g.nextScalar drawLimit
    Element.ofScalar s :: elements count g

/-- The bytes of `nodes` random canonical elements. -/
def randomData (seed : Bytes) (nodes : Nat) : Bytes :=
  ((Generator.ofSeed seed).elements nodes).flatMap Element.bytes

end Replication.XorShift

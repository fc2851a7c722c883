import Replication.Hasher

/-!
# Accumulators

A hash function that is fed piece by piece. The SHA-256 accumulator collects everything it is
given since it was last cleared, the children of nodes included. The Poseidon accumulator holds
the digest of the bytes written last; nodes leave it alone.
-/

namespace Replication

/-- A hash function with what it has been fed. -/
inductive Accumulator
  | poseidon (last : Scalar)
  | sha256 (absorbed : Bytes)

namespace Accumulator

/-- The accumulator that has been fed nothing. -/
def empty : HashFamily → Accumulator
  | .poseidon => poseidon (Scalar.ofNat 0)
  | .sha256 => sha256 []

/-- The family of an accumulator. -/
def family : Accumulator → HashFamily
  | poseidon _ => .poseidon
  | sha256 _ => .sha256

/-- Feeds bytes. -/
def write : Accumulator → Bytes → Result Accumulator
  | poseidon _, bytes => (Poseidon.digestBytes bytes).map poseidon
  | sha256 absorbed, bytes => .ok (sha256 (absorbed ++ bytes))

/-- Feeds the bytes of an element. -/
def writeElement (acc : Accumulator) (e : Element) : Result Accumulator := acc.write e.bytes

/-- The digest of what has been fed. -/
def current : Accumulator → Element
  | poseidon last => Element.ofScalar last
  | sha256 absorbed => HashFamily.truncatedDigest absorbed

/-- Forgets everything. -/
def clear (acc : Accumulator) : Accumulator := empty acc.family

/-- A leaf is not hashed. -/
def leaf (_ : Accumulator) (e : Element) : Element := e

/-- Hashes two children. -/
def node : Accumulator → Element → Element → Result (Element × Accumulator)
  | poseidon last, left, right => do
    let x ← left.expectScalar
    let y ← right.expectScalar
    let digest ← Poseidon.digestScalars [x, y]
    return (Element.ofScalar digest, poseidon last)
  | sha256 absorbed, left, right =>
    let absorbed := absorbed ++ left.bytes ++ right.bytes
    .ok (HashFamily.truncatedDigest absorbed, sha256 absorbed)

/-- Hashes any number of children. -/
def nodeOf : Accumulator → List Element → Result (Element × Accumulator)
  | poseidon last, children => do
    let digest ← Poseidon.digestChildren children
    return (Element.ofScalar digest, poseidon last)
  | sha256 absorbed, children =>
    let absorbed := absorbed ++ HashFamily.concatBytes children
    .ok (HashFamily.truncatedDigest absorbed, sha256 absorbed)

/-- Digests of a single machine word are not supported. -/
def shortDigest (_ : Accumulator) : Result Nat := abort .noShortDigest

end Accumulator

end Replication

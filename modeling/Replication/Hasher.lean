import Replication.Digest.Sha256
import Replication.Element
import Replication.Failure
import Replication.Poseidon.Permutation

/-!
# Hash families

Trees, columns and commitments are built with one of two hash families: Poseidon, which
compresses two, four or eight scalars at once, or SHA-256, whose digests are truncated to
canonical elements. A family gives a digest of bytes, of a pair, of the children of a tree node
and of a chain of elements.

Poseidon works on scalars, so it has no value on elements outside the field.
-/

namespace Replication

/-- The two families of hash functions. -/
inductive HashFamily
  | poseidon
  | sha256
deriving DecidableEq

namespace Poseidon

/-- The permutation for tree nodes with the given number of children. -/
def ofChildCount? : Nat → Option Parameters
  | 2 => some ofTwo
  | 4 => some ofFour
  | 8 => some ofEight
  | _ => none

/-- The digest of two, four or eight scalars. -/
def digestScalars (inputs : List Scalar) : Result Scalar :=
  match ofChildCount? inputs.length with
  | some params => .ok (params.digest inputs)
  | none => abort (.digestArity inputs.length)

/-- The scalar of a piece of data, which must be a whole canonical element. -/
def scalarOfPiece (bytes : Bytes) : Result Scalar :=
  match Element.ofBytes? bytes with
  | some e => e.expectScalar
  | none => abort .lengthMismatch

/-- The digest of bytes that are two, four or eight canonical elements. -/
def digestBytes (bytes : Bytes) : Result Scalar := do
  let inputs ← (pieces nodeSize bytes).mapM scalarOfPiece
  digestScalars inputs

/-- The scalars of elements that are expected to be canonical. -/
def expectScalars (elements : List Element) : Result (List Scalar) :=
  elements.mapM Element.expectScalar

/-- The digest of the children of a tree node. -/
def digestChildren (children : List Element) : Result Scalar :=
  match ofChildCount? children.length with
  | some params => (expectScalars children).map params.digest
  | none => abort (.nodeArity children.length)

/-- One step of a chain: the value so far is hashed with the next scalars, at most thirty-five. -/
def chainStep (soFar : Scalar) (next : List Scalar) : Scalar := ofThirtySix.digest (soFar :: next)

/-- The scalars of a chain that are absorbed with the value so far. -/
def chainPiece : Nat := 35

end Poseidon

namespace HashFamily

/-- The name under which a family is listed. -/
def name : HashFamily → String
  | poseidon => "poseidon_hasher"
  | sha256 => "sha256_hasher"

/-- The name of a family's elements. -/
def elementName : HashFamily → String
  | poseidon => "PoseidonDomain"
  | sha256 => "Sha256Domain"

/-- The word a family uses for the number of bytes of an element. -/
def lengthWord : HashFamily → String
  | poseidon => "amount"
  | sha256 => "number"

/-- The element of exactly thirty-two bytes. -/
def elementOfBytes (family : HashFamily) (bytes : Bytes) : Result Element :=
  match Element.ofBytes? bytes with
  | some e => .ok e
  | none => refuse (.unmet (.elementBytes family.lengthWord))

/-- The element of bytes that are expected to be thirty-two. -/
def expectElement (family : HashFamily) (bytes : Bytes) : Result Element :=
  match Element.ofBytes? bytes with
  | some e => .ok e
  | none => abort (.elementBytes family.lengthWord)

/-- A buffer with an element written over its first thirty-two bytes. -/
def overwrite (family : HashFamily) (e : Element) (buffer : Bytes) : Result Bytes :=
  if nodeSize ≤ buffer.length then .ok (e.bytes ++ buffer.drop nodeSize)
  else refuse (.unmet (.elementBytes family.lengthWord))

/-- The SHA-256 digest of bytes as a canonical element. -/
def truncatedDigest (bytes : Bytes) : Element := (Sha256.digest bytes).truncate

/-- The bytes of elements, one after the other. -/
def concatBytes (elements : List Element) : Bytes := elements.flatMap Element.bytes

/-- The digest of bytes. -/
def digest : HashFamily → Bytes → Result Element
  | poseidon, bytes => (Poseidon.digestBytes bytes).map Element.ofScalar
  | sha256, bytes => .ok (truncatedDigest bytes)

/-- The digest of two elements. -/
def pair : HashFamily → Element → Element → Result Element
  | poseidon, a, b => do
    let x ← a.expectScalar
    let y ← b.expectScalar
    return Element.ofScalar (Poseidon.ofTwo.digest [x, y])
  | sha256, a, b => .ok (truncatedDigest (a.bytes ++ b.bytes))

/-- The digest of the children of a tree node. -/
def node : HashFamily → List Element → Result Element
  | poseidon, children => (Poseidon.digestChildren children).map Element.ofScalar
  | sha256, children => .ok (truncatedDigest (concatBytes children))

/-- The digest of a list of at least two elements, absorbed from the first to the last. -/
def chain : HashFamily → List Element → Result Element
  | _, [] => abort .tooFewElements
  | _, [_] => abort .tooFewElements
  | poseidon, elements => do
    match ← Poseidon.expectScalars elements with
    | [] => abort .tooFewElements
    | first :: rest =>
      return Element.ofScalar
        ((pieces Poseidon.chainPiece rest).foldl Poseidon.chainStep first)
  | sha256, first :: rest =>
    .ok (rest.foldl (fun soFar next => truncatedDigest (soFar.bytes ++ next.bytes)) first)

end HashFamily

end Replication

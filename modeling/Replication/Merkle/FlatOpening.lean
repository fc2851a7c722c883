import Replication.Merkle.Opening

/-!
# Flat openings

A flat opening lists its elements in one row: the leaf, the siblings of every level, and the
root. It may come from a tree whose leaves are the roots of further trees; such compound openings
cannot be unfolded into a path.
-/

namespace Replication.Merkle

/-- How many further trees a flat opening passes through. -/
inductive Compound
  | base
  | sub
  | top
deriving DecidableEq

/-- The elements of an opening in a row, and the place of the node at every level. -/
structure FlatOpening where
  compound : Compound
  elements : List Element
  indices : List UInt64
deriving DecidableEq

namespace FlatOpening

/-- A flat opening; outside compound trees it must hold all siblings of every level. -/
def new (arity : Nat) (compound : Compound) (elements : List Element) (indices : List UInt64) :
    Result FlatOpening := do
  if compound = .base then
    Result.require (2 < elements.length) (.unmet .flatTooShort)
    Result.require (elements.length = 2 + (arity - 1) * indices.length) (.unmet .flatLength)
  return ⟨compound, elements, indices⟩

/-- The opening that a flat one stands for. -/
def toOpening (arity : Nat) (flat : FlatOpening) : Result Opening := do
  Result.require (flat.compound = .base) (.shape .compoundTree)
  let siblings := arity - 1
  Result.require
    (2 ≤ flat.elements.length ∧ flat.elements.length - 2 = flat.indices.length * siblings)
    (.pathLength (flat.indices.length * siblings + 2) flat.elements.length)
  let inner := (flat.elements.drop 1).take (flat.elements.length - 2)
  let path := ((pieces siblings inner).zip flat.indices).map fun (group, index) => ⟨group, index⟩
  return ⟨flat.elements.getLastD .zero, flat.elements.headD .zero, path⟩

end FlatOpening

end Replication.Merkle

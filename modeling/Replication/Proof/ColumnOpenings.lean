import Replication.Column

/-!
# Openings of the columns around a challenge

A proof opens the column of the challenged node and the columns of all its parents, so that the
labels that went into the challenged labels can be read off.
-/

namespace Replication

/-- The opened columns of a challenged node and of its parents. -/
structure ColumnOpenings where
  challenged : ColumnOpening
  base : List ColumnOpening
  expander : List ColumnOpening
deriving DecidableEq

namespace ColumnOpenings

/-- All opened columns, the challenged one first. -/
def all (c : ColumnOpenings) : List ColumnOpening := c.challenged :: (c.base ++ c.expander)

/-- The root of the column tree. -/
def root (c : ColumnOpenings) : Element := c.challenged.root

/-- The labels that the challenged label in a layer is derived from: those of base parents in the
layer and, above the first layer, those of expander parents in the layer below. -/
def parentLabels (c : ColumnOpenings) (layer : Nat) : Result (List Element) := do
  let base ← c.base.mapM fun o => o.column.label layer
  if layer = 1 then return base
  else do
    let expander ← c.expander.mapM fun o => do
      let below ← Word.sub layer 1
      o.column.label below
    return base ++ expander

/-- Whether every column of a list is opened at its position, under one root. -/
def verifyEach (shape : Merkle.Shape) (root : Element) (openings : List ColumnOpening)
    (positions : List Nat) : Result Bool :=
  Result.allOf (fun (o, position) => o.verify shape position root) (openings.zip positions)

/-- Whether the columns are opened at the challenge and at its parents, under one root. A position
in a column tree has thirty-two bits. -/
def verify (shape : Merkle.Shape) (c : ColumnOpenings) (challenge : Nat) (parents : List Nat) :
    Result Bool := do
  Result.require (c.base.length + c.expander.length = parents.length)
    (.parentCount parents.length (c.base.length + c.expander.length))
  Result.andAlso (c.challenged.verify shape (challenge % Word.halfLimit) c.root) <|
    Result.andAlso (verifyEach shape c.root c.base parents)
      (verifyEach shape c.root c.expander (parents.drop c.base.length))

end ColumnOpenings

end Replication

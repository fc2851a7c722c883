import Replication.Label.Layers
import Replication.Merkle.Tree

/-!
# Columns

A column holds the labels of one node in all layers. Its hash, a leaf of the column tree, is the
Poseidon digest of two or eleven labels.
-/

namespace Replication

/-- The labels of a node in all layers, the first layer first. -/
structure Column where
  index : UInt32
  rows : List Element
deriving DecidableEq

namespace Column

/-- The permutation for columns with the given number of rows. -/
def permutation? : Nat → Option Poseidon.Parameters
  | 2 => some Poseidon.ofTwo
  | 11 => some Poseidon.ofEleven
  | _ => none

/-- The digest of two or eleven scalars. -/
def hashScalars (scalars : List Scalar) : Result Scalar :=
  match permutation? scalars.length with
  | some params => .ok (params.digest scalars)
  | none => refuse (.unsupportedColumnArity scalars.length)

/-- The hash of a column. -/
def hash (c : Column) : Result Element := do
  let scalars ← c.rows.mapM Element.toScalar
  let digest ← hashScalars scalars
  return Element.ofScalar digest

/-- The label of a column in a layer, counted from one. -/
def label (c : Column) (layer : Nat) : Result Element :=
  if layer = 0 then refuse (.outOfBounds layer (c.rows.length + 1))
  else
    match c.rows[layer - 1]? with
    | some label => .ok label
    | none => refuse (.outOfBounds layer (c.rows.length + 1))

/-- The column of a node. -/
def ofLayers (layers : Layers) (node : UInt32) : Result Column := do
  let rows ← layers.rowsOf node.toNat
  return ⟨node, rows⟩

end Column

/-- A column and the opening of its hash in a column tree. -/
structure ColumnOpening where
  column : Column
  opening : Merkle.Opening
deriving DecidableEq

namespace ColumnOpening

/-- Opens the leaf that a column's index names. -/
def ofColumn (column : Column) (tree : Merkle.Tree) : Result ColumnOpening := do
  let opening ← tree.openAt column.index.toNat
  return ⟨column, opening⟩

/-- The root of the column tree. -/
def root (o : ColumnOpening) : Element := o.opening.root

/-- Whether the column hashes to the leaf at a position of the tree with the given root. -/
def verify (shape : Merkle.Shape) (o : ColumnOpening) (position : Nat) (root : Element) :
    Result Bool := do
  let leaf ← o.column.hash
  Result.andAlso (Result.check (o.root = root)) <|
    Result.andAlso (o.opening.verifyLeaf shape leaf) (o.opening.verifyAt shape position)

end ColumnOpening

end Replication

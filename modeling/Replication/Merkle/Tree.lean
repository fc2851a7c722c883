import Replication.Merkle.Opening

/-!
# Trees

A tree is built row by row: the nodes of a row are hashed in groups of the arity, until one node,
the root, is left. Leaves are not hashed. A tree over data takes the nodes of the data, which
must be canonical elements, as its leaves.
-/

namespace Replication.Merkle

/-- A tree: its leaves and the rows above them, the root last. -/
structure Tree where
  shape : Shape
  leaves : List Element
  upper : List (List Element)
deriving DecidableEq

/-- The row above a row. -/
def rowAbove (shape : Shape) (row : List Element) : Result (List Element) :=
  (pieces shape.arity row).mapM shape.family.node

/-- The given number of rows above a row. -/
def rowsAbove (shape : Shape) : Nat → List Element → Result (List (List Element))
  | 0, _ => .ok []
  | levels + 1, row => do
    let above ← rowAbove shape row
    let rest ← rowsAbove shape levels above
    return above :: rest

/-- The step from position `i` of a row to the row above. -/
def stepAt (arity : Nat) (row : List Element) (i : Nat) : Step where
  siblings := ((row.drop (i / arity * arity)).take arity).eraseIdx (i % arity)
  index := (i % arity).toUInt64

/-- The steps from position `i` of the lowest row to the highest row. -/
def pathUp (arity : Nat) : List (List Element) → Nat → Path
  | row :: above :: rest, i => stepAt arity row i :: pathUp arity (above :: rest) (i / arity)
  | _, _ => []

namespace Tree

/-- The tree over leaves, if they fill one. -/
def ofLeaves (shape : Shape) (leaves : List Element) : Result Tree :=
  match height? shape.arity leaves.length with
  | none => refuse (.treeSize leaves.length shape.arity)
  | some height => do
    Result.require (isPowerOfTwo leaves.length) (.treeGeneration .sizePowerOfTwo)
    Result.require (isPowerOfTwo shape.arity) (.treeGeneration .branchesPowerOfTwo)
    let upper ← rowsAbove shape height leaves
    return ⟨shape, leaves, upper⟩

/-- The tree over the nodes of data. -/
def ofData (shape : Shape) (data : Bytes) : Result Tree := do
  Result.require (data.length % nodeSize = 0)
    (.dataLength (data.length - data.length % nodeSize) data.length)
  let leaves ← (pieces nodeSize data).mapM Element.ofCanonicalBytes
  Result.whileBuilding .base (ofLeaves shape leaves)

/-- All rows, the leaves first. -/
def rows (t : Tree) : List (List Element) := t.leaves :: t.upper

/-- The number of leaves. -/
def leafCount (t : Tree) : Nat := t.leaves.length

/-- The root. -/
def root (t : Tree) : Element := ((t.rows.getLast?).bind List.head?).getD .zero

/-- The number of rows. -/
def rowCount (t : Tree) : Result Nat := Merkle.rowCount t.shape.arity t.leafCount

/-- The element at a position counted through all rows, leaves first. -/
def elementAt (t : Tree) (i : Nat) : Result Element :=
  match t.rows.flatten[i]? with
  | some e => .ok e
  | none => abort .outOfRange

/-- The opening of the leaf at a position. -/
def openAt (t : Tree) (i : Nat) : Result Opening :=
  match t.leaves[i]? with
  | some leaf => .ok ⟨t.root, leaf, pathUp t.shape.arity t.rows i⟩
  | none => refuse (.outOfBounds i t.leafCount)

end Tree

end Replication.Merkle

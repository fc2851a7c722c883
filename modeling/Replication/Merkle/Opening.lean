import Replication.Merkle.Shape

/-!
# Openings of trees

An opening says that a tree with a given root has a given leaf at a given position. Its path
holds, for every level from the leaf up, the siblings of the node on the way to the root and the
node's place among them. The root is recomputed from the leaf along the path; the places, read
as digits in base `arity`, give the position.

Openings come from outside: any list may be of any length, any element outside the field and any
place beyond the arity.
-/

namespace Replication.Merkle

/-- One level of a path: the siblings of a node and its place among them. -/
structure Step where
  siblings : List Element
  index : UInt64
deriving DecidableEq

/-- The levels from a leaf to the root. -/
abbrev Path := List Step

namespace Step

/-- A step fits a shape if it has all siblings, its place is one of the arity's, and all siblings
are canonical. The arity is positive, so that there is one sibling less than children; of an arity
of zero nothing can be subtracted. -/
def Fits (shape : Shape) (s : Step) : Prop :=
  s.siblings.length = shape.arity - 1 ∧ s.index.toNat < shape.arity ∧
    ∀ e ∈ s.siblings, e.IsCanonical

instance (shape : Shape) (s : Step) : Decidable (s.Fits shape) :=
  inferInstanceAs (Decidable (_ ∧ _ ∧ ∀ e ∈ s.siblings, e.IsCanonical))

/-- All children of the parent of a node. -/
def children (s : Step) (node : Element) : List Element := s.siblings.insertIdx s.index.toNat node

/-- The children, if the place of the node is among its siblings or right behind them. -/
def insert (s : Step) (node : Element) : Result (List Element) :=
  if s.index.toNat ≤ s.siblings.length then .ok (s.children node) else abort .outOfRange

end Step

namespace Path

/-- The root above a node, if every step fits the shape. -/
def climb (shape : Shape) : Path → Element → Result (Option Element)
  | [], node => .ok (some node)
  | step :: rest, node =>
    if step.Fits shape then do
      let children ← step.insert node
      let parent ← shape.family.node children
      climb shape rest parent
    else .ok none

/-- The root above a canonical leaf. -/
def root? (shape : Shape) (path : Path) (leaf : Element) : Result (Option Element) :=
  if leaf.IsCanonical then climb shape path leaf else .ok none

/-- The position that a path leads to, or the largest word if the position is no word. -/
def position (arity : Nat) (path : Path) : Nat :=
  path.foldr (fun step above => Word.addCapped (Word.mulCapped above arity) step.index.toNat) 0

end Path

/-- The position that listed levels lead to, the highest level being read first. -/
def positionOfLevels (arity : Nat) (levels : List (List Element × Nat)) : Nat :=
  levels.reverse.foldl
    (fun above level => Word.addCapped (Word.mulCapped above arity) level.2) 0

/-- The number of levels of a path in a tree. -/
def expectedLevels (arity leaves : Nat) : Result Nat := do
  Word.sub (← rowCount arity leaves) 1

/-- A root, a leaf, and the path between them. -/
structure Opening where
  root : Element
  leaf : Element
  path : Path
deriving DecidableEq

namespace Opening

/-- Whether the root is the one recomputed from the leaf. -/
def verify (shape : Shape) (o : Opening) : Result Bool := do
  let recomputed ← o.path.root? shape o.leaf
  return recomputed = some o.root

/-- The position of the leaf. -/
def position (arity : Nat) (o : Opening) : Nat := o.path.position arity

/-- The levels of the path, from the leaf up, as siblings with a place. -/
def levels (o : Opening) : List (List Element × Nat) :=
  o.path.map fun step => (step.siblings, step.index.toNat)

/-- Whether the opening is valid and opens the given position. -/
def verifyAt (shape : Shape) (o : Opening) (position : Nat) : Result Bool :=
  Result.andAlso (o.verify shape) (Result.check (position = o.position shape.arity))

/-- Whether the opening is valid and opens the given leaf. -/
def verifyLeaf (shape : Shape) (o : Opening) (leaf : Element) : Result Bool :=
  Result.andAlso (o.verify shape) (Result.check (o.leaf = leaf))

/-- Whether the path leads to a position; the opening itself is not checked. -/
def opensAt (arity : Nat) (o : Opening) (position : Nat) : Prop := o.position arity = position

instance (arity : Nat) (o : Opening) (position : Nat) : Decidable (o.opensAt arity position) :=
  inferInstanceAs (Decidable (_ = _))

/-- The number of elements of an opening. -/
def elementCount (arity : Nat) (o : Opening) : Nat := o.path.length * (arity - 1) + 2

/-- Asks for the path length of a tree with the given number of leaves. -/
def requireLevels (arity : Nat) (o : Opening) (leaves : Nat) : Result Unit := do
  let expected ← expectedLevels arity leaves
  Result.require (o.path.length = expected) (.pathLength expected o.path.length)

/-- Asks for canonical elements. -/
def requireCanonical (elements : List Element) : Result Unit :=
  Result.require (∀ e ∈ elements, e.IsCanonical) .notInField

/-- Asks for a place within the arity, and for canonical siblings, at every level. -/
def requireSteps (arity : Nat) : Path → Result Unit
  | [] => .ok ()
  | step :: rest => do
    Result.require (step.index.toNat < arity) (.shape (.stepIndex step.index.toNat arity))
    requireCanonical step.siblings
    requireSteps arity rest

/-- Asks for places within the arity and for canonical elements throughout. -/
def requireElements (arity : Nat) (o : Opening) : Result Unit := do
  requireSteps arity o.path
  requireCanonical [o.leaf, o.root]

end Opening

end Replication.Merkle

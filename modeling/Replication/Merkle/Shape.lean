import Replication.Hasher
import Replication.Logarithm

/-!
# Shapes of trees

All trees here are full: every node above the leaves has the same number of children, the arity,
and all leaves are equally far from the root. A tree has at least one level above its leaves.
-/

namespace Replication.Merkle

/-- The hash family and the number of children of the nodes of a tree. There is no tree whose nodes
have no children: an arity of zero is never asked about, and what the definitions here make of it is
not an answer. -/
structure Shape where
  family : HashFamily
  arity : Nat
deriving DecidableEq

/-- The shape of binary trees. -/
def Shape.binary (family : HashFamily) : Shape := ⟨family, 2⟩

/-- The name of a shape. -/
def Shape.name (shape : Shape) : String :=
  "merkletree-" ++ shape.family.name ++ "-" ++ toString shape.arity

/-- The number of rows of a tree, the leaves and the root included. For binary trees it is the
number of times that twice the leaves can be halved, and sixty-four for no leaves; for other
arities it is a rounded logarithm, defined for any number of leaves. -/
def rowCount (arity leaves : Nat) : Result Nat :=
  if arity = 2 then do
    let twice ← Word.mul leaves arity
    return Logarithm.trailingZeros 64 twice
  else if leaves = 0 then .ok 0
  else .ok (Logarithm.truncLog arity
    (Logarithm.roundNat (arity * Logarithm.roundNat leaves)))

/-- The number of rows above a row of `width` nodes, if each of them divides into groups of
`arity`. The first argument bounds that number. Groups are not empty: dividing by an arity of zero
has no value, and `none` does not stand for that. -/
def levelsAbove? (arity : Nat) : Nat → Nat → Option Nat
  | 0, _ => none
  | levels + 1, width =>
    if width ≤ 1 then some 0
    else if width % arity = 0 then (levelsAbove? arity levels (width / arity)).map (· + 1)
    else none

/-- The number of levels above the leaves of a full tree. -/
def height? (arity leaves : Nat) : Option Nat :=
  if leaves < arity then none else levelsAbove? arity (leaves + 1) leaves

/-- Whether a number of leaves fills a tree. -/
def isFull (arity leaves : Nat) : Bool := (height? arity leaves).isSome

/-- Whether a number is a power of two. -/
def isPowerOfTwo (n : Nat) : Bool := n != 0 && 2 ^ n.log2 == n

end Replication.Merkle

import Replication.Feistel

/-!
# Expander parents

Every node has `degree` slots. All slots of all nodes are permuted by a keyed permutation; the
parent in a slot is the node whose slot it is moved to.
-/

namespace Replication

/-- The permutation behind the expander parents of a graph. -/
structure Expander where
  degree : Nat
  keys : List UInt64
  layout : Feistel.Layout
  degree_pos : 0 < degree
deriving DecidableEq

namespace Expander

/-- The node that slot `slot` of `node` is moved to, in a graph of `nodes` nodes. -/
def parent (x : Expander) (nodes node slot : Nat) : Nat :=
  Feistel.permute x.layout x.keys (nodes * x.degree) (node * x.degree + slot) / x.degree
    % Word.halfLimit

/-- The parents of a node in the order of its slots. -/
def parents (x : Expander) (nodes node : Nat) : List Nat :=
  (List.range x.degree).map (x.parent nodes node)

end Expander

end Replication

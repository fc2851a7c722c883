import Replication.Label

/-!
# Layers of labels

Layers are counted from one. The first layer has base parents only; every further layer is
labelled over the one before it.
-/

namespace Replication

/-- The labels of all layers, the first layer first. -/
structure Layers where
  list : List Layer
deriving DecidableEq

namespace Layers

/-- The number of layers. -/
def count (layers : Layers) : Nat := layers.list.length

def isEmpty (layers : Layers) : Bool := layers.list.isEmpty

/-- The labels of a layer. -/
def layer (layers : Layers) (number : Nat) : Result Layer :=
  if number = 0 then refuse (.outOfBounds number (layers.count + 1))
  else
    match layers.list[number - 1]? with
    | some labels => .ok labels
    | none => refuse (.outOfBounds number (layers.count + 1))

/-- The labels of the last layer. -/
def last (layers : Layers) : Result Layer := layers.layer layers.count

/-- The label of a node in a layer. -/
def label (layers : Layers) (number node : Nat) : Result Element := do
  let labels ← layers.layer number
  Label.lookup labels node

/-- The labels of a node in all layers. -/
def rowsOf (layers : Layers) (node : Nat) : Result (List Element) :=
  layers.list.mapM fun labels => Label.lookup labels node

/-- Further layers after `below`, from layer `number` on. -/
def generateFrom (g : LayerGraph) (replicaId : Element) :
    Nat → Nat → Option Layer → Result (List Layer)
  | 0, _, _ => .ok []
  | count + 1, number, below => do
    let labels ← Label.createLayer g replicaId below number.toUInt32
      (Array.replicate g.size .zero)
    let rest ← generateFrom g replicaId count (number + 1) (some labels)
    return labels :: rest

/-- All layers of a replica. -/
def generate (g : LayerGraph) (count : Nat) (replicaId : Element) : Result Layers := do
  let list ← generateFrom g replicaId count 1 none
  return ⟨list⟩

end Layers

end Replication

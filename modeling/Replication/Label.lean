import Replication.Graph.Layer
import Replication.Hasher

/-!
# Labels

The label of a node in a layer is the truncated SHA-256 digest of the replica identifier, the
layer, the node and the labels of its parents, repeated until thirty-seven have gone in. Node zero
has no parents. A layer is labelled in the order of its nodes, in place: base parents are read
from the layer itself, expander parents from the finished layer below.
-/

namespace Replication

/-- The labels of the nodes of a layer. -/
abbrev Layer := Array Element

namespace Label

/-- The zero bytes between the node and the parents of a preimage. -/
def paddingSize : Nat := 20

/-- The bytes whose digest is a label. -/
def preimage (replicaId : Element) (layer : UInt32) (node : UInt64) (parents : List Element) :
    Bytes :=
  replicaId.bytes ++ Bytes.natBE 4 layer.toNat ++ Bytes.natBE 8 node.toNat
    ++ List.replicate paddingSize 0
    ++ if node = 0 then [] else HashFamily.concatBytes (takeCyclic hashedParents parents)

/-- The label of a node with the given parent labels. -/
def hash (replicaId : Element) (layer : UInt32) (node : UInt64) (parents : List Element) :
    Element :=
  (Sha256.digest (preimage replicaId layer node parents)).truncate

/-- The label at a position of a layer. -/
def lookup (labels : Layer) (position : Nat) : Result Element :=
  match labels[position]? with
  | some label => .ok label
  | none => refuse (.outOfBounds position labels.size)

/-- The labels of the parents of a node: base parents in the layer itself and, if there is a layer
below, expander parents in that one. -/
def parentLabels (g : LayerGraph) (node : Nat) (labels : Layer) (below : Option Layer) :
    Result (List Element) :=
  if node = 0 then .ok []
  else
    match below with
    | none => do
      let parents ← g.baseParents node
      parents.mapM (lookup labels)
    | some below => do
      let parents ← g.parents node
      let base ← (parents.take g.baseDegree).mapM (lookup labels)
      let expander ← (parents.drop g.baseDegree).mapM (lookup below)
      return base ++ expander

/-- Asks for a layer with a label for every node. -/
def requireFull (g : LayerGraph) (labels : Layer) : Result Unit :=
  Result.require (labels.size = g.size) (.dataLength g.size labels.size)

/-- Asks for a full layer below, if there is one. -/
def requireFullBelow (g : LayerGraph) : Option Layer → Result Unit
  | some below => requireFull g below
  | none => .ok ()

/-- Writes a label over an entry of a layer. -/
def write (labels : Layer) (node : Nat) (label : Element) : Result Layer :=
  if h : node < labels.size then .ok (labels.set node label) else abort .outOfRange

/-- The layer with the label of a node written to it. -/
def writeLabel (g : LayerGraph) (replicaId : Element) (below : Option Layer) (layer : UInt32)
    (node : Nat) (labels : Layer) : Result Layer := do
  requireFull g labels
  requireFullBelow g below
  let parents ← parentLabels g node labels below
  write labels node (hash replicaId layer node.toUInt64 parents)

/-- Labels a node in place. -/
def create (g : LayerGraph) (replicaId : Element) (below : Option Layer) (layer : UInt32)
    (node : Nat) : OnBuffer Layer Unit := fun labels =>
  match writeLabel g replicaId below layer node labels with
  | .ok labels => (.ok (), labels)
  | .error failure => (.error failure, labels)

/-- Labels a number of nodes in order, from `node` on. -/
def createFrom (g : LayerGraph) (replicaId : Element) (below : Option Layer) (layer : UInt32) :
    Nat → Nat → Layer → Result Layer
  | 0, _, labels => .ok labels
  | count + 1, node, labels => do
    let labels ← writeLabel g replicaId below layer node labels
    createFrom g replicaId below layer count (node + 1) labels

/-- A whole layer, over a buffer with an entry for every node. -/
def createLayer (g : LayerGraph) (replicaId : Element) (below : Option Layer) (layer : UInt32)
    (buffer : Layer) : Result Layer :=
  createFrom g replicaId below layer g.size 0 buffer

end Label

end Replication

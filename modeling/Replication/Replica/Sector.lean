import Replication.Buffer
import Replication.Column
import Replication.Data
import Replication.Encoding
import Replication.Replica.Params
import Replication.Replica.Statement

/-!
# Replication and extraction

Data is replicated in place: every node is encoded under its label in the last layer. Replication
commits to the data, to the columns of labels and to the replica. Extraction labels the graph
again and decodes all nodes, or one.
-/

namespace Replication

/-- What a prover keeps of a replicated sector. -/
structure Witness where
  inner : InnerCommitment
  layers : Layers
  dataTree : Merkle.Tree
  columnTree : Merkle.Tree
  replicaTree : Merkle.Tree

namespace Replica

/-- Asks for data of one node for every node of the graph. -/
def requireSize (g : LayerGraph) (data : Bytes) : Result Unit :=
  Result.require (data.length = g.sectorSize) (.dataLength g.sectorSize data.length)

/-- The tree over the hashes of all columns. -/
def columnTree (shape : Merkle.Shape) (layers : Layers) (nodes : Nat) : Result Merkle.Tree := do
  let hashes ← Result.forRange (fun node => do
    let column ← Column.ofLayers layers node.toUInt32
    column.hash) 0 nodes
  Result.whileBuilding .column (Merkle.Tree.ofLeaves shape hashes)

/-- Replaces the nodes of data, one after the other, by what `f` makes of each key and node. A
failure leaves the nodes before it replaced. -/
def replaceNodes (f : Element → Element → Result Element) : List Element → OnBuffer Bytes Unit
  | [], data => (.ok (), data)
  | _, [] => (.ok (), [])
  | key :: keys, b :: data =>
    match Element.ofCanonicalBytes ((b :: data).take nodeSize) >>= f key with
    | .error failure => (.error failure, b :: data)
    | .ok replaced =>
      let (outcome, rest) := replaceNodes f keys ((b :: data).drop nodeSize)
      (outcome, replaced.bytes ++ rest)

/-- The data tree: the given one, or the tree over the data. -/
def dataTree (params : Params) (data : Bytes) : Option Merkle.Tree → Result Merkle.Tree
  | some tree => .ok tree
  | none => Merkle.Tree.ofData params.dataShape data

/-- What is made before the data is replaced. -/
structure Prepared where
  layers : Layers
  dataTree : Merkle.Tree
  columnTree : Merkle.Tree
  keys : Layer

/-- Checks the data, labels the graph and builds the trees over the data and the columns. -/
def prepare (params : Params) (replicaId : Element) (given : Option Merkle.Tree)
    (data : Bytes) : Result Prepared := do
  let g := params.graph
  requireSize g data
  let _ ← Data.nodes data
  let dataTree ← dataTree params data given
  Result.require (dataTree.leafCount = g.size)
    (.unmet (.dataTreeLeaves dataTree.leafCount g.size))
  let layers ← Layers.generate g params.plan.layers replicaId
  let columnTree ← columnTree params.treeShape layers g.size
  let keys ← layers.last
  return ⟨layers, dataTree, columnTree, keys⟩

/-- Commits to a replica. -/
def commit (params : Params) (prepared : Prepared) (replica : Bytes) :
    Result (Commitment × Witness) := do
  let replicaTree ← Merkle.Tree.ofData params.treeShape replica
  let inner : InnerCommitment := ⟨prepared.columnTree.root, replicaTree.root⟩
  let commitment ← params.treeShape.family.pair inner.columns inner.replica
  return (⟨prepared.dataTree.root, commitment⟩,
    ⟨inner, prepared.layers, prepared.dataTree, prepared.columnTree, replicaTree⟩)

/-- Replicates data in place and commits to it. The data tree is made from the data unless it is
given. -/
def replicate (params : Params) (replicaId : Element) (given : Option Merkle.Tree) :
    OnBuffer Bytes (Commitment × Witness) := fun data =>
  match prepare params replicaId given data with
  | .error failure => (.error failure, data)
  | .ok prepared =>
    match replaceNodes Encoding.encode prepared.keys.toList data with
    | (.error failure, data) => (.error failure, data)
    | (.ok (), replica) => (commit params prepared replica, replica)

/-- The data of a whole replica. -/
def extract (params : Params) (replicaId : Element) (replica : Bytes) : Result Bytes := do
  requireSize params.graph replica
  let _ ← Data.nodes replica
  let layers ← Layers.generate params.graph params.plan.layers replicaId
  let keys ← layers.last
  let (outcome, data) := replaceNodes Encoding.decode keys.toList replica
  outcome
  return data

/-- The data of a single node. A node is looked up among the labels by its low thirty-two bits. -/
def extractNode (params : Params) (replicaId : Element) (replica : Bytes) (node : Nat) :
    Result Element := do
  let bytes ← Data.nodeAt replica node
  let encoded ← Element.ofCanonicalBytes bytes
  let layers ← Layers.generate params.graph params.plan.layers replicaId
  let key ← layers.label layers.count (node % Word.halfLimit)
  Encoding.decode key encoded

end Replica

end Replication

import Replication.Challenge
import Replication.Graph.Layer
import Replication.Merkle.Shape
import Replication.Settings

/-!
# Parameters of a replica

Two parties agree on the graph, the challenge plan, the shape of the column and replica trees,
and the hash family of the data tree, which is binary.
-/

namespace Replication

/-- What the parameters are made from. -/
structure Setup where
  nodes : Nat
  baseDegree : Nat
  expansionDegree : Nat
  porepId : PorepId
  plan : ChallengePlan

/-- The public parameters of a replica. -/
structure Params where
  graph : LayerGraph
  plan : ChallengePlan
  treeShape : Merkle.Shape
  dataFamily : HashFamily

namespace Params

/-- The numbers of layers for which columns can be hashed. -/
def supportedLayers : List Nat := [2, 11]

/-- The parameters of a setup. Small graphs get a table of their parents. -/
def ofSetup (settings : Settings) (treeShape : Merkle.Shape) (dataFamily : HashFamily)
    (setup : Setup) : Result Params := do
  Result.require (setup.plan.layers ∈ supportedLayers)
    (.unsupportedColumnArity setup.plan.layers)
  let graph ←
    LayerGraph.new setup.nodes setup.baseDegree setup.expansionDegree setup.porepId
  let graph ← if settings.tabulates setup.nodes then graph.withTable else .ok graph
  return ⟨graph, setup.plan, treeShape, dataFamily⟩

/-- The shape of the data tree. -/
def dataShape (params : Params) : Merkle.Shape := .binary params.dataFamily

/-- How parameters are described. -/
def identifier (params : Params) : String :=
  "layered_drgporep::PublicParams\x7b graph: " ++ params.graph.identifier
    ++ ", challenges: " ++ params.plan.description
    ++ ", tree: " ++ params.treeShape.name ++ " \x7d"

/-- The number of bytes of a sector. -/
def sectorSize (params : Params) : Nat := params.graph.sectorSize

/-- Whether a number of partitions answers at least `minimum` challenges. -/
def satisfies (params : Params) (minimum partitions : Nat) : Bool :=
  let total := params.plan.perPartition * partitions
  total < Word.limit && minimum ≤ total

end Params

end Replication

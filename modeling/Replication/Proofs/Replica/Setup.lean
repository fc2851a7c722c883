import Replication.Proofs.Replica.Atomicity

/-!
# Replicas of a setup

Parameters agree with the setup they are made from. Over the parameters of a setup whose nodes
fill a supported tree, every data of canonical nodes can be replicated (`exists_replicated`).
-/

namespace Replication

namespace Params

/-- Parameters keep what they are made from. -/
structure MadeFrom (treeShape : Merkle.Shape) (dataFamily : HashFamily) (setup : Setup)
    (params : Params) : Prop where
  treeShape_eq : params.treeShape = treeShape
  dataFamily_eq : params.dataFamily = dataFamily
  plan_eq : params.plan = setup.plan
  size_eq : params.graph.size = setup.nodes
  layers_mem : setup.plan.layers ∈ supportedLayers

variable {settings : Settings} {treeShape : Merkle.Shape} {dataFamily : HashFamily}
  {setup : Setup} {params : Params}

/-- Parameters that a setup gives keep its shapes, its plan and its number of nodes. -/
theorem madeFrom_of_ofSetup (h : ofSetup settings treeShape dataFamily setup = .ok params) :
    params.MadeFrom treeShape dataFamily setup := by
  obtain ⟨_, hlayers, h⟩ := Result.bind_eq_ok h
  obtain ⟨graph, hgraph, h⟩ := Result.bind_eq_ok h
  have hsize := LayerGraph.size_of_new hgraph
  have hlayers := Result.require_eq_ok_iff.mp hlayers
  -- with a table or without one, the graph is that of the setup
  by_cases htabulates : settings.tabulates setup.nodes
  · rw [if_pos htabulates] at h
    obtain ⟨table, htable, h⟩ := Result.bind_eq_ok h
    cases h
    have hsame := LayerGraph.same_of_withTable htable
    refine ⟨rfl, rfl, rfl, ?_, hlayers⟩
    show table.base.nodes = setup.nodes
    rw [← hsame.1]
    exact hsize
  · rw [if_neg htabulates] at h
    cases h
    exact ⟨rfl, rfl, rfl, hsize, hlayers⟩

/-- Parameters made for a supported shape have a supported arity. -/
theorem MadeFrom.arity_mem (h : params.MadeFrom treeShape dataFamily setup)
    (hshape : treeShape.Supported) : params.treeShape.arity ∈ [2, 4, 8, 16] := by
  rw [h.treeShape_eq]
  exact hshape.arity_mem

/-- Every setup within the limits has parameters, with or without a table. -/
theorem exists_ofSetup (settings : Settings) (treeShape : Merkle.Shape) (dataFamily : HashFamily)
    (hlayers : setup.plan.layers ∈ supportedLayers) (hbase : 2 ≤ setup.baseDegree)
    (hdegree : setup.baseDegree + setup.expansionDegree ≤ hashedParents)
    (hnodes : 2 ≤ setup.nodes) (hlt : setup.nodes < Word.halfLimit) :
    ∃ params, ofSetup settings treeShape dataFamily setup = .ok params := by
  obtain ⟨graph, hgraph⟩ := LayerGraph.exists_new setup.porepId hbase hdegree hnodes hlt
  obtain ⟨table, htable⟩ := graph.exists_withTable
  unfold ofSetup
  rw [Result.require_of hlayers, Result.ok_bind, hgraph, Result.ok_bind]
  by_cases htabulates : settings.tabulates setup.nodes
  · rw [if_pos htabulates, htable]
    exact ⟨_, rfl⟩
  · rw [if_neg htabulates]
    exact ⟨_, rfl⟩

end Params

namespace Replica

variable {params : Params}

/-- The columns of generated layers fill a tree wherever their number does. -/
theorem exists_columnTree {replicaId : Element} {layers : Layers} {height : Nat}
    (hlayers : layers.Generated params.graph params.plan.layers replicaId)
    (hmem : params.plan.layers ∈ Params.supportedLayers) (hshape : params.treeShape.Supported)
    (hheight : 1 ≤ height) (hsize : params.graph.size = params.treeShape.arity ^ height) :
    ∃ t, columnTree params.treeShape layers params.graph.size = .ok t := by
  obtain ⟨hashes, hhashes⟩ := hlayers.exists_hashes_of_columns hmem
  obtain ⟨hlen, hcanonical⟩ := Layers.hashes_of_columns hhashes
  obtain ⟨t, ht⟩ :=
    Merkle.Tree.exists_ofLeaves hshape hheight (hlen.trans hsize) hcanonical
  exact ⟨t, (columnTree_eq_ok_iff hlayers).mpr ⟨hashes, hhashes, ht⟩⟩

/-- A power of a supported arity is a power of two, so nodes that fill a tree fill a binary one. -/
theorem exists_dataTree {nodes : List Element} {height : Nat}
    (hshape : params.treeShape.Supported) (hheight : 1 ≤ height)
    (hlen : nodes.length = params.treeShape.arity ^ height)
    (hcanonical : ∀ e ∈ nodes, e.IsCanonical) :
    ∃ t, Merkle.Tree.ofLeaves params.dataShape nodes = .ok t := by
  obtain ⟨bits, hbits, harity⟩ := Merkle.exists_arity_eq_two_pow hshape.arity_mem
  have hbinary : nodes.length = params.dataShape.arity ^ (bits * height) := by
    show nodes.length = 2 ^ (bits * height)
    rw [hlen, harity, Nat.pow_mul]
  have hpos : 1 ≤ bits * height := Nat.mul_pos hbits hheight
  exact Merkle.Tree.exists_ofLeaves (Merkle.Shape.supported_binary _) hpos hbinary hcanonical

/-- Nodes that fill a supported tree can be replicated. -/
theorem exists_replicated (hshape : params.treeShape.Supported)
    (hmem : params.plan.layers ∈ Params.supportedLayers) {height : Nat} (hheight : 1 ≤ height)
    (hsize : params.graph.size = params.treeShape.arity ^ height) (replicaId : Element)
    {nodes : List Element} (hlen : nodes.length = params.graph.size)
    (hcanonical : ∀ e ∈ nodes, e.IsCanonical) :
    ∃ commitment w replica, Replicated params replicaId none nodes commitment w replica := by
  obtain ⟨htwo, -⟩ := layers_bounds hmem
  obtain ⟨layers, hlayers⟩ := Layers.exists_generate params.graph params.plan.layers replicaId
  have hgenerated := Layers.generated_of_generate hlayers
  obtain ⟨dataTree, hdataTree⟩ := exists_dataTree hshape hheight (hlen.trans hsize) hcanonical
  obtain ⟨columnTree, hcolumnTree⟩ := exists_columnTree hgenerated hmem hshape hheight hsize
  obtain ⟨-, hdataOver⟩ := over_of_ofLeaves hlen hcanonical hdataTree
  have hprepared : PreparedFrom params replicaId none nodes layers dataTree columnTree :=
    ⟨hlen, hcanonical, (Merkle.Tree.ofData_eq_ok_iff hcanonical).mpr hdataTree,
      hdataOver.length_leaves, hlayers, hcolumnTree, by omega⟩
  exact hprepared.exists_replicated

/-- Data of canonical nodes, as many as fill a supported tree, can be replicated. -/
theorem exists_replicated_of_data {treeShape : Merkle.Shape} {dataFamily : HashFamily}
    {setup : Setup} (hmade : params.MadeFrom treeShape dataFamily setup)
    (hshape : treeShape.Supported) {height : Nat} (hheight : 1 ≤ height)
    (hnodes : setup.nodes = treeShape.arity ^ height) (replicaId : Element) {data : Bytes}
    (hlen : data.length = setup.nodes * nodeSize)
    (hdata : ∀ node ∈ pieces nodeSize data, Bytes.toNatLE node < modulus) :
    ∃ nodes commitment w replica, HashFamily.concatBytes nodes = data ∧
      Replicated params replicaId none nodes commitment w replica := by
  obtain ⟨nodes, hconcat, hcount, hcanonical⟩ := Data.exists_elements_iff.mpr ⟨hlen, hdata⟩
  rw [← hmade.size_eq] at hcount
  have hmem : params.plan.layers ∈ Params.supportedLayers := by
    rw [hmade.plan_eq]
    exact hmade.layers_mem
  have hsize : params.graph.size = params.treeShape.arity ^ height := by
    rw [hmade.size_eq, hmade.treeShape_eq, hnodes]
  obtain ⟨commitment, w, replica, h⟩ := exists_replicated
    (hmade.treeShape_eq ▸ hshape) hmem hheight hsize replicaId hcount hcanonical
  exact ⟨nodes, commitment, w, replica, hconcat, h⟩

/-! ## A small sector -/

/-- Graphs of up to thirty-two nodes get tables, and proofs are verified before they are
returned. -/
def sampleSettings : Settings := ⟨true, 32, true⟩

/-- Sixteen nodes with base and expander parents and eleven layers. -/
def sampleSetup : Setup := ⟨16, 6, 8, .zero, ⟨11, 3⟩⟩

/-- Data for the sixteen nodes. -/
def sampleData : Bytes := List.replicate 512 7

/-- The nodes of the small sector fill a tree of arity four. -/
def sampleShape : Merkle.Shape := ⟨.poseidon, 4⟩

theorem toNatLE_sampleData :
    ∀ node ∈ pieces nodeSize sampleData, Bytes.toNatLE node < modulus := by
  decide +kernel

theorem exists_sampleParams : ∃ params,
    Params.ofSetup sampleSettings sampleShape .sha256 sampleSetup = .ok params :=
  Params.exists_ofSetup sampleSettings sampleShape .sha256 (by decide) (by decide) (by decide)
    (by decide) (by decide)

/-- The small sector can be replicated. -/
theorem exists_sampleReplicated : ∃ params nodes commitment w replica,
    Params.ofSetup sampleSettings sampleShape .sha256 sampleSetup = .ok params ∧
      params.MadeFrom sampleShape .sha256 sampleSetup ∧
      HashFamily.concatBytes nodes = sampleData ∧
      Replicated params .zero none nodes commitment w replica := by
  obtain ⟨params, hparams⟩ := exists_sampleParams
  have hmade := Params.madeFrom_of_ofSetup hparams
  obtain ⟨nodes, commitment, w, replica, hconcat, h⟩ := exists_replicated_of_data hmade
    (by decide) (show 1 ≤ 2 by decide) (by decide) .zero List.length_replicate
    toNatLE_sampleData
  exact ⟨params, nodes, commitment, w, replica, hparams, hmade, hconcat, h⟩

end Replica

end Replication

import Replication.Proofs.Replica.Setup

/-!
# When data can be replicated

Over the parameters of a setup a replication is never cut short by a value outside the field: the
data is checked before anything is computed from it, and labels, column hashes and encoded nodes
are canonical by construction. So data is replicated or refused, and it is replicated exactly if
there is a canonical node for every node of the graph and these nodes fill a tree
(`replicate_outcome`).
-/

namespace Replication.Replica

variable {params : Params} {replicaId : Element} {nodes : List Element}

/-! ## What comes before the replacement -/

/-- The tree over as many canonical nodes as the graph has is built or refused. -/
theorem neverAborts_dataTree (hlen : nodes.length = params.graph.size)
    (hcanonical : ∀ e ∈ nodes, e.IsCanonical) :
    Result.NeverAborts (dataTree params (HashFamily.concatBytes nodes) none) := by
  have hsize := params.graph.two_le_size
  have htwo : 2 ≤ nodes.length := by omega
  unfold dataTree
  rw [Merkle.Tree.ofData_concatBytes _ hcanonical]
  exact (Merkle.Tree.neverAborts_ofLeaves (Merkle.Shape.hashes_binary _) htwo
    hcanonical).whileBuilding _

/-- The tree over the columns of generated layers is built or refused. -/
theorem neverAborts_columnTree {shape : Merkle.Shape} (hshape : shape.Hashes) {g : LayerGraph}
    {count : Nat} {layers : Layers} (hlayers : layers.Generated g count replicaId)
    (hcount : count ∈ Params.supportedLayers) :
    Result.NeverAborts (columnTree shape layers g.size) := by
  have hsize := g.two_le_size
  obtain ⟨hashes, hhashes⟩ := hlayers.exists_hashes_of_columns hcount
  obtain ⟨hlen, hcanonical⟩ := Layers.hashes_of_columns hhashes
  have htwo : 2 ≤ hashes.length := by omega
  rw [columnTree_eq hlayers, hhashes, Result.ok_bind]
  exact (Merkle.Tree.neverAborts_ofLeaves hshape htwo hcanonical).whileBuilding _

/-- Every step of the preparation is a check, or works on canonical elements. -/
theorem neverAborts_prepare (hshape : params.treeShape.Hashes)
    (hmem : params.plan.layers ∈ Params.supportedLayers) (replicaId : Element) (data : Bytes) :
    Result.NeverAborts (prepare params replicaId none data) := by
  obtain ⟨htwo, -⟩ := layers_bounds hmem
  have hread : Result.NeverAborts (Data.nodes data) :=
    Result.neverAborts_mapM fun piece _ => Element.neverAborts_ofCanonicalBytes piece
  obtain ⟨layers, hlayers⟩ := Layers.exists_generate params.graph params.plan.layers replicaId
  have hgenerated := Layers.generated_of_generate hlayers
  have hlast := hgenerated.last_eq_ok_iff.mpr ⟨show 1 ≤ params.plan.layers by omega, rfl⟩
  unfold prepare
  refine (Result.neverAborts_require _ _).bind_of_ok fun _ hsize => ?_
  refine hread.bind_of_ok fun nodes hnodes => ?_
  -- from here on the data is known to be made of canonical nodes, one for each of the graph
  obtain ⟨rfl, hcanonical⟩ := Data.nodes_eq_ok_iff.mp hnodes
  have hlen := requireSize_eq_ok_iff.mp hsize
  refine (neverAborts_dataTree hlen hcanonical).bind fun tree => ?_
  refine (Result.neverAborts_require _ _).bind fun _ => ?_
  rw [hlayers, Result.ok_bind]
  refine (neverAborts_columnTree hshape hgenerated hmem).bind fun columns => ?_
  rw [hlast]
  exact Result.neverAborts_ok _

/-- What follows the preparation cannot fail, so a replication aborts only if its preparation
does. -/
theorem neverAborts_replicate {given : Option Merkle.Tree} {data : Bytes}
    (h : Result.NeverAborts (prepare params replicaId given data)) :
    Result.NeverAborts (replicate params replicaId given data).1 := by
  rcases hprepare : prepare params replicaId given data with failure | prepared
  · unfold replicate
    rw [hprepare] at h ⊢
    intro reason heq
    cases heq
    exact h reason rfl
  · obtain ⟨out, result, hreplicate⟩ := exists_replicate_of_prepare hprepare
    rw [hreplicate]
    exact Result.neverAborts_ok out

/-! ## What a replication asks of its data -/

/-- The nodes of a graph that was replicated fill a tree of the shape. -/
theorem Replicated.exists_height {given : Option Merkle.Tree} {commitment : Commitment}
    {w : Witness} {replica : List Element}
    (h : Replicated params replicaId given nodes commitment w replica) :
    ∃ height, 1 ≤ height ∧ params.graph.size = params.treeShape.arity ^ height := by
  have hsize := params.graph.two_le_size
  have hlen := h.length_replica
  obtain ⟨height, _, hheight, -⟩ := Merkle.Tree.ofLeaves_eq_ok_iff.mp h.replicaTree_eq
  obtain ⟨-, hpos, hpow⟩ := Merkle.eq_pow_of_height? (by omega) hheight
  exact ⟨height, hpos, hlen.symm.trans hpow⟩

/-- Over the parameters of a setup data is replicated or refused. It is replicated exactly if it
has the size of the sector, each of its nodes is an element of the field, and the nodes fill a tree
of the given arity. -/
theorem replicate_outcome {settings : Settings} {treeShape : Merkle.Shape}
    {dataFamily : HashFamily} {setup : Setup} {params : Params}
    (hsetup : Params.ofSetup settings treeShape dataFamily setup = .ok params)
    (hshape : treeShape.Supported) (replicaId : Element) (data : Bytes) :
    Result.NeverAborts (replicate params replicaId none data).1 ∧
    ((∃ out, (replicate params replicaId none data).1 = .ok out) ↔
      data.length = setup.nodes * nodeSize ∧
        (∀ node ∈ pieces nodeSize data, Bytes.toNatLE node < modulus) ∧
        ∃ height, 1 ≤ height ∧ setup.nodes = treeShape.arity ^ height) := by
  have hmade := Params.madeFrom_of_ofSetup hsetup
  have hhashes : params.treeShape.Hashes := hmade.treeShape_eq ▸ hshape.hashes
  have hmem : params.plan.layers ∈ Params.supportedLayers := hmade.plan_eq ▸ hmade.layers_mem
  refine ⟨neverAborts_replicate (neverAborts_prepare hhashes hmem replicaId data), ?_, ?_⟩
  · intro h
    obtain ⟨out, hout⟩ := h
    obtain ⟨nodes, replica, hconcat, -, h⟩ := replicate_eq_ok_iff.mp (Prod.ext hout rfl)
    obtain ⟨hlen, hdata⟩ := Data.exists_elements_iff.mp
      ⟨nodes, hconcat, h.length_nodes.trans hmade.size_eq, h.canonical⟩
    refine ⟨hlen, hdata, ?_⟩
    rw [← hmade.size_eq, ← hmade.treeShape_eq]
    exact h.exists_height
  · intro h
    obtain ⟨hlen, hdata, height, hheight, hnodes⟩ := h
    obtain ⟨nodes, commitment, w, replica, hconcat, h⟩ :=
      exists_replicated_of_data hmade hshape hheight hnodes replicaId hlen hdata
    have hreplicate := replicate_eq_ok_iff.mpr ⟨nodes, replica, hconcat, rfl, h⟩
    exact ⟨_, congrArg Prod.fst hreplicate⟩

/-- Sixteen nodes of sevens are replicated; sixteen nodes without a zero bit, which are no elements
of the field, are refused. -/
theorem sample_replicate_outcome : ∃ params,
    Params.ofSetup sampleSettings sampleShape .sha256 sampleSetup = .ok params ∧
      (∃ out, (replicate params .zero none sampleData).1 = .ok out) ∧
      ∃ cause, (replicate params .zero none (List.replicate 512 255)).1
        = .error (.refused cause) := by
  obtain ⟨params, hparams⟩ := exists_sampleParams
  have houtcome := replicate_outcome hparams (by decide) .zero
  obtain ⟨-, hsuccess⟩ := houtcome sampleData
  obtain ⟨hnever, hfailure⟩ := houtcome (List.replicate 512 255)
  refine ⟨params, hparams, ?_, hnever.exists_refusal ?_⟩
  · exact hsuccess.mpr
      ⟨List.length_replicate, toNatLE_sampleData, 2, by decide, by decide⟩
  · intro out hout
    obtain ⟨-, hnodes, -⟩ := hfailure.mp ⟨out, hout⟩
    exact absurd hnodes (by decide +kernel)

end Replication.Replica

import Replication.Proofs.Layers
import Replication.Proofs.Merkle.Tree
import Replication.Proofs.Replica.Replacement

/-!
# What a replication makes

Success of replication is taken apart into named conditions on the nodes of the data, the nodes of
the replica, and what the prover keeps. Main statement: data is replicated exactly under those
conditions (`replicate_eq_ok_iff`), and extraction of the replica decodes the same nodes
(`extract_eq_ok_iff`).
-/

namespace Replication

/-- The tree over data of canonical nodes has the nodes as its leaves. -/
theorem Merkle.Tree.ofData_concatBytes (shape : Merkle.Shape) {nodes : List Element}
    (hcanonical : ∀ e ∈ nodes, e.IsCanonical) :
    Merkle.Tree.ofData shape (HashFamily.concatBytes nodes)
      = Result.whileBuilding .base (Merkle.Tree.ofLeaves shape nodes) := by
  have hlen := HashFamily.length_concatBytes nodes
  have hsize : (HashFamily.concatBytes nodes).length % nodeSize = 0 := by
    rw [hlen, Nat.mul_mod_left]
  have hnodes : (pieces nodeSize (HashFamily.concatBytes nodes)).mapM Element.ofCanonicalBytes
      = .ok nodes := Data.nodes_eq_ok_iff.mpr ⟨rfl, hcanonical⟩
  unfold Merkle.Tree.ofData
  rw [Result.require_of hsize, Result.ok_bind, hnodes, Result.ok_bind]

/-- A tree over joined bytes is the tree over the canonical nodes they were joined from. -/
theorem Merkle.Tree.ofData_eq_ok_iff {shape : Merkle.Shape} {nodes : List Element}
    (hcanonical : ∀ e ∈ nodes, e.IsCanonical) {t : Merkle.Tree} :
    Merkle.Tree.ofData shape (HashFamily.concatBytes nodes) = .ok t ↔
      Merkle.Tree.ofLeaves shape nodes = .ok t := by
  rw [Merkle.Tree.ofData_concatBytes shape hcanonical, Result.whileBuilding_eq_ok_iff]

namespace Replica

variable {params : Params} {replicaId : Element} {given : Option Merkle.Tree}

/-! ## The tree over the columns -/

theorem columnTree_eq {g : LayerGraph} {count : Nat} {layers : Layers}
    (hlayers : layers.Generated g count replicaId) (shape : Merkle.Shape) :
    columnTree shape layers g.size
      = (List.range g.size).mapM (fun node => (layers.column node).hash) >>= fun hashes =>
          Result.whileBuilding .column (Merkle.Tree.ofLeaves shape hashes) := by
  have hcongr : (List.range' 0 g.size).mapM (fun node => do
        let column ← Column.ofLayers layers node.toUInt32
        column.hash)
      = (List.range g.size).mapM fun node => (layers.column node).hash := by
    rw [← List.range_eq_range']
    apply Result.mapM_congr
    intro node hnode
    rw [hlayers.ofLayers_eq (List.mem_range.mp hnode), Result.ok_bind]
  unfold columnTree
  rw [Result.forRange_eq_mapM, hcongr]

/-- There is a column tree exactly if every column has a hash and these make a tree. -/
theorem columnTree_eq_ok_iff {g : LayerGraph} {count : Nat} {layers : Layers}
    (hlayers : layers.Generated g count replicaId) {shape : Merkle.Shape} {t : Merkle.Tree} :
    columnTree shape layers g.size = .ok t ↔
      ∃ hashes, (List.range g.size).mapM (fun node => (layers.column node).hash) = .ok hashes ∧
        Merkle.Tree.ofLeaves shape hashes = .ok t := by
  rw [columnTree_eq hlayers, Result.bind_eq_ok_iff]
  simp only [Result.whileBuilding_eq_ok_iff]

/-! ## Replication -/

/-- Data passes the check of its size exactly if it has a node for each of the graph. -/
theorem requireSize_eq_ok_iff {g : LayerGraph} {nodes : List Element} {u : Unit} :
    requireSize g (HashFamily.concatBytes nodes) = .ok u ↔ nodes.length = g.size := by
  unfold requireSize
  rw [Result.require_eq_ok_iff, LayerGraph.sectorSize, HashFamily.length_concatBytes_eq_iff]

/-- What is made before the data is replaced, and from what. -/
structure PreparedFrom (params : Params) (replicaId : Element) (given : Option Merkle.Tree)
    (nodes : List Element) (layers : Layers) (dataTree columnTree : Merkle.Tree) : Prop where
  length_nodes : nodes.length = params.graph.size
  canonical : ∀ e ∈ nodes, e.IsCanonical
  dataTree_eq : Replica.dataTree params (HashFamily.concatBytes nodes) given = .ok dataTree
  leafCount_eq : dataTree.leafCount = params.graph.size
  layers_eq : Layers.generate params.graph params.plan.layers replicaId = .ok layers
  columnTree_eq : Replica.columnTree params.treeShape layers params.graph.size = .ok columnTree
  layers_pos : 1 ≤ params.plan.layers

/-- What was prepared holds the layers of the replica's labels. -/
theorem PreparedFrom.generated {nodes : List Element} {layers : Layers}
    {dataTree columnTree : Merkle.Tree}
    (h : PreparedFrom params replicaId given nodes layers dataTree columnTree) :
    layers.Generated params.graph params.plan.layers replicaId :=
  Layers.generated_of_generate h.layers_eq

/-- Preparation succeeds exactly on joined nodes from which layers and trees were made; its keys are
the labels of the last layer. -/
theorem prepare_eq_ok_iff {data : Bytes} {prepared : Prepared} :
    prepare params replicaId given data = .ok prepared ↔
      ∃ nodes, HashFamily.concatBytes nodes = data ∧
        PreparedFrom params replicaId given nodes prepared.layers prepared.dataTree
          prepared.columnTree ∧
        prepared.keys = prepared.layers.labelsOf params.plan.layers := by
  unfold prepare
  refine ⟨?_, ?_⟩
  · intro h
    obtain ⟨_, hsize, h⟩ := Result.bind_eq_ok h
    obtain ⟨nodes, hnodes, h⟩ := Result.bind_eq_ok h
    obtain ⟨tree, htree, h⟩ := Result.bind_eq_ok h
    obtain ⟨_, hcount, h⟩ := Result.bind_eq_ok h
    obtain ⟨layers, hlayers, h⟩ := Result.bind_eq_ok h
    obtain ⟨columns, hcolumns, h⟩ := Result.bind_eq_ok h
    obtain ⟨keys, hkeys, h⟩ := Result.bind_eq_ok h
    cases h
    obtain ⟨rfl, hcanonical⟩ := Data.nodes_eq_ok_iff.mp hnodes
    obtain ⟨hpos, hkeys⟩ := (Layers.generated_of_generate hlayers).last_eq_ok_iff.mp hkeys
    exact ⟨nodes, rfl, ⟨requireSize_eq_ok_iff.mp hsize, hcanonical, htree,
      Result.require_eq_ok_iff.mp hcount, hlayers, hcolumns, hpos⟩, hkeys⟩
  · intro h
    obtain ⟨nodes, rfl, h, hkeys⟩ := h
    have hsize : requireSize params.graph (HashFamily.concatBytes nodes) = .ok () :=
      requireSize_eq_ok_iff.mpr h.length_nodes
    have hnodes := Data.nodes_eq_ok_iff.mpr ⟨rfl, h.canonical⟩
    have hlast := h.generated.last_eq_ok_iff.mpr ⟨h.layers_pos, hkeys⟩
    show requireSize params.graph (HashFamily.concatBytes nodes) >>= _ = _
    rw [hsize, Result.ok_bind, hnodes, Result.ok_bind, h.dataTree_eq, Result.ok_bind,
      Result.require_of h.leafCount_eq, Result.ok_bind, h.layers_eq, Result.ok_bind,
      h.columnTree_eq, Result.ok_bind, hlast]
    rfl

/-- What a successful replication makes of the nodes of data: the nodes of the replica, a
commitment, and what the prover keeps. -/
structure Replicated (params : Params) (replicaId : Element) (given : Option Merkle.Tree)
    (nodes : List Element) (commitment : Commitment) (witness : Witness)
    (replica : List Element) : Prop
    extends PreparedFrom params replicaId given nodes witness.layers witness.dataTree
      witness.columnTree where
  replaced : Replaced Encoding.encode (witness.layers.labelsOf params.plan.layers).toList nodes
    replica
  replicaTree_eq : Merkle.Tree.ofLeaves params.treeShape replica = .ok witness.replicaTree
  inner_eq : witness.inner = ⟨witness.columnTree.root, witness.replicaTree.root⟩
  data_eq : commitment.data = witness.dataTree.root
  replica_eq : params.treeShape.family.pair witness.columnTree.root witness.replicaTree.root
    = .ok commitment.replica

/-- A replica is made of canonical elements. -/
theorem Replicated.isCanonical_replica {nodes replica : List Element} {commitment : Commitment}
    {witness : Witness}
    (h : Replicated params replicaId given nodes commitment witness replica) :
    ∀ e ∈ replica, e.IsCanonical :=
  h.replaced.forall_mem fun _ _ _ => Encoding.isCanonical_of_encode

/-- The commitment is made exactly if the replica has a tree and both roots a common hash. -/
theorem commit_eq_ok_iff {prepared : Prepared} {replica : List Element}
    (hcanonical : ∀ e ∈ replica, e.IsCanonical) {commitment : Commitment} {witness : Witness} :
    commit params prepared (HashFamily.concatBytes replica) = .ok (commitment, witness) ↔
      ∃ tree, Merkle.Tree.ofLeaves params.treeShape replica = .ok tree ∧
        commitment.data = prepared.dataTree.root ∧
        params.treeShape.family.pair prepared.columnTree.root tree.root
          = .ok commitment.replica ∧
        witness = ⟨⟨prepared.columnTree.root, tree.root⟩, prepared.layers, prepared.dataTree,
          prepared.columnTree, tree⟩ := by
  unfold commit
  refine ⟨?_, ?_⟩
  · intro h
    obtain ⟨tree, htree, h⟩ := Result.bind_eq_ok h
    obtain ⟨digest, hdigest, h⟩ := Result.bind_eq_ok h
    cases h
    exact ⟨tree, (Merkle.Tree.ofData_eq_ok_iff hcanonical).mp htree, rfl, hdigest, rfl⟩
  · intro h
    obtain ⟨tree, htree, hdata, hreplica, rfl⟩ := h
    rw [(Merkle.Tree.ofData_eq_ok_iff hcanonical).mpr htree, Result.ok_bind]
    show params.treeShape.family.pair prepared.columnTree.root tree.root >>= _ = _
    rw [hreplica, Result.ok_bind, ← hdata]
    rfl

/-- There is a key for every node. -/
theorem PreparedFrom.length_keys {nodes : List Element} {layers : Layers}
    {dataTree columnTree : Merkle.Tree}
    (h : PreparedFrom params replicaId given nodes layers dataTree columnTree) :
    (layers.labelsOf params.plan.layers).toList.length = nodes.length := by
  rw [h.generated.length_labelsOf h.layers_pos (Nat.le_refl _), h.length_nodes]

/-- What was made for a witness before the data was replaced. -/
def preparedOf (params : Params) (witness : Witness) : Prepared :=
  ⟨witness.layers, witness.dataTree, witness.columnTree,
    witness.layers.labelsOf params.plan.layers⟩

/-- Data is replicated exactly if its nodes are. -/
theorem replicate_eq_ok_iff {data result : Bytes} {commitment : Commitment} {witness : Witness} :
    replicate params replicaId given data = (.ok (commitment, witness), result) ↔
      ∃ nodes replica, HashFamily.concatBytes nodes = data ∧
        HashFamily.concatBytes replica = result ∧
        Replicated params replicaId given nodes commitment witness replica := by
  unfold replicate
  refine ⟨?_, ?_⟩
  · intro h
    split at h
    · cases h
    · rename_i prepared hprepared
      obtain ⟨nodes, rfl, hfrom, hkeys⟩ := prepare_eq_ok_iff.mp hprepared
      split at h
      · cases h
      · rename_i replica hreplica
        rw [hkeys] at hreplica
        obtain ⟨replica, hreplaced, rfl⟩ :=
          (replaceNodes_eq_ok_iff hfrom.canonical hfrom.length_keys).mp hreplica
        -- the data is left as it is once its nodes are replaced
        injection h with hcommit hresult
        have hcanonical := hreplaced.forall_mem fun _ _ _ => Encoding.isCanonical_of_encode
        obtain ⟨tree, htree, hdata, hpair, rfl⟩ := (commit_eq_ok_iff hcanonical).mp hcommit
        exact ⟨nodes, replica, rfl, hresult, hfrom, hreplaced, htree, rfl, hdata, hpair⟩
  · intro h
    obtain ⟨nodes, replica, rfl, rfl, h⟩ := h
    have hprepared : prepare params replicaId given (HashFamily.concatBytes nodes)
        = .ok (preparedOf params witness) :=
      prepare_eq_ok_iff.mpr ⟨nodes, rfl, h.toPreparedFrom, rfl⟩
    have hreplaced : replaceNodes Encoding.encode (preparedOf params witness).keys.toList
        (HashFamily.concatBytes nodes) = (.ok (), HashFamily.concatBytes replica) :=
      (replaceNodes_eq_ok_iff h.canonical h.length_keys).mpr ⟨replica, h.replaced, rfl⟩
    have hwitness : witness = ⟨⟨witness.columnTree.root, witness.replicaTree.root⟩,
        witness.layers, witness.dataTree, witness.columnTree, witness.replicaTree⟩ := by
      rw [← h.inner_eq]
    have hcommit : commit params (preparedOf params witness) (HashFamily.concatBytes replica)
        = .ok (commitment, witness) :=
      (commit_eq_ok_iff h.isCanonical_replica).mpr
        ⟨_, h.replicaTree_eq, h.data_eq, h.replica_eq, hwitness⟩
    simp only [hprepared, hreplaced, hcommit]

/-! ## Extraction -/

/-- What a successful extraction makes of the nodes of a replica: the nodes of the data. -/
structure Extracted (params : Params) (replicaId : Element) (replica : List Element)
    (layers : Layers) (nodes : List Element) : Prop where
  length_replica : replica.length = params.graph.size
  canonical : ∀ e ∈ replica, e.IsCanonical
  layers_eq : Layers.generate params.graph params.plan.layers replicaId = .ok layers
  layers_pos : 1 ≤ params.plan.layers
  replaced : Replaced Encoding.decode (layers.labelsOf params.plan.layers).toList replica nodes

/-- A replica is extracted exactly if its nodes are. -/
theorem extract_eq_ok_iff {result data : Bytes} :
    extract params replicaId result = .ok data ↔
      ∃ replica layers nodes, HashFamily.concatBytes replica = result ∧
        HashFamily.concatBytes nodes = data ∧
        Extracted params replicaId replica layers nodes := by
  unfold extract
  refine ⟨?_, ?_⟩
  · intro h
    obtain ⟨_, hsize, h⟩ := Result.bind_eq_ok h
    obtain ⟨replica, hreplica, h⟩ := Result.bind_eq_ok h
    obtain ⟨layers, hlayers, h⟩ := Result.bind_eq_ok h
    obtain ⟨keys, hkeys, h⟩ := Result.bind_eq_ok h
    obtain ⟨_, houtcome, h⟩ := Result.bind_eq_ok h
    injection h with h
    obtain ⟨rfl, hcanonical⟩ := Data.nodes_eq_ok_iff.mp hreplica
    have hgenerated := Layers.generated_of_generate hlayers
    obtain ⟨hpos, rfl⟩ := hgenerated.last_eq_ok_iff.mp hkeys
    have hlen := requireSize_eq_ok_iff.mp hsize
    have hkeysLen := (hgenerated.length_labelsOf hpos (Nat.le_refl _)).trans hlen.symm
    -- there are as many keys as nodes, so the walk in place replaces the whole list
    obtain ⟨nodes, hreplaced, hnodes⟩ :=
      (replaceNodes_eq_ok_iff hcanonical hkeysLen).mp (Prod.ext houtcome h)
    exact ⟨replica, layers, nodes, rfl, hnodes, hlen, hcanonical, hlayers, hpos, hreplaced⟩
  · intro h
    obtain ⟨replica, layers, nodes, rfl, rfl, h⟩ := h
    have hgenerated := Layers.generated_of_generate h.layers_eq
    have hlast := hgenerated.last_eq_ok_iff.mpr ⟨h.layers_pos, rfl⟩
    have hsize : requireSize params.graph (HashFamily.concatBytes replica) = .ok () :=
      requireSize_eq_ok_iff.mpr h.length_replica
    have hnodes := Data.nodes_eq_ok_iff.mpr ⟨rfl, h.canonical⟩
    have hkeysLen := (hgenerated.length_labelsOf h.layers_pos (Nat.le_refl _)).trans
      h.length_replica.symm
    have hreplaced := (replaceNodes_eq_ok_iff h.canonical hkeysLen).mpr ⟨nodes, h.replaced, rfl⟩
    rw [hsize, Result.ok_bind, hnodes, Result.ok_bind, h.layers_eq, Result.ok_bind, hlast,
      Result.ok_bind, hreplaced]
    rfl

end Replica

end Replication

import Replication.Proofs.Graph.Construction
import Replication.Proofs.Replica.Honest

/-!
# A failed replication leaves the data alone

Data is overwritten in the middle of a replication, and more steps follow that may fail in
general. None of them does: whatever they need was already asked for while the replication was
prepared. The keys and the nodes are canonical, so every node has an encoding; the tree over the
columns was built, so the tree over as many nodes of the replica can be built too; and both roots
are canonical. Main statement: a replication fails exactly if its preparation does, and the data
is then what it was (`replicate_eq_error_iff`).
-/

namespace Replication.Replica

variable {params : Params} {replicaId : Element} {given : Option Merkle.Tree}

/-- The tree over the columns has a canonical leaf for each node. -/
theorem exists_columnHashes {g : LayerGraph} {count : Nat} {layers : Layers}
    {shape : Merkle.Shape} {t : Merkle.Tree} (hlayers : layers.Generated g count replicaId)
    (ht : columnTree shape layers g.size = .ok t) :
    ∃ hashes, hashes.length = g.size ∧ (∀ e ∈ hashes, e.IsCanonical) ∧
      Merkle.Tree.ofLeaves shape hashes = .ok t := by
  obtain ⟨hashes, hhashes, htree⟩ := (columnTree_eq_ok_iff hlayers).mp ht
  obtain ⟨hlen, hcanonical⟩ := Layers.hashes_of_columns hhashes
  exact ⟨hashes, hlen, hcanonical, htree⟩

/-- Nothing that follows the preparation can fail. -/
theorem PreparedFrom.exists_replicated {nodes : List Element} {layers : Layers}
    {dataTree columnTree : Merkle.Tree}
    (h : PreparedFrom params replicaId given nodes layers dataTree columnTree) :
    ∃ commitment w replica, Replicated params replicaId given nodes commitment w replica := by
  have hlast := h.generated.labelled params.plan.layers h.layers_pos (Nat.le_refl _)
  -- keys are labels, so every node is encoded
  obtain ⟨replica, hreplaced⟩ := exists_replaced (f := Encoding.encode)
    (fun key hkey node hnode =>
      Encoding.exists_encode (hlast.isCanonical key hkey) (h.canonical node hnode)) h.length_keys
  have hcanonical : ∀ e ∈ replica, e.IsCanonical :=
    hreplaced.forall_mem fun _ _ _ => Encoding.isCanonical_of_encode
  have hreplicaLen : replica.length = params.graph.size := by
    rw [hreplaced.length_replaced, h.length_keys, h.length_nodes]
  -- there are as many nodes as columns, and a tree over the columns was built
  obtain ⟨hashes, hlen, hhashes, htree⟩ := exists_columnHashes h.generated h.columnTree_eq
  obtain ⟨replicaTree, hreplicaTree⟩ := Merkle.Tree.exists_ofLeaves_of_length_eq
    (hlen ▸ params.graph.two_le_size) (hlen ▸ params.graph.size_lt) hhashes htree
    (hreplicaLen.trans hlen.symm) hcanonical
  obtain ⟨-, hcolumnOver⟩ := over_of_ofLeaves hlen hhashes htree
  obtain ⟨-, hreplicaOver⟩ := over_of_ofLeaves hreplicaLen hcanonical hreplicaTree
  obtain ⟨digest, hdigest⟩ := HashFamily.exists_pair params.treeShape.family
    hcolumnOver.isCanonical_root hreplicaOver.isCanonical_root
  exact ⟨⟨dataTree.root, digest⟩,
    ⟨⟨columnTree.root, replicaTree.root⟩, layers, dataTree, columnTree, replicaTree⟩, replica,
    h, hreplaced, hreplicaTree, rfl, rfl, hdigest⟩

/-- Once the preparation succeeds, nothing that follows can fail. -/
theorem exists_replicate_of_prepare {data : Bytes} {prepared : Prepared}
    (h : prepare params replicaId given data = .ok prepared) :
    ∃ out result, replicate params replicaId given data = (.ok out, result) := by
  obtain ⟨nodes, hnodes, hfrom, -⟩ := prepare_eq_ok_iff.mp h
  obtain ⟨commitment, w, replica, hreplicated⟩ := hfrom.exists_replicated
  exact ⟨(commitment, w), _, replicate_eq_ok_iff.mpr ⟨nodes, replica, hnodes, rfl, hreplicated⟩⟩

/-- A replication fails exactly if its preparation does, for the same reason, and leaves the data
as it was. -/
theorem replicate_eq_error_iff {data result : Bytes} {failure : Failure} :
    replicate params replicaId given data = (.error failure, result) ↔
      prepare params replicaId given data = .error failure ∧ result = data := by
  rcases hprepare : prepare params replicaId given data with reason | prepared
  · have hreplicate : replicate params replicaId given data = (.error reason, data) := by
      unfold replicate
      rw [hprepare]
    rw [hreplicate, Prod.mk.injEq, Except.error.injEq, Except.error.injEq, eq_comm (a := data)]
  · obtain ⟨out, result', hreplicate⟩ := exists_replicate_of_prepare hprepare
    rw [hreplicate]
    simp

/-! ## A late refusal -/

/-- Parameters with two layers whose column and replica trees have arity four. -/
def quaternaryParams (g : LayerGraph) : Params := ⟨g, ⟨2, 1⟩, ⟨.poseidon, 4⟩, .sha256⟩

/-- Eight nodes fill a binary tree and no tree of arity four. -/
def eightNodes : List Element := List.replicate 8 .zero

theorem isCanonical_eightNodes : ∀ e ∈ eightNodes, e.IsCanonical := by
  decide

/-- The data is accepted and labelled, and the columns of its eight nodes are hashed before a tree
over them is refused. -/
theorem prepare_eightNodes {g : LayerGraph} (hsize : g.size = 8) :
    prepare (quaternaryParams g) .zero none (HashFamily.concatBytes eightNodes)
      = .error (.refused (.whileBuilding .column (.treeSize 8 4))) := by
  have hlen : eightNodes.length = g.size := hsize.symm
  obtain ⟨dataTree, htree⟩ := Merkle.Tree.exists_ofLeaves
    (Merkle.Shape.supported_binary .sha256) (show 1 ≤ 3 by decide)
    (show eightNodes.length = 2 ^ 3 by decide) isCanonical_eightNodes
  obtain ⟨-, hover⟩ := over_of_ofLeaves hlen isCanonical_eightNodes htree
  have hdata : Replica.dataTree (quaternaryParams g) (HashFamily.concatBytes eightNodes) none
      = .ok dataTree := (Merkle.Tree.ofData_eq_ok_iff isCanonical_eightNodes).mpr htree
  obtain ⟨layers, hlayers⟩ := Layers.exists_generate g 2 .zero
  have hgenerated := Layers.generated_of_generate hlayers
  obtain ⟨hashes, hhashes⟩ := hgenerated.exists_hashes_of_columns (by decide)
  obtain ⟨hcount, -⟩ := Layers.hashes_of_columns hhashes
  rw [hsize] at hcount
  have hcolumns : columnTree ⟨.poseidon, 4⟩ layers g.size
      = .error (.refused (.whileBuilding .column (.treeSize 8 4))) := by
    rw [columnTree_eq hgenerated, hhashes, Result.ok_bind]
    unfold Merkle.Tree.ofLeaves
    rw [hcount]
    rfl
  have hleaves : dataTree.leafCount = (quaternaryParams g).graph.size := hover.length_leaves
  have hrequired : requireSize g (HashFamily.concatBytes eightNodes) = .ok () :=
    requireSize_eq_ok_iff.mpr hlen
  have hnodes := Data.nodes_eq_ok_iff.mpr ⟨rfl, isCanonical_eightNodes⟩
  show requireSize g (HashFamily.concatBytes eightNodes) >>= _ = _
  rw [hrequired, Result.ok_bind, hnodes, Result.ok_bind, hdata, Result.ok_bind,
    Result.require_of hleaves, Result.ok_bind]
  show Layers.generate g 2 .zero >>= _ = _
  rw [hlayers, Result.ok_bind]
  show columnTree ⟨.poseidon, 4⟩ layers g.size >>= _ = _
  rw [hcolumns]
  rfl

/-- Eight nodes are refused after they were labelled, and stay as they are. -/
theorem replicate_eightNodes : ∃ g, LayerGraph.new 8 2 3 .zero = .ok g ∧
    replicate (quaternaryParams g) .zero none (HashFamily.concatBytes eightNodes)
      = (.error (.refused (.whileBuilding .column (.treeSize 8 4))),
        HashFamily.concatBytes eightNodes) := by
  have hexists : ∃ g, LayerGraph.new 8 2 3 .zero = .ok g :=
    LayerGraph.exists_new .zero (by decide) (by decide) (by decide) (by decide)
  obtain ⟨g, hg⟩ := hexists
  exact ⟨g, hg, replicate_eq_error_iff.mpr
    ⟨prepare_eightNodes (LayerGraph.size_of_new hg), rfl⟩⟩

end Replication.Replica

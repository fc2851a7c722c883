import Replication.Replica.Partition
import Replication.Proofs.Proof.ChallengeProof
import Replication.Proofs.Replica.Replication

/-!
# Proofs from an honest witness

The witness of a replication determines the proof of every challenge: three trees are opened, and
labels are read off the layers. This module writes that proof down as a value, shows that it is
what the prover puts together (`assembleProof_eq`), and shows that it is accepted
(`verify_challengeProof`), so that a prover who verifies what it proves returns it as well.
-/

namespace Replication

namespace Witness

/-- The opening of the column of a node. -/
def columnOpening (w : Witness) (node : Nat) : ColumnOpening :=
  ⟨w.layers.column node, w.columnTree.opening node⟩

/-- The openings of the columns of a challenge and of its parents. -/
def columns (w : Witness) (challenge : Nat) (base expander : List Nat) : ColumnOpenings :=
  ⟨w.columnOpening challenge, base.map w.columnOpening, expander.map w.columnOpening⟩

/-- The opening of the label of a challenge in a layer. -/
def labelOpening (w : Witness) (challenge : Nat) (base expander : List Nat) (layer : Nat) :
    LabelOpening :=
  ⟨w.layers.parentEntries layer base expander, layer.toUInt32, challenge.toUInt64⟩

/-- The proof of a challenge with the given parents. -/
def challengeProof (w : Witness) (layers challenge : Nat) (base expander : List Nat) :
    ChallengeProof where
  dataOpening := w.dataTree.opening challenge
  replicaOpening := w.replicaTree.opening challenge
  columns := w.columns challenge base expander
  labels := (List.range' 2 (layers - 1)).map (w.labelOpening challenge base expander)
  key := w.labelOpening challenge base expander layers

/-- An honest proof opens a label for every layer but the first. -/
theorem length_labels_challengeProof (w : Witness) (layers challenge : Nat)
    (base expander : List Nat) :
    (w.challengeProof layers challenge base expander).labels.length = layers - 1 := by
  unfold challengeProof
  rw [List.length_map, List.length_range']

theorem getElem_labels_challengeProof {w : Witness} {layers challenge : Nat}
    {base expander : List Nat} {i : Nat}
    (hi : i < (w.challengeProof layers challenge base expander).labels.length) :
    (w.challengeProof layers challenge base expander).labels[i]
      = w.labelOpening challenge base expander (2 + i) := by
  simp only [challengeProof, List.getElem_map, List.getElem_range', Nat.one_mul]

end Witness

namespace Replica

variable {params : Params} {replicaId : Element} {nodes replica : List Element}
  {commitment : Commitment} {w : Witness}

/-! ## The three trees -/

/-- A tree over one canonical leaf for each node of a graph is complete. -/
theorem over_of_ofLeaves {shape : Merkle.Shape} {g : LayerGraph} {leaves : List Element}
    {t : Merkle.Tree} (hlen : leaves.length = g.size) (hcanonical : ∀ e ∈ leaves, e.IsCanonical)
    (ht : Merkle.Tree.ofLeaves shape leaves = .ok t) :
    t.leaves = leaves ∧ t.Over shape g.size := by
  have htwo := g.two_le_size
  have hlt := g.size_lt
  rw [← hlen] at htwo hlt ⊢
  exact Merkle.Tree.over_of_ofLeaves htwo hlt hcanonical ht

/-- The data tree of a replication stands over the original nodes. -/
theorem Replicated.dataTree_over
    (h : Replicated params replicaId none nodes commitment w replica) :
    w.dataTree.leaves = nodes ∧ w.dataTree.Over params.dataShape params.graph.size :=
  over_of_ofLeaves h.length_nodes h.canonical
    ((Merkle.Tree.ofData_eq_ok_iff h.canonical).mp h.dataTree_eq)

/-- The column tree of a replication stands over the hashes of its columns. -/
theorem Replicated.columnTree_over {given : Option Merkle.Tree}
    (h : Replicated params replicaId given nodes commitment w replica) :
    (∀ node (hnode : node < w.columnTree.leaves.length),
        (w.layers.column node).hash = .ok w.columnTree.leaves[node]) ∧
      w.columnTree.Over params.treeShape params.graph.size := by
  obtain ⟨hashes, hhashes, htree⟩ := (columnTree_eq_ok_iff h.generated).mp h.columnTree_eq
  obtain ⟨hlen, hcanonical⟩ := Layers.hashes_of_columns hhashes
  obtain ⟨hleaves, hover⟩ := over_of_ofLeaves hlen hcanonical htree
  refine ⟨?_, hover⟩
  intro node hnode
  have hlt : node < hashes.length := by rwa [hleaves] at hnode
  have hget := Result.getElem_of_mapM hhashes node (by rw [List.length_range]; omega) hlt
  rw [List.getElem_range] at hget
  rw [hget]
  simp only [hleaves]

/-- A replica has an element for every node. -/
theorem Replicated.length_replica {given : Option Merkle.Tree}
    (h : Replicated params replicaId given nodes commitment w replica) :
    replica.length = params.graph.size := by
  rw [h.replaced.length_replaced, h.length_keys, h.length_nodes]

theorem Replicated.replicaTree_over {given : Option Merkle.Tree}
    (h : Replicated params replicaId given nodes commitment w replica) :
    w.replicaTree.leaves = replica ∧ w.replicaTree.Over params.treeShape params.graph.size :=
  over_of_ofLeaves h.length_replica h.isCanonical_replica h.replicaTree_eq

/-- The tree over the data is binary, whatever the other two are. -/
theorem dataShape_arity_mem (params : Params) : params.dataShape.arity ∈ [2, 4, 8, 16] := by
  show 2 ∈ [2, 4, 8, 16]
  decide

/-- Only columns of two or eleven labels can be hashed. -/
theorem Replicated.layers_mem {given : Option Merkle.Tree}
    (h : Replicated params replicaId given nodes commitment w replica) :
    params.plan.layers ∈ Params.supportedLayers := by
  obtain ⟨hhash, hover⟩ := h.columnTree_over
  have hpos : 0 < params.graph.size := Nat.lt_of_lt_of_le (by decide) params.graph.two_le_size
  -- the graph has a node, and its column was hashed
  have hrows := Column.length_rows_of_hash (hhash 0 (hover.lt_length hpos))
  rwa [show (w.layers.column 0).rows.length = w.layers.count from Layers.length_rows _ _,
    h.generated.count_eq] at hrows

/-- A supported number of layers is at least two and fits 32 bits. -/
theorem layers_bounds (h : params.plan.layers ∈ Params.supportedLayers) :
    2 ≤ params.plan.layers ∧ params.plan.layers < Word.halfLimit := by
  have hlimit : 11 < Word.halfLimit := by decide
  simp only [Params.supportedLayers, List.mem_cons, List.not_mem_nil, or_false] at h
  omega

/-! ## What the prover puts together -/

variable {challenge : Nat} {base expander : List Nat}

/-- The column of every node can be opened, and the opening is the honest one. -/
theorem openColumn_eq {given : Option Merkle.Tree}
    (h : Replicated params replicaId given nodes commitment w replica) {node : Nat}
    (hnode : node < params.graph.size) : openColumn w node = .ok (w.columnOpening node) := by
  obtain ⟨-, hover⟩ := h.columnTree_over
  have hindex : (w.layers.column node).index.toNat = node :=
    Layers.Generated.toNat_toUInt32 hnode
  unfold openColumn
  rw [h.generated.ofLayers_eq hnode, Result.ok_bind]
  unfold ColumnOpening.ofColumn
  rw [hindex, Merkle.Tree.openAt_eq _ (hover.lt_length hnode)]
  rfl

/-- The columns around every node can be opened, and the openings are the honest ones. -/
theorem openColumns_eq {given : Option Merkle.Tree}
    (h : Replicated params replicaId given nodes commitment w replica)
    (hparents : params.graph.Parents challenge base expander)
    (hchallenge : challenge < params.graph.size) :
    openColumns params.graph w challenge = .ok (w.columns challenge base expander) := by
  have hbase : base.mapM (openColumn w) = .ok (base.map w.columnOpening) := by
    apply Result.mapM_eq_ok_map
    intro parent hparent
    have hle := hparents.base_le parent hparent
    exact openColumn_eq h (by omega)
  have hexpander : expander.mapM (openColumn w) = .ok (expander.map w.columnOpening) := by
    apply Result.mapM_eq_ok_map
    intro parent hparent
    exact openColumn_eq h (hparents.expander_lt parent hparent)
  unfold openColumns
  rw [hparents.parents_eq hchallenge, Result.ok_bind, hparents.take_eq, hparents.drop_eq,
    openColumn_eq h hchallenge, Result.ok_bind, hbase, Result.ok_bind, hexpander]
  rfl

/-- The label of every node but the first can be opened from layer two on. -/
theorem openLabel_eq {given : Option Merkle.Tree}
    (h : Replicated params replicaId given nodes commitment w replica)
    (hparents : params.graph.Parents challenge base expander)
    (hchallenge : challenge < params.graph.size) (hzero : challenge ≠ 0) {layer : Nat}
    (htwo : 2 ≤ layer) (hle : layer ≤ params.plan.layers) :
    openLabel params.graph w.layers challenge layer
      = .ok (w.labelOpening challenge base expander layer) := by
  have hgenerated := h.generated
  unfold openLabel
  rw [hgenerated.layer_eq (by omega) hle, Result.ok_bind,
    hgenerated.layer_eq (by omega) (by omega), Result.ok_bind,
    hgenerated.parentLabels_eq hparents hchallenge hzero htwo hle]
  rfl

/-- The prover puts together the proof that the witness determines. -/
theorem assembleProof_eq (h : Replicated params replicaId none nodes commitment w replica)
    (hparents : params.graph.Parents challenge base expander)
    (hchallenge : challenge < params.graph.size) (hzero : challenge ≠ 0)
    (hlayers : 2 ≤ params.plan.layers) :
    assembleProof params w challenge
      = .ok (w.challengeProof params.plan.layers challenge base expander) := by
  obtain ⟨-, hdata⟩ := h.dataTree_over
  obtain ⟨-, hreplica⟩ := h.replicaTree_over
  have hdataOpening := w.dataTree.openAt_eq (hdata.lt_length hchallenge)
  have hreplicaOpening := w.replicaTree.openAt_eq (hreplica.lt_length hchallenge)
  have hlabels : Result.forRange (openLabel params.graph w.layers challenge) 2
      (params.plan.layers - 1) = .ok ((List.range' 2 (params.plan.layers - 1)).map
        (w.labelOpening challenge base expander)) := by
    rw [Result.forRange_eq_mapM]
    apply Result.mapM_eq_ok_map
    intro layer hlayer
    rw [List.mem_range'_1] at hlayer
    exact openLabel_eq h hparents hchallenge hzero hlayer.1 (by omega)
  have hkey := openLabel_eq h hparents hchallenge hzero hlayers (Nat.le_refl _)
  show w.dataTree.openAt challenge >>= _ = _
  rw [hdataOpening, Result.ok_bind, openColumns_eq h hparents hchallenge, Result.ok_bind,
    hreplicaOpening, Result.ok_bind, hlabels, Result.ok_bind, hkey]
  rfl

/-! ## The shape of the proof -/

/-- The openings of a tree of a supported arity pass the check of their shape. -/
theorem requireOpening_opening {t : Merkle.Tree} {shape : Merkle.Shape} {count i : Nat}
    (ht : t.Over shape count) (harity : shape.arity ∈ [2, 4, 8, 16]) (hi : i < count) :
    ChallengeProof.requireOpening shape.arity count (t.opening i) = .ok () :=
  ChallengeProof.requireOpening_eq_ok_iff.mpr
    ⟨ht.requireLevels_opening (ht.countsRows harity) hi, ht.requireElements_opening hi⟩

theorem requireColumn_columnOpening {given : Option Merkle.Tree}
    (h : Replicated params replicaId given nodes commitment w replica)
    (harity : params.treeShape.arity ∈ [2, 4, 8, 16]) {node : Nat}
    (hnode : node < params.graph.size) :
    ChallengeProof.requireColumn params.treeShape.arity params.graph.size params.plan.layers
      (w.columnOpening node) = .ok () := by
  obtain ⟨-, hover⟩ := h.columnTree_over
  have hopening := requireOpening_opening hover harity hnode
  rw [ChallengeProof.requireColumn_eq_ok_iff]
  refine ⟨?_, h.generated.isCanonical_rows hnode, hopening⟩
  show (w.layers.rows node).length = params.plan.layers
  rw [Layers.length_rows, h.generated.count_eq]

/-- A node has as many parent entries as the graph's degree. -/
theorem length_parentEntries {layers : Layers} {layer : Nat} {g : LayerGraph}
    (hparents : g.Parents challenge base expander) :
    (layers.parentEntries layer base expander).length = g.degree := by
  unfold Layers.parentEntries
  rw [List.length_append, List.length_map, List.length_map, hparents.length_base,
    hparents.length_expander, LayerGraph.degree]

/-- An honest proof is well-shaped. -/
theorem shaped_challengeProof (h : Replicated params replicaId none nodes commitment w replica)
    (harity : params.treeShape.arity ∈ [2, 4, 8, 16])
    (hparents : params.graph.Parents challenge base expander)
    (hchallenge : challenge < params.graph.size) (hlayers : 2 ≤ params.plan.layers) :
    ChallengeProof.Shaped params
      (w.challengeProof params.plan.layers challenge base expander) := by
  obtain ⟨-, hdata⟩ := h.dataTree_over
  obtain ⟨-, hreplica⟩ := h.replicaTree_over
  refine ⟨?_, ?_, ?_, ?_, ?_, ?_, ?_⟩
  · show (base.map w.columnOpening).length = _
    rw [List.length_map, hparents.length_base]
  · show (expander.map w.columnOpening).length = _
    rw [List.length_map, hparents.length_expander]
  · intro o ho
    -- every opened column is that of a node of the graph
    have hopened : ∃ node, node < params.graph.size ∧ o = w.columnOpening node := by
      rcases List.mem_cons.mp ho with rfl | ho
      · exact ⟨challenge, hchallenge, rfl⟩
      rcases List.mem_append.mp ho with ho | ho
      · obtain ⟨parent, hparent, rfl⟩ := List.mem_map.mp ho
        have hle := hparents.base_le parent hparent
        exact ⟨parent, by omega, rfl⟩
      · obtain ⟨parent, hparent, rfl⟩ := List.mem_map.mp ho
        exact ⟨parent, hparents.expander_lt parent hparent, rfl⟩
    obtain ⟨node, hnode, rfl⟩ := hopened
    exact requireColumn_columnOpening h harity hnode
  · exact requireOpening_opening hdata (dataShape_arity_mem params) hchallenge
  · exact requireOpening_opening hreplica harity hchallenge
  · rw [Witness.length_labels_challengeProof]
    omega
  · intro o ho
    have hlabel : ∃ layer, o = w.labelOpening challenge base expander layer := by
      rcases List.mem_append.mp ho with ho | ho
      · obtain ⟨layer, -, rfl⟩ := List.mem_map.mp ho
        exact ⟨layer, rfl⟩
      · exact ⟨_, List.mem_singleton.mp ho⟩
    obtain ⟨layer, rfl⟩ := hlabel
    exact length_parentEntries hparents

/-! ## The parts of the proof -/

/-- An honest column opening opens its node in the column tree. -/
theorem opensAt_columnOpening {given : Option Merkle.Tree}
    (h : Replicated params replicaId given nodes commitment w replica) {node : Nat}
    (hnode : node < params.graph.size) :
    (w.columnOpening node).OpensAt params.treeShape node w.columnTree.root := by
  obtain ⟨hhash, hover⟩ := h.columnTree_over
  have hlt := hover.lt_length hnode
  refine ⟨?_, rfl, hover.verify_opening hnode, hover.position_opening hnode⟩
  show (w.layers.column node).hash = .ok (w.columnTree.opening node).leaf
  rw [Merkle.Tree.leaf_opening _ hlt, hhash node hlt]

/-- All columns around a challenge are opened under the root of the column tree. -/
theorem openAround_columns {given : Option Merkle.Tree}
    (h : Replicated params replicaId given nodes commitment w replica)
    (hparents : params.graph.Parents challenge base expander)
    (hchallenge : challenge < params.graph.size) :
    (w.columns challenge base expander).OpenAround params.treeShape challenge base
      expander := by
  refine ⟨?_, ?_, ?_⟩
  · rw [LayerGraph.mod_halfLimit hchallenge]
    exact opensAt_columnOpening h hchallenge
  · show List.Forall₂ _ (base.map w.columnOpening) base
    rw [List.forall₂_map_left_iff, List.forall₂_same]
    intro parent hparent
    have hle := hparents.base_le parent hparent
    exact opensAt_columnOpening h (by omega)
  · show List.Forall₂ _ (expander.map w.columnOpening) expander
    rw [List.forall₂_map_left_iff, List.forall₂_same]
    intro parent hparent
    exact opensAt_columnOpening h (hparents.expander_lt parent hparent)

/-- Honest column openings hold the labels of their nodes at every layer. -/
theorem mapM_label_columnOpening {given : Option Merkle.Tree}
    (h : Replicated params replicaId given nodes commitment w replica) {layer : Nat}
    (hpos : 1 ≤ layer) (hle : layer ≤ params.plan.layers) (positions : List Nat) :
    (positions.map w.columnOpening).mapM (fun o => o.column.label layer)
      = .ok (positions.map (w.layers.entry layer)) := by
  rw [List.mapM_map]
  apply Result.mapM_eq_ok_map
  intro position _
  exact h.generated.label_column hpos hle

/-- The labels read off the opened columns are those read off the layers. -/
theorem parentLabels_columns {given : Option Merkle.Tree}
    (h : Replicated params replicaId given nodes commitment w replica) {layer : Nat}
    (htwo : 2 ≤ layer) (hle : layer ≤ params.plan.layers) :
    (w.columns challenge base expander).parentLabels layer
      = .ok (w.layers.parentEntries layer base expander) :=
  (ColumnOpenings.parentLabels_eq_ok_iff htwo).mpr
    ⟨_, _, mapM_label_columnOpening h (by omega) hle base,
      mapM_label_columnOpening h (by omega) (by omega) expander, rfl⟩

/-- The label recomputed from an honest label opening is the generated one. -/
theorem label_labelOpening {given : Option Merkle.Tree}
    (h : Replicated params replicaId given nodes commitment w replica)
    (hparents : params.graph.Parents challenge base expander)
    (hchallenge : challenge < params.graph.size) (hzero : challenge ≠ 0) {layer : Nat}
    (htwo : 2 ≤ layer) (hle : layer ≤ params.plan.layers) :
    (w.labelOpening challenge base expander layer).label replicaId
      = w.layers.entry layer challenge :=
  (h.generated.entry_eq_hash hparents hchallenge hzero htwo hle).symm

/-- An honest label opening is opened by the honest columns. -/
theorem labelOpened_labelOpening {given : Option Merkle.Tree}
    (h : Replicated params replicaId given nodes commitment w replica)
    (hparents : params.graph.Parents challenge base expander)
    (hchallenge : challenge < params.graph.size) (hzero : challenge ≠ 0)
    (hlimit : params.plan.layers < Word.halfLimit) {layer : Nat}
    (htwo : 2 ≤ layer) (hle : layer ≤ params.plan.layers) :
    ChallengeProof.LabelOpened replicaId (w.columns challenge base expander) challenge layer
      (w.labelOpening challenge base expander layer) := by
  refine ⟨⟨?_, ?_, parentLabels_columns h htwo hle⟩, ?_⟩
  · show layer.toUInt32.toNat = layer
    rw [Nat.toUInt32_eq, UInt32.toNat_ofNat']
    exact Nat.mod_eq_of_lt (Nat.lt_of_le_of_lt hle hlimit)
  · show challenge.toUInt64.toNat = challenge
    have hlt := params.graph.size_lt
    have hword : Word.halfLimit < 2 ^ 64 := by decide
    rw [Nat.toUInt64_eq, UInt64.toNat_ofNat']
    exact Nat.mod_eq_of_lt (by omega)
  · rw [label_labelOpening h hparents hchallenge hzero htwo hle]
    exact h.generated.label_column (by omega) hle

/-- The node of the replica is the encoding of the node of data under the last label. -/
theorem encode_leaves (h : Replicated params replicaId none nodes commitment w replica)
    (hchallenge : challenge < params.graph.size) :
    Encoding.encode (w.layers.entry params.plan.layers challenge)
        (w.dataTree.opening challenge).leaf
      = .ok (w.replicaTree.opening challenge).leaf := by
  obtain ⟨hdata, -⟩ := h.dataTree_over
  obtain ⟨hreplica, -⟩ := h.replicaTree_over
  have hdataLt : challenge < nodes.length := by rw [h.length_nodes]; exact hchallenge
  have hreplicaLt : challenge < replica.length := by rw [h.length_replica]; exact hchallenge
  have hkeyLt : challenge < (w.layers.labelsOf params.plan.layers).toList.length := by
    rw [h.length_keys]
    exact hdataLt
  -- the trees open the nodes that were related when the data was replaced
  have hencode := h.replaced.getElem hkeyLt hdataLt hreplicaLt
  have hkey : (w.layers.labelsOf params.plan.layers).toList[challenge]
      = w.layers.entry params.plan.layers challenge := by
    have hsize : challenge < (w.layers.labelsOf params.plan.layers).size := hkeyLt
    rw [Array.getElem_toList]
    exact Array.getElem_eq_getD Element.zero
  have hdataLeaf : (w.dataTree.opening challenge).leaf = nodes[challenge] := by
    rw [Merkle.Tree.leaf_opening _ (by rw [hdata]; exact hdataLt)]
    simp only [hdata]
  have hreplicaLeaf : (w.replicaTree.opening challenge).leaf = replica[challenge] := by
    rw [Merkle.Tree.leaf_opening _ (by rw [hreplica]; exact hreplicaLt)]
    simp only [hreplica]
  rw [← hkey, hdataLeaf, hreplicaLeaf]
  exact hencode

/-- An honest proof answers its challenge, for every node but the first. -/
theorem answers_challengeProof
    (h : Replicated params replicaId none nodes commitment w replica)
    (hparents : params.graph.Parents challenge base expander)
    (hchallenge : challenge < params.graph.size) (hzero : challenge ≠ 0) :
    ChallengeProof.Answers params replicaId commitment challenge
      (w.challengeProof params.plan.layers challenge base expander) := by
  obtain ⟨htwo, hlimit⟩ := layers_bounds h.layers_mem
  obtain ⟨-, hdata⟩ := h.dataTree_over
  obtain ⟨-, hreplica⟩ := h.replicaTree_over
  have hkey := labelOpened_labelOpening h hparents hchallenge hzero hlimit htwo (Nat.le_refl _)
  refine ⟨hdata.position_opening hchallenge, h.data_eq.symm, hdata.verify_opening hchallenge, ?_,
    hreplica.position_opening hchallenge, hreplica.verify_opening hchallenge, ?_,
    hkey.toParentsOpened, ?_⟩
  · intro base' expander' hparents'
    -- the graph names the same parents each time it is asked
    have hsame := hparents'.combinedParents_eq.symm.trans hparents.combinedParents_eq
    injection hsame with hsame
    have hlength : base'.length = base.length := by
      rw [hparents'.length_base, hparents.length_base]
    obtain ⟨rfl, rfl⟩ := List.append_inj hsame hlength
    exact openAround_columns h hparents hchallenge
  · intro i hi
    rw [Witness.getElem_labels_challengeProof hi]
    rw [Witness.length_labels_challengeProof] at hi
    exact labelOpened_labelOpening h hparents hchallenge hzero hlimit (by omega) (by omega)
  · show Encoding.encode ((w.labelOpening challenge base expander params.plan.layers).label _) _ = _
    rw [label_labelOpening h hparents hchallenge hzero htwo (Nat.le_refl _)]
    exact encode_leaves h hchallenge

/-- The proof that the witness determines is accepted. -/
theorem verify_challengeProof
    (h : Replicated params replicaId none nodes commitment w replica)
    (harity : params.treeShape.arity ∈ [2, 4, 8, 16])
    (hparents : params.graph.Parents challenge base expander)
    (hchallenge : challenge < params.graph.size) (hzero : challenge ≠ 0)
    {statement : Statement} (hid : statement.replicaId = replicaId)
    (hcommitment : statement.commitment = some commitment) :
    (w.challengeProof params.plan.layers challenge base expander).verify params statement
      challenge = .ok true := by
  obtain ⟨htwo, -⟩ := layers_bounds h.layers_mem
  rw [ChallengeProof.verify_eq_ok_true_iff]
  refine ⟨hchallenge, commitment, hcommitment, ?_, ?_⟩
  · exact shaped_challengeProof h harity hparents hchallenge htwo
  · rw [hid]
    exact answers_challengeProof h hparents hchallenge hzero

end Replica

end Replication

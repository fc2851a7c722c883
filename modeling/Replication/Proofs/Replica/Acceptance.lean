import Replication.Proofs.Replica.Partition
import Replication.Proofs.Replica.Setup

/-!
# The meaning of acceptance

An accepted proof relates what it opens, whatever the hash functions may be: every label above
the first layer is hashed from the opened labels of the parents that the graph names, and the node
of the replica encodes the node of data under the opened label of the last layer.
-/

namespace Replication.ChallengeProof

variable {params : Params} {statement : Statement} {challenge : Nat} {p : ChallengeProof}

/-- The label that an opening about a layer and a challenge gives. -/
theorem ParentsOpened.label_eq_hash {columns : ColumnOpenings} {layer : Nat} {o : LabelOpening}
    (h : ParentsOpened columns challenge layer o) (replicaId : Element) :
    o.label replicaId = Label.hash replicaId layer.toUInt32 challenge.toUInt64 o.parents := by
  rw [LabelOpening.label, h.layer_eq_toUInt32, h.node_eq_toUInt64]

/-- Every layer above the first has a label opening of its own. -/
theorem Answers.labelOpened {commitment : Commitment} (hshaped : Shaped params p)
    (h : Answers params statement.replicaId commitment challenge p) {layer : Nat}
    (htwo : 2 ≤ layer) (hle : layer ≤ params.plan.layers) :
    ∃ o, LabelOpened statement.replicaId p.columns challenge layer o := by
  have hlen := hshaped.length_labels
  have hopened := h.labels (layer - 2) (by omega)
  rw [Nat.add_sub_cancel' htwo] at hopened
  exact ⟨_, hopened⟩

/-- The opened label of a layer above the first is hashed from the opened labels of the parents:
those of the base parents in the layer, those of the expander parents in the layer below. -/
theorem LabelOpened.label_eq_hash {replicaId : Element} {columns : ColumnOpenings} {layer : Nat}
    {o : LabelOpening} (h : LabelOpened replicaId columns challenge layer o)
    (htwo : 2 ≤ layer) :
    ∃ base expander, columns.base.mapM (fun o => o.column.label layer) = .ok base ∧
      columns.expander.mapM (fun o => o.column.label (layer - 1)) = .ok expander ∧
      columns.challenged.column.label layer
        = .ok (Label.hash replicaId layer.toUInt32 challenge.toUInt64 (base ++ expander)) := by
  obtain ⟨base, expander, hbase, hexpander, hparents⟩ :=
    (ColumnOpenings.parentLabels_eq_ok_iff htwo).mp h.parents_eq
  refine ⟨base, expander, hbase, hexpander, ?_⟩
  rw [h.label_eq, h.toParentsOpened.label_eq_hash, hparents]

/-- The key of the encoding is the opened label of the last layer: both are hashed from the same
opened parents. -/
theorem Answers.label_key {commitment : Commitment} (hshaped : Shaped params p)
    (h : Answers params statement.replicaId commitment challenge p)
    (htwo : 2 ≤ params.plan.layers) :
    p.columns.challenged.column.label params.plan.layers
      = .ok (p.key.label statement.replicaId) := by
  obtain ⟨o, ho⟩ := h.labelOpened hshaped htwo (Nat.le_refl _)
  have hparents := ho.parents_eq.symm.trans h.key.parents_eq
  injection hparents with hparents
  rw [ho.label_eq, ho.toParentsOpened.label_eq_hash, h.key.label_eq_hash, hparents]

/-- A proof that answers a challenge is one over at least two layers. -/
theorem Answers.two_le_layers {commitment : Commitment} (hshaped : Shaped params p)
    (h : Answers params statement.replicaId commitment challenge p)
    (hchallenge : challenge < params.graph.size) : 2 ≤ params.plan.layers := by
  obtain ⟨base, expander, hparents⟩ := params.graph.exists_combined hchallenge
  have hrows : p.columns.challenged.column.rows.length = params.plan.layers :=
    (requireColumn_eq_ok_iff.mp (hshaped.columns _ List.mem_cons_self)).1
  have hmem := Column.length_rows_of_hash (h.columns base expander hparents).challenged.hash_eq
  rw [hrows] at hmem
  exact (Replica.layers_bounds hmem).1

/-- What acceptance of a proof means for the columns and leaves that it opens. The parents are
those that the graph names: base parents first, expander parents after. -/
structure Explained (params : Params) (replicaId : Element) (challenge : Nat)
    (base expander : List Nat) (p : ChallengeProof) : Prop where
  parents_eq : params.graph.parents challenge = .ok (base ++ expander)
  baseParents_eq : params.graph.baseParents challenge = .ok base
  challenged : p.columns.challenged.OpensAt params.treeShape challenge p.columnRoot
  base_each : List.Forall₂ (fun o position => ColumnOpening.OpensAt params.treeShape position
    p.columnRoot o) p.columns.base base
  expander_each : List.Forall₂ (fun o position => ColumnOpening.OpensAt params.treeShape
    position p.columnRoot o) p.columns.expander expander
  labels : ∀ layer, 2 ≤ layer → layer ≤ params.plan.layers → ∃ baseLabels expanderLabels,
    p.columns.base.mapM (fun o => o.column.label layer) = .ok baseLabels ∧
    p.columns.expander.mapM (fun o => o.column.label (layer - 1)) = .ok expanderLabels ∧
    p.columns.challenged.column.label layer = .ok (Label.hash replicaId layer.toUInt32
      challenge.toUInt64 (baseLabels ++ expanderLabels))
  encoding : ∃ key, p.columns.challenged.column.label params.plan.layers = .ok key ∧
    Encoding.encode key p.dataOpening.leaf = .ok p.replicaOpening.leaf ∧
    Encoding.decode key p.replicaOpening.leaf = .ok p.dataOpening.leaf

/-- Acceptance alone, with nothing assumed of the hash functions, relates the opened columns by
labelling and the opened leaves by encoding. -/
theorem exists_explained_of_verify (h : p.verify params statement challenge = .ok true) :
    ∃ base expander, p.Explained params statement.replicaId challenge base expander := by
  obtain ⟨hchallenge, commitment, -, hshaped, hanswers⟩ := verify_eq_ok_true_iff.mp h
  obtain ⟨base, expander, hparents⟩ := params.graph.exists_combined hchallenge
  have hcolumns := hanswers.columns base expander hparents
  have htwo := hanswers.two_le_layers hshaped hchallenge
  refine ⟨base, expander, hparents.parents_eq hchallenge, hparents.baseParents_eq hchallenge,
    ?_, hcolumns.base_each, hcolumns.expander_each, ?_, ?_⟩
  · have hchallenged := hcolumns.challenged
    rw [LayerGraph.mod_halfLimit hchallenge] at hchallenged
    exact hchallenged
  · intro layer hlayer hle
    obtain ⟨o, ho⟩ := hanswers.labelOpened hshaped hlayer hle
    exact ho.label_eq_hash hlayer
  · exact ⟨_, hanswers.label_key hshaped htwo, hanswers.encoding,
      Encoding.encode_eq_ok_iff_decode.mp hanswers.encoding⟩

/-- A proof of the small sector is accepted at node five and explained there. -/
theorem sample_exists_explained : ∃ params statement p,
    Params.ofSetup Replica.sampleSettings Replica.sampleShape .sha256 Replica.sampleSetup
      = .ok params ∧
      verify params statement 5 p = .ok true ∧
      ∃ base expander, p.Explained params statement.replicaId 5 base expander := by
  obtain ⟨params, nodes, commitment, w, replica, hparams, hmade, -, h⟩ :=
    Replica.exists_sampleReplicated
  have hchallenge : 5 < params.graph.size := by
    rw [hmade.size_eq]
    decide
  obtain ⟨p, -, hverify, -⟩ := Replica.exists_proveChallenge Replica.sampleSettings
    ⟨.zero, .zero, some commitment, none⟩ h (hmade.arity_mem (by decide)) rfl rfl
    (by decide) hchallenge
  exact ⟨params, _, p, hparams, hverify, exists_explained_of_verify hverify⟩

end Replication.ChallengeProof

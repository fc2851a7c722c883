import Replication.Proofs.Label
import Replication.Proofs.Merkle.Totality
import Replication.Proofs.Proof.ChallengeProof
import Replication.Proofs.Replica.Partition
import Replication.Proofs.Replica.Setup

/-!
# Proofs from outside never abort the verifier

A proof of a challenge is arbitrary data: any list may be of any length, any element outside the
field and any number of any size. The verifier refuses it exactly if the challenge is no node, or
the commitment is known and the proof is not `WellFormed`; otherwise it says yes or no. Behind the
check of the shape every part has an answer: columns have a label for every layer, paths are
climbed along fitting steps only, and keys are canonical.
-/

namespace Replication

namespace Column

variable {c : Column}

/-- A column has a label for every layer up to its number of rows. -/
theorem exists_label {layer : Nat} (hpos : 1 ≤ layer) (hle : layer ≤ c.rows.length) :
    ∃ label, c.label layer = .ok label := by
  have hlt : layer - 1 < c.rows.length := by omega
  refine ⟨c.rows[layer - 1], ?_⟩
  rw [label, if_neg (by omega), List.getElem?_eq_getElem hlt]

end Column

namespace ColumnOpening

/-- A column with a canonical label in every layer, and an opening that fits its tree. -/
structure WellFormed (arity leaves layers : Nat) (o : ColumnOpening) : Prop where
  length_rows : o.column.rows.length = layers
  rows_canonical : ∀ e ∈ o.column.rows, e.IsCanonical
  opening : o.opening.WellFormed arity leaves

variable {shape : Merkle.Shape} {arity leaves layers : Nat} {o : ColumnOpening}

theorem WellFormed.exists_label (h : o.WellFormed arity leaves layers) {layer : Nat}
    (hpos : 1 ≤ layer) (hle : layer ≤ layers) : ∃ label, o.column.label layer = .ok label :=
  Column.exists_label hpos (h.length_rows ▸ hle)

/-- Verifying a well-formed column opening has an answer. -/
theorem WellFormed.exists_verify (h : o.WellFormed arity leaves layers) (hshape : shape.Hashes)
    (hlayers : layers ∈ Params.supportedLayers) (position : Nat) (root : Element) :
    ∃ answer, o.verify shape position root = .ok answer := by
  obtain ⟨leaf, hleaf⟩ := Column.exists_hash (h.length_rows ▸ hlayers) h.rows_canonical
  rw [verify, hleaf, Result.ok_bind]
  exact Result.exists_andAlso (Result.exists_check _) <|
    Result.exists_andAlso (o.opening.exists_verifyLeaf hshape leaf)
      (o.opening.exists_verifyAt hshape position)

end ColumnOpening

namespace ColumnOpenings

variable {shape : Merkle.Shape} {arity leaves layers : Nat} {c : ColumnOpenings}

theorem exists_verifyEach (hshape : shape.Hashes) (hlayers : layers ∈ Params.supportedLayers)
    {openings : List ColumnOpening} (h : ∀ o ∈ openings, o.WellFormed arity leaves layers)
    (root : Element) (positions : List Nat) :
    ∃ answer, verifyEach shape root openings positions = .ok answer := by
  apply Result.exists_allOf
  rintro ⟨o, position⟩ hmem
  exact (h o (List.of_mem_zip hmem).1).exists_verify hshape hlayers position root

/-- Verifying all column openings of a challenge has an answer when there are as many as parents. -/
theorem exists_verify (hshape : shape.Hashes) (hlayers : layers ∈ Params.supportedLayers)
    (h : ∀ o ∈ c.all, o.WellFormed arity leaves layers) (challenge : Nat) {parents : List Nat}
    (hlen : c.base.length + c.expander.length = parents.length) :
    ∃ answer, c.verify shape challenge parents = .ok answer := by
  simp only [all, List.forall_mem_cons, List.forall_mem_append] at h
  obtain ⟨hchallenged, hbase, hexpander⟩ := h
  rw [verify, Result.require_of hlen, Result.ok_bind]
  exact Result.exists_andAlso (hchallenged.exists_verify hshape hlayers _ _) <|
    Result.exists_andAlso (exists_verifyEach hshape hlayers hbase _ _)
      (exists_verifyEach hshape hlayers hexpander _ _)

/-- From layer two on well-formed openings have all labels of the parents. -/
theorem exists_parentLabels (h : ∀ o ∈ c.all, o.WellFormed arity leaves layers) {layer : Nat}
    (htwo : 2 ≤ layer) (hle : layer ≤ layers) : ∃ labels, c.parentLabels layer = .ok labels := by
  simp only [all, List.forall_mem_cons, List.forall_mem_append] at h
  obtain ⟨-, hbase, hexpander⟩ := h
  obtain ⟨base, hbase⟩ := Result.exists_mapM fun o ho =>
    (hbase o ho).exists_label (show 1 ≤ layer by omega) hle
  obtain ⟨expander, hexpander⟩ := Result.exists_mapM fun o ho =>
    (hexpander o ho).exists_label (show 1 ≤ layer - 1 by omega) (by omega)
  exact ⟨_, (parentLabels_eq_ok_iff htwo).mpr ⟨base, expander, hbase, hexpander, rfl⟩⟩

end ColumnOpenings

/-- Under a key that is a label, whatever is claimed to be encoded gets an answer. -/
theorem LabelOpening.exists_verifyEncoding (o : LabelOpening)
    (replicaId encoded decoded : Element) :
    ∃ answer, o.verifyEncoding replicaId encoded decoded = .ok answer := by
  unfold verifyEncoding
  split
  · rename_i hcanonical
    obtain ⟨expected, hexpected⟩ :=
      Encoding.exists_encode (Label.isCanonical_hash _ _ _ _) hcanonical
    exact ⟨_, by rw [label, hexpected]; rfl⟩
  · exact ⟨false, rfl⟩

namespace ChallengeProof

variable {params : Params} {replicaId : Element} {commitment : Commitment}
  {statement : Statement} {challenge : Nat} {p : ChallengeProof}

/-! ## The shape -/

/-- A proof has as many columns, labels and parents as the graph and the layers call for; its
columns and its openings fit their trees, and their elements are canonical. -/
structure WellFormed (params : Params) (p : ChallengeProof) : Prop where
  length_base : p.columns.base.length = params.graph.baseDegree
  length_expander : p.columns.expander.length = params.graph.expansionDegree
  columns : ∀ o ∈ p.columns.all,
    o.WellFormed params.treeShape.arity params.graph.size params.plan.layers
  dataOpening : p.dataOpening.WellFormed params.dataShape.arity params.graph.size
  replicaOpening : p.replicaOpening.WellFormed params.treeShape.arity params.graph.size
  length_labels : p.labels.length + 1 = params.plan.layers
  length_parents : ∀ o ∈ p.labels ++ [p.key], o.parents.length = params.graph.degree

theorem requireOpening_eq_ok_iff_wellFormed {arity leaves : Nat} {o : Merkle.Opening} :
    requireOpening arity leaves o = .ok () ↔ o.WellFormed arity leaves := by
  rw [requireOpening_eq_ok_iff, Merkle.Opening.wellFormed_iff]

theorem requireColumn_eq_ok_iff_wellFormed {arity leaves layers : Nat} {o : ColumnOpening} :
    requireColumn arity leaves layers o = .ok () ↔ o.WellFormed arity leaves layers := by
  rw [requireColumn_eq_ok_iff, requireOpening_eq_ok_iff_wellFormed]
  constructor
  · rintro ⟨hlen, hcanonical, hopening⟩
    exact ⟨hlen, hcanonical, hopening⟩
  · intro h
    exact ⟨h.length_rows, h.rows_canonical, h.opening⟩

/-- The checks of the shape are passed exactly by well-formed proofs. -/
theorem requireShape_eq_ok_iff_wellFormed :
    requireShape params p = .ok () ↔ p.WellFormed params := by
  rw [requireShape_eq_ok_iff]
  constructor
  · intro h
    exact ⟨h.length_base, h.length_expander,
      fun o ho => requireColumn_eq_ok_iff_wellFormed.mp (h.columns o ho),
      requireOpening_eq_ok_iff_wellFormed.mp h.dataOpening,
      requireOpening_eq_ok_iff_wellFormed.mp h.replicaOpening, h.length_labels, h.length_parents⟩
  · intro h
    exact ⟨h.length_base, h.length_expander,
      fun o ho => requireColumn_eq_ok_iff_wellFormed.mpr (h.columns o ho),
      requireOpening_eq_ok_iff_wellFormed.mpr h.dataOpening,
      requireOpening_eq_ok_iff_wellFormed.mpr h.replicaOpening, h.length_labels, h.length_parents⟩

/-- Checking the shape of any opening against a graph never aborts. -/
theorem neverAborts_requireOpening {arity : Nat} (harity : 2 ≤ arity) (g : LayerGraph)
    (o : Merkle.Opening) : Result.NeverAborts (requireOpening arity g.size o) :=
  (Merkle.Opening.neverAborts_requireLevels harity g.two_le_size g.size_lt o).bind fun _ =>
    Merkle.Opening.neverAborts_requireElements arity o

theorem neverAborts_requireColumn {arity : Nat} (harity : 2 ≤ arity) (g : LayerGraph)
    (layers : Nat) (o : ColumnOpening) :
    Result.NeverAborts (requireColumn arity g.size layers o) :=
  (Result.neverAborts_require _ _).bind fun _ => (Result.neverAborts_require _ _).bind fun _ =>
    neverAborts_requireOpening harity g o.opening

/-- The checks of the shape refuse what they do not like; they do not abort on it. -/
theorem neverAborts_requireShape (hshape : params.treeShape.Hashes) (p : ChallengeProof) :
    Result.NeverAborts (requireShape params p) := by
  have harity := hshape.two_le_arity
  have hbinary := (Merkle.Shape.hashes_binary params.dataFamily).two_le_arity
  unfold requireShape
  refine (Result.neverAborts_require _ _).bind fun _ =>
    (Result.neverAborts_require _ _).bind fun _ => ?_
  refine (Result.neverAborts_forEach fun o _ =>
    neverAborts_requireColumn harity params.graph _ o).bind fun _ => ?_
  refine (neverAborts_requireOpening hbinary params.graph _).bind fun _ =>
    (neverAborts_requireOpening harity params.graph _).bind fun _ => ?_
  exact (Result.neverAborts_require _ _).bind fun _ =>
    Result.neverAborts_forEach fun o _ => Result.neverAborts_require _ _

/-! ## The parts of a well-formed proof -/

namespace WellFormed

theorem exists_verifyParents (h : p.WellFormed params) {layer : Nat} (htwo : 2 ≤ layer)
    (hle : layer ≤ params.plan.layers) (challenge : Nat) (o : LabelOpening) :
    ∃ answer, verifyParents p.columns challenge layer o = .ok answer := by
  obtain ⟨parents, hparents⟩ := ColumnOpenings.exists_parentLabels h.columns htwo hle
  rw [verifyParents, hparents, Result.ok_bind]
  exact Result.exists_andAlso (Result.exists_check _) <|
    Result.exists_andAlso (Result.exists_check _) ⟨_, rfl⟩

theorem exists_verifyLabel (h : p.WellFormed params) {layer : Nat} (htwo : 2 ≤ layer)
    (hle : layer ≤ params.plan.layers) (replicaId : Element) (challenge : Nat)
    (o : LabelOpening) :
    ∃ answer, verifyLabel replicaId p.columns challenge layer o = .ok answer := by
  obtain ⟨label, hlabel⟩ := (h.columns _ List.mem_cons_self).exists_label
    (show 1 ≤ layer by omega) hle
  rw [verifyLabel, hlabel, Result.ok_bind]
  exact Result.exists_andAlso (h.exists_verifyParents htwo hle challenge o) ⟨_, rfl⟩

/-- There is a label opening for every layer above the first. -/
theorem exists_verifyLabels (h : p.WellFormed params) (replicaId : Element) (challenge : Nat) :
    ∃ answer, verifyLabels params replicaId challenge p = .ok answer := by
  have hlen := h.length_labels
  apply Result.exists_allOf
  intro layer hlayer
  obtain ⟨i, hi, rfl⟩ := List.mem_range'.mp hlayer
  rw [Nat.one_mul, labelAt_eq (by omega), Result.ok_bind]
  exact h.exists_verifyLabel (by omega) (by omega) replicaId challenge _

theorem exists_verifyColumns (h : p.WellFormed params) (hshape : params.treeShape.Hashes)
    (hlayers : params.plan.layers ∈ Params.supportedLayers)
    (hchallenge : challenge < params.graph.size) :
    ∃ answer, verifyColumns params challenge p = .ok answer := by
  obtain ⟨base, expander, hparents⟩ := params.graph.exists_combined hchallenge
  rw [verifyColumns, hparents.parents_eq hchallenge, Result.ok_bind]
  apply ColumnOpenings.exists_verify hshape hlayers h.columns
  rw [List.length_append, h.length_base, h.length_expander, hparents.length_base,
    hparents.length_expander]

/-- In a well-formed proof every part has an answer. -/
theorem exists_verifyParts (h : p.WellFormed params) (hshape : params.treeShape.Hashes)
    (hlayers : params.plan.layers ∈ Params.supportedLayers)
    (hchallenge : challenge < params.graph.size) (replicaId : Element)
    (commitment : Commitment) :
    ∃ answer, verifyParts params replicaId commitment challenge p = .ok answer := by
  obtain ⟨htwo, -⟩ := Replica.layers_bounds hlayers
  have hdata : ∃ answer, verifyData params commitment challenge p = .ok answer :=
    Result.exists_andAlso (Result.exists_check _) <|
      Result.exists_andAlso (Result.exists_check _)
        (p.dataOpening.exists_verify (Merkle.Shape.hashes_binary params.dataFamily))
  have hreplica : ∃ answer,
      verifyOpening params.treeShape challenge p.replicaOpening = .ok answer :=
    Result.exists_andAlso (Result.exists_check _) (p.replicaOpening.exists_verify hshape)
  have hencoding : ∃ answer, verifyEncoding params replicaId challenge p = .ok answer :=
    Result.exists_andAlso (h.exists_verifyParents htwo (Nat.le_refl _) challenge p.key)
      (p.key.exists_verifyEncoding replicaId _ _)
  exact Result.exists_andAlso hdata <|
    Result.exists_andAlso (h.exists_verifyColumns hshape hlayers hchallenge) <|
      Result.exists_andAlso hreplica <|
        Result.exists_andAlso (h.exists_verifyLabels replicaId challenge) hencoding

end WellFormed

/-! ## The outcome -/

/-- The challenge is no node, or a proof under a known commitment is not well-formed. -/
def Malformed (params : Params) (statement : Statement) (challenge : Nat) (p : ChallengeProof) :
    Prop :=
  params.graph.size ≤ challenge ∨ statement.commitment.isSome ∧ ¬ p.WellFormed params

/-- A malformed proof is refused. -/
theorem exists_refusal_of_malformed (hshape : params.treeShape.Hashes)
    (h : Malformed params statement challenge p) :
    ∃ cause, p.verify params statement challenge = .error (.refused cause) := by
  unfold verify
  by_cases hchallenge : challenge < params.graph.size
  · rcases h with hge | ⟨hsome, hnot⟩
    · omega
    obtain ⟨commitment, hcommitment⟩ := Option.isSome_iff_exists.mp hsome
    obtain ⟨cause, hcause⟩ := (neverAborts_requireShape hshape p).exists_refusal
      fun _ hok => hnot (requireShape_eq_ok_iff_wellFormed.mp hok)
    refine ⟨cause, ?_⟩
    rw [Result.require_of hchallenge, Result.ok_bind, hcommitment]
    show requireShape params p >>= _ = _
    rw [hcause]
    rfl
  · refine ⟨.outOfBounds challenge params.graph.size, ?_⟩
    rw [Result.require, if_neg hchallenge]
    rfl

/-- A proof that is not malformed is answered. -/
theorem exists_answer_of_not_malformed (hshape : params.treeShape.Hashes)
    (hlayers : params.plan.layers ∈ Params.supportedLayers)
    (h : ¬ Malformed params statement challenge p) :
    ∃ answer, p.verify params statement challenge = .ok answer := by
  obtain ⟨hge, hshaped⟩ := not_or.mp h
  have hchallenge : challenge < params.graph.size := by omega
  unfold verify
  rw [Result.require_of hchallenge, Result.ok_bind]
  rcases hcommitment : statement.commitment with _ | commitment
  · exact ⟨false, rfl⟩
  · have hwell : p.WellFormed params := by
      by_contra hnot
      exact hshaped ⟨by rw [hcommitment]; rfl, hnot⟩
    obtain ⟨answer, hanswer⟩ :=
      hwell.exists_verifyParts hshape hlayers hchallenge statement.replicaId commitment
    refine ⟨answer, ?_⟩
    show requireShape params p >>= _ = _
    rw [requireShape_eq_ok_iff_wellFormed.mpr hwell, Result.ok_bind]
    exact hanswer

/-- No proof aborts the verifier. It is refused exactly if it is malformed, and gets an answer
otherwise. -/
theorem verify_outcome (hlayers : params.plan.layers ∈ Params.supportedLayers)
    (hshape : params.treeShape.Hashes) (statement : Statement) (challenge : Nat)
    (p : ChallengeProof) :
    (∀ reason, p.verify params statement challenge ≠ .error (.aborted reason)) ∧
      ((∃ cause, p.verify params statement challenge = .error (.refused cause)) ↔
        Malformed params statement challenge p) ∧
      ((∃ answer, p.verify params statement challenge = .ok answer) ↔
        ¬ Malformed params statement challenge p) := by
  by_cases hmalformed : Malformed params statement challenge p
  · obtain ⟨cause, hcause⟩ := exists_refusal_of_malformed hshape hmalformed
    simp [hcause, hmalformed]
  · obtain ⟨answer, hanswer⟩ := exists_answer_of_not_malformed hshape hlayers hmalformed
    simp [hanswer, hmalformed]

/-- A proof of the small sector is accepted at node five; without its labels it is refused. -/
theorem sample_verify_outcome : ∃ params statement p,
    Params.ofSetup Replica.sampleSettings Replica.sampleShape .sha256 Replica.sampleSetup
      = .ok params ∧
      params.plan.layers ∈ Params.supportedLayers ∧ params.treeShape.Hashes ∧
      p.verify params statement 5 = .ok true ∧ ¬ Malformed params statement 5 p ∧
      ∃ cause, verify params statement 5 { p with labels := [] } = .error (.refused cause) := by
  obtain ⟨params, nodes, commitment, w, replica, hparams, hmade, -, h⟩ :=
    Replica.exists_sampleReplicated
  have hchallenge : 5 < params.graph.size := by
    rw [hmade.size_eq]
    decide
  have hplan : params.plan.layers = 11 := by
    rw [hmade.plan_eq]
    rfl
  have hlayers : params.plan.layers ∈ Params.supportedLayers := by
    rw [hplan]
    decide
  have hshape : params.treeShape.Hashes := by
    rw [hmade.treeShape_eq]
    exact Merkle.Shape.Supported.hashes (by decide)
  obtain ⟨p, -, hverify, -⟩ := Replica.exists_proveChallenge Replica.sampleSettings
    ⟨.zero, .zero, some commitment, none⟩ h (hmade.arity_mem (by decide)) rfl rfl
    (by decide) hchallenge
  obtain ⟨-, -, hanswered⟩ := verify_outcome hlayers hshape _ 5 p
  obtain ⟨-, hrefused, -⟩ := verify_outcome hlayers hshape
    ⟨.zero, .zero, some commitment, none⟩ 5 { p with labels := [] }
  refine ⟨params, _, p, hparams, hlayers, hshape, hverify, hanswered.mp ⟨true, hverify⟩,
    hrefused.mpr (.inr ⟨rfl, ?_⟩)⟩
  intro hwell
  have hlabels := hwell.length_labels
  rw [hplan] at hlabels
  cases hlabels

end ChallengeProof

end Replication

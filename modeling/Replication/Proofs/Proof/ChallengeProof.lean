import Replication.Proof.ChallengeProof
import Replication.Proofs.Elements
import Replication.Proofs.Graph.Parents
import Replication.Proofs.Proof.ColumnOpenings

/-!
# What an accepted proof of a challenge says

Acceptance of a proof is taken apart into named conditions: the proof is `Shaped` as the graph and
the layers call for, and it `Answers` the challenge. Main statement: a proof is accepted exactly
if both hold and the commitment is known (`verify_eq_ok_true_iff`).
-/

namespace Replication

namespace LabelOpening

/-- The encoding is accepted exactly if it is the one that the opened label gives. -/
theorem verifyEncoding_eq_ok_true_iff {o : LabelOpening} {replicaId encoded decoded : Element} :
    o.verifyEncoding replicaId encoded decoded = .ok true ↔
      Encoding.encode (o.label replicaId) decoded = .ok encoded := by
  unfold verifyEncoding
  by_cases hcanonical : decoded.IsCanonical
  · rw [if_pos hcanonical]
    simp only [Result.bind_eq_ok_iff, Result.pure_eq_ok, Except.ok.injEq, decide_eq_true_eq]
    refine ⟨?_, ?_⟩
    · intro h
      obtain ⟨expected, hexpected, heq⟩ := h
      rw [heq, hexpected]
    · intro h
      exact ⟨encoded, h, rfl⟩
  -- what is not canonical has no encoding either
  · rw [if_neg hcanonical]
    refine ⟨?_, ?_⟩
    · intro h
      cases h
    · intro h
      obtain ⟨k, v, -, hv, -⟩ := Encoding.encode_eq_ok_iff.mp h
      exact absurd (hv ▸ Element.isCanonical_ofScalar v) hcanonical

end LabelOpening

namespace ChallengeProof

variable {params : Params} {replicaId : Element} {commitment : Commitment} {challenge : Nat}
  {p : ChallengeProof}

/-! ## Label openings -/

/-- A label opening is about a layer and a node and has the labels of the opened parents. -/
structure ParentsOpened (columns : ColumnOpenings) (challenge layer : Nat) (o : LabelOpening) :
    Prop where
  layer_eq : o.layer.toNat = layer
  node_eq : o.node.toNat = challenge
  parents_eq : columns.parentLabels layer = .ok o.parents

/-- The check of a label's parents accepts exactly the parents the columns open. -/
theorem verifyParents_eq_ok_true_iff {columns : ColumnOpenings} {layer : Nat}
    {o : LabelOpening} :
    verifyParents columns challenge layer o = .ok true ↔
      ParentsOpened columns challenge layer o := by
  unfold verifyParents
  simp only [Result.andAlso_eq_ok_true_iff, Result.check_eq_ok_true_iff, Result.bind_eq_ok_iff,
    Result.pure_eq_ok, Except.ok.injEq, decide_eq_true_eq]
  refine ⟨?_, ?_⟩
  · intro h
    obtain ⟨hlayer, hnode, parents, hparents, heq⟩ := h
    exact ⟨hlayer, hnode, heq ▸ hparents⟩
  · intro h
    exact ⟨h.layer_eq, h.node_eq, o.parents, h.parents_eq, rfl⟩

/-- An accepted label opening names the layer it is the label of. -/
theorem ParentsOpened.layer_eq_toUInt32 {columns : ColumnOpenings} {layer : Nat}
    {o : LabelOpening} (h : ParentsOpened columns challenge layer o) :
    o.layer = layer.toUInt32 := by
  rw [← h.layer_eq]
  exact UInt32.ofNat_toNat.symm

theorem ParentsOpened.node_eq_toUInt64 {columns : ColumnOpenings} {layer : Nat}
    {o : LabelOpening} (h : ParentsOpened columns challenge layer o) :
    o.node = challenge.toUInt64 := by
  rw [← h.node_eq]
  exact UInt64.ofNat_toNat.symm

/-- A label opening gives the label of the challenged column in a layer. -/
structure LabelOpened (replicaId : Element) (columns : ColumnOpenings) (challenge layer : Nat)
    (o : LabelOpening) : Prop extends ParentsOpened columns challenge layer o where
  label_eq : columns.challenged.column.label layer = .ok (o.label replicaId)

/-- The check of a label accepts exactly if parents and recomputed label are right. -/
theorem verifyLabel_eq_ok_true_iff {columns : ColumnOpenings} {layer : Nat} {o : LabelOpening} :
    verifyLabel replicaId columns challenge layer o = .ok true ↔
      LabelOpened replicaId columns challenge layer o := by
  unfold verifyLabel
  simp only [Result.andAlso_eq_ok_true_iff, verifyParents_eq_ok_true_iff, Result.bind_eq_ok_iff,
    Result.pure_eq_ok, Except.ok.injEq, decide_eq_true_eq]
  refine ⟨?_, ?_⟩
  · intro h
    obtain ⟨hparents, label, hlabel, heq⟩ := h
    have heq : label = o.label replicaId := heq
    exact ⟨hparents, heq ▸ hlabel⟩
  · intro h
    exact ⟨h.toParentsOpened, _, h.label_eq, rfl⟩

/-- Label openings are numbered from layer two on. -/
theorem labelAt_eq {i : Nat} (hi : i < p.labels.length) : p.labelAt (2 + i) = .ok p.labels[i] := by
  rw [labelAt, Word.sub_of_le (Nat.le_add_right 2 i), Result.ok_bind, Nat.add_sub_cancel_left,
    List.getElem?_eq_getElem hi]

/-- With a label opening for every layer above the first, each of them is checked in its own
layer. -/
theorem verifyLabels_eq_ok_true_iff (hlen : p.labels.length + 1 = params.plan.layers) :
    verifyLabels params replicaId challenge p = .ok true ↔
      ∀ i (hi : i < p.labels.length),
        LabelOpened replicaId p.columns challenge (2 + i) p.labels[i] := by
  have hcount : params.plan.layers - 1 = p.labels.length := by omega
  rw [verifyLabels, hcount, Result.allOf_eq_ok_true_iff]
  simp only [List.mem_range', Nat.one_mul]
  constructor
  · intro h i hi
    have hlabel := h (2 + i) ⟨i, hi, rfl⟩
    rwa [labelAt_eq hi, Result.ok_bind, verifyLabel_eq_ok_true_iff] at hlabel
  · rintro h layer ⟨i, hi, rfl⟩
    rw [labelAt_eq hi, Result.ok_bind, verifyLabel_eq_ok_true_iff]
    exact h i hi

/-! ## The shape -/

theorem requireOpening_eq_ok_iff {arity leaves : Nat} {o : Merkle.Opening} {u : Unit} :
    requireOpening arity leaves o = .ok u ↔
      o.requireLevels arity leaves = .ok () ∧ o.requireElements arity = .ok () := by
  unfold requireOpening
  rw [Result.bind_eq_ok_iff]
  refine ⟨?_, ?_⟩
  · intro h
    obtain ⟨_, hlevels, helements⟩ := h
    exact ⟨hlevels, helements⟩
  · intro h
    exact ⟨(), h.1, h.2⟩

/-- A column opening passes exactly if it has a canonical row per layer and its opening passes. -/
theorem requireColumn_eq_ok_iff {arity leaves layers : Nat} {o : ColumnOpening} {u : Unit} :
    requireColumn arity leaves layers o = .ok u ↔
      o.column.rows.length = layers ∧ (∀ e ∈ o.column.rows, e.IsCanonical) ∧
        requireOpening arity leaves o.opening = .ok () := by
  unfold requireColumn Merkle.Opening.requireCanonical
  simp only [Result.bind_eq_ok_iff, Result.require_eq_ok_iff]
  refine ⟨?_, ?_⟩
  · intro h
    obtain ⟨_, hlen, _, hcanonical, hopening⟩ := h
    exact ⟨hlen, hcanonical, hopening⟩
  · intro h
    exact ⟨(), h.1, (), h.2.1, h.2.2⟩

/-- A proof has the parts that the graph and the layers call for. -/
structure Shaped (params : Params) (p : ChallengeProof) : Prop where
  length_base : p.columns.base.length = params.graph.baseDegree
  length_expander : p.columns.expander.length = params.graph.expansionDegree
  columns : ∀ o ∈ p.columns.all,
    requireColumn params.treeShape.arity params.graph.size params.plan.layers o = .ok ()
  dataOpening : requireOpening params.dataShape.arity params.graph.size p.dataOpening = .ok ()
  replicaOpening :
    requireOpening params.treeShape.arity params.graph.size p.replicaOpening = .ok ()
  length_labels : p.labels.length + 1 = params.plan.layers
  length_parents : ∀ o ∈ p.labels ++ [p.key], o.parents.length = params.graph.degree

/-- The check of a proof's shape accepts exactly the well-shaped proofs. -/
theorem requireShape_eq_ok_iff {u : Unit} : requireShape params p = .ok u ↔ Shaped params p := by
  unfold requireShape requireParents
  simp only [Result.bind_eq_ok_iff, Result.require_eq_ok_iff, Result.forEach_eq_ok_iff]
  refine ⟨?_, ?_⟩
  · intro h
    obtain ⟨_, hbase, _, hexpander, _, hcolumns, _, hdata, _, hreplica, _, hlabels, hparents⟩ := h
    exact ⟨hbase, hexpander, hcolumns, hdata, hreplica, hlabels, hparents⟩
  · intro h
    exact ⟨(), h.length_base, (), h.length_expander, (), h.columns, (), h.dataOpening, (),
      h.replicaOpening, (), h.length_labels, h.length_parents⟩

/-! ## The parts -/

/-- The parts of a proof answer a challenge under a commitment. -/
structure Answers (params : Params) (replicaId : Element) (commitment : Commitment)
    (challenge : Nat) (p : ChallengeProof) : Prop where
  data_position : p.dataOpening.position params.dataShape.arity = challenge
  data_root : p.dataOpening.root = commitment.data
  data_verify : p.dataOpening.verify params.dataShape = .ok true
  columns : ∀ base expander, params.graph.Parents challenge base expander →
    p.columns.OpenAround params.treeShape challenge base expander
  replica_position : p.replicaOpening.position params.treeShape.arity = challenge
  replica_verify : p.replicaOpening.verify params.treeShape = .ok true
  labels : ∀ i (hi : i < p.labels.length),
    LabelOpened replicaId p.columns challenge (2 + i) p.labels[i]
  key : ParentsOpened p.columns challenge params.plan.layers p.key
  encoding : Encoding.encode (p.key.label replicaId) p.dataOpening.leaf
    = .ok p.replicaOpening.leaf

/-- The columns are accepted exactly if they open at the challenge and at its parents. -/
theorem verifyColumns_eq_ok_true_iff (hshaped : Shaped params p)
    (hchallenge : challenge < params.graph.size) :
    verifyColumns params challenge p = .ok true ↔
      ∀ base expander, params.graph.Parents challenge base expander →
        p.columns.OpenAround params.treeShape challenge base expander := by
  have hbase : ∀ {base expander}, params.graph.Parents challenge base expander →
      p.columns.base.length = base.length := by
    intro base expander hparents
    rw [hshaped.length_base, hparents.length_base]
  have hexpander : ∀ {base expander}, params.graph.Parents challenge base expander →
      p.columns.expander.length = expander.length := by
    intro base expander hparents
    rw [hshaped.length_expander, hparents.length_expander]
  unfold verifyColumns
  refine ⟨?_, ?_⟩
  · intro h base expander hparents
    rw [hparents.parents_eq hchallenge, Result.ok_bind] at h
    exact (ColumnOpenings.verify_eq_ok_true_iff (hbase hparents) (hexpander hparents)).mp h
  · intro h
    obtain ⟨base, expander, hparents⟩ := params.graph.exists_combined hchallenge
    rw [hparents.parents_eq hchallenge, Result.ok_bind]
    exact (ColumnOpenings.verify_eq_ok_true_iff (hbase hparents) (hexpander hparents)).mpr
      (h base expander hparents)

/-- A well-shaped proof is accepted exactly if each of its parts answers the challenge. -/
theorem verifyParts_eq_ok_true_iff (hshaped : Shaped params p)
    (hchallenge : challenge < params.graph.size) :
    verifyParts params replicaId commitment challenge p = .ok true ↔
      Answers params replicaId commitment challenge p := by
  unfold verifyParts verifyData verifyOpening verifyEncoding
  simp only [Result.andAlso_eq_ok_true_iff, Result.check_eq_ok_true_iff,
    verifyColumns_eq_ok_true_iff hshaped hchallenge,
    verifyLabels_eq_ok_true_iff hshaped.length_labels,
    verifyParents_eq_ok_true_iff, LabelOpening.verifyEncoding_eq_ok_true_iff]
  refine ⟨?_, ?_⟩
  · intro h
    obtain ⟨⟨hposition, hroot, hdata⟩, hcolumns, ⟨hreplica, hverify⟩, hlabels, hkey, hencoding⟩ := h
    exact ⟨hposition, hroot, hdata, hcolumns, hreplica, hverify, hlabels, hkey, hencoding⟩
  · intro h
    exact ⟨⟨h.data_position, h.data_root, h.data_verify⟩, h.columns,
      ⟨h.replica_position, h.replica_verify⟩, h.labels, h.key, h.encoding⟩

/-- A proof is accepted if it has the right shape and its parts answer the challenge under a
commitment that is known. -/
theorem verify_eq_ok_true_iff {statement : Statement} :
    p.verify params statement challenge = .ok true ↔
      challenge < params.graph.size ∧ ∃ commitment, statement.commitment = some commitment ∧
        Shaped params p ∧ Answers params statement.replicaId commitment challenge p := by
  unfold verify
  rw [Result.bind_eq_ok_iff]
  simp only [Result.require_eq_ok_iff]
  rcases hcommitment : statement.commitment with _ | commitment
  · simp
  · refine ⟨?_, ?_⟩
    · intro h
      obtain ⟨_, hchallenge, h⟩ := h
      obtain ⟨_, hshape, hparts⟩ := Result.bind_eq_ok h
      have hshaped := requireShape_eq_ok_iff.mp hshape
      exact ⟨hchallenge, commitment, rfl, hshaped,
        (verifyParts_eq_ok_true_iff hshaped hchallenge).mp hparts⟩
    · intro h
      obtain ⟨hchallenge, _, heq, hshaped, hanswers⟩ := h
      cases heq
      refine ⟨(), hchallenge, ?_⟩
      have hshape : requireShape params p = .ok () := requireShape_eq_ok_iff.mpr hshaped
      show requireShape params p >>= _ = _
      rw [hshape, Result.ok_bind]
      exact (verifyParts_eq_ok_true_iff hshaped hchallenge).mpr hanswers

end ChallengeProof

end Replication

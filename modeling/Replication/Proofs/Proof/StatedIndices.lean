import Replication.Proofs.Proof.ChallengeProof

/-!
# The indices that columns state

A column states the index of its node, and nothing ever compares it with anything: to the verifier a
proof and the same proof with all stated indices left out are the same
(`ChallengeProof.verify_eraseIndices_iff`). So an accepted proof can be bound in the rest of it
only.
-/

namespace Replication

/-! ## Leaving the indices out -/

/-- The opening with the stated index of its column left out. -/
def ColumnOpening.eraseIndex (o : ColumnOpening) : ColumnOpening :=
  ⟨⟨0, o.column.rows⟩, o.opening⟩

/-- The openings with the stated indices of all columns left out. -/
def ColumnOpenings.eraseIndices (c : ColumnOpenings) : ColumnOpenings :=
  ⟨c.challenged.eraseIndex, c.base.map ColumnOpening.eraseIndex,
    c.expander.map ColumnOpening.eraseIndex⟩

/-- The proof with the stated indices of all columns left out. -/
def ChallengeProof.eraseIndices (p : ChallengeProof) : ChallengeProof :=
  { p with columns := p.columns.eraseIndices }

/-- Labels are read off the rows of a column. -/
theorem ColumnOpenings.parentLabels_eraseIndices (c : ColumnOpenings) (layer : Nat) :
    c.eraseIndices.parentLabels layer = c.parentLabels layer := by
  unfold parentLabels eraseIndices
  simp only [List.mapM_map]
  rfl

/-! ## The verifier does not look at them -/

/-- The stated index of a column plays no part in verifying its opening. -/
theorem ColumnOpening.verify_eraseIndex (shape : Merkle.Shape) (o : ColumnOpening)
    (position : Nat) (root : Element) :
    o.eraseIndex.verify shape position root = o.verify shape position root := rfl

namespace ColumnOpenings

theorem all_eraseIndices (c : ColumnOpenings) :
    c.eraseIndices.all = c.all.map ColumnOpening.eraseIndex := by
  simp only [all, eraseIndices, List.map_cons, List.map_append]

theorem verifyEach_map_eraseIndex (shape : Merkle.Shape) (root : Element)
    (openings : List ColumnOpening) (positions : List Nat) :
    verifyEach shape root (openings.map ColumnOpening.eraseIndex) positions
      = verifyEach shape root openings positions := by
  unfold verifyEach
  rw [List.zip_map_left, Result.allOf_map]
  rfl

/-- The stated indices play no part in verifying the columns of a challenge. -/
theorem verify_eraseIndices (shape : Merkle.Shape) (c : ColumnOpenings) (challenge : Nat)
    (parents : List Nat) :
    c.eraseIndices.verify shape challenge parents = c.verify shape challenge parents := by
  have hroot : c.eraseIndices.root = c.root := rfl
  unfold verify
  rw [hroot]
  simp only [eraseIndices, List.length_map, verifyEach_map_eraseIndex,
    ColumnOpening.verify_eraseIndex]

end ColumnOpenings

namespace ChallengeProof

variable {params : Params} {statement : Statement} {challenge : Nat} {p q : ChallengeProof}

theorem verifyParents_eraseIndices (columns : ColumnOpenings) (challenge layer : Nat)
    (o : LabelOpening) :
    verifyParents columns.eraseIndices challenge layer o
      = verifyParents columns challenge layer o := by
  rw [verifyParents, verifyParents, ColumnOpenings.parentLabels_eraseIndices]

theorem verifyLabel_eraseIndices (replicaId : Element) (columns : ColumnOpenings)
    (challenge layer : Nat) (o : LabelOpening) :
    verifyLabel replicaId columns.eraseIndices challenge layer o
      = verifyLabel replicaId columns challenge layer o := by
  rw [verifyLabel, verifyLabel, verifyParents_eraseIndices]
  rfl

/-- The parts of a proof get the same answer, or fail alike, whatever its columns state. -/
theorem verifyParts_eraseIndices (params : Params) (replicaId : Element) (commitment : Commitment)
    (challenge : Nat) (p : ChallengeProof) :
    verifyParts params replicaId commitment challenge p.eraseIndices
      = verifyParts params replicaId commitment challenge p := by
  have hdata : verifyData params commitment challenge p.eraseIndices
      = verifyData params commitment challenge p := rfl
  have hcolumns : verifyColumns params challenge p.eraseIndices
      = verifyColumns params challenge p := by
    simp only [verifyColumns, eraseIndices, ColumnOpenings.verify_eraseIndices]
  have hlabels : verifyLabels params replicaId challenge p.eraseIndices
      = verifyLabels params replicaId challenge p := by
    have hlabel : ∀ layer, p.eraseIndices.labelAt layer = p.labelAt layer := fun _ => rfl
    simp only [verifyLabels, hlabel]
    simp only [eraseIndices, verifyLabel_eraseIndices]
  have hencoding : verifyEncoding params replicaId challenge p.eraseIndices
      = verifyEncoding params replicaId challenge p := by
    simp only [verifyEncoding, eraseIndices, verifyParents_eraseIndices]
  unfold verifyParts
  rw [hdata, hcolumns, hlabels, hencoding]
  rfl

/-- The check of a column's shape passes over its stated index. -/
theorem requireColumn_eraseIndex_iff {arity leaves layers : Nat} {o : ColumnOpening} :
    requireColumn arity leaves layers o.eraseIndex = .ok () ↔
      requireColumn arity leaves layers o = .ok () := by
  rw [requireColumn_eq_ok_iff, requireColumn_eq_ok_iff]
  rfl

/-- The shape is asked of the rows and openings; an index is only named in a refusal. -/
theorem requireShape_eraseIndices_iff {u : Unit} :
    requireShape params p.eraseIndices = .ok u ↔ requireShape params p = .ok u := by
  unfold requireShape
  simp only [Result.bind_eq_ok_iff, Result.require_eq_ok_iff, Result.forEach_eq_ok_iff]
  simp only [eraseIndices, ColumnOpenings.all_eraseIndices, List.forall_mem_map,
    requireColumn_eraseIndex_iff]
  simp only [ColumnOpenings.eraseIndices, List.length_map]

/-- The answer to a proof does not depend on the indices that its columns state. -/
theorem verify_eraseIndices_iff {answer : Bool} :
    p.eraseIndices.verify params statement challenge = .ok answer ↔
      p.verify params statement challenge = .ok answer := by
  unfold verify
  rcases statement.commitment with _ | commitment
  · rfl
  · simp only [Result.bind_eq_ok_iff, requireShape_eraseIndices_iff, verifyParts_eraseIndices]

/-- Proofs that differ in stated indices alone are accepted together. -/
theorem verify_of_eraseIndices_eq (heq : q.eraseIndices = p.eraseIndices)
    (h : p.verify params statement challenge = .ok true) :
    q.verify params statement challenge = .ok true := by
  rw [← verify_eraseIndices_iff, heq, verify_eraseIndices_iff]
  exact h

end ChallengeProof

end Replication

import Replication.Proofs.Merkle.Opening
import Replication.Proofs.Merkle.Shape

/-!
# Openings from outside always get an answer

A path is climbed only along steps that fit, so every node on the way has a hash: whatever the
siblings, the places and the elements of an opening are, its checks say yes or no. What an opening
must look like to pass the checks of its shape is `WellFormed`, and where it does not look so, they
refuse it.
-/

namespace Replication.Merkle

variable {shape : Shape} {arity leaves : Nat}

namespace Step

variable {step : Step}

/-- A step that fits yields as many children as the arity. -/
theorem Fits.length_children (h : step.Fits shape) (node : Element) :
    (step.children node).length = shape.arity := by
  have hle := h.index_le
  obtain ⟨hlen, hindex, -⟩ := h
  rw [children, List.length_insertIdx, if_pos hle]
  omega

theorem Fits.isCanonical_children (h : step.Fits shape) {node : Element}
    (hnode : node.IsCanonical) : ∀ e ∈ step.children node, e.IsCanonical := by
  intro e he
  rcases (List.mem_insertIdx h.index_le).mp he with rfl | hmem
  · exact hnode
  · exact h.2.2 e hmem

end Step

namespace Path

/-- From a canonical node every path leads up, or stops at a step that does not fit. -/
theorem exists_climb (hshape : shape.Hashes) (path : Path) {node : Element}
    (hnode : node.IsCanonical) : ∃ root, climb shape path node = .ok root := by
  induction path generalizing node with
  | nil => exact ⟨some node, rfl⟩
  | cons step rest ih =>
    rw [climb]
    by_cases hfits : step.Fits shape
    · obtain ⟨parent, hparent⟩ :=
        hshape.exists_node (hfits.length_children node) (hfits.isCanonical_children hnode)
      rw [if_pos hfits, hfits.insert_eq, Result.ok_bind, hparent, Result.ok_bind]
      exact ih (HashFamily.isCanonical_of_node hparent)
    · rw [if_neg hfits]
      exact ⟨none, rfl⟩

/-- Recomputing a root has an outcome for any path and any leaf. -/
theorem exists_root? (hshape : shape.Hashes) (path : Path) (leaf : Element) :
    ∃ root, path.root? shape leaf = .ok root := by
  unfold root?
  split
  · rename_i hleaf
    exact exists_climb hshape path hleaf
  · exact ⟨none, rfl⟩

end Path

namespace Opening

/-- Verifying an opening has an answer, well-formed or not. -/
theorem exists_verify (hshape : shape.Hashes) (o : Opening) :
    ∃ answer, o.verify shape = .ok answer := by
  obtain ⟨root, hroot⟩ := o.path.exists_root? hshape o.leaf
  exact ⟨_, by rw [verify, hroot]; rfl⟩

theorem exists_verifyAt (hshape : shape.Hashes) (o : Opening) (position : Nat) :
    ∃ answer, o.verifyAt shape position = .ok answer :=
  Result.exists_andAlso (o.exists_verify hshape) (Result.exists_check _)

theorem exists_verifyLeaf (hshape : shape.Hashes) (o : Opening) (leaf : Element) :
    ∃ answer, o.verifyLeaf shape leaf = .ok answer :=
  Result.exists_andAlso (o.exists_verify hshape) (Result.exists_check _)

/-! ## The shape of an opening -/

/-- The path has a level for every level of the tree, every place on it is one of the arity's, and
all elements are canonical. -/
structure WellFormed (arity leaves : Nat) (o : Opening) : Prop where
  levels_eq : expectedLevels arity leaves = .ok o.path.length
  index_lt : ∀ step ∈ o.path, step.index.toNat < arity
  siblings_canonical : ∀ step ∈ o.path, ∀ e ∈ step.siblings, e.IsCanonical
  leaf_canonical : o.leaf.IsCanonical
  root_canonical : o.root.IsCanonical

/-- The well-formed openings are the ones both checks of the shape let through. -/
theorem wellFormed_iff {o : Opening} :
    o.WellFormed arity leaves ↔
      o.requireLevels arity leaves = .ok () ∧ o.requireElements arity = .ok () := by
  rw [requireLevels_eq_ok_iff, requireElements_eq_ok_iff]
  constructor
  · intro h
    exact ⟨h.levels_eq, fun step hstep => ⟨h.index_lt step hstep, h.siblings_canonical step hstep⟩,
      h.leaf_canonical, h.root_canonical⟩
  · rintro ⟨hlevels, hsteps, hleaf, hroot⟩
    exact ⟨hlevels, fun step hstep => (hsteps step hstep).1,
      fun step hstep => (hsteps step hstep).2, hleaf, hroot⟩

/-- The number of levels is known wherever there is a row. -/
theorem neverAborts_requireLevels (harity : 2 ≤ arity) (htwo : 2 ≤ leaves)
    (hlt : leaves < Word.halfLimit) (o : Opening) :
    Result.NeverAborts (o.requireLevels arity leaves) := by
  obtain ⟨rows, hpos, hrows⟩ := (exists_rowCount_iff htwo hlt).mpr harity
  obtain ⟨height, rfl⟩ := Nat.exists_eq_add_of_le' hpos
  rw [requireLevels_of_rowCount hrows]
  exact Result.neverAborts_require _ _

theorem neverAborts_requireSteps (arity : Nat) (path : Path) :
    Result.NeverAborts (requireSteps arity path) := by
  induction path with
  | nil => exact Result.neverAborts_ok ()
  | cons step rest ih =>
    exact (Result.neverAborts_require _ _).bind fun _ =>
      (Result.neverAborts_require _ _).bind fun _ => ih

theorem neverAborts_requireElements (arity : Nat) (o : Opening) :
    Result.NeverAborts (o.requireElements arity) :=
  (neverAborts_requireSteps arity o.path).bind fun _ => Result.neverAborts_require _ _

end Opening

end Replication.Merkle

import Replication.Proof.ColumnOpenings
import Replication.Proofs.Merkle.Opening

/-!
# What valid column openings say

A column opening is valid if the column hashes to a leaf that is opened at the given position
under the given root. The openings around a challenge are valid if every one of them is, the
challenged column at the challenge and each parent's column at the parent, all under one root.
-/

namespace Replication

namespace ColumnOpening

/-- The column hashes to the leaf at a position of a tree with the given root. -/
structure OpensAt (shape : Merkle.Shape) (position : Nat) (root : Element) (o : ColumnOpening) :
    Prop where
  hash_eq : o.column.hash = .ok o.opening.leaf
  root_eq : o.root = root
  verify_eq : o.opening.verify shape = .ok true
  position_eq : o.opening.position shape.arity = position

/-- A column opening is accepted exactly if it opens the hash of its rows there. -/
theorem verify_eq_ok_true_iff {shape : Merkle.Shape} {position : Nat} {root : Element}
    {o : ColumnOpening} :
    o.verify shape position root = .ok true ↔ o.OpensAt shape position root := by
  unfold verify
  rw [Result.bind_eq_ok_iff]
  simp only [Result.andAlso_eq_ok_true_iff, Result.check_eq_ok_true_iff,
    Merkle.Opening.verifyLeaf_eq_ok_true_iff, Merkle.Opening.verifyAt_eq_ok_true_iff]
  constructor
  · intro h
    obtain ⟨leaf, hleaf, hroot, ⟨hverify, heq⟩, -, hposition⟩ := h
    subst heq
    exact ⟨hleaf, hroot, hverify, hposition.symm⟩
  · intro h
    exact ⟨_, h.hash_eq, h.root_eq, ⟨h.verify_eq, rfl⟩, h.verify_eq, h.position_eq.symm⟩

end ColumnOpening

namespace ColumnOpenings

variable {shape : Merkle.Shape} {root : Element}

/-- Each column is opened at its position under the given root. -/
def EachOpensAt (shape : Merkle.Shape) (root : Element) (openings : List ColumnOpening)
    (positions : List Nat) : Prop :=
  List.Forall₂ (fun o position => ColumnOpening.OpensAt shape position root o) openings positions

/-- A list of openings is accepted exactly if each opens at its own position. -/
theorem verifyEach_eq_ok_true_iff {openings : List ColumnOpening} {positions : List Nat}
    (hlen : openings.length = positions.length) :
    verifyEach shape root openings positions = .ok true ↔
      EachOpensAt shape root openings positions := by
  unfold verifyEach EachOpensAt
  rw [Result.allOf_eq_ok_true_iff, List.forall₂_iff_zip]
  constructor
  · intro h
    refine ⟨hlen, ?_⟩
    intro o position hmem
    exact ColumnOpening.verify_eq_ok_true_iff.mp (h (o, position) hmem)
  · intro h pair hmem
    exact ColumnOpening.verify_eq_ok_true_iff.mpr (h.2 hmem)

/-- Positions behind the last opening are not looked at. -/
theorem verifyEach_append {openings : List ColumnOpening} {positions : List Nat}
    (hlen : openings.length = positions.length) (more : List Nat) :
    verifyEach shape root openings (positions ++ more)
      = verifyEach shape root openings positions := by
  have hzip : (openings ++ []).zip (positions ++ more)
      = openings.zip positions ++ ([] : List ColumnOpening).zip more := List.zip_append hlen
  rw [List.append_nil, List.zip_nil_left, List.append_nil] at hzip
  unfold verifyEach
  rw [hzip]

/-- The columns are opened at a challenge and at its parents under one root. -/
structure OpenAround (shape : Merkle.Shape) (challenge : Nat) (base expander : List Nat)
    (c : ColumnOpenings) : Prop where
  challenged : c.challenged.OpensAt shape (challenge % Word.halfLimit) c.root
  base_each : EachOpensAt shape c.root c.base base
  expander_each : EachOpensAt shape c.root c.expander expander

/-- All openings of a challenge are accepted exactly if they open around it. -/
theorem verify_eq_ok_true_iff {challenge : Nat} {base expander : List Nat} {c : ColumnOpenings}
    (hbase : c.base.length = base.length) (hexpander : c.expander.length = expander.length) :
    c.verify shape challenge (base ++ expander) = .ok true ↔
      c.OpenAround shape challenge base expander := by
  have hlen : c.base.length + c.expander.length = (base ++ expander).length := by
    rw [List.length_append, hbase, hexpander]
  have hdrop : (base ++ expander).drop c.base.length = expander := by
    rw [hbase, List.drop_left]
  -- the base openings are compared with all parents, of which they reach only the first ones
  unfold verify
  rw [Result.require_of hlen, Result.ok_bind, hdrop, verifyEach_append hbase]
  simp only [Result.andAlso_eq_ok_true_iff, ColumnOpening.verify_eq_ok_true_iff,
    verifyEach_eq_ok_true_iff hbase, verifyEach_eq_ok_true_iff hexpander]
  constructor
  · intro h
    exact ⟨h.1, h.2.1, h.2.2⟩
  · intro h
    exact ⟨h.challenged, h.base_each, h.expander_each⟩

/-! ## The labels of opened parents -/

/-- Above the first layer the labels of the base parents are followed by those that the expander
parents have one layer below. -/
theorem parentLabels_eq_ok_iff {c : ColumnOpenings} {layer : Nat} (hlayer : 2 ≤ layer)
    {labels : List Element} :
    c.parentLabels layer = .ok labels ↔
      ∃ base expander, c.base.mapM (fun o => o.column.label layer) = .ok base ∧
        c.expander.mapM (fun o => o.column.label (layer - 1)) = .ok expander ∧
        labels = base ++ expander := by
  have hfirst : layer ≠ 1 := by omega
  have hbelow := Word.sub_of_le (show 1 ≤ layer by omega)
  unfold parentLabels
  simp only [if_neg hfirst, hbelow, Result.ok_bind, Result.bind_eq_ok_iff, Result.pure_eq_ok,
    Except.ok.injEq]
  constructor
  · intro h
    obtain ⟨base, hbase, expander, hexpander, rfl⟩ := h
    exact ⟨base, expander, hbase, hexpander, rfl⟩
  · intro h
    obtain ⟨base, expander, hbase, hexpander, rfl⟩ := h
    exact ⟨base, hbase, expander, hexpander, rfl⟩

end ColumnOpenings

end Replication

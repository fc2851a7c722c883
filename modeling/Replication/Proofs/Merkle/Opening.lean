import Replication.Merkle.Opening
import Replication.Proofs.Outcome

/-!
# What the checks of an opening ask for

Every check of an opening says yes exactly under the condition stated here: the root is reached
from the leaf by hashing fitting steps, the path leads to the position, its length is that of the
tree, and its elements are canonical. A position that is not the largest word determines the
place of the node at every level: `position_cons_eq_iff`.
-/

namespace Replication.Merkle

variable {shape : Shape}

/-- The place of a node is among its siblings or right behind them. -/
theorem Step.Fits.index_le {step : Step} (h : step.Fits shape) :
    step.index.toNat ≤ step.siblings.length := by
  obtain ⟨hlen, hindex, -⟩ := h
  omega

/-- A step that fits puts the node among its siblings. -/
theorem Step.Fits.insert_eq {step : Step} (h : step.Fits shape) (node : Element) :
    step.insert node = .ok (step.children node) :=
  if_pos h.index_le

namespace Path

/-- A path reaches a root exactly if its first step fits and the rest of the path reaches the root
from the parent. -/
theorem climb_cons_eq_ok_some_iff {step : Step} {rest : Path} {node root : Element} :
    climb shape (step :: rest) node = .ok (some root) ↔
      step.Fits shape ∧ ∃ parent, shape.family.node (step.children node) = .ok parent ∧
        climb shape rest parent = .ok (some root) := by
  rw [climb]
  by_cases hfits : step.Fits shape
  · rw [if_pos hfits, hfits.insert_eq, Result.ok_bind, Result.bind_eq_ok_iff]
    exact ⟨fun h => ⟨hfits, h⟩, fun h => h.2⟩
  · rw [if_neg hfits]
    constructor
    · intro h
      cases h
    · intro h
      exact absurd h.1 hfits

/-- A path has a root for a leaf exactly if the leaf is canonical and the climb reaches it. -/
theorem root?_eq_ok_some_iff {path : Path} {leaf root : Element} :
    path.root? shape leaf = .ok (some root) ↔
      leaf.IsCanonical ∧ path.climb shape leaf = .ok (some root) := by
  unfold root?
  by_cases hcanonical : leaf.IsCanonical
  · simp [hcanonical]
  · simp [hcanonical]

/-- A step's index is the lowest digit of the position, capped at the largest word. -/
theorem position_cons (arity : Nat) (step : Step) (rest : Path) :
    position arity (step :: rest)
      = min (min (position arity rest * arity) (Word.limit - 1) + step.index.toNat)
          (Word.limit - 1) := rfl

/-- The place at the lowest level is the last digit of the position. -/
theorem position_cons_of {arity : Nat} {step : Step} {rest : Path} {i : Nat}
    (hrest : position arity rest = i / arity) (hplace : step.index.toNat = i % arity)
    (hi : i < Word.limit) : position arity (step :: rest) = i := by
  have hmod : i / arity * arity + i % arity = i := by
    rw [Nat.mul_comm]
    exact Nat.div_add_mod i arity
  rw [position_cons, hrest, hplace]
  omega

/-- A path that leads below the largest word consists of the place at the lowest level and a path
from there. -/
theorem position_cons_eq_iff {arity : Nat} {step : Step} {rest : Path} {i : Nat}
    (hindex : step.index.toNat < arity) (hi : i < Word.limit - 1) :
    position arity (step :: rest) = i ↔
      position arity rest = i / arity ∧ step.index.toNat = i % arity := by
  constructor
  · intro h
    rw [position_cons] at h
    -- no capping took place on the way to a smaller number
    have hexact : i = position arity rest * arity + step.index.toNat := by omega
    constructor
    · rw [hexact, Nat.mul_comm, Nat.mul_add_div (by omega), Nat.div_eq_of_lt hindex, Nat.add_zero]
    · rw [hexact, Nat.mul_comm, Nat.mul_add_mod, Nat.mod_eq_of_lt hindex]
  · rintro ⟨hrest, hplace⟩
    exact position_cons_of hrest hplace (by omega)

end Path

/-- There is one row more than there are levels. -/
theorem expectedLevels_of_rowCount {arity leaves height : Nat}
    (hrows : rowCount arity leaves = .ok (height + 1)) :
    expectedLevels arity leaves = .ok height := by
  rw [expectedLevels, hrows, Result.ok_bind, Word.sub_of_le (by omega), Nat.add_sub_cancel]

namespace Opening

variable {o : Opening}

/-- An opening is valid exactly if its leaf is canonical and its path leads to its root. -/
theorem verify_eq_ok_true_iff :
    o.verify shape = .ok true ↔
      o.leaf.IsCanonical ∧ o.path.climb shape o.leaf = .ok (some o.root) := by
  rw [← Path.root?_eq_ok_some_iff, verify, Result.bind_eq_ok_iff]
  constructor
  · rintro ⟨recomputed, hrecomputed, h⟩
    rw [Result.pure_eq_ok, Except.ok.injEq, decide_eq_true_iff] at h
    rw [hrecomputed, h]
  · intro h
    exact ⟨some o.root, h, by simp⟩

/-- An opening is valid at a position exactly if it is valid and its indices spell it. -/
theorem verifyAt_eq_ok_true_iff {position : Nat} :
    o.verifyAt shape position = .ok true ↔
      o.verify shape = .ok true ∧ position = o.position shape.arity := by
  rw [verifyAt, Result.andAlso_eq_ok_true_iff, Result.check_eq_ok_true_iff]

theorem verifyLeaf_eq_ok_true_iff {leaf : Element} :
    o.verifyLeaf shape leaf = .ok true ↔ o.verify shape = .ok true ∧ o.leaf = leaf := by
  rw [verifyLeaf, Result.andAlso_eq_ok_true_iff, Result.check_eq_ok_true_iff]

/-- The check of the levels passes exactly for paths of the expected length. -/
theorem requireLevels_eq_ok_iff {arity leaves : Nat} {u : Unit} :
    o.requireLevels arity leaves = .ok u ↔ expectedLevels arity leaves = .ok o.path.length := by
  rw [requireLevels, Result.bind_eq_ok_iff]
  constructor
  · rintro ⟨expected, hexpected, h⟩
    rw [hexpected, Result.require_eq_ok_iff.mp h]
  · intro h
    exact ⟨_, h, Result.require_of rfl⟩

/-- The number of levels that is asked for is the height of the tree. -/
theorem requireLevels_of_rowCount {arity leaves height : Nat}
    (hrows : rowCount arity leaves = .ok (height + 1)) (o : Opening) :
    o.requireLevels arity leaves
      = Result.require (o.path.length = height) (.pathLength height o.path.length) := by
  rw [requireLevels, expectedLevels_of_rowCount hrows, Result.ok_bind]

theorem requireSteps_eq_ok_iff {arity : Nat} {path : Path} {u : Unit} :
    requireSteps arity path = .ok u ↔
      ∀ step ∈ path, step.index.toNat < arity ∧ ∀ e ∈ step.siblings, e.IsCanonical := by
  induction path with
  | nil => simp [requireSteps]
  | cons step rest ih =>
    rw [requireSteps, List.forall_mem_cons, ← ih, and_assoc]
    simp only [Result.bind_eq_ok_iff, Result.require_eq_ok_iff, requireCanonical]
    simp

/-- The check of an opening's elements passes exactly if steps, leaf and root are well-formed. -/
theorem requireElements_eq_ok_iff {arity : Nat} {u : Unit} :
    o.requireElements arity = .ok u ↔
      (∀ step ∈ o.path, step.index.toNat < arity ∧ ∀ e ∈ step.siblings, e.IsCanonical) ∧
        o.leaf.IsCanonical ∧ o.root.IsCanonical := by
  simp only [requireElements, Result.bind_eq_ok_iff, requireSteps_eq_ok_iff, requireCanonical,
    Result.require_eq_ok_iff, List.forall_mem_cons]
  simp

end Opening

end Replication.Merkle

import Replication.Proofs.Merkle.Opening
import Replication.Proofs.Merkle.Shape

/-!
# The height of a full tree, as it is built and as it is asked for

Who builds a tree groups its leaves, then the groups, and so on, as long as the rows divide: how
this ends is `Grouped`, and for an arity from two on it always ends. Who checks an opening subtracts
one from the number of rows, which for binary trees are counted by halving twice the leaves. Main
statement: the leaves fill a tree exactly if they are a power of the arity, and for `2 ^ height`
leaves, as long as twice as many are a word, either way gives the exponent (`height_outcome`).
-/

namespace Replication.Merkle

variable {arity leaves height : Nat}

/-! ## Grouping ends -/

/-- How grouping the nodes of a row, then the groups, and so on, ends: with one node, so many levels
above the row, or with a row of several nodes that does not divide into groups. -/
inductive Grouped (arity : Nat) : Nat → Option Nat → Prop
  | root {width : Nat} (hone : width ≤ 1) : Grouped arity width (some 0)
  | uneven {width : Nat} (hmany : 1 < width) (hmod : width % arity ≠ 0) : Grouped arity width none
  | above {width : Nat} {levels : Option Nat} (hmany : 1 < width) (hmod : width % arity = 0)
      (hgroups : Grouped arity (width / arity) levels) : Grouped arity width (levels.map (· + 1))

/-- Each row of groups is smaller than the row below, so that grouping ends before the bound on the
levels is met. -/
theorem grouped_levelsAbove? (harity : 2 ≤ arity) {bound width : Nat} (hbound : width < bound) :
    Grouped arity width (levelsAbove? arity bound width) := by
  induction bound generalizing width with
  | zero => omega
  | succ bound ih =>
    rw [levelsAbove?]
    by_cases hone : width ≤ 1
    · rw [if_pos hone]
      exact .root hone
    · rw [if_neg hone]
      by_cases hmod : width % arity = 0
      · have hless : width / arity < width := Nat.div_lt_self (by omega) (by omega)
        rw [if_pos hmod]
        exact .above (by omega) hmod (ih (by omega))
      · rw [if_neg hmod]
        exact .uneven (by omega) hmod

/-- Groups of one node are as many as the nodes, and grouping goes on for ever. -/
theorem not_grouped_one {width : Nat} (hmany : 1 < width) (levels : Option Nat) :
    ¬ Grouped 1 width levels := by
  intro h
  induction h with
  | root hone => omega
  | uneven _ hmod => exact hmod (Nat.mod_one _)
  | above _ _ _ ih =>
    apply ih
    rwa [Nat.div_one]

/-! ## The height that is built -/

/-- Fewer leaves than the arity have no height. -/
theorem height?_of_lt (h : leaves < arity) : height? arity leaves = none := if_pos h

/-- The height is the exponent, found exactly for the powers of the arity from the first on. -/
theorem height?_eq_some_iff (harity : 2 ≤ arity) :
    height? arity leaves = some height ↔ 1 ≤ height ∧ leaves = arity ^ height := by
  constructor
  · intro h
    have hleaves : arity ≤ leaves := by
      by_contra hsmall
      rw [height?_of_lt (by omega)] at h
      cases h
    exact (eq_pow_of_height? (by omega) h).2
  · rintro ⟨hheight, rfl⟩
    exact height?_pow harity hheight

/-- The numbers of leaves that fill a tree are the powers of its arity. -/
theorem isFull_iff (harity : 2 ≤ arity) :
    isFull arity leaves = true ↔ ∃ height, 1 ≤ height ∧ leaves = arity ^ height := by
  rw [isFull, Option.isSome_iff_exists]
  exact exists_congr fun _ => height?_eq_some_iff harity

/-! ## The height that is asked for -/

/-- A binary tree of `2 ^ height` leaves has paths of `height` steps. -/
theorem expectedLevels_two_pow (h : height ≤ 62) : expectedLevels 2 (2 ^ height) = .ok height :=
  expectedLevels_of_rowCount (rowCount_two_pow (by omega))

/-- Twice `2 ^ 63` leaves are no word. -/
theorem expectedLevels_two_pow_of_lt (h : 62 < height) :
    expectedLevels 2 (2 ^ height) = abort .overflow := by
  have hoverflow : Word.limit ≤ 2 ^ height * 2 := by
    rw [← Nat.pow_succ]
    exact Nat.pow_le_pow_right (by decide) (by omega)
  rw [expectedLevels, rowCount, if_pos rfl, Word.mul_of_le hoverflow]
  rfl

/-- For every arity from two on, grouping any number of leaves ends, and the leaves fill a tree
exactly if they are a power of the arity with an exponent of at least one. For `2 ^ height` leaves
the rows are counted by the trailing zeros of twice as many, and the path length that is asked for
is the height that is built, up to the height 62; beyond it has no value. -/
theorem height_outcome (harity : 2 ≤ arity) (leaves : Nat) :
    (arity ≤ leaves → Grouped arity leaves (height? arity leaves)) ∧
    (isFull arity leaves = true ↔ ∃ height, 1 ≤ height ∧ leaves = arity ^ height) ∧
    (∀ height, 1 ≤ height → height ≤ 62 →
      height? 2 (2 ^ height) = some height ∧
      rowCount 2 (2 ^ height) = .ok (Logarithm.trailingZeros 64 (2 * 2 ^ height)) ∧
      expectedLevels 2 (2 ^ height) = .ok height ∧
      ∀ o : Opening, o.requireLevels 2 (2 ^ height)
        = Result.require (o.path.length = height) (.pathLength height o.path.length)) ∧
    ∀ height, 62 < height → expectedLevels 2 (2 ^ height) = abort .overflow := by
  refine ⟨fun hleaves => ?_, isFull_iff harity, fun height hpos hle => ?_,
    fun height hlt => expectedLevels_two_pow_of_lt hlt⟩
  · rw [height?, if_neg (by omega)]
    exact grouped_levelsAbove? harity (Nat.lt_succ_self leaves)
  · have hrows : rowCount 2 (2 ^ height) = .ok (height + 1) := rowCount_two_pow (by omega)
    have hzeros : Logarithm.trailingZeros 64 (2 * 2 ^ height) = height + 1 := by
      rw [← Nat.pow_succ', trailingZeros_two_pow (by omega)]
    rw [hzeros]
    exact ⟨height?_pow (by decide) hpos, hrows, expectedLevels_two_pow hle,
      Opening.requireLevels_of_rowCount hrows⟩

/-- Sixty-four leaves fill an octal tree of two levels. -/
theorem height_outcome_octal : 2 ≤ 8 ∧ 8 ≤ 64 ∧ Grouped 8 64 (some 2) ∧ isFull 8 64 = true ∧
    1 ≤ 62 ∧ 62 ≤ 62 ∧ height? 2 (2 ^ 62) = some 62 ∧ expectedLevels 2 (2 ^ 62) = .ok 62 ∧
    62 < 63 ∧ expectedLevels 2 (2 ^ 63) = abort .overflow := by
  obtain ⟨hgrouped, hfull, hbinary, hbeyond⟩ := height_outcome (show 2 ≤ 8 by decide) 64
  have hheight : height? 8 64 = some 2 := by decide
  rw [hheight] at hgrouped
  obtain ⟨hbuilt, -, hexpected, -⟩ := hbinary 62 (by decide) (by decide)
  exact ⟨by decide, by decide, hgrouped (by decide), hfull.mpr ⟨2, by decide, by decide⟩,
    by decide, by decide, hbuilt, hexpected, by decide, hbeyond 63 (by decide)⟩

/-- Neither a row that divides only once nor a single leaf fills a tree. -/
example : isFull 8 16 = false ∧ isFull 2 12 = false ∧ isFull 2 1 = false := by decide

end Replication.Merkle

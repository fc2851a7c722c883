import Mathlib.Data.Nat.Log
import Mathlib.Data.Set.Lattice
import Mathlib.Order.Bounds.Basic
import Mathlib.Order.Interval.Set.Basic
import Replication.Proofs.Graph.Construction

/-!
# The distances of the buckets

The buckets of a metanode overlap or meet: the first `count` of them hold every distance from two
up to `2 ^ count`, as far as the metanode has it. So all distances are covered exactly if the
number of buckets is not too small, which it is for metanodes just above a large power of two. There
the excess is lost when the logarithm is rounded, and the few distances above the power of two are
in no bucket. Main statement: `bucket_coverage`.
-/

namespace Replication

namespace BaseGraph

/-- The distances of the first buckets of a metanode. -/
def distances (metanode count : Nat) : Set Nat :=
  ⋃ bucket ∈ Set.Icc 1 count,
    Set.Icc (smallestDistance metanode bucket) (largestDistance metanode bucket)

variable {metanode count distance : Nat}

/-- The distances that can be drawn are those of the buckets up to the count. -/
theorem mem_distances_iff : distance ∈ distances metanode count ↔
    ∃ bucket, 1 ≤ bucket ∧ bucket ≤ count ∧ smallestDistance metanode bucket ≤ distance ∧
      distance ≤ largestDistance metanode bucket := by
  simp only [distances, Set.mem_iUnion, Set.mem_Icc, exists_prop, and_assoc]

/-- The bucket of a distance is that of the next power of two. -/
theorem exists_bucket (htwo : 2 ≤ distance) (hmetanode : distance ≤ metanode)
    (hcount : distance ≤ 2 ^ count) : ∃ bucket, 1 ≤ bucket ∧ bucket ≤ count ∧
      smallestDistance metanode bucket ≤ distance ∧
        distance ≤ largestDistance metanode bucket := by
  have hupper : distance ≤ 2 ^ Nat.clog 2 distance := Nat.le_pow_clog (by decide) distance
  have hlower : 2 ^ (Nat.clog 2 distance).pred < distance :=
    Nat.pow_pred_clog_lt_self (by decide) htwo
  have hpos : 0 < Nat.clog 2 distance := Nat.clog_pos (by decide) htwo
  have hhalf : 2 ^ Nat.clog 2 distance = 2 * 2 ^ (Nat.clog 2 distance).pred := by
    rw [← Nat.pow_succ', Nat.succ_pred_eq_of_pos hpos]
  refine ⟨Nat.clog 2 distance, hpos, Nat.clog_le_of_le_pow hcount, ?_, ?_⟩
  · unfold smallestDistance largestDistance
    omega
  · unfold largestDistance
    omega

/-- The first buckets leave no gap. -/
theorem distances_eq (metanode count : Nat) :
    distances metanode count = Set.Icc 2 (min metanode (2 ^ count)) := by
  ext distance
  rw [mem_distances_iff, Set.mem_Icc, Nat.le_min]
  constructor
  · rintro ⟨bucket, -, hcount, hsmallest, hlargest⟩
    have hpow : 2 ^ bucket ≤ 2 ^ count := Nat.pow_le_pow_right (by decide) hcount
    unfold smallestDistance at hsmallest
    unfold largestDistance at hlargest
    omega
  · rintro ⟨htwo, hmetanode, hcount⟩
    exact exists_bucket htwo hmetanode hcount

/-- All distances are covered exactly if there are enough buckets. -/
theorem distances_eq_Icc_iff (htwo : 2 ≤ metanode) :
    distances metanode count = Set.Icc 2 metanode ↔ metanode ≤ 2 ^ count := by
  rw [distances_eq]
  constructor
  · intro h
    have hmem : metanode ∈ Set.Icc 2 (min metanode (2 ^ count)) := by
      rw [h]
      exact ⟨htwo, Nat.le_refl _⟩
    exact hmem.2.trans (Nat.min_le_right _ _)
  · intro hle
    rw [Nat.min_eq_left hle]

/-- The number of buckets, if it is not too small, is the least that is not. -/
theorem isLeast_bucketCount_iff (htwo : 2 ≤ metanode) :
    IsLeast {count | 1 ≤ count ∧ metanode ≤ 2 ^ count} (bucketCount metanode) ↔
      metanode ≤ 2 ^ bucketCount metanode := by
  constructor
  · intro h
    exact h.1.2
  · intro hle
    refine ⟨⟨bucketCount_pos htwo, hle⟩, ?_⟩
    rintro count ⟨-, hcount⟩
    exact Logarithm.ceilLog2_le hcount

/-- The buckets of a metanode hold the distances from two up to the metanode, or to the power of two
whose exponent is the number of buckets, if that is less. It is less, and the number of buckets not
the least that would do, exactly just above a power of two; no metanode up to `2 ^ 49` is just above
one, and no more than twenty-two distances are ever missing. -/
theorem bucket_coverage {nodes degree : Nat} {id : PorepId} {g : BaseGraph}
    (hg : new nodes degree id = .ok g) {node : Nat} (htwo : 2 ≤ node) (hnode : node < nodes)
    {metanode : Nat} (hmetanode : metanode = node * (degree - 1)) :
    distances metanode (bucketCount metanode)
      = Set.Icc 2 (min metanode (2 ^ bucketCount metanode)) ∧
    (distances metanode (bucketCount metanode) = Set.Icc 2 metanode ↔
      IsLeast {count | 1 ≤ count ∧ metanode ≤ 2 ^ count} (bucketCount metanode)) ∧
    (distances metanode (bucketCount metanode) = Set.Icc 2 metanode ↔
      ¬ Logarithm.JustAbove metanode) ∧
    (metanode ≤ 2 ^ 49 → ¬ Logarithm.JustAbove metanode) ∧
    metanode ≤ 2 ^ bucketCount metanode + 22 := by
  obtain rfl := nodes_of_new hg
  obtain rfl := degree_of_new hg
  subst hmetanode
  have hlow : 2 ≤ node * (g.degree - 1) := g.two_le_metanode htwo
  have hhigh : node * (g.degree - 1) ≤ 2 ^ 54 := g.metanode_le hnode
  refine ⟨distances_eq _ _, ?_, ?_, ?_, ?_⟩
  · rw [distances_eq_Icc_iff hlow, isLeast_bucketCount_iff hlow]
  · rw [distances_eq_Icc_iff hlow]
    exact Logarithm.le_two_pow_ceilLog2_iff (by omega) hhigh
  · intro hle habove
    have hlt := Logarithm.two_pow_lt_of_justAbove habove
    omega
  · by_cases habove : Logarithm.JustAbove (node * (g.degree - 1))
    · exact Logarithm.excess_le_of_justAbove habove hhigh
    · exact Nat.le_add_right_of_le
        ((Logarithm.le_two_pow_ceilLog2_iff (by omega) hhigh).mpr habove)

/-- The metanode `2 ^ 50` has fifty buckets, and they hold all its distances. -/
theorem bucket_coverage_two_pow : ∃ g, new (2 ^ 31 + 1) (2 ^ 19 + 1) .zero = .ok g ∧
    2 ≤ 2 ^ 31 ∧ 2 ^ 31 < 2 ^ 31 + 1 ∧ 2 ^ 50 = 2 ^ 31 * (2 ^ 19 + 1 - 1) ∧
    bucketCount (2 ^ 50) = 50 ∧ distances (2 ^ 50) (bucketCount (2 ^ 50)) = Set.Icc 2 (2 ^ 50) ∧
    IsLeast {count | 1 ≤ count ∧ 2 ^ 50 ≤ 2 ^ count} (bucketCount (2 ^ 50)) := by
  have hexists : ∃ g, new (2 ^ 31 + 1) (2 ^ 19 + 1) .zero = .ok g :=
    exists_new .zero (by decide) (by decide) (by decide) (by decide)
  obtain ⟨g, hg⟩ := hexists
  have htwo : 2 ≤ 2 ^ 31 := by decide
  have hnode : 2 ^ 31 < 2 ^ 31 + 1 := by decide
  have hmetanode : 2 ^ 50 = 2 ^ 31 * (2 ^ 19 + 1 - 1) := by decide
  obtain ⟨-, hleast, -⟩ := bucket_coverage hg htwo hnode hmetanode
  have hcount : bucketCount (2 ^ 50) = 50 := Logarithm.ceilLog2_two_pow 50
  have hcovered : distances (2 ^ 50) (bucketCount (2 ^ 50)) = Set.Icc 2 (2 ^ 50) :=
    (distances_eq_Icc_iff (by decide)).mpr (by rw [hcount])
  exact ⟨g, hg, htwo, hnode, hmetanode, hcount, hcovered, hleast.mp hcovered⟩

/-- Not every distance is in a bucket: the metanode `2 ^ 50 + 1` has fifty buckets as well, where
fifty-one are needed, and its largest distance is in none of them. -/
theorem buckets_miss_largest : ∃ g, new 4193280126 268502 .zero = .ok g ∧
    2 ≤ 4193280125 ∧ 4193280125 < 4193280126 ∧ 2 ^ 50 + 1 = 4193280125 * (268502 - 1) ∧
    2 ^ 50 + 1 ≤ metanodeLimit ∧ bucketCount (2 ^ 50 + 1) = 50 ∧ 2 ^ 50 < 2 ^ 50 + 1 ∧
    2 ^ 50 + 1 ∈ Set.Icc 2 (2 ^ 50 + 1) ∧
    2 ^ 50 + 1 ∉ distances (2 ^ 50 + 1) (bucketCount (2 ^ 50 + 1)) := by
  have hexists : ∃ g, new 4193280126 268502 .zero = .ok g :=
    exists_new .zero (by decide) (by decide) (by decide) (by decide)
  obtain ⟨g, hg⟩ := hexists
  have hcount : bucketCount (2 ^ 50 + 1) = 50 := by decide +kernel
  refine ⟨g, hg, by decide, by decide, by decide, by decide, hcount, by decide, by decide, ?_⟩
  rw [distances_eq, hcount, Set.mem_Icc]
  decide

end BaseGraph

end Replication

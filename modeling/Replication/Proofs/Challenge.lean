import Replication.Challenge
import Replication.Proofs.Outcome

/-!
# Drawing challenges

A partition has as many challenges as the plan says, all of them nodes above zero. They can be
drawn as long as the ordinals of the partition fit thirty-two bits: the challenges of partition `k`
are the draws of `count` consecutive ordinals from `count * k` on (`derive_eq_ok_iff`). So it makes
no difference to the challenges into how many partitions they are cut (`derive_mul_eq_ok_iff`).

A partition whose ordinals do not fit is refused as long as its first ordinal, and the number of
partitions that the refusal names, are words (`challenges_outcome`).
-/

namespace Replication

namespace Challenge

variable {count leaves : Nat} {replicaId seed : Element} {k : Nat}

/-- A challenge is a node of the graph and never node zero. -/
theorem draw_bounds (hleaves : 2 ≤ leaves) (replicaId seed : Element) (ordinal : Nat) :
    draw replicaId seed leaves ordinal ≠ 0 ∧ draw replicaId seed leaves ordinal < leaves := by
  -- the digest is reduced below the last node and moved up by one
  have hlt := Nat.mod_lt (Sha256.digest (preimage replicaId seed ordinal)).value
    (show 0 < leaves - 1 by omega)
  unfold draw
  omega

theorem ordinal_of_lt {i : Nat} (h : count * k + i < Word.halfLimit) :
    ordinal count k i = .ok (count * k + i) := by
  have hlimit : Word.halfLimit < Word.limit := by decide
  unfold ordinal
  rw [Word.mul_of_lt (by omega), Result.ok_bind, Word.add_of_lt (by omega), Result.ok_bind,
    if_pos h, Result.pure_eq_ok]

/-- An ordinal has a value exactly when the exact number fits 32 bits. -/
theorem ordinal_eq_ok_iff {i j : Nat} :
    ordinal count k i = .ok j ↔ count * k + i < Word.halfLimit ∧ count * k + i = j := by
  constructor
  · intro h
    obtain ⟨before, hbefore, h⟩ := Result.bind_eq_ok h
    obtain ⟨-, rfl⟩ := Word.mul_eq_ok_iff.mp hbefore
    obtain ⟨sum, hsum, h⟩ := Result.bind_eq_ok h
    obtain ⟨-, rfl⟩ := Word.add_eq_ok_iff.mp hsum
    by_cases hlt : count * k + i < Word.halfLimit
    · rw [if_pos hlt] at h
      cases h
      exact ⟨hlt, rfl⟩
    · rw [if_neg hlt] at h
      obtain ⟨_, -, h⟩ := Result.bind_eq_ok h
      cases h
  · rintro ⟨hlt, rfl⟩
    exact ordinal_of_lt hlt

/-- The ordinals of partition `k` when every partition has `count` challenges. -/
def ordinals (count k : Nat) : List Nat := List.range' (count * k) count

/-- The ordinals of the first partitions, one after the other, are those of one large partition. -/
theorem flatten_ordinals (count partitions : Nat) :
    ((List.range partitions).map (ordinals count)).flatten
      = ordinals (count * partitions) 0 := by
  induction partitions with
  | zero => rfl
  | succ partitions ih =>
    rw [List.range_succ, List.map_append, List.flatten_append, ih]
    have hjoin := List.range'_append_1 (s := 0) (m := count * partitions) (n := count)
    rw [Nat.zero_add] at hjoin
    simp [ordinals, Nat.mul_succ, hjoin]

/-- The challenges of a partition are the draws of its ordinals, all of which fit. -/
theorem derive_eq_ok_iff {challenges : List Nat} :
    derive count leaves replicaId seed k = .ok challenges ↔
      2 ≤ leaves ∧ (∀ j ∈ ordinals count k, j < Word.halfLimit) ∧
        (ordinals count k).map (draw replicaId seed leaves) = challenges := by
  have hshift : ordinals count k = (List.range' 0 count).map (count * k + ·) := by
    rw [List.map_add_range', Nat.add_zero, ordinals]
  unfold derive
  simp only [Result.bind_eq_ok_iff, Result.require_eq_ok_iff, exists_const]
  rw [Result.forRange_eq_mapM, Result.mapM_eq_ok_iff, hshift, List.map_map, ← List.forall₂_eq_eq_eq]
  simp only [Result.map_eq_ok_iff, ordinal_eq_ok_iff, and_assoc, exists_and_left, exists_eq_left',
    List.forall₂_and_left, List.forall₂_map_left_iff, List.forall_mem_map, Function.comp_apply]

/-- What is drawn for a partition. -/
theorem bounds_of_derive {challenges : List Nat}
    (h : derive count leaves replicaId seed k = .ok challenges) :
    challenges.length = count ∧ ∀ c ∈ challenges, c ≠ 0 ∧ c < leaves := by
  obtain ⟨hleaves, -, rfl⟩ := derive_eq_ok_iff.mp h
  refine ⟨by simp [ordinals], ?_⟩
  intro c hc
  obtain ⟨j, -, rfl⟩ := List.mem_map.mp hc
  exact draw_bounds hleaves replicaId seed j

/-- The challenges of a partition can be drawn exactly if there is a node above zero and the last of
their ordinals fits. -/
theorem exists_derive_iff :
    (∃ challenges, derive count leaves replicaId seed k = .ok challenges) ↔
      2 ≤ leaves ∧ (count = 0 ∨ count * (k + 1) ≤ Word.halfLimit) := by
  have hlast : (∀ j ∈ ordinals count k, j < Word.halfLimit) ↔
      count = 0 ∨ count * (k + 1) ≤ Word.halfLimit := by
    unfold ordinals
    simp only [List.mem_range'_1, Nat.mul_succ]
    constructor
    · intro h
      have hlast := h (count * k + (count - 1))
      omega
    · intro h j hj
      omega
  simp only [derive_eq_ok_iff, hlast, exists_and_left, exists_eq', and_true]

/-- Challenges can be derived as soon as the last ordinal fits 32 bits. -/
theorem exists_derive (hleaves : 2 ≤ leaves) (replicaId seed : Element)
    (hordinals : count * (k + 1) ≤ Word.halfLimit) :
    ∃ challenges, derive count leaves replicaId seed k = .ok challenges :=
  exists_derive_iff.mpr ⟨hleaves, .inr hordinals⟩

/-- What is drawn for each of the first partitions. -/
theorem mapM_derive_eq_ok_iff {partitions : Nat} (hpos : 1 ≤ partitions)
    {parts : List (List Nat)} :
    (List.range partitions).mapM (derive count leaves replicaId seed) = .ok parts ↔
      2 ≤ leaves ∧ (∀ k ∈ List.range partitions, ∀ j ∈ ordinals count k, j < Word.halfLimit) ∧
        ((List.range partitions).map (ordinals count)).map
          (List.map (draw replicaId seed leaves)) = parts := by
  rw [Result.mapM_eq_ok_iff, List.map_map, ← List.forall₂_eq_eq_eq, List.forall₂_map_left_iff]
  simp only [derive_eq_ok_iff, List.forall₂_and_left, Result.forall_mem_range_const hpos,
    Function.comp_apply]

/-- The challenges of one large partition are those of all partitions, one after the other. -/
theorem derive_mul_eq_ok_iff {partitions : Nat} (hpos : 1 ≤ partitions) {whole : List Nat} :
    derive (count * partitions) leaves replicaId seed 0 = .ok whole ↔
      ∃ parts, (List.range partitions).mapM (derive count leaves replicaId seed) = .ok parts ∧
        parts.flatten = whole := by
  have hfit : (∀ j ∈ ((List.range partitions).map (ordinals count)).flatten, j < Word.halfLimit) ↔
      ∀ k ∈ List.range partitions, ∀ j ∈ ordinals count k, j < Word.halfLimit := by
    simp only [List.forall_mem_flatten, List.forall_mem_map]
  rw [derive_eq_ok_iff, ← flatten_ordinals, hfit, List.map_flatten]
  simp only [mapM_derive_eq_ok_iff hpos, and_assoc, exists_and_left, exists_eq_left']

/-! ## Ordinals that do not fit -/

/-- An ordinal that is a word and does not fit is refused, by the number of partitions that there
would be. -/
theorem ordinal_of_not_fit {i : Nat} (hfit : Word.halfLimit ≤ count * k + i)
    (hword : count * k + i < Word.limit) (hnext : k + 1 < Word.limit) :
    ordinal count k i = refuse (.unevenPartitions count (k + 1)) := by
  unfold ordinal
  rw [Word.mul_of_lt (by omega), Result.ok_bind, Word.add_of_lt hword, Result.ok_bind,
    if_neg (by omega), Word.add_of_lt hnext, Result.ok_bind]

/-- The first ordinal is counted before it is compared, and the partitions are counted for the
refusal. -/
theorem ordinal_zero_of_overflow (hfit : Word.halfLimit ≤ count * k)
    (h : Word.limit ≤ count * k ∨ Word.limit ≤ k + 1) :
    ordinal count k 0 = abort .overflow := by
  unfold ordinal
  by_cases hword : count * k < Word.limit
  · rw [Word.mul_of_lt hword, Result.ok_bind, Word.add_of_lt hword, Result.ok_bind,
      if_neg (by omega), Word.add_of_le (by omega), Result.abort_bind]
  · rw [Word.mul_of_le (by omega), Result.abort_bind]

/-- Challenges are drawn in the order of their ordinals, so the first one that has none decides. -/
theorem derive_eq_error {first : Nat} {failure : Failure} (hleaves : 2 ≤ leaves)
    (hfirst : first < count) (hbefore : ∀ i < first, count * k + i < Word.halfLimit)
    (hfails : ordinal count k first = .error failure) :
    derive count leaves replicaId seed k = .error failure := by
  unfold derive
  rw [Result.require_of hleaves, Result.ok_bind]
  refine Result.forRange_eq_error hfirst ?_ ?_
  · intro i hi
    rw [Nat.zero_add, ordinal_of_lt (hbefore i hi)]
    exact ⟨_, rfl⟩
  · rw [Nat.zero_add, hfails]
    rfl

/-- If only the conversion to 32 bits fails, the plan is refused as not cut evenly. -/
theorem derive_of_not_fit (hleaves : 2 ≤ leaves) (hcount : count ≠ 0)
    (hfit : Word.halfLimit < count * (k + 1)) (hword : count * k < Word.limit)
    (hnext : k + 1 < Word.limit) :
    derive count leaves replicaId seed k = refuse (.unevenPartitions count (k + 1)) := by
  have hlimit : Word.halfLimit < Word.limit := by decide
  rw [Nat.mul_succ] at hfit
  -- the first challenge without an ordinal is the first one of all, or the one at the limit itself
  have hfirst : ordinal count k (Word.halfLimit - count * k)
      = refuse (.unevenPartitions count (k + 1)) :=
    ordinal_of_not_fit (by omega) (by omega) hnext
  exact derive_eq_error hleaves (by omega) (by omega) hfirst

/-- If the product or the successor of the partition does not fit a word, the derivation aborts. -/
theorem derive_of_overflow (hleaves : 2 ≤ leaves) (hcount : count ≠ 0)
    (hfit : Word.halfLimit ≤ count * k) (h : Word.limit ≤ count * k ∨ Word.limit ≤ k + 1) :
    derive count leaves replicaId seed k = abort .overflow :=
  derive_eq_error hleaves (Nat.pos_of_ne_zero hcount) (by omega) (ordinal_zero_of_overflow hfit h)

end Challenge

/-! ## Cutting a plan into partitions -/

namespace ChallengePlan

/-- All challenges of a plan can be drawn at once exactly if those of every partition can, and they
are then the challenges of the partitions in order. The challenges of a partition can be drawn if
there is a node above zero and their ordinals fit thirty-two bits; there are as many as the plan
says, all of them nodes above zero. -/
theorem challenges_cut_into_partitions (layers size leaves : Nat) {partitions : Nat}
    (hpos : 1 ≤ partitions) (replicaId seed : Element) :
    ((∃ whole, (ChallengePlan.mk layers (size * partitions)).challenges leaves replicaId seed 0
        = .ok whole) ↔
      ∀ k < partitions, ∃ part,
        (ChallengePlan.mk layers size).challenges leaves replicaId seed k = .ok part) ∧
    (∀ parts, List.Forall₂ (fun k part =>
        (ChallengePlan.mk layers size).challenges leaves replicaId seed k = .ok part)
        (List.range partitions) parts →
      (ChallengePlan.mk layers (size * partitions)).challenges leaves replicaId seed 0
        = .ok parts.flatten) ∧
    ∀ (plan : ChallengePlan) (k : Nat),
      ((∃ drawn, plan.challenges leaves replicaId seed k = .ok drawn) ↔
        2 ≤ leaves ∧ (plan.perPartition = 0 ∨ plan.perPartition * (k + 1) ≤ 2 ^ 32)) ∧
      ∀ drawn, plan.challenges leaves replicaId seed k = .ok drawn →
        drawn.length = plan.perPartition ∧ ∀ c ∈ drawn, 1 ≤ c ∧ c ≤ leaves - 1 := by
  -- one run over all ordinals is the runs of the partitions, joined
  have hwhole : ∀ whole,
      (ChallengePlan.mk layers (size * partitions)).challenges leaves replicaId seed 0
        = .ok whole ↔
      ∃ parts, (List.range partitions).mapM
        ((ChallengePlan.mk layers size).challenges leaves replicaId seed) = .ok parts ∧
        parts.flatten = whole := fun whole => Challenge.derive_mul_eq_ok_iff hpos
  refine ⟨⟨?_, ?_⟩, ?_, ?_⟩
  · intro h k hk
    obtain ⟨whole, hdrawn⟩ := h
    obtain ⟨parts, hparts, -⟩ := (hwhole whole).mp hdrawn
    exact Result.exists_of_mapM hparts (List.mem_range.mpr hk)
  · intro h
    obtain ⟨parts, hparts⟩ := Result.exists_mapM fun k hk => h k (List.mem_range.mp hk)
    exact ⟨parts.flatten, (hwhole _).mpr ⟨parts, hparts, rfl⟩⟩
  · intro parts hparts
    exact (hwhole _).mpr ⟨parts, Result.mapM_eq_ok_iff.mpr hparts, rfl⟩
  · intro plan k
    refine ⟨Challenge.exists_derive_iff, ?_⟩
    intro drawn hdrawn
    obtain ⟨hlength, hbounds⟩ := Challenge.bounds_of_derive hdrawn
    refine ⟨hlength, ?_⟩
    intro c hc
    have hc := hbounds c hc
    omega

/-- As many challenges as there are ordinals are drawn among two nodes in two partitions: all of
them are the second node. -/
theorem challenges_all_ordinals : ∃ whole,
    (ChallengePlan.mk 11 (2 ^ 31 * 2)).challenges 2 .zero .zero 0 = .ok whole ∧
      whole.length = 2 ^ 31 * 2 ∧ ∀ c ∈ whole, c = 1 := by
  obtain ⟨hdrawn, -, hplan⟩ :=
    challenges_cut_into_partitions 11 (2 ^ 31) 2 (show 1 ≤ 2 by decide) .zero .zero
  have hparts : ∀ k < 2, ∃ part,
      (ChallengePlan.mk 11 (2 ^ 31)).challenges 2 .zero .zero k = .ok part := by
    intro k hk
    obtain ⟨hfits, -⟩ := hplan ⟨11, 2 ^ 31⟩ k
    have hordinals : 2 ^ 31 * (k + 1) ≤ 2 ^ 32 := by omega
    exact hfits.mpr ⟨Nat.le_refl 2, .inr hordinals⟩
  obtain ⟨whole, hwhole⟩ := hdrawn.mpr hparts
  obtain ⟨-, hbounds⟩ := hplan ⟨11, 2 ^ 31 * 2⟩ 0
  obtain ⟨hlength, hbounds⟩ := hbounds whole hwhole
  refine ⟨whole, hwhole, hlength, ?_⟩
  intro c hc
  have hc := hbounds c hc
  omega

/-! ## What drawing challenges comes to -/

/-- Challenges are drawn exactly if there is a node above zero and the last ordinal fits thirty-two
bits, or there is none. Otherwise the leaves are refused if they are too few, and the partition is
refused if the first of its ordinals and the number of partitions are words. If one of these is no
word, drawing aborts. -/
theorem challenges_outcome (plan : ChallengePlan) (leaves : Nat) (replicaId seed : Element)
    (k : Nat) :
    ((∃ drawn, plan.challenges leaves replicaId seed k = .ok drawn) ↔
      2 ≤ leaves ∧ (plan.perPartition = 0 ∨
        plan.perPartition * k + plan.perPartition - 1 ≤ 2 ^ 32 - 1)) ∧
    (leaves < 2 →
      plan.challenges leaves replicaId seed k = refuse (.graph (.tooFewLeaves leaves))) ∧
    (2 ≤ leaves → 2 ^ 32 - 1 < plan.perPartition * k + plan.perPartition - 1 →
      plan.perPartition * k < 2 ^ 64 → k + 1 < 2 ^ 64 →
      plan.challenges leaves replicaId seed k
        = refuse (.unevenPartitions plan.perPartition (k + 1))) ∧
    (2 ≤ leaves → 2 ^ 32 - 1 < plan.perPartition * k + plan.perPartition - 1 →
      2 ^ 64 ≤ plan.perPartition * k ∨ 2 ^ 64 ≤ k + 1 →
      plan.challenges leaves replicaId seed k = abort .overflow) := by
  have hhalf : Word.halfLimit = 2 ^ 32 := rfl
  -- a partition without challenges has no ordinal that could be too large
  have hcount : 2 ^ 32 - 1 < plan.perPartition * k + plan.perPartition - 1 →
      plan.perPartition ≠ 0 := by
    intro hfit hzero
    rw [hzero, Nat.zero_mul] at hfit
    omega
  refine ⟨?_, ?_, ?_, ?_⟩
  · unfold challenges
    rw [Challenge.exists_derive_iff, Nat.mul_succ]
    omega
  · intro hleaves
    unfold challenges Challenge.derive
    rw [Result.require_of_not (by omega), Result.refuse_bind]
  · intro hleaves hfit hword hnext
    have hlast : Word.halfLimit < plan.perPartition * (k + 1) := by
      rw [Nat.mul_succ]
      omega
    exact Challenge.derive_of_not_fit hleaves (hcount hfit) hlast hword hnext
  · intro hleaves hfit hoverflow
    have hpos := Nat.pos_of_ne_zero (hcount hfit)
    have hle : k ≤ plan.perPartition * k := Nat.le_mul_of_pos_left k hpos
    exact Challenge.derive_of_overflow hleaves (hcount hfit) (by omega) hoverflow

/-- Of two challenges each, partition `2 ^ 31 - 1` is the last that can be drawn and the next one is
refused. -/
theorem challenges_outcome_last_partition :
    (∃ drawn, (ChallengePlan.mk 11 2).challenges 16 .zero .zero (2 ^ 31 - 1) = .ok drawn) ∧
    (ChallengePlan.mk 11 2).challenges 16 .zero .zero (2 ^ 31)
      = refuse (.unevenPartitions 2 (2 ^ 31 + 1)) ∧
    (ChallengePlan.mk 11 2).challenges 16 .zero .zero (2 ^ 63) = abort .overflow ∧
    (ChallengePlan.mk 11 2).challenges 1 .zero .zero 0 = refuse (.graph (.tooFewLeaves 1)) := by
  obtain ⟨hlast, -⟩ := challenges_outcome ⟨11, 2⟩ 16 .zero .zero (2 ^ 31 - 1)
  obtain ⟨-, -, hnext, -⟩ := challenges_outcome ⟨11, 2⟩ 16 .zero .zero (2 ^ 31)
  obtain ⟨-, -, -, hoverflow⟩ := challenges_outcome ⟨11, 2⟩ 16 .zero .zero (2 ^ 63)
  obtain ⟨-, hfew, -⟩ := challenges_outcome ⟨11, 2⟩ 1 .zero .zero 0
  exact ⟨hlast.mpr ⟨by decide, .inr (by decide)⟩,
    hnext (by decide) (by decide) (by decide) (by decide),
    hoverflow (by decide) (by decide) (.inl (by decide)), hfew (by decide)⟩

/-- Not every partition that cannot be drawn is refused: partition `2 ^ 63` of two challenges each,
and the partition with the largest number of one challenge each, abort. -/
theorem challenges_overflow :
    2 ^ 32 - 1 < 2 * 2 ^ 63 + 2 - 1 ∧ 2 ^ 63 < Word.limit ∧
    (ChallengePlan.mk 2 2).challenges 16 .zero .zero (2 ^ 63) = abort .overflow ∧
    2 ^ 32 - 1 < 1 * (2 ^ 64 - 1) + 1 - 1 ∧ 2 ^ 64 - 1 < Word.limit ∧
    (ChallengePlan.mk 2 1).challenges 16 .zero .zero (2 ^ 64 - 1) = abort .overflow := by
  refine ⟨by decide, by decide, ?_, by decide, by decide, ?_⟩
  · exact Challenge.derive_of_overflow (by decide) (by decide) (by decide) (.inl (by decide))
  · exact Challenge.derive_of_overflow (by decide) (by decide) (by decide) (.inr (by decide))

end ChallengePlan

end Replication

import Mathlib.Algebra.BigOperators.Fin
import Replication.Proofs.Merkle.Opening

/-!
# The places on a path are the digits of its position

Read as digits in base `arity`, the lowest level first, the places on a path are a number. The
position is this number, or the largest word where the number is no word: `position_eq_min`. With
every place below the arity the number is below the arity's power of the levels, and it gives all
places back: `map_index_eq_of_number_eq`. Main statement: the position of an opening is the capped
sum of its places, each times the power of the arity at its level, whichever way it is read off
(`position_eq_min_sum`).
-/

namespace Replication.Merkle

namespace Path

variable {arity : Nat} {path path' : Path}

/-- The number whose digits in base `arity` are the places on a path, the lowest level first. -/
def number (arity : Nat) (path : Path) : Nat :=
  path.foldr (fun step above => above * arity + step.index.toNat) 0

@[simp] theorem number_nil (arity : Nat) : number arity [] = 0 := rfl

@[simp] theorem number_cons (arity : Nat) (step : Step) (rest : Path) :
    number arity (step :: rest) = number arity rest * arity + step.index.toNat := rfl

/-- Level by level, the number is the sum of the places, each times the power of the arity that
belongs to its level. -/
theorem number_eq_sum (arity : Nat) (path : Path) : path.number arity
    = ∑ level : Fin path.length, path[level].index.toNat * arity ^ (level : Nat) := by
  induction path with
  | nil => rfl
  | cons step rest ih =>
    -- every level of the rest is one level higher here
    have hrest : number arity rest * arity = ∑ level : Fin rest.length,
        rest[level].index.toNat * arity ^ ((level : Nat) + 1) := by
      rw [ih, Finset.sum_mul]
      refine Finset.sum_congr rfl fun level _ => ?_
      rw [Nat.pow_succ, Nat.mul_assoc]
    calc number arity (step :: rest)
        = step.index.toNat + number arity rest * arity := Nat.add_comm _ _
      _ = step.index.toNat * arity ^ 0
          + ∑ level : Fin rest.length, rest[level].index.toNat * arity ^ ((level : Nat) + 1) := by
        rw [hrest, Nat.pow_zero, Nat.mul_one]
      _ = ∑ level : Fin (rest.length + 1),
          (step :: rest)[level].index.toNat * arity ^ (level : Nat) :=
        (Fin.sum_univ_succ fun level : Fin (rest.length + 1) =>
          (step :: rest)[level].index.toNat * arity ^ (level : Nat)).symm

/-- Without its lowest digit the number is that of the levels above. -/
theorem number_cons_div {step : Step} {rest : Path} (hplace : step.index.toNat < arity) :
    number arity (step :: rest) / arity = number arity rest := by
  rw [number_cons, Nat.mul_comm, Nat.mul_add_div (by omega), Nat.div_eq_of_lt hplace,
    Nat.add_zero]

/-- So many digits make no larger number. -/
theorem number_lt (hindex : ∀ step ∈ path, step.index.toNat < arity) :
    path.number arity < arity ^ path.length := by
  induction path with
  | nil => simp
  | cons step rest ih =>
    rw [List.forall_mem_cons] at hindex
    have hrest := ih hindex.2
    calc number arity (step :: rest) < number arity rest * arity + arity := by
          rw [number_cons]
          omega
      _ = (number arity rest + 1) * arity := (Nat.succ_mul _ _).symm
      _ ≤ arity ^ rest.length * arity := Nat.mul_le_mul_right _ hrest
      _ = arity ^ (step :: rest).length := by rw [List.length_cons, Nat.pow_succ]

/-- Capping at every level is capping once: from the largest word upwards nothing is lost. -/
theorem position_eq_min (harity : 0 < arity) (path : Path) :
    path.position arity = min (path.number arity) (Word.limit - 1) := by
  induction path with
  | nil => simp [position]
  | cons step rest ih =>
    rw [position_cons, ih, number_cons]
    by_cases hsmall : number arity rest ≤ Word.limit - 1
    · rw [Nat.min_eq_left hsmall]
      omega
    · have hlarge : number arity rest ≤ number arity rest * arity :=
        Nat.le_mul_of_pos_right _ harity
      have hcapped : Word.limit - 1 ≤ (Word.limit - 1) * arity :=
        Nat.le_mul_of_pos_right _ harity
      rw [Nat.min_eq_right (by omega : Word.limit - 1 ≤ number arity rest)]
      omega

/-- A path within the arity whose levels are not too many for words leads to its number. -/
theorem position_eq_number (hindex : ∀ step ∈ path, step.index.toNat < arity)
    (hbound : arity ^ path.length ≤ Word.limit) : path.position arity = path.number arity := by
  match path with
  | [] => rfl
  | step :: rest =>
    have hplace := hindex step List.mem_cons_self
    have hnumber := number_lt hindex
    rw [position_eq_min (by omega)]
    omega

/-- The digits of a number are determined by the number. -/
theorem map_index_eq_of_number_eq (hlength : path.length = path'.length)
    (hindex : ∀ step ∈ path, step.index.toNat < arity)
    (hindex' : ∀ step ∈ path', step.index.toNat < arity)
    (h : path.number arity = path'.number arity) :
    path.map Step.index = path'.map Step.index := by
  induction path generalizing path' with
  | nil => rw [List.length_eq_zero_iff.mp hlength.symm]
  | cons step rest ih =>
    match path' with
    | [] => cases hlength
    | step' :: rest' =>
      rw [List.forall_mem_cons] at hindex hindex'
      have hrest : number arity rest = number arity rest' := by
        rw [← number_cons_div hindex.1, h, number_cons_div hindex'.1]
      -- with the same number above, the lowest digits are the same as well
      have hplace : step.index = step'.index := by
        apply UInt64.toNat_inj.mp
        rw [number_cons, number_cons, hrest] at h
        omega
      rw [List.map_cons, List.map_cons, hplace,
        ih (Nat.succ.inj hlength) hindex.2 hindex'.2 hrest]

/-- Where no position of so many levels is capped, the position gives all places back. -/
theorem map_index_eq_of_position_eq (hlength : path.length = path'.length)
    (hbound : arity ^ path.length ≤ Word.limit)
    (hindex : ∀ step ∈ path, step.index.toNat < arity)
    (hindex' : ∀ step ∈ path', step.index.toNat < arity)
    (h : path.position arity = path'.position arity) :
    path.map Step.index = path'.map Step.index := by
  rw [position_eq_number hindex hbound, position_eq_number hindex' (hlength ▸ hbound)] at h
  exact map_index_eq_of_number_eq hlength hindex hindex' h

end Path

namespace Opening

/-- The listed levels are those of the path, and they are read in the same order. -/
theorem positionOfLevels_levels (arity : Nat) (o : Opening) :
    positionOfLevels arity o.levels = o.path.position arity := by
  rw [positionOfLevels, levels, List.foldl_reverse, List.foldr_map]
  rfl

/-- Whatever the places on a path of any length, the position at no level leaves the words, and it
is the exact sum of the places, each times the power of the arity at its level, capped at the
largest word, whether it is read off the path, the opening or the listed levels. Where the
positions of so many levels are words and the places are below the arity, two openings of one
position have the same place at every level. -/
theorem position_eq_min_sum {arity : Nat} (harity : 2 ≤ arity) (o : Opening) :
    (∀ levels, Path.position arity (o.path.drop levels) < Word.limit) ∧
    o.path.position arity = min (Word.limit - 1)
      (∑ level : Fin o.path.length, o.path[level].index.toNat * arity ^ (level : Nat)) ∧
    o.position arity = o.path.position arity ∧
    positionOfLevels arity o.levels = o.position arity ∧
    ∀ o' : Opening, o.path.length = o'.path.length → arity ^ o.path.length ≤ Word.limit →
      (∀ step ∈ o.path, step.index.toNat < arity) →
      (∀ step ∈ o'.path, step.index.toNat < arity) →
      o.position arity = o'.position arity → o.path.map Step.index = o'.path.map Step.index := by
  have hpositive : 0 < arity := by omega
  refine ⟨fun levels => ?_, ?_, rfl, positionOfLevels_levels arity o, ?_⟩
  · have hword : Word.limit - 1 < Word.limit := by decide
    rw [Path.position_eq_min hpositive]
    exact (Nat.min_le_right _ _).trans_lt hword
  · rw [Path.position_eq_min hpositive, Path.number_eq_sum, Nat.min_comm]
  · intro o' hlength hbound hindex hindex' hposition
    exact Path.map_index_eq_of_position_eq hlength hbound hindex hindex' hposition

/-- An opening of the last of `16 ^ 16` positions, with the same siblings at every level. -/
def ofLastPosition (siblings : List Element) : Opening :=
  ⟨.zero, .zero, List.replicate 16 ⟨siblings, 15⟩⟩

/-- The last of `16 ^ 16` positions is the largest word itself, not a capped number, and it still
has its places as digits. -/
theorem position_eq_min_sum_largest_word :
    2 ≤ 16 ∧ (ofLastPosition []).path.length = (ofLastPosition [.zero]).path.length ∧
      16 ^ (ofLastPosition []).path.length ≤ Word.limit ∧
      (∀ step ∈ (ofLastPosition []).path, step.index.toNat < 16) ∧
      (∀ step ∈ (ofLastPosition [.zero]).path, step.index.toNat < 16) ∧
      (ofLastPosition []).position 16 = (ofLastPosition [.zero]).position 16 ∧
      positionOfLevels 16 (ofLastPosition []).levels = Word.limit - 1 ∧
      (ofLastPosition []).path.map Step.index = (ofLastPosition [.zero]).path.map Step.index := by
  have hbound : 16 ^ (ofLastPosition []).path.length ≤ Word.limit := by decide
  have hindex : ∀ step ∈ (ofLastPosition []).path, step.index.toNat < 16 := by decide
  have hindex' : ∀ step ∈ (ofLastPosition [.zero]).path, step.index.toNat < 16 := by decide
  have hposition : (ofLastPosition []).position 16 = Word.limit - 1 := by decide +kernel
  obtain ⟨-, -, -, hlevels, hplaces⟩ :=
    position_eq_min_sum (show 2 ≤ 16 by decide) (ofLastPosition [])
  refine ⟨by decide, rfl, hbound, hindex, hindex', rfl, hlevels.trans hposition, ?_⟩
  exact hplaces (ofLastPosition [.zero]) rfl hbound hindex hindex' rfl

/-- Places beyond the arity are not refused here, and their number is capped. -/
example : Path.position 8 [⟨[], 7⟩, ⟨[], .ofNat (Word.limit - 1)⟩] = Word.limit - 1 := by decide

end Opening

end Replication.Merkle

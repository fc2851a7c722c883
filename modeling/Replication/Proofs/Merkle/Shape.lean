import Mathlib.Algebra.Order.Group.Nat
import Replication.Proofs.Digests
import Replication.Proofs.Logarithm

/-!
# Full trees have a power of the arity as their number of leaves

A number of leaves fills a tree exactly when it is a power of the arity, and the exponent is the
number of levels above the leaves. The number of rows, though defined through logarithms, is one
more for every supported arity and every number of leaves below `2 ^ 63` (`rowCount_pow_of_lt`), and
at least one for any number of leaves from two on (`exists_rowCount_iff`).
-/

namespace Replication.Merkle

variable {arity : Nat}

/-- Dividing a power of the arity down to one takes as many steps as its exponent. -/
theorem levelsAbove?_pow (harity : 2 ≤ arity) {height fuel : Nat} (h : height < fuel) :
    levelsAbove? arity fuel (arity ^ height) = some height := by
  induction height generalizing fuel with
  | zero =>
    match fuel with
    | fuel + 1 => simp [levelsAbove?]
  | succ height ih =>
    match fuel with
    | fuel + 1 =>
      have hbig : ¬ arity ^ (height + 1) ≤ 1 := by
        have h1 : 1 ≤ arity ^ height := Nat.one_le_pow _ _ (by omega)
        have h2 : 1 * 2 ≤ arity ^ height * arity := Nat.mul_le_mul h1 harity
        rw [Nat.pow_succ]
        omega
      rw [levelsAbove?, if_neg hbig, if_pos (by rw [Nat.pow_succ]; exact Nat.mul_mod_left _ _),
        Nat.pow_succ, Nat.mul_div_cancel _ (by omega), ih (by omega)]
      rfl

/-- Only a power of the arity divides down to one. -/
theorem eq_pow_of_levelsAbove? {fuel width height : Nat} (hwidth : 0 < width)
    (h : levelsAbove? arity fuel width = some height) : width = arity ^ height := by
  induction fuel generalizing width height with
  | zero => cases h
  | succ fuel ih =>
    rw [levelsAbove?] at h
    by_cases hone : width ≤ 1
    · rw [if_pos hone] at h
      cases h
      rw [Nat.pow_zero]
      omega
    · rw [if_neg hone] at h
      by_cases hmod : width % arity = 0
      · rw [if_pos hmod] at h
        obtain ⟨below, hbelow, rfl⟩ := Option.map_eq_some_iff.mp h
        have hdvd : width / arity * arity = width :=
          Nat.div_mul_cancel (Nat.dvd_of_mod_eq_zero hmod)
        have hpos : 0 < width / arity := by
          apply Nat.pos_of_ne_zero
          intro h0
          rw [h0] at hdvd
          omega
        rw [Nat.pow_succ, ← ih hpos hbelow, hdvd]
      · rw [if_neg hmod] at h
        cases h

/-- A power of the arity from the first on has its exponent as the height. -/
theorem height?_pow (harity : 2 ≤ arity) {height : Nat} (hheight : 1 ≤ height) :
    height? arity (arity ^ height) = some height := by
  have hle : arity ≤ arity ^ height := by
    calc arity = arity ^ 1 := (Nat.pow_one arity).symm
      _ ≤ arity ^ height := Nat.pow_le_pow_right (by omega) hheight
  have hlt : height < arity ^ height := Nat.lt_pow_self (by omega)
  unfold height?
  rw [if_neg (by omega), levelsAbove?_pow harity (by omega)]

/-- A number of leaves above one that fills a tree is a power of the arity. -/
theorem eq_pow_of_height? {leaves height : Nat} (hleaves : 2 ≤ leaves)
    (h : height? arity leaves = some height) :
    2 ≤ arity ∧ 1 ≤ height ∧ leaves = arity ^ height := by
  unfold height? at h
  by_cases hsmall : leaves < arity
  · rw [if_pos hsmall] at h
    cases h
  · rw [if_neg hsmall] at h
    have hpow := eq_pow_of_levelsAbove? (by omega) h
    have hheight : height ≠ 0 := by
      rintro rfl
      rw [Nat.pow_zero] at hpow
      omega
    -- powers of zero and one are at most one
    have harity : arity ≠ 0 ∧ arity ≠ 1 := by
      constructor
      · rintro rfl
        rw [Nat.zero_pow (by omega)] at hpow
        omega
      · rintro rfl
        rw [Nat.one_pow] at hpow
        omega
    exact ⟨by omega, by omega, hpow⟩

theorem isPowerOfTwo_pow (exponent : Nat) : isPowerOfTwo (2 ^ exponent) = true := by
  have hpos : 2 ^ exponent ≠ 0 := (Nat.two_pow_pos exponent).ne'
  unfold isPowerOfTwo
  rw [Nat.log2_two_pow, beq_self_eq_true, Bool.and_true, bne_iff_ne]
  exact hpos

/-- The supported arities are powers of two. -/
theorem exists_arity_eq_two_pow (h : arity ∈ [2, 4, 8, 16]) :
    ∃ bits, 1 ≤ bits ∧ arity = 2 ^ bits := by
  simp only [List.mem_cons, List.not_mem_nil, or_false] at h
  rcases h with rfl | rfl | rfl | rfl
  · exact ⟨1, by decide, rfl⟩
  · exact ⟨2, by decide, rfl⟩
  · exact ⟨3, by decide, rfl⟩
  · exact ⟨4, by decide, rfl⟩

/-! ## Numbers of rows -/

/-- A power of two ends in as many zeros as its exponent. -/
theorem trailingZeros_two_pow {exponent bits : Nat} (h : exponent < bits) :
    Logarithm.trailingZeros bits (2 ^ exponent) = exponent := by
  induction exponent generalizing bits with
  | zero =>
    match bits with
    | bits + 1 => rfl
  | succ exponent ih =>
    match bits with
    | bits + 1 =>
      have heven : ¬ 2 ^ (exponent + 1) % 2 = 1 := by
        rw [Nat.pow_succ, Nat.mul_mod_left]
        decide
      rw [Logarithm.trailingZeros, if_neg heven, Nat.pow_succ, Nat.mul_div_cancel _ (by decide),
        ih (by omega), Nat.add_comm]

/-- A binary tree over `2 ^ height` leaves has `height + 1` rows. -/
theorem rowCount_two_pow {height : Nat} (h : height < 63) :
    rowCount 2 (2 ^ height) = .ok (height + 1) := by
  have hlt : 2 ^ (height + 1) < Word.limit := Nat.pow_lt_pow_right (by decide) (by omega)
  have htwice : Word.mul (2 ^ height) 2 = .ok (2 ^ (height + 1)) := by
    rw [Word.mul_eq_ok_iff, ← Nat.pow_succ]
    exact ⟨hlt, rfl⟩
  rw [rowCount, if_pos rfl, htwice, Result.ok_bind, trailingZeros_two_pow (by omega)]
  rfl

/-- The rounded logarithms of the powers of an arity below `2 ^ 63`. -/
theorem truncLog_pow_four : ∀ height < 32, Logarithm.truncLog 4
    (Logarithm.roundNat (4 * Logarithm.roundNat (4 ^ height))) = height + 1 := by
  decide +kernel

/-- For the powers of eight below the word limit the rounded logarithm is exact. -/
theorem truncLog_pow_eight : ∀ height < 21, Logarithm.truncLog 8
    (Logarithm.roundNat (8 * Logarithm.roundNat (8 ^ height))) = height + 1 := by
  decide +kernel

theorem truncLog_pow_sixteen : ∀ height < 16, Logarithm.truncLog 16
    (Logarithm.roundNat (16 * Logarithm.roundNat (16 ^ height))) = height + 1 := by
  decide +kernel

/-- Beyond arity two the number of rows is the rounded logarithm of one level more. -/
theorem rowCount_of_truncLog {leaves rows : Nat} (harity : arity ≠ 2) (hleaves : leaves ≠ 0)
    (h : Logarithm.truncLog arity (Logarithm.roundNat (arity * Logarithm.roundNat leaves)) = rows) :
    rowCount arity leaves = .ok rows := by
  rw [rowCount, if_neg harity, if_neg hleaves, h]

/-- The height of a tree is bounded where the number of its leaves is. -/
theorem height_lt_of_pow_lt (bits : Nat) {height bound : Nat} (hbits : 63 ≤ bits * bound)
    (h : (2 ^ bits) ^ height < 2 ^ 63) : height < bound := by
  by_contra hge
  have hle : bits * bound ≤ bits * height := Nat.mul_le_mul_left bits (by omega)
  have hpow : 2 ^ 63 ≤ 2 ^ (bits * height) := Nat.pow_le_pow_right (by decide) (by omega)
  rw [Nat.pow_mul] at hpow
  omega

/-- A full tree of a supported arity has one row more than it has levels above the leaves, as long
as twice its leaves are a word. -/
theorem rowCount_pow_of_lt (harity : arity ∈ [2, 4, 8, 16]) {height : Nat}
    (h : arity ^ height < 2 ^ 63) : rowCount arity (arity ^ height) = .ok (height + 1) := by
  have hne : arity ^ height ≠ 0 := by
    apply (Nat.pow_pos _).ne'
    simp only [List.mem_cons, List.not_mem_nil, or_false] at harity
    omega
  simp only [List.mem_cons, List.not_mem_nil, or_false] at harity
  -- only for arity two is the number of rows counted without logarithms
  rcases harity with rfl | rfl | rfl | rfl
  · exact rowCount_two_pow (height_lt_of_pow_lt 1 (by decide) h)
  · have hlt : height < 32 := height_lt_of_pow_lt 2 (by decide) h
    exact rowCount_of_truncLog (by decide) hne (truncLog_pow_four height hlt)
  · have hlt : height < 21 := height_lt_of_pow_lt 3 (by decide) h
    exact rowCount_of_truncLog (by decide) hne (truncLog_pow_eight height hlt)
  · have hlt : height < 16 := height_lt_of_pow_lt 4 (by decide) h
    exact rowCount_of_truncLog (by decide) hne (truncLog_pow_sixteen height hlt)

/-- So it is for every tree whose nodes are numbered by 32 bits. -/
theorem rowCount_pow (harity : arity ∈ [2, 4, 8, 16]) {height : Nat}
    (h : arity ^ height < Word.halfLimit) : rowCount arity (arity ^ height) = .ok (height + 1) :=
  rowCount_pow_of_lt harity (Nat.lt_trans h (by decide))

/-- Every number of leaves from two on below the limit has a number of rows, at least one. -/
theorem exists_rowCount (harity : 2 ≤ arity) {leaves : Nat} (htwo : 2 ≤ leaves)
    (hlt : leaves < Word.halfLimit) : ∃ rows, 1 ≤ rows ∧ rowCount arity leaves = .ok rows := by
  by_cases hbinary : arity = 2
  · have hword : leaves * 2 < Word.limit := by
      have hlimit : Word.halfLimit * 2 < Word.limit := by decide
      omega
    have heven : ¬ leaves * 2 % 2 = 1 := by omega
    refine ⟨1 + Logarithm.trailingZeros 63 (leaves * 2 / 2), by omega, ?_⟩
    rw [rowCount, if_pos hbinary, hbinary, Word.mul_of_lt hword, Result.ok_bind,
      Logarithm.trailingZeros, if_neg heven]
    rfl
  · refine ⟨_, ?_, rowCount_of_truncLog hbinary (by omega) rfl⟩
    -- even rounded, the product with two leaves or more is a binade above the arity
    have hleaves : 2 ^ 1 ≤ Logarithm.roundNat leaves := Logarithm.two_pow_le_roundNat htwo
    have hproduct : 2 ^ (arity.log2 + 1) ≤ arity * Logarithm.roundNat leaves := by
      rw [Nat.pow_succ]
      exact Nat.mul_le_mul (Nat.log2_self_le (by omega)) hleaves
    have hrounded := Logarithm.two_pow_le_roundNat hproduct
    have hne : Logarithm.roundNat (arity * Logarithm.roundNat leaves) ≠ 0 :=
      ((Nat.two_pow_pos _).trans_le hrounded).ne'
    exact Logarithm.one_le_truncLog harity ((Nat.le_log2 hne).mpr hrounded)

/-- Two leaves or more make a row, whether they fill a tree or not, exactly if nodes have two
children or more. -/
theorem exists_rowCount_iff {leaves : Nat} (htwo : 2 ≤ leaves) (hlt : leaves < Word.halfLimit) :
    (∃ rows, 1 ≤ rows ∧ rowCount arity leaves = .ok rows) ↔ 2 ≤ arity := by
  constructor
  · rintro ⟨rows, hpos, hrows⟩
    by_contra hsmall
    rw [rowCount_of_truncLog (by omega) (by omega)
      (Logarithm.truncLog_of_base_lt_two (by omega) _)] at hrows
    cases hrows
    cases hpos
  · intro harity
    exact exists_rowCount harity htwo hlt

/-- The leaves fill a tree, and its rows are counted right: one for each level and the leaves. -/
def CountsRows (arity count : Nat) : Prop :=
  ∃ height, count = arity ^ height ∧ rowCount arity count = .ok (height + 1)

/-- For the supported arities the number of rows is counted right on full trees. -/
theorem countsRows_pow (harity : arity ∈ [2, 4, 8, 16]) {height : Nat}
    (h : arity ^ height < Word.halfLimit) : CountsRows arity (arity ^ height) :=
  ⟨height, rfl, rowCount_pow harity h⟩

end Replication.Merkle

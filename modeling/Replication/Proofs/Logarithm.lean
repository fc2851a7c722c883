import Mathlib.Algebra.Order.Group.Nat
import Mathlib.Tactic.Ring
import Mathlib.Tactic.SplitIfs
import Replication.Logarithm

/-!
# Bounds of rounded logarithms

Rounding to 53 bits is monotone and keeps a number within its binade (`two_pow_log2_le_roundNat`,
`roundNat_le`, `roundNat_mono`), and logarithms are monotone, rounding errors of the series included
(`natural_mono`). So the logarithm of at least twice the base is at least one (`one_le_truncLog`),
and the binary logarithm rounded up is the exponent of a power of two and grows from one power to
the next. Where it jumps is computed once for every power up to the limit on metanodes
(`ceilLog2_lostExcess`): it is too small just above large powers of two, and only there
(`le_two_pow_ceilLog2_iff`).
-/

namespace Replication.Logarithm

/-! ## Rounding -/

theorem div_le_roundQuotient (num den : Nat) : num / den ≤ roundQuotient num den := by
  simp only [roundQuotient]
  split_ifs <;> omega

theorem roundQuotient_le (num den : Nat) : roundQuotient num den ≤ num / den + 1 := by
  simp only [roundQuotient]
  split_ifs <;> omega

/-- An integer is rounded to itself. -/
theorem roundQuotient_mul_self (n : Nat) {den : Nat} (hden : 0 < den) :
    roundQuotient (n * den) den = n := by
  have hquotient : n * den / den = n := Nat.mul_div_cancel n hden
  have hremainder : n * den % den = 0 := Nat.mul_mod_left n den
  simp only [roundQuotient, hquotient, hremainder]
  split_ifs <;> omega

/-- Rounding a quotient keeps the order of the numerators. -/
theorem roundQuotient_mono {num num' : Nat} (den : Nat) (h : num ≤ num') :
    roundQuotient num den ≤ roundQuotient num' den := by
  have hdiv : num / den ≤ num' / den := Nat.div_le_div_right h
  by_cases hsame : num' / den = num / den
  · have hnum := Nat.div_add_mod num den
    have hnum' := Nat.div_add_mod num' den
    rw [hsame] at hnum'
    -- the quotients agree, so the remainders are in order
    simp only [roundQuotient, hsame]
    split_ifs <;> omega
  · have hle := roundQuotient_le num den
    have hle' := div_le_roundQuotient num' den
    omega

/-- The unit of rounding divides the powers of two around a number. -/
theorem two_pow_div_mul (bits : Nat) {exponent : Nat} (h : bits ≤ exponent) :
    2 ^ exponent / 2 ^ (bits - 52) * 2 ^ (bits - 52) = 2 ^ exponent :=
  Nat.div_mul_cancel (Nat.pow_dvd_pow 2 (by omega))

/-- A rounded number does not fall below the power of two under it. -/
theorem two_pow_log2_le_roundNat {n : Nat} (h : n ≠ 0) : 2 ^ n.log2 ≤ roundNat n := by
  have hdiv : 2 ^ n.log2 / 2 ^ (n.log2 - 52) ≤ n / 2 ^ (n.log2 - 52) :=
    Nat.div_le_div_right (Nat.log2_self_le h)
  calc 2 ^ n.log2
      = 2 ^ n.log2 / 2 ^ (n.log2 - 52) * 2 ^ (n.log2 - 52) :=
        (two_pow_div_mul n.log2 (Nat.le_refl _)).symm
    _ ≤ roundNat n :=
        Nat.mul_le_mul_right _ (hdiv.trans (div_le_roundQuotient _ _))

theorem roundNat_le (n : Nat) : roundNat n ≤ 2 ^ (n.log2 + 1) := by
  have hunit : 0 < 2 ^ (n.log2 - 52) := Nat.two_pow_pos _
  have hsplit := two_pow_div_mul n.log2 (Nat.le_succ n.log2)
  have hlt : n / 2 ^ (n.log2 - 52) < 2 ^ (n.log2 + 1) / 2 ^ (n.log2 - 52) := by
    rw [Nat.div_lt_iff_lt_mul hunit, hsplit]
    exact Nat.lt_log2_self
  calc roundNat n
      ≤ 2 ^ (n.log2 + 1) / 2 ^ (n.log2 - 52) * 2 ^ (n.log2 - 52) :=
        Nat.mul_le_mul_right _ ((roundQuotient_le _ _).trans hlt)
    _ = 2 ^ (n.log2 + 1) := hsplit

/-- Numbers in order lie in binades in order. -/
theorem log2_le_log2 {m n : Nat} (hzero : m ≠ 0) (h : m ≤ n) : m.log2 ≤ n.log2 :=
  (Nat.le_log2 (by omega)).mpr ((Nat.log2_self_le hzero).trans h)

theorem roundNat_mono {m n : Nat} (h : m ≤ n) : roundNat m ≤ roundNat n := by
  by_cases hzero : m = 0
  · simp [hzero, roundNat, roundQuotient]
  have hlog := log2_le_log2 hzero h
  by_cases hsame : m.log2 = n.log2
  · -- in one binade the unit of rounding is the same
    unfold roundNat
    rw [hsame]
    exact Nat.mul_le_mul_right _ (roundQuotient_mono _ h)
  · -- between them lies a power of two
    calc roundNat m ≤ 2 ^ (m.log2 + 1) := roundNat_le m
      _ ≤ 2 ^ n.log2 := Nat.pow_le_pow_right (by decide) (by omega)
      _ ≤ roundNat n := two_pow_log2_le_roundNat (by omega)

/-- What is at least a power of two still is after rounding. -/
theorem two_pow_le_roundNat {exponent n : Nat} (h : 2 ^ exponent ≤ n) :
    2 ^ exponent ≤ roundNat n := by
  have hn : n ≠ 0 := (Nat.two_pow_pos exponent).trans_le h |>.ne'
  calc 2 ^ exponent ≤ 2 ^ n.log2 := Nat.pow_le_pow_right (by decide) ((Nat.le_log2 hn).mpr h)
    _ ≤ roundNat n := two_pow_log2_le_roundNat hn

/-- The powers of two are doubles. -/
theorem roundNat_two_pow (exponent : Nat) : roundNat (2 ^ exponent) = 2 ^ exponent := by
  have hsplit := two_pow_div_mul exponent (Nat.le_refl _)
  unfold roundNat
  rw [Nat.log2_two_pow]
  calc roundQuotient (2 ^ exponent) (2 ^ (exponent - 52)) * 2 ^ (exponent - 52)
      = roundQuotient (2 ^ exponent / 2 ^ (exponent - 52) * 2 ^ (exponent - 52))
          (2 ^ (exponent - 52)) * 2 ^ (exponent - 52) := by rw [hsplit]
    _ = 2 ^ exponent := by rw [roundQuotient_mul_self _ (Nat.two_pow_pos _), hsplit]

/-- A quotient of at least one is at least one after rounding. -/
theorem one_le_truncQuotient {num den : Nat} (hden : 0 < den) (h : den ≤ num) :
    1 ≤ truncQuotient num den := by
  unfold truncQuotient
  have hunit : 0 < 2 ^ (52 - (num / den).log2) := Nat.two_pow_pos _
  rw [Nat.le_div_iff_mul_le hunit, Nat.one_mul]
  refine le_trans ?_ (div_le_roundQuotient _ _)
  rw [Nat.le_div_iff_mul_le hden, Nat.mul_comm]
  exact Nat.mul_le_mul_right _ h

/-- A quotient by zero is small, however it is rounded. -/
theorem truncQuotient_zero (num : Nat) : truncQuotient num 0 = 0 := by
  have hle := roundQuotient_le (num * 2 ^ 52) 0
  rw [Nat.div_zero] at hle
  have hunit : (num / 0).log2 = 0 := by rw [Nat.div_zero, Nat.log2_zero]
  unfold truncQuotient
  rw [hunit, Nat.sub_zero]
  exact Nat.div_eq_of_lt (by omega)

/-! ## Rounding up -/

section

variable {num num' den : Nat} (hden : 0 < den)

include hden

/-- Rounding up never falls below the integral part, however the quotient is rounded before. -/
theorem div_le_ceilQuotient (num : Nat) : num / den ≤ ceilQuotient num den := by
  simp only [ceilQuotient]
  generalize hunit : 2 ^ (52 - (num / den).log2) = unit
  have hpos : 0 < unit := hunit ▸ Nat.two_pow_pos _
  rw [Nat.le_div_iff_mul_le hpos]
  calc num / den * unit ≤ num * unit / den := by
        rw [Nat.le_div_iff_mul_le hden, Nat.mul_right_comm]
        exact Nat.mul_le_mul_right unit (Nat.div_mul_le_self num den)
    _ ≤ roundQuotient (num * unit) den := div_le_roundQuotient _ _
    _ ≤ roundQuotient (num * unit) den + (unit - 1) := Nat.le_add_right _ _

/-- It exceeds the integral part by at most one. -/
theorem ceilQuotient_le (num : Nat) : ceilQuotient num den ≤ num / den + 1 := by
  simp only [ceilQuotient]
  generalize hunit : 2 ^ (52 - (num / den).log2) = unit
  have hpos : 0 < unit := hunit ▸ Nat.two_pow_pos _
  have hlt : num * unit / den < (num / den + 1) * unit := by
    rw [Nat.div_lt_iff_lt_mul hden, Nat.mul_right_comm]
    exact Nat.mul_lt_mul_of_pos_right (Nat.lt_mul_of_div_lt (Nat.lt_succ_self _) hden) hpos
  have hround := roundQuotient_le (num * unit) den
  refine Nat.le_of_lt_succ ((Nat.div_lt_iff_lt_mul hpos).mpr ?_)
  rw [Nat.succ_mul]
  omega

theorem ceilQuotient_mono (h : num ≤ num') : ceilQuotient num den ≤ ceilQuotient num' den := by
  by_cases hsame : num / den = num' / den
  · -- quotients with the same integral part are rounded in the same unit
    unfold ceilQuotient
    rw [hsame]
    exact Nat.div_le_div_right
      (Nat.add_le_add_right (roundQuotient_mono den (Nat.mul_le_mul_right _ h)) _)
  · calc ceilQuotient num den ≤ num / den + 1 := ceilQuotient_le hden num
      _ ≤ num' / den := Nat.lt_of_le_of_ne (Nat.div_le_div_right h) hsame
      _ ≤ ceilQuotient num' den := div_le_ceilQuotient hden num'

theorem ceilQuotient_mul_self (n : Nat) : ceilQuotient (n * den) den = n := by
  simp only [ceilQuotient]
  generalize hunit : 2 ^ (52 - (n * den / den).log2) = unit
  have hpos : 0 < unit := hunit ▸ Nat.two_pow_pos _
  rw [Nat.mul_right_comm, roundQuotient_mul_self _ hden, Nat.mul_comm n unit,
    Nat.mul_add_div hpos, Nat.div_eq_of_lt (Nat.sub_one_lt_of_lt hpos), Nat.add_zero]

end

/-! ## Logarithms -/

/-- Quotients compare as the cross products do. -/
theorem div_le_div_of_mul_le_mul {a b c d : Nat} (hb : 0 < b) (hd : 0 < d)
    (h : a * d ≤ c * b) : a / b ≤ c / d := by
  rw [Nat.le_div_iff_mul_le hd]
  refine Nat.le_of_mul_le_mul_right ?_ hb
  calc a / b * d * b = a / b * b * d := Nat.mul_right_comm _ _ _
    _ ≤ a * d := Nat.mul_le_mul_right d (Nat.div_mul_le_self a b)
    _ ≤ c * b := h

/-- A larger first term and a larger ratio give a larger series. -/
theorem oddSeries_mono {num den num' den' : Nat} (hden : 0 < den) (hden' : 0 < den')
    (hratio : num * den' ≤ num' * den) {terms divisor power power' : Nat} (h : power ≤ power') :
    oddSeries num den terms divisor power ≤ oddSeries num' den' terms divisor power' := by
  induction terms generalizing divisor power power' with
  | zero => simp [oddSeries]
  | succ terms ih =>
    have hnext : power * num * num / (den * den) ≤ power' * num' * num' / (den' * den') := by
      apply div_le_div_of_mul_le_mul (Nat.mul_pos hden hden) (Nat.mul_pos hden' hden')
      calc power * num * num * (den' * den')
          = power * (num * den' * (num * den')) := by ring
        _ ≤ power' * (num' * den * (num' * den)) :=
          Nat.mul_le_mul h (Nat.mul_le_mul hratio hratio)
        _ = power' * num' * num' * (den * den) := by ring
    exact Nat.add_le_add (Nat.div_le_div_right h) (ih hnext)

/-- The series grows with the ratio it is taken of. -/
theorem artanh_mono {num den num' den' : Nat} (hden : 0 < den) (hden' : 0 < den')
    (hratio : num * den' ≤ num' * den) : artanh num den ≤ artanh num' den' := by
  apply oddSeries_mono hden hden' hratio
  apply div_le_div_of_mul_le_mul hden hden'
  rw [Nat.mul_assoc, Nat.mul_assoc]
  exact Nat.mul_le_mul_left scale hratio

theorem artanh_zero (den : Nat) : artanh 0 den = 0 := by
  have hseries : ∀ terms divisor, oddSeries 0 den terms divisor 0 = 0 := by
    intro terms
    induction terms with
    | zero => exact fun _ => rfl
    | succ terms ih =>
      intro divisor
      rw [oddSeries, Nat.zero_div, Nat.mul_zero, Nat.zero_div, ih]
  rw [artanh, Nat.mul_zero, Nat.zero_div, hseries]

/-- The logarithm is that of the power of two below, plus the series of what is above it. -/
theorem natural_eq (n : Nat) : natural n
    = 2 * (n.log2 * artanh 1 3 + artanh (n - 2 ^ n.log2) (n + 2 ^ n.log2)) := by
  simp only [natural]

/-- The logarithm of a number is at most that of the next power of two. -/
theorem natural_le {n : Nat} (h : n ≠ 0) : natural n ≤ 2 * ((n.log2 + 1) * artanh 1 3) := by
  have hle := Nat.log2_self_le h
  have hlt := Nat.lt_log2_self (n := n)
  rw [Nat.pow_succ] at hlt
  have hexcess : artanh (n - 2 ^ n.log2) (n + 2 ^ n.log2) ≤ artanh 1 3 := by
    apply artanh_mono
    · omega
    · decide
    · omega
  rw [natural_eq, Nat.succ_mul n.log2]
  omega

theorem le_natural (n : Nat) : 2 * (n.log2 * artanh 1 3) ≤ natural n := by
  rw [natural_eq]
  exact Nat.mul_le_mul_left 2 (Nat.le_add_right _ _)

/-- The logarithm of a power of two is exact, up to the error in the logarithm of two. -/
theorem natural_two_pow (k : Nat) : natural (2 ^ k) = k * natural 2 := by
  have htwo : natural 2 = 2 * artanh 1 3 := by
    rw [natural_eq, Nat.log2_two, Nat.pow_one, Nat.sub_self, artanh_zero, Nat.add_zero,
      Nat.one_mul]
  rw [htwo, natural_eq, Nat.log2_two_pow, Nat.sub_self, artanh_zero, Nat.add_zero]
  exact Nat.mul_left_comm 2 k _

/-- A larger number has a larger logarithm: in one binade the argument of the series grows, and
from one binade to the next the logarithm passes that of the power of two in between. -/
theorem natural_mono {m n : Nat} (h : m ≤ n) : natural m ≤ natural n := by
  by_cases hzero : m = 0
  · have hnatural : natural 0 = 0 := by decide +kernel
    rw [hzero, hnatural]
    exact Nat.zero_le _
  have hlog := log2_le_log2 hzero h
  by_cases hsame : m.log2 = n.log2
  · obtain ⟨excess, hexcess⟩ := Nat.exists_eq_add_of_le (Nat.log2_self_le hzero)
    obtain ⟨gap, rfl⟩ := Nat.exists_eq_add_of_le h
    have hpos : 0 < 2 ^ m.log2 := Nat.two_pow_pos _
    rw [natural_eq, natural_eq, ← hsame]
    generalize 2 ^ m.log2 = power at hexcess hpos ⊢
    subst hexcess
    refine Nat.mul_le_mul_left 2 (Nat.add_le_add_left (artanh_mono ?_ ?_ ?_) _)
    · omega
    · omega
    · rw [Nat.add_assoc power, Nat.add_sub_cancel_left, Nat.add_sub_cancel_left]
      calc excess * (power + (excess + gap) + power)
          = excess * (power + excess + power) + excess * gap := by ring
        _ ≤ excess * (power + excess + power) + gap * (power + excess + power) := by
          rw [Nat.mul_comm excess gap]
          exact Nat.add_le_add_left (Nat.mul_le_mul_left gap (by omega)) _
        _ = (excess + gap) * (power + excess + power) := by ring
  · calc natural m ≤ 2 * ((m.log2 + 1) * artanh 1 3) := natural_le hzero
      _ ≤ 2 * (n.log2 * artanh 1 3) :=
        Nat.mul_le_mul_left 2 (Nat.mul_le_mul_right _ (by omega))
      _ ≤ natural n := le_natural n

/-- The rounded logarithm of at least twice a base is at least one. -/
theorem one_le_truncLog {base x : Nat} (hbase : 2 ≤ base) (hx : base.log2 < x.log2) :
    1 ≤ truncLog base x := by
  have hlt : base < x := by
    by_contra hle
    have hzero : x ≠ 0 := by
      rintro rfl
      rw [Nat.log2_zero] at hx
      omega
    have hlog := log2_le_log2 hzero (Nat.le_of_not_lt hle)
    omega
  have htwo : 2 ^ 0 ≤ natural 2 := by decide +kernel
  have hround : 2 ^ 0 ≤ roundNat (natural base) :=
    two_pow_le_roundNat (htwo.trans (natural_mono hbase))
  exact one_le_truncQuotient hround (roundNat_mono (natural_mono (Nat.le_of_lt hlt)))

/-- Zero and one are no bases. -/
theorem truncLog_of_base_lt_two {base : Nat} (h : base < 2) (x : Nat) : truncLog base x = 0 := by
  have hnatural : ∀ base < 2, roundNat (natural base) = 0 := by decide +kernel
  rw [truncLog, hnatural base h, truncQuotient_zero]

/-! ## The binary logarithm rounded up -/

/-- The number exceeds a power of two by so little that its logarithm is rounded to the
exponent. -/
def JustAbove (x : Nat) : Prop :=
  ∃ k, 2 ^ k < x ∧ (x - 2 ^ k) * (1000 * 2 ^ 48) ≤ 693 * 2 ^ k

variable {x k : Nat}

/-- The logarithm rounded up keeps the order, with the rounding of the double in it. -/
theorem ceilLog2_mono {m n : Nat} (h : m ≤ n) : ceilLog2 m ≤ ceilLog2 n := by
  have htwo : 0 < natural 2 := by decide +kernel
  exact ceilQuotient_mono htwo (natural_mono (roundNat_mono h))

/-- A power of two has its exponent as the logarithm. -/
theorem ceilLog2_two_pow (k : Nat) : ceilLog2 (2 ^ k) = k := by
  have htwo : 0 < natural 2 := by decide +kernel
  rw [ceilLog2, roundNat_two_pow, natural_two_pow, ceilQuotient_mul_self htwo]

/-- The logarithm rounded up is not below the position of the highest bit. -/
theorem log2_le_ceilLog2 (hx : x ≠ 0) : x.log2 ≤ ceilLog2 x := by
  calc x.log2 = ceilLog2 (2 ^ x.log2) := (ceilLog2_two_pow _).symm
    _ ≤ ceilLog2 x := ceilLog2_mono (Nat.log2_self_le hx)

/-- The rounded logarithm is never too large. -/
theorem ceilLog2_le (hle : x ≤ 2 ^ k) : ceilLog2 x ≤ k := by
  calc ceilLog2 x ≤ ceilLog2 (2 ^ k) := ceilLog2_mono hle
    _ = k := ceilLog2_two_pow k

/-- The largest excess over `2 ^ k` that is lost. It adds `excess / (2 ^ k * log 2)` to the
logarithm, and the doubles next to a `k` from 32 to 63 are `2 ^ -47` apart, so what is lost is an
excess of up to `2 ^ (k - 48) * log 2`. -/
def lostExcess (k : Nat) : Nat := 693 * 2 ^ k / (1000 * 2 ^ 48)

/-- The excess is lost up to this bound, and not beyond, as long as the numbers are below
`2 ^ 54`. -/
theorem ceilLog2_lostExcess : ∀ k < 54,
    ceilLog2 (2 ^ k + lostExcess k) = k ∧ ceilLog2 (2 ^ k + lostExcess k + 1) = k + 1 := by
  decide +kernel

theorem le_lostExcess_iff {excess : Nat} :
    excess ≤ lostExcess k ↔ excess * (1000 * 2 ^ 48) ≤ 693 * 2 ^ k :=
  Nat.le_div_iff_mul_le (by decide)

/-- In a binade the rounded logarithm is the exponent up to the lost excess, and one more above. -/
theorem ceilLog2_eq (hx : x ≠ 0) (hlimit : x ≤ 2 ^ 54) :
    ceilLog2 x = if x - 2 ^ x.log2 ≤ lostExcess x.log2 then x.log2 else x.log2 + 1 := by
  have hself := Nat.log2_self_le hx
  have hlt : x < 2 ^ (x.log2 + 1) := Nat.lt_log2_self
  have hlow := log2_le_ceilLog2 hx
  have hhigh := ceilLog2_le (Nat.le_of_lt hlt)
  by_cases hlast : x = 2 ^ 54
  · subst hlast
    rw [ceilLog2_two_pow, Nat.log2_two_pow, Nat.sub_self, if_pos (Nat.zero_le _)]
  have hk : x.log2 < 54 := (Nat.log2_lt hx).mpr (by omega)
  obtain ⟨hlost, hkept⟩ := ceilLog2_lostExcess x.log2 hk
  split
  · have hle := ceilLog2_mono (show x ≤ 2 ^ x.log2 + lostExcess x.log2 by omega)
    omega
  · have hle := ceilLog2_mono (show 2 ^ x.log2 + lostExcess x.log2 + 1 ≤ x by omega)
    omega

/-- An excess that is lost is too small to reach the next power of two. -/
theorem log2_eq_of_excess (hlt : 2 ^ k < x)
    (hexcess : (x - 2 ^ k) * (1000 * 2 ^ 48) ≤ 693 * 2 ^ k) : x.log2 = k := by
  have hx : x ≠ 0 := by omega
  rw [Nat.log2_eq_iff hx, Nat.pow_succ]
  omega

/-- A number whose excess over a power of two is lost has the logarithm of that power. -/
theorem ceilLog2_of_excess (hlimit : x ≤ 2 ^ 54) (hlt : 2 ^ k < x)
    (hexcess : (x - 2 ^ k) * (1000 * 2 ^ 48) ≤ 693 * 2 ^ k) : ceilLog2 x = k := by
  have hlog := log2_eq_of_excess hlt hexcess
  rw [ceilLog2_eq (by omega) hlimit, hlog, if_pos (le_lostExcess_iff.mpr hexcess)]

/-- It is too small exactly just above a power of two. -/
theorem le_two_pow_ceilLog2_iff (hx : x ≠ 0) (hlimit : x ≤ 2 ^ 54) :
    x ≤ 2 ^ ceilLog2 x ↔ ¬ JustAbove x := by
  constructor
  · rintro hle ⟨k, hlt, hexcess⟩
    rw [ceilLog2_of_excess hlimit hlt hexcess] at hle
    omega
  · intro hnot
    rw [ceilLog2_eq hx hlimit]
    split
    · rename_i hexcess
      have hle := Nat.log2_self_le hx
      by_contra hlt
      exact hnot ⟨x.log2, by omega, le_lostExcess_iff.mp hexcess⟩
    · exact Nat.le_of_lt Nat.lt_log2_self

/-- No excess is lost up to the forty-ninth power of two. -/
theorem two_pow_lt_of_justAbove (h : JustAbove x) : 2 ^ 49 < x := by
  obtain ⟨k, hlt, hexcess⟩ := h
  have hk : 48 < k := by
    rw [← Nat.pow_lt_pow_iff_right (a := 2) (by decide)]
    omega
  have hpow : 2 ^ 49 ≤ 2 ^ k := Nat.pow_le_pow_right (by decide) hk
  omega

/-- Up to the limit on metanodes, at most twenty-two are lost. -/
theorem excess_le_of_justAbove (h : JustAbove x) (hlimit : x ≤ 2 ^ 54) :
    x ≤ 2 ^ ceilLog2 x + 22 := by
  obtain ⟨k, hlt, hexcess⟩ := h
  have hk : k < 54 := by
    rw [← Nat.pow_lt_pow_iff_right (a := 2) (by decide)]
    omega
  have hpow : 2 ^ k ≤ 2 ^ 53 := Nat.pow_le_pow_right (by decide) (by omega)
  rw [ceilLog2_of_excess hlimit hlt hexcess]
  omega

end Replication.Logarithm

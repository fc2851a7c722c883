import Replication.Word

/-!
# Rounded logarithms

Two quantities of graphs and trees are defined through logarithms of double precision: the
number of buckets of a node and the number of rows of a tree. Both are computed here in exact
integer arithmetic, with the rounding steps of the definition made explicit.
-/

namespace Replication.Logarithm

/-- The quotient rounded to the nearest integer, a half to the even neighbour. -/
def roundQuotient (num den : Nat) : Nat :=
  let quotient := num / den
  let twice := 2 * (num % den)
  if den < twice then quotient + 1
  else if twice = den then quotient + quotient % 2
  else quotient

/-- The number rounded to 53 significant bits. -/
def roundNat (n : Nat) : Nat :=
  let unit := 2 ^ (n.log2 - 52)
  roundQuotient n unit * unit

/-- The integral part of a quotient of at least one that is first rounded to 53 significant
bits. -/
def truncQuotient (num den : Nat) : Nat :=
  let unit := 2 ^ (52 - (num / den).log2)
  roundQuotient (num * unit) den / unit

/-- A quotient of at least one that is first rounded to 53 significant bits and then up to an
integer. -/
def ceilQuotient (num den : Nat) : Nat :=
  let unit := 2 ^ (52 - (num / den).log2)
  (roundQuotient (num * unit) den + (unit - 1)) / unit

/-- The scale of the fixed-point numbers below. -/
def scale : Nat := 2 ^ 192

/-- The sum of `power / (2 i + 1)`, where `power` is multiplied by the square of `num / den` from
one term to the next. -/
def oddSeries (num den : Nat) : Nat → Nat → Nat → Nat
  | 0, _, _ => 0
  | terms + 1, divisor, power =>
    power / divisor + oddSeries num den terms (divisor + 2) (power * num * num / (den * den))

/-- The inverse hyperbolic tangent of `num / den`, which is at most a third, in units of
`1 / scale`. -/
def artanh (num den : Nat) : Nat := oddSeries num den 64 1 (scale * num / den)

/-- The natural logarithm of a positive number in units of `1 / scale`. A number between `2 ^ k`
and `2 ^ (k + 1)` is reduced by `log (x / 2 ^ k) = 2 artanh ((x - 2 ^ k) / (x + 2 ^ k))`. -/
def natural (x : Nat) : Nat :=
  let k := x.log2
  2 * (k * artanh 1 3 + artanh (x - 2 ^ k) (x + 2 ^ k))

/-- The integral part of the logarithm of `x` to the given base, where both natural logarithms
and their quotient are rounded to 53 significant bits. -/
def truncLog (base x : Nat) : Nat := truncQuotient (roundNat (natural x)) (roundNat (natural base))

/-- The binary logarithm of a positive number that is rounded to 53 significant bits first. The
logarithm is rounded to as many bits and then up to an integer. -/
def ceilLog2 (x : Nat) : Nat := ceilQuotient (natural (roundNat x)) (natural 2)

/-- The number of zero bits below the lowest one bit among the given number of bits. -/
def trailingZeros : Nat → Nat → Nat
  | 0, _ => 0
  | bits + 1, n => if n % 2 = 1 then 0 else 1 + trailingZeros bits (n / 2)

end Replication.Logarithm

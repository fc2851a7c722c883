/-!
# The scalar field

Labels, keys, nodes of data and tree nodes are scalars: numbers below the order of the large
prime subgroup of BLS12-381, added and multiplied modulo that order.
-/

namespace Replication

/-- The order of the scalar field. -/
def modulus : Nat := 0x73eda753299d7d483339d80809a1d80553bda402fffe5bfeffffffff00000001

theorem modulus_pos : 0 < modulus := by decide

/-- An element of the scalar field. -/
abbrev Scalar := Fin modulus

namespace Scalar

/-- The class of a number modulo the order of the field. -/
def ofNat (n : Nat) : Scalar := ⟨n % modulus, Nat.mod_lt n modulus_pos⟩

/-- Powers by repeated squaring; the first argument bounds the number of bits of the exponent. -/
def powerModulo : Nat → Nat → Nat → Nat
  | 0, _, _ => 1
  | bits + 1, base, exponent =>
    let rest := powerModulo bits (base * base % modulus) (exponent / 2)
    if exponent % 2 = 1 then base * rest % modulus else rest

/-- The inverse of a number modulo the order of the field, which is prime: the power with an
exponent two below the order. -/
def inverseModulo (n : Nat) : Nat := powerModulo 255 (n % modulus) (modulus - 2)

end Scalar

end Replication

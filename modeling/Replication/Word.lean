import Replication.Bytes
import Replication.Failure

/-!
# Arithmetic of 64-bit words

Counts, positions and sizes are natural numbers below `2 ^ 64`. The operations here have no
value where the exact result leaves that range or does not exist.
-/

namespace Replication.Word

/-- The first number that is no word. -/
def limit : Nat := 2 ^ 64

/-- The number itself, if it is a word. -/
def ofNat (value : Nat) : Result Nat :=
  if value < limit then .ok value else abort .overflow

def add (a b : Nat) : Result Nat := ofNat (a + b)

def mul (a b : Nat) : Result Nat := ofNat (a * b)

def sub (a b : Nat) : Result Nat :=
  if b ≤ a then .ok (a - b) else abort .overflow

def div (a b : Nat) : Result Nat :=
  if b = 0 then abort .divisionByZero else .ok (a / b)

def rem (a b : Nat) : Result Nat :=
  if b = 0 then abort .divisionByZero else .ok (a % b)

/-- The power of two with the given exponent. -/
def powTwo (exponent : Nat) : Result Nat :=
  if exponent < 64 then .ok (2 ^ exponent) else abort .overflow

/-- The sum, or the largest word if the sum is no word. -/
def addCapped (a b : Nat) : Nat := min (a + b) (limit - 1)

/-- The product, or the largest word if the product is no word. -/
def mulCapped (a b : Nat) : Nat := min (a * b) (limit - 1)

/-- The number of 32-bit words: the first number that does not fit one. -/
def halfLimit : Nat := 2 ^ 32

/-- A number fits a word exactly when it is below the limit, and then it is unchanged. -/
theorem ofNat_eq_ok_iff {value word : Nat} :
    ofNat value = .ok word ↔ value < limit ∧ value = word := by
  unfold ofNat
  split
  · simp_all
  · simp only [abort, reduceCtorEq, false_iff]
    omega

theorem add_eq_ok_iff {a b sum : Nat} : add a b = .ok sum ↔ a + b < limit ∧ a + b = sum :=
  ofNat_eq_ok_iff

theorem mul_eq_ok_iff {a b product : Nat} :
    mul a b = .ok product ↔ a * b < limit ∧ a * b = product :=
  ofNat_eq_ok_iff

/-- A difference of words has a result exactly when it is not negative. -/
theorem sub_eq_ok_iff {a b difference : Nat} :
    sub a b = .ok difference ↔ b ≤ a ∧ a - b = difference := by
  unfold sub
  split
  · simp_all
  · simp only [abort, reduceCtorEq, false_iff]
    omega

end Replication.Word

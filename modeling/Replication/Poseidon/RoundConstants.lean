import Replication.Bytes
import Replication.Scalar

/-!
# Round constants

The round constants of Poseidon are drawn from an 80-bit linear feedback shift register whose
start describes the instance. The register's bits are taken in pairs: the first bit of a pair
says whether the second one is used. A constant is the number of 255 used bits; numbers outside
the field are dropped.
-/

namespace Replication.Poseidon

/-- The shape of an instance: how many scalars it absorbs and how many rounds act on a single
scalar. -/
structure Shape where
  arity : Nat
  partialRounds : Nat

/-- The number of rounds that act on the whole state. -/
def fullRounds : Nat := 8

/-- The number of scalars in the state. -/
def Shape.width (shape : Shape) : Nat := shape.arity + 1

/-- An 80-bit register: its sixteen oldest bits and its sixty-four newest ones. -/
structure Register where
  old : UInt64
  new : UInt64

namespace Register

/-- The register that holds the 80 low bits of a number, the most significant being oldest. -/
def ofNat (bits : Nat) : Register :=
  ⟨(bits / 2 ^ 64 % 2 ^ 16).toUInt64, (bits % 2 ^ 64).toUInt64⟩

/-- The bit that the register takes in next. -/
@[inline]
def feedback (r : Register) : UInt64 :=
  ((r.new >>> 17) ^^^ (r.new >>> 28) ^^^ (r.new >>> 41) ^^^ (r.new >>> 56)
    ^^^ (r.old >>> 2) ^^^ (r.old >>> 15)) &&& 1

/-- The register after taking in a bit. -/
@[inline]
def push (r : Register) (bit : UInt64) : Register :=
  ⟨((r.old <<< 1) ||| (r.new >>> 63)) &&& 0xffff, (r.new <<< 1) ||| bit⟩

/-- The register after a number of steps. -/
def skip : Nat → Register → Register
  | 0, r => r
  | steps + 1, r => skip steps (r.push r.feedback)

/-- The next used bit. The first argument bounds the number of pairs looked at. -/
def nextBit : Nat → Register → UInt64 × Register
  | 0, r => (0, r)
  | pairs + 1, r =>
    let first := r.feedback
    let r := r.push first
    let second := r.feedback
    let r := r.push second
    if first == 1 then (second, r) else nextBit pairs r

/-- The number of pairs after which the register is given up; a register of 80 bits that is not
zero takes in a one sooner. -/
def pairLimit : Nat := 1024

/-- The number of the next `count` used bits below `high`, the most significant first. -/
def nextBits : Nat → Nat → Register → Nat × Register
  | 0, high, r => (high, r)
  | count + 1, high, r =>
    let (bit, r) := r.nextBit pairLimit
    nextBits count (2 * high + bit.toNat) r

/-- The next number below the order of the field. The first argument bounds the draws; each one
succeeds with a probability above nine tenths. -/
def nextConstant : Nat → Register → Nat × Register
  | 0, r => (0, r)
  | draws + 1, r =>
    let (n, r) := r.nextBits 255 0
    if n < modulus then (n, r) else nextConstant draws r

/-- The number of draws after which the register is given up. -/
def drawLimit : Nat := 1024

/-- The constants of one round after the other. -/
def row : Nat → Register → List Nat × Register
  | 0, r => ([], r)
  | count + 1, r =>
    let (c, r) := r.nextConstant drawLimit
    let (cs, r) := row count r
    (c :: cs, r)

/-- The constants of `rounds` rounds of `width` scalars. -/
def rows (width : Nat) : Nat → Register → List (List Nat)
  | 0, _ => []
  | rounds + 1, r =>
    let (cs, r) := row width r
    cs :: rows width rounds r

end Register

/-- The start of the register: the kind of field, the kind of S-box, the bits of a scalar, the
width, the two numbers of rounds, and thirty ones. -/
def Shape.register (shape : Shape) : Register :=
  .ofNat (((((((1 * 2 ^ 4 + 1) * 2 ^ 12 + 255) * 2 ^ 12 + shape.width) * 2 ^ 10 + fullRounds)
    * 2 ^ 10 + shape.partialRounds) * 2 ^ 30) + (2 ^ 30 - 1))

/-- The constants of every round. -/
def Shape.roundConstants (shape : Shape) : List (List Nat) :=
  Register.rows shape.width (fullRounds + shape.partialRounds) (shape.register.skip 160)

end Replication.Poseidon

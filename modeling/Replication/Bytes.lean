/-!
# Byte strings

Byte strings are lists of bytes. This module reads and writes numbers in base 256, cuts lists
into pieces of equal size, and writes bytes as hexadecimal digits. Reading undoes writing:
`toNatLE_natLE` and `natLE_toNatLE`.
-/

namespace Replication

-- Powers of numbers are those of the core library, also beside a library with another instance.
attribute [default_instance 10001, scoped instance (high)] instPowNat

/-- A string of bytes. -/
abbrev Bytes := List UInt8

namespace Bytes

/-- The number whose base-256 digits are the given bytes, the least significant first. -/
def toNatLE : Bytes → Nat
  | [] => 0
  | b :: rest => b.toNat + 256 * toNatLE rest

/-- The number whose base-256 digits are the given bytes, the most significant first. -/
def toNatBE (bytes : Bytes) : Nat := toNatLE bytes.reverse

/-- The `width` least significant base-256 digits of a number, the least significant first. -/
def natLE : Nat → Nat → Bytes
  | 0, _ => []
  | width + 1, value => UInt8.ofNat value :: natLE width (value / 256)

/-- The `width` least significant base-256 digits of a number, the most significant first. -/
def natBE (width value : Nat) : Bytes := (natLE width value).reverse

@[simp] theorem length_natLE (width value : Nat) : (natLE width value).length = width := by
  induction width generalizing value with
  | zero => rfl
  | succ width ih => simp [natLE, ih]

@[simp] theorem length_natBE (width value : Nat) : (natBE width value).length = width := by
  simp [natBE]

/-- Reading back the digits of a number gives the number, up to the width written. -/
theorem toNatLE_natLE (width value : Nat) :
    toNatLE (natLE width value) = value % 256 ^ width := by
  induction width generalizing value with
  | zero => simp [natLE, toNatLE, Nat.mod_one]
  | succ width ih =>
    have hdigit : (UInt8.ofNat value).toNat = value % 256 := UInt8.toNat_ofNat'
    rw [natLE, toNatLE, ih, hdigit, Nat.pow_succ', Nat.mod_mul]

/-- Writing the number that some bytes stand for gives back the bytes. -/
theorem natLE_toNatLE (bytes : Bytes) : natLE bytes.length (toNatLE bytes) = bytes := by
  induction bytes with
  | nil => rfl
  | cons b rest ih =>
    have hb : b.toNat < 256 := b.toNat_lt
    have hdigit : UInt8.ofNat (b.toNat + 256 * toNatLE rest) = b := by
      apply UInt8.toNat_inj.mp
      rw [UInt8.toNat_ofNat']
      omega
    have hrest : (b.toNat + 256 * toNatLE rest) / 256 = toNatLE rest := by omega
    rw [List.length_cons, toNatLE, natLE, hdigit, hrest, ih]

/-- What a string of bytes spells is below the power of 256 of its length. -/
theorem toNatLE_lt (bytes : Bytes) : toNatLE bytes < 256 ^ bytes.length := by
  have h := toNatLE_natLE bytes.length (toNatLE bytes)
  rw [natLE_toNatLE] at h
  rw [h]
  exact Nat.mod_lt _ (Nat.pow_pos (by decide))

/-- The two hexadecimal digits of a byte. -/
def hexDigits (b : UInt8) : List Char :=
  [Nat.digitChar (b.toNat / 16), Nat.digitChar (b.toNat % 16)]

/-- Bytes written as hexadecimal digits, two for each byte. -/
def toHex (bytes : Bytes) : String := String.ofList (bytes.flatMap hexDigits)

/-- The value of a hexadecimal digit in either case. -/
def hexValue? (c : Char) : Option Nat :=
  if '0' ≤ c ∧ c ≤ '9' then some (c.toNat - '0'.toNat)
  else if 'a' ≤ c ∧ c ≤ 'f' then some (c.toNat - 'a'.toNat + 10)
  else if 'A' ≤ c ∧ c ≤ 'F' then some (c.toNat - 'A'.toNat + 10)
  else none

/-- The bytes that pairs of hexadecimal digits stand for. -/
def ofHexDigits? : List Char → Option Bytes
  | [] => some []
  | high :: low :: rest => do
    let h ← hexValue? high
    let l ← hexValue? low
    let bytes ← ofHexDigits? rest
    return UInt8.ofNat (16 * h + l) :: bytes
  | [_] => none

/-- The bytes that a text of hexadecimal digits stands for. -/
def ofHex? (text : String) : Option Bytes := ofHexDigits? text.toList

end Bytes

/-- Cuts a list into pieces of `size` elements; only the last piece may be shorter. The first
argument bounds the number of pieces. -/
def piecesUpTo {α : Type} (size : Nat) : Nat → List α → List (List α)
  | 0, _ => []
  | _ + 1, [] => []
  | count + 1, x :: xs =>
    (x :: xs).take size :: piecesUpTo size count ((x :: xs).drop size)

/-- Cuts a list into pieces of `size` elements; only the last piece may be shorter. -/
def pieces {α : Type} (size : Nat) (xs : List α) : List (List α) :=
  piecesUpTo size xs.length xs

/-- The first `count` elements of the endless repetition of a list, read on from `rest`. -/
def cycleFrom {α : Type} (all : List α) : Nat → List α → List α
  | 0, _ => []
  | count + 1, x :: rest => x :: cycleFrom all count rest
  | count + 1, [] =>
    match all with
    | [] => []
    | x :: rest => x :: cycleFrom all count rest

/-- The first `count` elements of the endless repetition of a list. -/
def takeCyclic {α : Type} (count : Nat) (xs : List α) : List α := cycleFrom xs count xs

end Replication

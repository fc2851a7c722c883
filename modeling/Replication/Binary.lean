import Replication.Element

/-!
# Binary forms

Numbers are written in a fixed number of bytes, the least significant first; elements are their
bytes; a list is its length in eight bytes and then its items. A reader takes its value off the
front of a byte string and returns the rest.
-/

namespace Replication

/-- Reads a value off the front of a byte string. -/
abbrev Reader (α : Type) := Bytes → Option (α × Bytes)

namespace Binary

/-- A 32-bit number. -/
def ofUInt32 (n : UInt32) : Bytes := Bytes.natLE 4 n.toNat

/-- A 64-bit number. -/
def ofUInt64 (n : UInt64) : Bytes := Bytes.natLE 8 n.toNat

/-- A list whose items are written by `item`. -/
def ofList {α : Type} (item : α → Bytes) (xs : List α) : Bytes :=
  Bytes.natLE 8 xs.length ++ xs.flatMap item

/-- Reads a number of bytes. -/
def readBytes (count : Nat) : Reader Bytes := fun bytes =>
  if count ≤ bytes.length then some (bytes.take count, bytes.drop count) else none

/-- Reads a number of `width` bytes. -/
def readNat (width : Nat) : Reader Nat := fun bytes => do
  let (digits, rest) ← readBytes width bytes
  return (Bytes.toNatLE digits, rest)

/-- Reads a 32-bit number. -/
def readUInt32 : Reader UInt32 := fun bytes => do
  let (n, rest) ← readNat 4 bytes
  return (n.toUInt32, rest)

/-- Reads a 64-bit number. -/
def readUInt64 : Reader UInt64 := fun bytes => do
  let (n, rest) ← readNat 8 bytes
  return (n.toUInt64, rest)

/-- Reads an element. -/
def readElement : Reader Element := fun bytes => do
  let (digits, rest) ← readBytes 32 bytes
  let e ← Element.ofBytes? digits
  return (e, rest)

/-- Reads a number of items. -/
def readItems {α : Type} (item : Reader α) : Nat → Reader (List α)
  | 0, bytes => some ([], bytes)
  | count + 1, bytes => do
    let (x, bytes) ← item bytes
    let (xs, bytes) ← readItems item count bytes
    return (x :: xs, bytes)

/-- Reads a list. -/
def readList {α : Type} (item : Reader α) : Reader (List α) := fun bytes => do
  let (count, bytes) ← readNat 8 bytes
  readItems item count bytes

end Binary

end Replication

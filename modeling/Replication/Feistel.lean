import Replication.Bytes
import Replication.Digest.Blake2b
import Replication.Word

/-!
# A keyed permutation of an interval

A Feistel network with BLAKE2b as its round function permutes the numbers of an even number of
bits. To permute the numbers below an arbitrary `n`, the network of the least sufficient width is
applied again until the result is below `n`.
-/

namespace Replication.Feistel

/-- The number of rounds; each uses one key, and further keys are not used. -/
def roundCount : Nat := 3

/-- How an index is split into halves. -/
structure Layout where
  leftMask : Nat
  rightMask : Nat
  halfBits : Nat
  halfBits_lt : halfBits < 64
deriving DecidableEq

namespace Layout

/-- The layout of given masks; a half cannot be as wide as a word. -/
def ofMasks (leftMask rightMask halfBits : Nat) : Result Layout :=
  if h : halfBits < 64 then .ok ⟨leftMask, rightMask, halfBits, h⟩ else abort .overflow

/-- The least `halfBits` from the given one on for which `4 ^ halfBits` is at least `size`. The
power is a word; it has no value past the largest power of four that is one. -/
def leastHalfBits (size : Nat) : Nat → Nat → Nat → Result Nat
  | 0, _, _ => abort .overflow
  | steps + 1, power, halfBits =>
    if power < size then do
      let power ← Word.mul power 4
      leastHalfBits size steps power (halfBits + 1)
    else .ok halfBits

/-- The layout of two equal halves of the least width, at least one bit each, that can tell apart
`size` indices. -/
def forSize (size : Nat) : Result Layout := do
  let halfBits ← leastHalfBits size 64 4 1
  ofMasks ((2 ^ halfBits - 1) * 2 ^ halfBits) (2 ^ halfBits - 1) halfBits

end Layout

/-- The round function: the first eight bytes of the hash of the half and the key, masked. -/
def roundFunction (layout : Layout) (key : UInt64) (half : Nat) : Nat :=
  Bytes.toNatBE ((Blake2b.digest (Bytes.natBE 8 half ++ Bytes.natBE 8 key.toNat)).take 8)
    &&& layout.rightMask

/-- The halves of an index. -/
def split (layout : Layout) (index : Nat) : Nat × Nat :=
  ((index &&& layout.leftMask) >>> layout.halfBits, index &&& layout.rightMask)

/-- The index of two halves; bits beyond a word are lost. -/
def join (layout : Layout) (halves : Nat × Nat) : Nat :=
  ((halves.1 <<< layout.halfBits) % Word.limit) ||| halves.2

/-- One round. -/
def step (layout : Layout) (halves : Nat × Nat) (key : UInt64) : Nat × Nat :=
  (halves.2, halves.1 ^^^ roundFunction layout key halves.2)

/-- The inverse of one round. -/
def unstep (layout : Layout) (halves : Nat × Nat) (key : UInt64) : Nat × Nat :=
  (halves.2 ^^^ roundFunction layout key halves.1, halves.1)

/-- The network on the indices of a layout. -/
def encode (layout : Layout) (keys : List UInt64) (index : Nat) : Nat :=
  join layout ((keys.take roundCount).foldl (step layout) (split layout index))

/-- The network run backwards. -/
def decode (layout : Layout) (keys : List UInt64) (index : Nat) : Nat :=
  join layout ((keys.take roundCount).reverse.foldl (unstep layout) (split layout index))

/-- Applies `f` until the result is below `size`. The first argument bounds the number of further
applications. -/
def walk (f : Nat → Nat) (size : Nat) : Nat → Nat → Nat
  | 0, index => index
  | steps + 1, index => if index < size then index else walk f size steps (f index)

/-- The place of an index below `size`. -/
def permute (layout : Layout) (keys : List UInt64) (size index : Nat) : Nat :=
  walk (encode layout keys) size Word.limit (encode layout keys index)

/-- The index below `size` that has a given place. -/
def unpermute (layout : Layout) (keys : List UInt64) (size place : Nat) : Nat :=
  walk (decode layout keys) size Word.limit (decode layout keys place)

end Replication.Feistel

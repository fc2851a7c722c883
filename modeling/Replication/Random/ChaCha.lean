import Replication.Element

/-!
# ChaCha with eight rounds as a source of random words

The key stream of ChaCha8 under a key of 32 bytes, a block counter of 64 bits that starts at
zero and a zero nonce. Its 32-bit words are drawn two at a time, the low half first.
-/

namespace Replication.ChaCha

/-- A row of four words. -/
structure Row where
  x0 : UInt32
  x1 : UInt32
  x2 : UInt32
  x3 : UInt32

namespace Row

@[inline]
def add (r s : Row) : Row := ⟨r.x0 + s.x0, r.x1 + s.x1, r.x2 + s.x2, r.x3 + s.x3⟩

@[inline]
def xor (r s : Row) : Row := ⟨r.x0 ^^^ s.x0, r.x1 ^^^ s.x1, r.x2 ^^^ s.x2, r.x3 ^^^ s.x3⟩

@[inline]
def rotateWord (x n : UInt32) : UInt32 := (x <<< n) ||| (x >>> (32 - n))

/-- Every word rotated to the left by `n` bits. -/
@[inline]
def rotateBits (r : Row) (n : UInt32) : Row :=
  ⟨rotateWord r.x0 n, rotateWord r.x1 n, rotateWord r.x2 n, rotateWord r.x3 n⟩

/-- The row turned to the left by one word. -/
@[inline]
def turn (r : Row) : Row := ⟨r.x1, r.x2, r.x3, r.x0⟩

def toList (r : Row) : List UInt32 := [r.x0, r.x1, r.x2, r.x3]

end Row

/-- The state of four rows: constants, two rows of key, and counter with nonce. -/
structure Square where
  a : Row
  b : Row
  c : Row
  d : Row

namespace Square

/-- The quarter round on all four columns. -/
@[inline]
def mixColumns (v : Square) : Square :=
  let a := v.a.add v.b
  let d := (v.d.xor a).rotateBits 16
  let c := v.c.add d
  let b := (v.b.xor c).rotateBits 12
  let a := a.add b
  let d := (d.xor a).rotateBits 8
  let c := c.add d
  let b := (b.xor c).rotateBits 7
  ⟨a, b, c, d⟩

/-- A round on the columns and a round on the diagonals. -/
def doubleRound (v : Square) : Square :=
  let v := v.mixColumns
  let v := mixColumns ⟨v.a, v.b.turn, v.c.turn.turn, v.d.turn.turn.turn⟩
  ⟨v.a, v.b.turn.turn.turn, v.c.turn.turn, v.d.turn⟩

def add (v w : Square) : Square := ⟨v.a.add w.a, v.b.add w.b, v.c.add w.c, v.d.add w.d⟩

def toList (v : Square) : List UInt32 :=
  v.a.toList ++ v.b.toList ++ v.c.toList ++ v.d.toList

end Square

/-- The word at position `i` of a byte string, the least significant byte first. -/
def wordAt (bytes : Bytes) (i : Nat) : UInt32 :=
  (Bytes.toNatLE ((bytes.drop (4 * i)).take 4)).toUInt32

/-- The state before the rounds of block `counter`. -/
def start (key : Element) (counter : Nat) : Square where
  a := ⟨0x61707865, 0x3320646e, 0x79622d32, 0x6b206574⟩
  b := ⟨wordAt key.bytes 0, wordAt key.bytes 1, wordAt key.bytes 2, wordAt key.bytes 3⟩
  c := ⟨wordAt key.bytes 4, wordAt key.bytes 5, wordAt key.bytes 6, wordAt key.bytes 7⟩
  d := ⟨counter.toUInt32, (counter / 2 ^ 32).toUInt32, 0, 0⟩

/-- The sixteen key stream words of block `counter`. -/
def block (key : Element) (counter : Nat) : List UInt32 :=
  let v := start key counter
  (v.doubleRound.doubleRound.doubleRound.doubleRound.add v).toList

/-- A key stream: the block to compute next, and the words of the current block not drawn yet. -/
structure Stream where
  key : Element
  counter : Nat
  pending : List UInt32

/-- The key stream of a key from its start. -/
def Stream.ofKey (key : Element) : Stream := ⟨key, 0, []⟩

/-- The number whose low half is drawn first. -/
def join (low high : UInt32) : UInt64 := low.toUInt64 ||| (high.toUInt64 <<< 32)

/-- Draws a 64-bit word. A block has an even number of words, so no draw straddles two blocks. -/
def Stream.next (s : Stream) : UInt64 × Stream :=
  match s.pending with
  | low :: high :: rest => (join low high, { s with pending := rest })
  | _ =>
    match block s.key s.counter with
    | low :: high :: rest => (join low high, ⟨s.key, s.counter + 1, rest⟩)
    | _ => (0, s)

end Replication.ChaCha

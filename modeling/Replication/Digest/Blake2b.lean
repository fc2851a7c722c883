import Replication.Bytes

/-!
# BLAKE2b

The hash function BLAKE2b without a key, with a digest of 64 bytes. The working vector is a
square of four rows of four 64-bit words; a round mixes the four columns at once, and then, after
the rows have been turned, the four diagonals.
-/

namespace Replication.Blake2b

/-- A row of four words. -/
structure Row where
  x0 : UInt64
  x1 : UInt64
  x2 : UInt64
  x3 : UInt64

namespace Row

@[inline]
def add (r s : Row) : Row := ⟨r.x0 + s.x0, r.x1 + s.x1, r.x2 + s.x2, r.x3 + s.x3⟩

@[inline]
def xor (r s : Row) : Row := ⟨r.x0 ^^^ s.x0, r.x1 ^^^ s.x1, r.x2 ^^^ s.x2, r.x3 ^^^ s.x3⟩

@[inline]
def rotateWord (x n : UInt64) : UInt64 := (x >>> n) ||| (x <<< (64 - n))

/-- Every word rotated to the right by `n` bits. -/
@[inline]
def rotateBits (r : Row) (n : UInt64) : Row :=
  ⟨rotateWord r.x0 n, rotateWord r.x1 n, rotateWord r.x2 n, rotateWord r.x3 n⟩

/-- The row turned to the left by one word. -/
@[inline]
def turn (r : Row) : Row := ⟨r.x1, r.x2, r.x3, r.x0⟩

def toList (r : Row) : List UInt64 := [r.x0, r.x1, r.x2, r.x3]

end Row

/-- The working vector. -/
structure Square where
  a : Row
  b : Row
  c : Row
  d : Row

namespace Square

/-- The mixing function on all four columns, with two message words for each. -/
@[inline]
def mixColumns (v : Square) (mx my : Row) : Square :=
  let a := (v.a.add v.b).add mx
  let d := (v.d.xor a).rotateBits 32
  let c := v.c.add d
  let b := (v.b.xor c).rotateBits 24
  let a := (a.add b).add my
  let d := (d.xor a).rotateBits 16
  let c := c.add d
  let b := (b.xor c).rotateBits 63
  ⟨a, b, c, d⟩

/-- One round, with the sixteen message words in the order they are used. -/
def round (v : Square) (columnX columnY diagonalX diagonalY : Row) : Square :=
  let v := v.mixColumns columnX columnY
  let v := mixColumns ⟨v.a, v.b.turn, v.c.turn.turn, v.d.turn.turn.turn⟩ diagonalX diagonalY
  ⟨v.a, v.b.turn.turn.turn, v.c.turn.turn, v.d.turn⟩

end Square

/-- The sixteen words of a block. -/
structure Block where
  m0 : UInt64
  m1 : UInt64
  m2 : UInt64
  m3 : UInt64
  m4 : UInt64
  m5 : UInt64
  m6 : UInt64
  m7 : UInt64
  m8 : UInt64
  m9 : UInt64
  m10 : UInt64
  m11 : UInt64
  m12 : UInt64
  m13 : UInt64
  m14 : UInt64
  m15 : UInt64

/-- The next `count` words of a byte string, the least significant byte first; bytes that are
missing at the end are zero. -/
def wordsOf : Nat → Bytes → List UInt64
  | 0, _ => []
  | count + 1, bytes =>
    (Bytes.toNatLE (bytes.take 8)).toUInt64 :: wordsOf count (bytes.drop 8)

/-- The block at the start of a byte string. -/
def Block.ofBytes (bytes : Bytes) : Block :=
  match wordsOf 16 bytes with
  | [m0, m1, m2, m3, m4, m5, m6, m7, m8, m9, m10, m11, m12, m13, m14, m15] =>
    ⟨m0, m1, m2, m3, m4, m5, m6, m7, m8, m9, m10, m11, m12, m13, m14, m15⟩
  | _ => ⟨0, 0, 0, 0, 0, 0, 0, 0, 0, 0, 0, 0, 0, 0, 0, 0⟩

/-- The first row of the initialization vector of SHA-512. -/
def initialLow : Row :=
  ⟨0x6a09e667f3bcc908, 0xbb67ae8584caa73b, 0x3c6ef372fe94f82b, 0xa54ff53a5f1d36f1⟩

/-- The second row of the initialization vector of SHA-512. -/
def initialHigh : Row :=
  ⟨0x510e527fade682d1, 0x9b05688c2b3e6c1f, 0x1f83d9abfb41bd6b, 0x5be0cd19137e2179⟩

/-- The twelve rounds with the message words in the order of the ten word permutations, the
first two of which are used again. -/
def Square.rounds (v : Square) (m : Block) : Square :=
  let v := v.round ⟨m.m0, m.m2, m.m4, m.m6⟩ ⟨m.m1, m.m3, m.m5, m.m7⟩
    ⟨m.m8, m.m10, m.m12, m.m14⟩ ⟨m.m9, m.m11, m.m13, m.m15⟩
  let v := v.round ⟨m.m14, m.m4, m.m9, m.m13⟩ ⟨m.m10, m.m8, m.m15, m.m6⟩
    ⟨m.m1, m.m0, m.m11, m.m5⟩ ⟨m.m12, m.m2, m.m7, m.m3⟩
  let v := v.round ⟨m.m11, m.m12, m.m5, m.m15⟩ ⟨m.m8, m.m0, m.m2, m.m13⟩
    ⟨m.m10, m.m3, m.m7, m.m9⟩ ⟨m.m14, m.m6, m.m1, m.m4⟩
  let v := v.round ⟨m.m7, m.m3, m.m13, m.m11⟩ ⟨m.m9, m.m1, m.m12, m.m14⟩
    ⟨m.m2, m.m5, m.m4, m.m15⟩ ⟨m.m6, m.m10, m.m0, m.m8⟩
  let v := v.round ⟨m.m9, m.m5, m.m2, m.m10⟩ ⟨m.m0, m.m7, m.m4, m.m15⟩
    ⟨m.m14, m.m11, m.m6, m.m3⟩ ⟨m.m1, m.m12, m.m8, m.m13⟩
  let v := v.round ⟨m.m2, m.m6, m.m0, m.m8⟩ ⟨m.m12, m.m10, m.m11, m.m3⟩
    ⟨m.m4, m.m7, m.m15, m.m1⟩ ⟨m.m13, m.m5, m.m14, m.m9⟩
  let v := v.round ⟨m.m12, m.m1, m.m14, m.m4⟩ ⟨m.m5, m.m15, m.m13, m.m10⟩
    ⟨m.m0, m.m6, m.m9, m.m8⟩ ⟨m.m7, m.m3, m.m2, m.m11⟩
  let v := v.round ⟨m.m13, m.m7, m.m12, m.m3⟩ ⟨m.m11, m.m14, m.m1, m.m9⟩
    ⟨m.m5, m.m15, m.m8, m.m2⟩ ⟨m.m0, m.m4, m.m6, m.m10⟩
  let v := v.round ⟨m.m6, m.m14, m.m11, m.m0⟩ ⟨m.m15, m.m9, m.m3, m.m8⟩
    ⟨m.m12, m.m13, m.m1, m.m10⟩ ⟨m.m2, m.m7, m.m4, m.m5⟩
  let v := v.round ⟨m.m10, m.m8, m.m7, m.m1⟩ ⟨m.m2, m.m4, m.m6, m.m5⟩
    ⟨m.m15, m.m9, m.m3, m.m13⟩ ⟨m.m11, m.m14, m.m12, m.m0⟩
  let v := v.round ⟨m.m0, m.m2, m.m4, m.m6⟩ ⟨m.m1, m.m3, m.m5, m.m7⟩
    ⟨m.m8, m.m10, m.m12, m.m14⟩ ⟨m.m9, m.m11, m.m13, m.m15⟩
  v.round ⟨m.m14, m.m4, m.m9, m.m13⟩ ⟨m.m10, m.m8, m.m15, m.m6⟩
    ⟨m.m1, m.m0, m.m11, m.m5⟩ ⟨m.m12, m.m2, m.m7, m.m3⟩

/-- The eight chaining words. -/
structure State where
  low : Row
  high : Row

/-- The initialization vector with the parameters of an unkeyed 64-byte digest. -/
def initial : State :=
  ⟨{ initialLow with x0 := initialLow.x0 ^^^ 0x01010040 }, initialHigh⟩

/-- The chaining words after a block, when `count` bytes have been hashed with it. -/
def State.absorb (s : State) (block : Bytes) (count : Nat) (last : Bool) : State :=
  let tags : Row := ⟨count.toUInt64, (count / 2 ^ 64).toUInt64,
    if last then 0xffffffffffffffff else 0, 0⟩
  let v := Square.rounds ⟨s.low, s.high, initialLow, initialHigh.xor tags⟩ (Block.ofBytes block)
  ⟨s.low.xor (v.a.xor v.c), s.high.xor (v.b.xor v.d)⟩

/-- The chaining words after `blocks` full blocks and a last one, from `done` bytes on. -/
def State.absorbAll : Nat → Nat → State → Bytes → State
  | 0, done, s, bytes => s.absorb bytes (done + bytes.length) true
  | blocks + 1, done, s, bytes =>
    State.absorbAll blocks (done + 128) (s.absorb (bytes.take 128) (done + 128) false)
      (bytes.drop 128)

/-- The BLAKE2b digest of a message. -/
def digest (message : Bytes) : Bytes :=
  let s := State.absorbAll ((message.length - 1) / 128) 0 initial message
  (s.low.toList ++ s.high.toList).flatMap fun w => Bytes.natLE 8 w.toNat

end Replication.Blake2b

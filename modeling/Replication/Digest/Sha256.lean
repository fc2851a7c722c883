import Replication.Element

/-!
# SHA-256

The hash function SHA-256. A message is padded to whole blocks of 64 bytes; each block drives
64 rounds, whose words come from a window of sixteen words that slides along the message
schedule. The digest is the element of the eight chaining words.
-/

namespace Replication.Sha256

/-- The eight chaining words. -/
structure State where
  a : UInt32
  b : UInt32
  c : UInt32
  d : UInt32
  e : UInt32
  f : UInt32
  g : UInt32
  h : UInt32

/-- Sixteen successive words of the message schedule. -/
structure Window where
  w0 : UInt32
  w1 : UInt32
  w2 : UInt32
  w3 : UInt32
  w4 : UInt32
  w5 : UInt32
  w6 : UInt32
  w7 : UInt32
  w8 : UInt32
  w9 : UInt32
  w10 : UInt32
  w11 : UInt32
  w12 : UInt32
  w13 : UInt32
  w14 : UInt32
  w15 : UInt32

/-- The words of the first block of a byte string, each written most significant byte first. -/
def wordsOf : Nat → Bytes → List UInt32
  | count + 1, b0 :: b1 :: b2 :: b3 :: rest =>
    ((b0.toUInt32 <<< 24) ||| (b1.toUInt32 <<< 16) ||| (b2.toUInt32 <<< 8) ||| b3.toUInt32)
      :: wordsOf count rest
  | _, _ => []

/-- The window at the start of a block. -/
def Window.ofWords (ws : List UInt32) : Window :=
  match ws with
  | [w0, w1, w2, w3, w4, w5, w6, w7, w8, w9, w10, w11, w12, w13, w14, w15] =>
    ⟨w0, w1, w2, w3, w4, w5, w6, w7, w8, w9, w10, w11, w12, w13, w14, w15⟩
  | _ => ⟨0, 0, 0, 0, 0, 0, 0, 0, 0, 0, 0, 0, 0, 0, 0, 0⟩

@[inline]
def rotr (x n : UInt32) : UInt32 := (x >>> n) ||| (x <<< (32 - n))

@[inline]
def smallSigma0 (x : UInt32) : UInt32 := rotr x 7 ^^^ rotr x 18 ^^^ (x >>> 3)

@[inline]
def smallSigma1 (x : UInt32) : UInt32 := rotr x 17 ^^^ rotr x 19 ^^^ (x >>> 10)

@[inline]
def bigSigma0 (x : UInt32) : UInt32 := rotr x 2 ^^^ rotr x 13 ^^^ rotr x 22

@[inline]
def bigSigma1 (x : UInt32) : UInt32 := rotr x 6 ^^^ rotr x 11 ^^^ rotr x 25

/-- The window one word further along the message schedule. -/
def Window.next (w : Window) : Window :=
  { w0 := w.w1, w1 := w.w2, w2 := w.w3, w3 := w.w4, w4 := w.w5, w5 := w.w6, w6 := w.w7,
    w7 := w.w8, w8 := w.w9, w9 := w.w10, w10 := w.w11, w11 := w.w12, w12 := w.w13,
    w13 := w.w14, w14 := w.w15,
    w15 := smallSigma1 w.w14 + w.w9 + smallSigma0 w.w1 + w.w0 }

/-- The first 32 bits of the fractional parts of the cube roots of the first 64 primes. -/
def roundConstants : List UInt32 := [
  0x428a2f98, 0x71374491, 0xb5c0fbcf, 0xe9b5dba5, 0x3956c25b, 0x59f111f1, 0x923f82a4, 0xab1c5ed5,
  0xd807aa98, 0x12835b01, 0x243185be, 0x550c7dc3, 0x72be5d74, 0x80deb1fe, 0x9bdc06a7, 0xc19bf174,
  0xe49b69c1, 0xefbe4786, 0x0fc19dc6, 0x240ca1cc, 0x2de92c6f, 0x4a7484aa, 0x5cb0a9dc, 0x76f988da,
  0x983e5152, 0xa831c66d, 0xb00327c8, 0xbf597fc7, 0xc6e00bf3, 0xd5a79147, 0x06ca6351, 0x14292967,
  0x27b70a85, 0x2e1b2138, 0x4d2c6dfc, 0x53380d13, 0x650a7354, 0x766a0abb, 0x81c2c92e, 0x92722c85,
  0xa2bfe8a1, 0xa81a664b, 0xc24b8b70, 0xc76c51a3, 0xd192e819, 0xd6990624, 0xf40e3585, 0x106aa070,
  0x19a4c116, 0x1e376c08, 0x2748774c, 0x34b0bcb5, 0x391c0cb3, 0x4ed8aa4a, 0x5b9cca4f, 0x682e6ff3,
  0x748f82ee, 0x78a5636f, 0x84c87814, 0x8cc70208, 0x90befffa, 0xa4506ceb, 0xbef9a3f7, 0xc67178f2]

/-- The first 32 bits of the fractional parts of the square roots of the first 8 primes. -/
def initial : State :=
  ⟨0x6a09e667, 0xbb67ae85, 0x3c6ef372, 0xa54ff53a, 0x510e527f, 0x9b05688c, 0x1f83d9ab, 0x5be0cd19⟩

/-- One round with a round constant and a word of the schedule. -/
def State.round (s : State) (k w : UInt32) : State :=
  let t1 := s.h + bigSigma1 s.e + ((s.e &&& s.f) ^^^ (~~~s.e &&& s.g)) + k + w
  let t2 := bigSigma0 s.a + ((s.a &&& s.b) ^^^ (s.a &&& s.c) ^^^ (s.b &&& s.c))
  { a := t1 + t2, b := s.a, c := s.b, d := s.c, e := s.d + t1, f := s.e, g := s.f, h := s.g }

/-- The rounds with the given constants along the schedule. -/
def rounds : List UInt32 → Window → State → State
  | [], _, s => s
  | k :: ks, w, s => rounds ks w.next (s.round k w.w0)

/-- The chaining words after a block. -/
def State.absorb (s : State) (block : Bytes) : State :=
  let r := rounds roundConstants (Window.ofWords (wordsOf 16 block)) s
  { a := s.a + r.a, b := s.b + r.b, c := s.c + r.c, d := s.d + r.d,
    e := s.e + r.e, f := s.f + r.f, g := s.g + r.g, h := s.h + r.h }

/-- The chaining words after a number of blocks. -/
def State.absorbAll : Nat → State → Bytes → State
  | 0, s, _ => s
  | blocks + 1, s, bytes => State.absorbAll blocks (s.absorb bytes) (bytes.drop 64)

/-- The number of blocks of a padded message of `length` bytes. -/
def blockCount (length : Nat) : Nat := (length + 72) / 64

/-- A closing one bit, zeros up to a whole number of blocks, and the length in bits. -/
def padding (length : Nat) : Bytes :=
  0x80 :: (List.replicate (64 * blockCount length - length - 9) 0 ++ Bytes.natBE 8 (8 * length))

/-- The element of the chaining words. -/
def State.toElement (s : State) : Element where
  bytes := [s.a, s.b, s.c, s.d, s.e, s.f, s.g, s.h].flatMap fun w => Bytes.natBE 4 w.toNat
  length_bytes := by simp

/-- The SHA-256 digest of a message. -/
def digest (message : Bytes) : Element :=
  (State.absorbAll (blockCount message.length) initial
    (message ++ padding message.length)).toElement

/-- Padding fills up the last block and no further one. -/
theorem length_padding (length : Nat) :
    length + (padding length).length = 64 * blockCount length := by
  unfold padding blockCount
  simp only [List.length_cons, List.length_append, List.length_replicate, Bytes.length_natBE]
  omega

end Replication.Sha256

import RadminPro.ByteCodec

namespace RadminPro.Sha256Digest

/-!
# SHA-256

The FIPS 180-4 digest over byte lists, structured so that the kernel evaluates
it: the message schedule is a window of the next sixteen words, and every loop
is a recursion over a list or a block count.
-/

/-- The round constants. -/
def roundConstants : List UInt32 := [
  0x428a2f98, 0x71374491, 0xb5c0fbcf, 0xe9b5dba5,
  0x3956c25b, 0x59f111f1, 0x923f82a4, 0xab1c5ed5,
  0xd807aa98, 0x12835b01, 0x243185be, 0x550c7dc3,
  0x72be5d74, 0x80deb1fe, 0x9bdc06a7, 0xc19bf174,
  0xe49b69c1, 0xefbe4786, 0x0fc19dc6, 0x240ca1cc,
  0x2de92c6f, 0x4a7484aa, 0x5cb0a9dc, 0x76f988da,
  0x983e5152, 0xa831c66d, 0xb00327c8, 0xbf597fc7,
  0xc6e00bf3, 0xd5a79147, 0x06ca6351, 0x14292967,
  0x27b70a85, 0x2e1b2138, 0x4d2c6dfc, 0x53380d13,
  0x650a7354, 0x766a0abb, 0x81c2c92e, 0x92722c85,
  0xa2bfe8a1, 0xa81a664b, 0xc24b8b70, 0xc76c51a3,
  0xd192e819, 0xd6990624, 0xf40e3585, 0x106aa070,
  0x19a4c116, 0x1e376c08, 0x2748774c, 0x34b0bcb5,
  0x391c0cb3, 0x4ed8aa4a, 0x5b9cca4f, 0x682e6ff3,
  0x748f82ee, 0x78a5636f, 0x84c87814, 0x8cc70208,
  0x90befffa, 0xa4506ceb, 0xbef9a3f7, 0xc67178f2]

/-- Rotate a word right. -/
def rotr (word amount : UInt32) : UInt32 :=
  (word >>> amount) ||| (word <<< (32 - amount))

/-- The eight working variables. -/
structure Work where
  a : UInt32
  b : UInt32
  c : UInt32
  d : UInt32
  e : UInt32
  f : UInt32
  g : UInt32
  h : UInt32

/-- The initial hash value. -/
def initial : Work where
  a := 0x6a09e667
  b := 0xbb67ae85
  c := 0x3c6ef372
  d := 0xa54ff53a
  e := 0x510e527f
  f := 0x9b05688c
  g := 0x1f83d9ab
  h := 0x5be0cd19

/-- One compression round. -/
def round (s : Work) (constant word : UInt32) : Work :=
  let choice := (s.e &&& s.f) ^^^ (~~~s.e &&& s.g)
  let majority := (s.a &&& s.b) ^^^ (s.a &&& s.c) ^^^ (s.b &&& s.c)
  let first :=
    s.h + (rotr s.e 6 ^^^ rotr s.e 11 ^^^ rotr s.e 25) + choice +
      constant + word
  let second := (rotr s.a 2 ^^^ rotr s.a 13 ^^^ rotr s.a 22) + majority
  ⟨first + second, s.a, s.b, s.c, s.d + first, s.e, s.f, s.g⟩

/-- All rounds of a block, sliding the schedule window by one word each. -/
def rounds : List UInt32 → List UInt32 → Work → Work
  | constant :: constants,
      [w0, w1, w2, w3, w4, w5, w6, w7,
        w8, w9, w10, w11, w12, w13, w14, w15],
      s =>
      let next :=
        (rotr w14 17 ^^^ rotr w14 19 ^^^ (w14 >>> 10)) + w9 +
          (rotr w1 7 ^^^ rotr w1 18 ^^^ (w1 >>> 3)) + w0
      rounds constants
        [w1, w2, w3, w4, w5, w6, w7, w8,
          w9, w10, w11, w12, w13, w14, w15, next]
        (round s constant w0)
  | _, _, s => s

/-- Add working variables word by word. -/
def add (x y : Work) : Work :=
  ⟨x.a + y.a, x.b + y.b, x.c + y.c, x.d + y.d,
    x.e + y.e, x.f + y.f, x.g + y.g, x.h + y.h⟩

/-- The big-endian words of a block. -/
def words : Bytes → List UInt32
  | b0 :: b1 :: b2 :: b3 :: rest =>
      ((b0.toUInt32 <<< 24) ||| (b1.toUInt32 <<< 16) |||
        (b2.toUInt32 <<< 8) ||| b3.toUInt32) :: words rest
  | _ => []

/-- Fold the compression function over the 64-byte blocks of a message. -/
def blocks : Nat → Bytes → Work → Work
  | 0, _, s => s
  | count + 1, message, s =>
      blocks count (message.drop 64)
        (add s (rounds roundConstants (words (message.take 64)) s))

/-- Pad a message to whole blocks and append its bit length. -/
def pad (message : Bytes) : Bytes :=
  message ++ [0x80] ++
    List.replicate ((119 - message.length % 64) % 64) (0 : UInt8) ++
    ByteCodec.bigEndian 8 (8 * message.length)

/-- The four bytes of a word. -/
def wordBytes (word : UInt32) : Bytes :=
  ByteCodec.bigEndian 4 word.toNat

/-- The SHA-256 digest of a message. -/
def digest (message : Bytes) : Bytes :=
  let padded := pad message
  let s := blocks (padded.length / 64) padded initial
  wordBytes s.a ++ wordBytes s.b ++ wordBytes s.c ++ wordBytes s.d ++
    wordBytes s.e ++ wordBytes s.f ++ wordBytes s.g ++ wordBytes s.h

/-- A digest is 32 bytes long. -/
theorem digest_length
    (message : Bytes) :
    (digest message).length = 32 := by
  simp [digest, wordBytes]

end RadminPro.Sha256Digest

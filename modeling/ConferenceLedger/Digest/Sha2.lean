import ConferenceLedger.Bytes

/-!
# The SHA-2 digests

SHA-256 and SHA-512 run the same compression over words of 32 and of 64 bits. A message is
padded to whole blocks of sixteen words, the message schedule extends each block to one word
a round, and the eight chaining words after the last block are the digest.
-/

namespace ConferenceLedger.Sha2

/-- What distinguishes one member of the family: its words and its round functions. -/
class Word (W : Type) extends Add W, AndOp W, XorOp W, Complement W where
  /-- Bytes of a word. -/
  width : Nat
  /-- The word of a number, modulo the word size. -/
  ofNat : Nat → W
  /-- The number of a word. -/
  toNat : W → Nat
  /-- The mixing function of the first working word. -/
  mixA : W → W
  /-- The mixing function of the fifth working word. -/
  mixE : W → W
  /-- The schedule function of the word fifteen rounds back. -/
  early : W → W
  /-- The schedule function of the word two rounds back. -/
  late : W → W

/-- The eight chaining words. -/
structure Chain (W : Type) where
  /-- First word. -/
  a : W
  /-- Second word. -/
  b : W
  /-- Third word. -/
  c : W
  /-- Fourth word. -/
  d : W
  /-- Fifth word. -/
  e : W
  /-- Sixth word. -/
  f : W
  /-- Seventh word. -/
  g : W
  /-- Eighth word. -/
  h : W

variable {W : Type} [Word W]

/-- One round, with its constant and its schedule word. -/
@[specialize] def round (s : Chain W) (constant word : W) : Chain W :=
  let choice := (s.e &&& s.f) ^^^ (~~~s.e &&& s.g)
  let majority := (s.a &&& s.b) ^^^ (s.a &&& s.c) ^^^ (s.b &&& s.c)
  let t := s.h + Word.mixE s.e + choice + constant + word
  ⟨t + Word.mixA s.a + majority, s.a, s.b, s.c, s.d + t, s.e, s.f, s.g⟩

/-- The schedule word that enters a window of sixteen as its first word leaves. -/
@[specialize] def nextWord (leaving : W) (others : List W) : W :=
  let word (i : Nat) : W := others.getD i leaving
  Word.late (word 13) + word 8 + Word.early (word 0) + leaving

/-- The rounds of one block: each takes the first word of a sliding window of sixteen. -/
@[specialize] def rounds : (constants window : List W) → Chain W → Chain W
  | k :: constants, w :: window, s =>
    rounds constants (window ++ [nextWord w window]) (round s k w)
  | _, _, s => s

/-- A block changes each chaining word by what its rounds made of it. -/
@[specialize] def compress (constants : List W) (s : Chain W) (block : List W) : Chain W :=
  let t := rounds constants block s
  ⟨s.a + t.a, s.b + t.b, s.c + t.c, s.d + t.d, s.e + t.e, s.f + t.f, s.g + t.g, s.h + t.h⟩

/-- All `count` blocks of sixteen words, in order. -/
@[specialize] def absorb (constants : List W) : (count : Nat) → List W → Chain W → Chain W
  | 0, _, s => s
  | count + 1, words, s =>
    absorb constants count (words.drop 16) (compress constants s (words.take 16))

/-- The first `count` words of a byte string. -/
@[specialize] def wordsOf : (count : Nat) → Bytes → List W
  | 0, _ => []
  | count + 1, b =>
    Word.ofNat (Bytes.toNatBE (b.take (Word.width W))) :: wordsOf count (b.drop (Word.width W))

/-- The message, a one bit, the fewest zero bits, and the bit length, in whole blocks. -/
def pad (width : Nat) (message : Bytes) : Bytes :=
  let block := 16 * width
  let tail := 1 + 2 * width
  let zeros := (block - (message.length + tail) % block) % block
  message ++ 0x80 :: List.replicate zeros 0 ++ Bytes.ofNatBE (2 * width) (8 * message.length)

/-- The bytes of the chaining words, in order. -/
@[specialize] def Chain.bytes (s : Chain W) : Bytes :=
  let put (w : W) : Bytes := Bytes.ofNatBE (Word.width W) (Word.toNat w)
  put s.a ++ put s.b ++ put s.c ++ put s.d ++ put s.e ++ put s.f ++ put s.g ++ put s.h

/-- A digest has eight words. -/
theorem Chain.length_bytes (s : Chain W) : s.bytes.length = 8 * Word.width W := by
  simp only [Chain.bytes, List.length_append, Bytes.length_ofNatBE]
  omega

/-- The digest of a message, from the chaining words that start it. -/
@[specialize] def digest (constants : List W) (start : Chain W) (message : Bytes) :
    Octets (8 * Word.width W) :=
  let padded := pad (Word.width W) message
  let count := padded.length / Word.width W
  ⟨(absorb constants (count / 16) (wordsOf count padded) start).bytes, Chain.length_bytes _⟩

/-- A 32-bit word turned right by `n` bits. -/
def turn32 (n : UInt32) (x : UInt32) : UInt32 := (x >>> n) ||| (x <<< (32 - n))

/-- A 64-bit word turned right by `n` bits. -/
def turn64 (n : UInt64) (x : UInt64) : UInt64 := (x >>> n) ||| (x <<< (64 - n))

instance : Word UInt32 where
  width := 4
  ofNat := UInt32.ofNat
  toNat := UInt32.toNat
  mixA x := turn32 2 x ^^^ turn32 13 x ^^^ turn32 22 x
  mixE x := turn32 6 x ^^^ turn32 11 x ^^^ turn32 25 x
  early x := turn32 7 x ^^^ turn32 18 x ^^^ (x >>> 3)
  late x := turn32 17 x ^^^ turn32 19 x ^^^ (x >>> 10)

instance : Word UInt64 where
  width := 8
  ofNat := UInt64.ofNat
  toNat := UInt64.toNat
  mixA x := turn64 28 x ^^^ turn64 34 x ^^^ turn64 39 x
  mixE x := turn64 14 x ^^^ turn64 18 x ^^^ turn64 41 x
  early x := turn64 1 x ^^^ turn64 8 x ^^^ (x >>> 7)
  late x := turn64 19 x ^^^ turn64 61 x ^^^ (x >>> 6)

/-- The round constants of SHA-512: fractional parts of the cube roots of the first primes. -/
def constants64 : List UInt64 := [
  0x428a2f98d728ae22, 0x7137449123ef65cd, 0xb5c0fbcfec4d3b2f, 0xe9b5dba58189dbbc,
  0x3956c25bf348b538, 0x59f111f1b605d019, 0x923f82a4af194f9b, 0xab1c5ed5da6d8118,
  0xd807aa98a3030242, 0x12835b0145706fbe, 0x243185be4ee4b28c, 0x550c7dc3d5ffb4e2,
  0x72be5d74f27b896f, 0x80deb1fe3b1696b1, 0x9bdc06a725c71235, 0xc19bf174cf692694,
  0xe49b69c19ef14ad2, 0xefbe4786384f25e3, 0x0fc19dc68b8cd5b5, 0x240ca1cc77ac9c65,
  0x2de92c6f592b0275, 0x4a7484aa6ea6e483, 0x5cb0a9dcbd41fbd4, 0x76f988da831153b5,
  0x983e5152ee66dfab, 0xa831c66d2db43210, 0xb00327c898fb213f, 0xbf597fc7beef0ee4,
  0xc6e00bf33da88fc2, 0xd5a79147930aa725, 0x06ca6351e003826f, 0x142929670a0e6e70,
  0x27b70a8546d22ffc, 0x2e1b21385c26c926, 0x4d2c6dfc5ac42aed, 0x53380d139d95b3df,
  0x650a73548baf63de, 0x766a0abb3c77b2a8, 0x81c2c92e47edaee6, 0x92722c851482353b,
  0xa2bfe8a14cf10364, 0xa81a664bbc423001, 0xc24b8b70d0f89791, 0xc76c51a30654be30,
  0xd192e819d6ef5218, 0xd69906245565a910, 0xf40e35855771202a, 0x106aa07032bbd1b8,
  0x19a4c116b8d2d0c8, 0x1e376c085141ab53, 0x2748774cdf8eeb99, 0x34b0bcb5e19b48a8,
  0x391c0cb3c5c95a63, 0x4ed8aa4ae3418acb, 0x5b9cca4f7763e373, 0x682e6ff3d6b2b8a3,
  0x748f82ee5defb2fc, 0x78a5636f43172f60, 0x84c87814a1f0ab72, 0x8cc702081a6439ec,
  0x90befffa23631e28, 0xa4506cebde82bde9, 0xbef9a3f7b2c67915, 0xc67178f2e372532b,
  0xca273eceea26619c, 0xd186b8c721c0c207, 0xeada7dd6cde0eb1e, 0xf57d4f7fee6ed178,
  0x06f067aa72176fba, 0x0a637dc5a2c898a6, 0x113f9804bef90dae, 0x1b710b35131c471b,
  0x28db77f523047d84, 0x32caab7b40c72493, 0x3c9ebe0a15c9bebc, 0x431d67c49c100d4c,
  0x4cc5d4becb3e42b6, 0x597f299cfc657e2a, 0x5fcb6fab3ad6faec, 0x6c44198c4a475817
]

/-- The round constants of SHA-256 are the high halves of the first sixty-four. -/
def constants32 : List UInt32 := (constants64.take 64).map fun (k : UInt64) => (k >>> 32).toUInt32

/-- The chaining words of SHA-512 before the first block. -/
def start64 : Chain UInt64 :=
  ⟨0x6a09e667f3bcc908, 0xbb67ae8584caa73b, 0x3c6ef372fe94f82b, 0xa54ff53a5f1d36f1,
    0x510e527fade682d1, 0x9b05688c2b3e6c1f, 0x1f83d9abfb41bd6b, 0x5be0cd19137e2179⟩

/-- The chaining words of SHA-256 before the first block. -/
def start32 : Chain UInt32 :=
  ⟨0x6a09e667, 0xbb67ae85, 0x3c6ef372, 0xa54ff53a,
    0x510e527f, 0x9b05688c, 0x1f83d9ab, 0x5be0cd19⟩

end ConferenceLedger.Sha2

namespace ConferenceLedger

/-- The SHA-256 digest of a byte string. -/
def sha256 (message : Bytes) : Octets 32 := Sha2.digest Sha2.constants32 Sha2.start32 message

/-- The SHA-512 digest of a byte string. -/
def sha512 (message : Bytes) : Octets 64 := Sha2.digest Sha2.constants64 Sha2.start64 message

end ConferenceLedger

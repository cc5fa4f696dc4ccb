import ConferenceLedger.Digest.Sha2
import ConferenceLedger.Number.Power
import ConferenceLedger.Rsa.Armor
import ConferenceLedger.Rsa.Block

/-!
# RSA public keys and signatures

A key is found in an armored text by its label: under the labels of RSA keys the contents
are the key, and under the labels of keys and certificates in general the key is the first
string in them, if the first algorithm they name is RSA. Whether those bytes are a key shows
when a signature is checked: two positive numbers written in the only allowed way.
-/

namespace ConferenceLedger.Rsa

/-- Why a text holds no RSA key. -/
inductive KeyError where
  /-- It is not armored, or armors something else. -/
  | invalidFormat
  /-- It names the algorithm, but no key follows. -/
  | noKey
  deriving DecidableEq

/-- The text that reports why a text holds no RSA key. -/
def KeyError.message : KeyError → String
  | invalidFormat => "InvalidKeyFormat"
  | noKey => "InvalidEcdsaKey"

/-- The algorithms of keys that can be told apart. -/
inductive Algorithm where
  /-- Keys of an elliptic curve. -/
  | elliptic
  /-- RSA keys. -/
  | rsa
  /-- Keys of Edwards curves. -/
  | edwards
  deriving DecidableEq

/-- The algorithm that an identifier stands for. -/
def Algorithm.ofArcs? (arcs : List Nat) : Option Algorithm :=
  if arcs = [1, 2, 840, 10045, 2, 1] then some elliptic
  else if arcs = [1, 2, 840, 113549, 1, 1, 1] then some rsa
  else if arcs = [1, 3, 101, 112] then some edwards
  else none

/-- The bytes of the RSA key in an armored text. -/
def keyBytes (pem : String) : Except KeyError Bytes :=
  match Armored.ofBytes? (Bytes.ofText pem) with
  | none => .error .invalidFormat
  | some armored =>
    match Block.ofBytes? armored.contents with
    | none => .error .invalidFormat
    | some blocks =>
      let named (names : List String) : Bool := names.any fun s => armored.label = Bytes.ofText s
      if named ["RSA PRIVATE KEY", "RSA PUBLIC KEY"] then .ok armored.contents
      else if named ["PRIVATE KEY", "PUBLIC KEY", "CERTIFICATE"] then
        match (Block.identifiersIn blocks).findSome? Algorithm.ofArcs? with
        | some .rsa =>
          match (Block.stringsIn blocks).head? with
          | some b => .ok b
          | none => .error .noKey
        | _ => .error .invalidFormat
      else .error .invalidFormat

/-- An RSA public key. -/
structure PublicKey where
  /-- The product of the primes. -/
  modulus : Nat
  /-- How many bytes the modulus has. -/
  width : Nat
  /-- The exponent that undoes a signature. -/
  exponent : Nat

/-- The contents of a block with a tag, whose length is written as short as can be and has at
most two bytes, and what follows the block. -/
def contents? (tag : UInt8) : Bytes → Option (Bytes × Bytes)
  | t :: l :: rest => do
    if t ≠ tag then none
    else
      let (n, rest) ←
        if l.toNat < 128 then some (l.toNat, rest)
        else
          match l.toNat, rest with
          | 129, x :: rest => if 128 ≤ x.toNat then some (x.toNat, rest) else none
          | 130, x :: y :: rest =>
            let n := 256 * x.toNat + y.toNat
            if 256 ≤ n then some (n, rest) else none
          | _, _ => none
      if rest.length < n then none else some (rest.take n, rest.drop n)
  | _ => none

/-- The digits of a positive number written as short as can be. -/
def positive? : Bytes → Option Bytes
  | [] => none
  | 0 :: x :: rest => if 128 ≤ x.toNat then some (x :: rest) else none
  | x :: rest => if 1 ≤ x.toNat ∧ x.toNat < 128 then some (x :: rest) else none

namespace PublicKey

/-- The key that bytes write. -/
def ofBytes? (b : Bytes) : Option PublicKey := do
  let (inner, after) ← contents? 0x30 b
  let (n, inner) ← contents? 2 inner
  let (e, inner) ← contents? 2 inner
  let modulus ← positive? n
  let exponent ← positive? e
  if after.isEmpty ∧ inner.isEmpty then
    return ⟨Bytes.toNatBE modulus, modulus.length, Bytes.toNatBE exponent⟩
  else none

/-- Whether a key is one that signatures are checked under: of 256 to 1024 bytes, with an odd
modulus and an odd exponent from 3 up to 33 bits. -/
def usable (k : PublicKey) : Bool :=
  256 ≤ k.width && k.width ≤ 1024 && k.modulus % 2 = 1 && 3 ≤ k.exponent && k.exponent % 2 = 1 &&
    k.exponent < 1 <<< 33

/-- What names the digest in a signed block. -/
def digestName : Bytes :=
  [0x30, 0x31, 0x30, 0x0d, 0x06, 0x09, 0x60, 0x86, 0x48, 0x01, 0x65, 0x03, 0x04, 0x02, 0x01,
    0x05, 0x00, 0x04, 0x20]

/-- The block of `width` bytes that a signature of a message stands for. -/
def signedBlock (width : Nat) (message : Bytes) : Bytes :=
  let tail := digestName ++ (sha256 message).bytes
  0 :: 1 :: List.replicate (width - tail.length - 3) 0xff ++ 0 :: tail

/-- Whether a signature is one of a message under a key. -/
def verify (k : PublicKey) (message signature : Bytes) : Bool :=
  let s := Bytes.toNatBE signature
  k.usable && signature.length = k.width && s < k.modulus &&
    Bytes.ofNatBE k.width (powMod k.modulus s 33 k.exponent) = signedBlock k.width message

end PublicKey

/-- Whether a signature is one of a message under the key that bytes write. -/
def verify (key message signature : Bytes) : Bool :=
  match PublicKey.ofBytes? key with
  | some k => k.verify message signature
  | none => false

end ConferenceLedger.Rsa

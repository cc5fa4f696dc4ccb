import ConferenceLedger.Curve.Edwards
import ConferenceLedger.Digest.Sha2

/-!
# Ed25519 signatures

A seed of 32 bytes determines the secret scalar, the public key and every signature. A
signature is checked by computing its first half anew and comparing bytes; its second half
must be below the group order. Keys of small order are accepted.
-/

namespace ConferenceLedger.Curve

/-- The number read from a digest, modulo the group order. -/
def scalarOf (b : Bytes) : Nat := Bytes.toNatLE (sha512 b).bytes % order

/-- The secret scalar and the nonce key of a seed. -/
structure Secret where
  /-- The multiple of the base point that is the public key. -/
  scalar : Nat
  /-- The bytes that make nonces. -/
  nonceKey : Bytes

/-- The secrets of a seed: the first half of its digest, clamped, and the second half. -/
def Secret.ofSeed (seed : Octets 32) : Secret :=
  let h := (sha512 seed.bytes).bytes
  let low := Bytes.toNatLE (h.take 32)
  let top := 1 <<< 254
  ⟨top + low % top / 8 * 8, h.drop 32⟩

/-- The public key of a seed. -/
def publicKeyOf (seed : Octets 32) : Octets 32 :=
  (Point.base.times (Secret.ofSeed seed).scalar).compress

/-- The signature of a message under a seed. -/
def sign (seed : Octets 32) (message : Bytes) : Octets 64 :=
  let secret := Secret.ofSeed seed
  let publicKey := (Point.base.times secret.scalar).compress
  let r := scalarOf (secret.nonceKey ++ message)
  let first := (Point.base.times r).compress
  let k := scalarOf (first.bytes ++ publicKey.bytes ++ message)
  let s := (r + k * secret.scalar) % order
  ⟨first.bytes ++ Bytes.ofNatLE 32 s, by
    rw [List.length_append, first.length_bytes, Bytes.length_ofNatLE]⟩

/-- Whether `signature` is a signature of `message` under `publicKey`. -/
def verify (publicKey : Octets 32) (message : Bytes) (signature : Octets 64) : Bool :=
  match Point.decompress? publicKey with
  | none => false
  | some a =>
    let first := signature.bytes.take 32
    let s := Bytes.toNatLE (signature.bytes.drop 32)
    let k := scalarOf (first ++ publicKey.bytes ++ message)
    s < order && (Point.add (Point.base.times s) (a.negate.times k)).compress.bytes == first

end ConferenceLedger.Curve

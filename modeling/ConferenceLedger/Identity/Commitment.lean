import ConferenceLedger.Codec.Basic
import ConferenceLedger.Digest.Sha2
import ConferenceLedger.Json.Form

/-!
# Commitments to claim secrets

The custodian publishes the digest of a secret when it keys an account. Whoever reveals the
secret proves to have received it. A fresh secret is the 32 hexadecimal digits of a random
version 4 identifier.
-/

namespace ConferenceLedger

/-- A commitment to a secret. -/
structure Commitment where
  /-- The digest of the secret. -/
  octets : Octets 32
  deriving DecidableEq

instance : JsonForm Commitment :=
  ⟨fun c => toJson c.octets, fun j => (ofJson? j).map Commitment.mk⟩

instance : Binary Commitment := ⟨fun c => put c.octets, return ⟨← Binary.get⟩⟩

namespace Commitment

/-- The commitment to a secret. -/
def ofSecret (secret : Bytes) : Commitment := ⟨sha256 secret⟩

/-- Whether a revealed secret is the one committed to. -/
def opensWith (c : Commitment) (revealed : Bytes) : Bool := sha256 revealed = c.octets

/-- The commitment written by a text. -/
def ofHex (s : String) : Except FormError Commitment := (Octets.ofHex 32 s).map Commitment.mk

/-- The hexadecimal text of a commitment. -/
def hex (c : Commitment) : String := Hex.encode c.octets.bytes

/-- A secret opens its own commitment. -/
theorem ofSecret_opensWith (secret : Bytes) : (ofSecret secret).opensWith secret = true := by
  simp [ofSecret, opensWith]

end Commitment

/-- The random bytes with the version nibble set to 4 and the variant bits to 10. -/
def versioned (random : Octets 16) : Bytes :=
  random.bytes.zipIdx.map fun (b, i) =>
    if i = 6 then 0x40 ||| (b &&& 0x0f) else if i = 8 then 0x80 ||| (b &&& 0x3f) else b

/-- The secret made from sixteen random bytes. -/
def freshSecret (random : Octets 16) : String := Hex.encode (versioned random)

/-- Whether a text has the form of a fresh secret. -/
def isFreshSecret (s : String) : Bool :=
  let cs := s.toList
  cs.length = 32 && cs.all (fun c => c.isDigit || ('a' ≤ c && c ≤ 'f')) &&
    cs[12]? == some '4' && cs[16]?.any fun c => ['8', '9', 'a', 'b'].contains c

end ConferenceLedger

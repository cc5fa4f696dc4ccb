import ConferenceLedger.Codec.Basic
import ConferenceLedger.Curve.Edwards
import ConferenceLedger.Digest.Sha2
import ConferenceLedger.Json.Form

/-!
# Public keys and addresses

An account is named by an address of twenty bytes: the start of a digest of the ticket id of
an attendee, or of the public key of a service, each under its own tag. The address of
twenty zero bytes names nobody.
-/

namespace ConferenceLedger

/-- A digest of data under a tag that tells its purpose. -/
def taggedDigest (tag data : Bytes) : Octets 32 := sha256 (tag ++ data)

/-- An Ed25519 public key, which need not be a point of the curve. -/
structure PublicKey where
  /-- The 32 bytes of the key. -/
  octets : Octets 32
  deriving DecidableEq

/-- An account address. -/
structure Address where
  /-- The twenty bytes of the address. -/
  octets : Octets 20
  deriving DecidableEq

instance : JsonForm PublicKey := ⟨fun k => toJson k.octets, fun j => (ofJson? j).map PublicKey.mk⟩

instance : Binary PublicKey := ⟨fun k => put k.octets, return ⟨← Binary.get⟩⟩

instance : JsonForm Address := ⟨fun a => toJson a.octets, fun j => (ofJson? j).map Address.mk⟩

instance : Binary Address := ⟨fun a => put a.octets, return ⟨← Binary.get⟩⟩

namespace PublicKey

/-- Whether the key is a point of the curve. -/
def isPoint (k : PublicKey) : Bool := (Curve.Point.decompress? k.octets).isSome

/-- The key written by a text, when it is a point of the curve. -/
def ofHex (s : String) : Except FormError PublicKey :=
  match Octets.ofHex 32 s with
  | .error e => .error e
  | .ok o => if isPoint ⟨o⟩ then .ok ⟨o⟩ else .error .notAPoint

/-- The hexadecimal text of a key. -/
def hex (k : PublicKey) : String := Hex.encode k.octets.bytes

end PublicKey

namespace Address

/-- The address that names nobody. -/
def zero : Address := ⟨Octets.zero 20⟩

/-- Whether the address names nobody. -/
def isEmpty (a : Address) : Bool := a = zero

/-- The address of the attendee with a ticket id. -/
def ofTicket (id : String) : Address :=
  ⟨(taggedDigest (Bytes.ofText "LINKEDUP_ATTENDEE_V1") (Bytes.ofText id)).leading 20 (by decide)⟩

/-- The address of a service with its own key. -/
def ofPublicKey (k : PublicKey) : Address :=
  ⟨(taggedDigest (Bytes.ofText "LINKEDUP_PUBKEY_V1") k.octets.bytes).leading 20 (by decide)⟩

/-- The address written by a text. -/
def ofHex (s : String) : Except FormError Address := (Octets.ofHex 20 s).map Address.mk

/-- The hexadecimal text of an address. -/
def hex (a : Address) : String := Hex.encode a.octets.bytes

instance : LT Address := ⟨fun a b => a.octets < b.octets⟩

instance (a b : Address) : Decidable (a < b) := inferInstanceAs (Decidable (a.octets < b.octets))

end Address

end ConferenceLedger

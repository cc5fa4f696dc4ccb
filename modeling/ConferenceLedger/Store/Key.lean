import ConferenceLedger.Identity.Key

/-!
# Store keys

Every record lives under a one-byte class. A record of a collection has the key
`class || "::" || raw`, and a single record has the bare class byte. The record of a meeting
lives under the addresses of its two attendees, the greater one first, so that both
directions name the same record.
-/

namespace ConferenceLedger

namespace StoreKey

/-- The class of attendee records. -/
def attendeeClass : UInt8 := 0

/-- The class of scan records. -/
def scanClass : UInt8 := 1

/-- The class of prize records. -/
def prizeClass : UInt8 := 2

/-- The class of the master service address. -/
def masterClass : UInt8 := 3

/-- The class of the redeem service address. -/
def redeemClass : UInt8 := 4

/-- The class of account records. -/
def accountClass : UInt8 := 5

/-- The class of the account counter. -/
def accountNumberClass : UInt8 := 6

/-- How the keys of a collection begin. -/
def collection (cls : UInt8) : Bytes := [cls, 58, 58]

/-- The key of a record of a collection. -/
def member (cls : UInt8) (raw : Bytes) : Bytes := collection cls ++ raw

/-- Whether a key belongs to a collection. -/
def isMember (cls : UInt8) (key : Bytes) : Bool := Bytes.startsWith (collection cls) key

/-- The key of an attendee. -/
def attendee (a : Address) : Bytes := member attendeeClass a.octets.bytes

/-- The key of an account. -/
def account (a : Address) : Bytes := member accountClass a.octets.bytes

/-- The key of a prize. -/
def prize (tier : UInt8) : Bytes := member prizeClass [tier]

/-- The key of the master service address. -/
def master : Bytes := [masterClass]

/-- The key of the redeem service address. -/
def redeem : Bytes := [redeemClass]

/-- The key of the account counter. -/
def accountNumber : Bytes := [accountNumberClass]

end StoreKey

/-- The identifier of a meeting, which is also the key of its record. -/
structure ScanId where
  /-- The bytes of the identifier. -/
  bytes : Bytes
  deriving DecidableEq

instance : JsonForm ScanId := ⟨fun i => toJson (Blob.mk i.bytes), fun j =>
  (ofJson? j : Option Blob).map fun b => ⟨b.bytes⟩⟩

instance : Binary ScanId := ⟨fun i => put (Blob.mk i.bytes), do
  let b : Blob ← Binary.get
  return ⟨b.bytes⟩⟩

/-- Why two addresses are no pair. -/
inductive PairError where
  /-- One of them names nobody. -/
  | addressEmpty
  /-- They are the same. -/
  | accountsSame
  deriving DecidableEq

/-- The text that reports why two addresses are no pair. -/
def PairError.message : PairError → String
  | addressEmpty => "address is empty"
  | accountsSame => "accounts are the same"

namespace ScanId

/-- The identifier of the meeting of two attendees. -/
def ofPair (a b : Address) : Except PairError ScanId :=
  if a.isEmpty || b.isEmpty then .error .addressEmpty
  else if a = b then .error .accountsSame
  else
    let (first, second) := if b < a then (a, b) else (b, a)
    .ok ⟨StoreKey.member StoreKey.scanClass (first.octets.bytes ++ second.octets.bytes)⟩

/-- The identifier written by a text. -/
def ofHex (s : String) : Except FormError ScanId :=
  match Hex.decode s with
  | .error e => .error (.badDigit e)
  | .ok b => .ok ⟨b⟩

/-- The hexadecimal text of an identifier. -/
def hex (i : ScanId) : String := Hex.encode i.bytes

end ScanId

end ConferenceLedger

import ConferenceLedger.Identity.Commitment
import ConferenceLedger.Ledger.Error

/-!
# Operations

Every change of the ledger is one of four operations. Each names the address that must sign
it, and each can be checked in itself before the ledger is asked.
-/

namespace ConferenceLedger

/-- The custodian gives an attendee's account a key. -/
structure KeyGrant where
  /-- The attendee who gets the key. -/
  attendee : Address
  /-- The custodian. -/
  master : Address
  /-- The key. -/
  newKey : PublicKey
  /-- The commitment to the secret that the attendee is sent. -/
  commitment : Commitment
  deriving DecidableEq

/-- An attendee claims a keyed account by revealing the secret. -/
structure KeyClaim where
  /-- The attendee. -/
  attendee : Address
  /-- The display name. -/
  name : String
  /-- The revealed secret. -/
  secret : String
  /-- The key with which others encrypt what they share. -/
  rsaPublicKey : String
  /-- The profile, encrypted by the attendee. -/
  encryptedInfo : Blob
  deriving DecidableEq

/-- An attendee scans the badge of another. -/
structure BadgeScan where
  /-- The scanning attendee. -/
  sender : Address
  /-- The ticket id on the badge. -/
  ticket : String
  /-- What is shared with the other; nothing if empty. -/
  data : Blob
  deriving DecidableEq

/-- The booth hands out what an attendee has won. -/
structure Redemption where
  /-- The service of the booth. -/
  sender : Address
  /-- The ticket id on the attendee's badge. -/
  ticket : String
  deriving DecidableEq

/-- An operation on the ledger. -/
inductive Operation where
  /-- The custodian gives an attendee's account a key. -/
  | key (m : KeyGrant)
  /-- An attendee claims a keyed account. -/
  | claimKey (m : KeyClaim)
  /-- An attendee scans the badge of another. -/
  | scanQr (m : BadgeScan)
  /-- The booth hands out what an attendee has won. -/
  | redeem (m : Redemption)
  deriving DecidableEq

/-- Whether a ticket id is the decimal text of a positive number. -/
def isTicketId (s : String) : Bool :=
  let cs := s.toList
  !cs.isEmpty && cs.all (fun c => '0' ≤ c && c ≤ '9') && cs.head? != some '0'

/-- A ticket id must be the decimal text of a positive number. -/
def checkTicketId (s : String) : Except LedgerError Unit :=
  if isTicketId s then .ok () else .error .qrCodeInvalid

namespace KeyGrant

/-- Both addresses name somebody, and the key is a point of the curve. -/
def check (m : KeyGrant) : Except LedgerError Unit :=
  if m.attendee.isEmpty || m.master.isEmpty then .error .addressEmpty
  else if m.newKey.isPoint then .ok ()
  else .error .invalidPublicKey

/-- The names of the fields, in order. -/
def fieldNames : List String :=
  ["attendee_address", "master_address", "new_attendee_public_key", "commitment"]

instance : JsonForm KeyGrant where
  toJson m := .obj [
    ("attendee_address", toJson m.attendee),
    ("master_address", toJson m.master),
    ("new_attendee_public_key", toJson m.newKey),
    ("commitment", toJson m.commitment)]
  ofJson? j := do
    let [attendee, master, newKey, commitment] ← Json.slots? fieldNames j | none
    return ⟨← attendee.required ofJson?, ← master.required ofJson?,
      ← newKey.required ofJson?, ← commitment.required ofJson?⟩

instance : Binary KeyGrant where
  put m := put m.attendee ++ put m.master ++ put m.newKey ++ put m.commitment
  get := return ⟨← Binary.get, ← Binary.get, ← Binary.get, ← Binary.get⟩

end KeyGrant

namespace KeyClaim

/-- The address names somebody, and nothing is left empty. -/
def check (m : KeyClaim) : Except LedgerError Unit :=
  if m.attendee.isEmpty then .error .addressEmpty
  else if m.name = "" then .error .emptyName
  else if m.secret = "" then .error .emptySecret
  else if m.rsaPublicKey = "" then .error .emptyRsaKey
  else if m.encryptedInfo.isEmpty then .error .emptyEncryptedInfo
  else .ok ()

/-- The names of the fields, in order. -/
def fieldNames : List String :=
  ["attendee_address", "name", "secret", "rsa_public_key", "encrypted_info"]

instance : JsonForm KeyClaim where
  toJson m := .obj [
    ("attendee_address", toJson m.attendee),
    ("name", toJson m.name),
    ("secret", toJson m.secret),
    ("rsa_public_key", toJson m.rsaPublicKey),
    ("encrypted_info", toJson m.encryptedInfo)]
  ofJson? j := do
    let [attendee, name, secret, rsaPublicKey, encryptedInfo] ← Json.slots? fieldNames j | none
    return ⟨← attendee.required ofJson?, ← name.required ofJson?, ← secret.required ofJson?,
      ← rsaPublicKey.required ofJson?, ← encryptedInfo.required ofJson?⟩

instance : Binary KeyClaim where
  put m :=
    put m.attendee ++ put m.name ++ put m.secret ++ put m.rsaPublicKey ++ put m.encryptedInfo
  get := return ⟨← Binary.get, ← Binary.get, ← Binary.get, ← Binary.get, ← Binary.get⟩

end KeyClaim

namespace BadgeScan

/-- The address names somebody, and the ticket id is one. -/
def check (m : BadgeScan) : Except LedgerError Unit :=
  if m.sender.isEmpty then .error .addressEmpty else checkTicketId m.ticket

/-- The names of the fields, in order. -/
def fieldNames : List String := ["sender", "scanned_qr", "data"]

instance : JsonForm BadgeScan where
  toJson m := .obj [
    ("sender", toJson m.sender),
    ("scanned_qr", toJson m.ticket),
    ("data", toJson m.data)]
  ofJson? j := do
    let [sender, ticket, data] ← Json.slots? fieldNames j | none
    return ⟨← sender.required ofJson?, ← ticket.required ofJson?, ← data.required ofJson?⟩

instance : Binary BadgeScan where
  put m := put m.sender ++ put m.ticket ++ put m.data
  get := return ⟨← Binary.get, ← Binary.get, ← Binary.get⟩

end BadgeScan

namespace Redemption

/-- The address names somebody, and the ticket id is one. -/
def check (m : Redemption) : Except LedgerError Unit :=
  if m.sender.isEmpty then .error .addressEmpty else checkTicketId m.ticket

/-- The names of the fields, in order. -/
def fieldNames : List String := ["sender", "scanned_qr"]

instance : JsonForm Redemption where
  toJson m := .obj [
    ("sender", toJson m.sender),
    ("scanned_qr", toJson m.ticket)]
  ofJson? j := do
    let [sender, ticket] ← Json.slots? fieldNames j | none
    return ⟨← sender.required ofJson?, ← ticket.required ofJson?⟩

instance : Binary Redemption where
  put m := put m.sender ++ put m.ticket
  get := return ⟨← Binary.get, ← Binary.get⟩

end Redemption

namespace Operation

/-- The name of the kind of an operation. -/
def kind : Operation → String
  | key _ => "key"
  | claimKey _ => "claim_key"
  | scanQr _ => "scan_qr"
  | redeem _ => "redeem"

/-- The address that must sign an operation. -/
def signer : Operation → Address
  | key m => m.master
  | claimKey m => m.attendee
  | scanQr m => m.sender
  | redeem m => m.sender

/-- What can be checked without the ledger. -/
def check : Operation → Except LedgerError Unit
  | key m => m.check
  | claimKey m => m.check
  | scanQr m => m.check
  | redeem m => m.check

instance : JsonForm Operation where
  toJson
    | key m => .obj [("key", toJson m)]
    | claimKey m => .obj [("claim_key", toJson m)]
    | scanQr m => .obj [("scan_qr", toJson m)]
    | redeem m => .obj [("redeem", toJson m)]
  ofJson?
    | .obj [("key", j)] => (ofJson? j).map key
    | .obj [("claim_key", j)] => (ofJson? j).map claimKey
    | .obj [("scan_qr", j)] => (ofJson? j).map scanQr
    | .obj [("redeem", j)] => (ofJson? j).map redeem
    | _ => none

instance : Binary Operation where
  put
    | key m => Binary.putCase 0 ++ put m
    | claimKey m => Binary.putCase 1 ++ put m
    | scanQr m => Binary.putCase 2 ++ put m
    | redeem m => Binary.putCase 3 ++ put m
  get := do
    match ← Binary.getCase 4 with
    | 0 => return key (← Binary.get)
    | 1 => return claimKey (← Binary.get)
    | 2 => return scanQr (← Binary.get)
    | 3 => return redeem (← Binary.get)

end Operation

end ConferenceLedger

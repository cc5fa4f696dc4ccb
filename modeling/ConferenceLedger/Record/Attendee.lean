import ConferenceLedger.Identity.Commitment
import ConferenceLedger.Identity.Key
import ConferenceLedger.Record.Prize
import ConferenceLedger.Store.Key

/-!
# Attendee records

An attendee is known by the ticket id of the badge. The record starts without a key; it is
keyed by the custodian and then claimed by the attendee, who fills in a profile. Reputation
is added up without passing the greatest 64-bit number, and a meeting is listed once.
-/

namespace ConferenceLedger

/-- The sum of two numbers, or the greatest number if it is beyond. -/
def addCapped (a b : UInt64) : UInt64 :=
  if a.toNat + b.toNat < UInt64.size then a + b else UInt64.ofNat (UInt64.size - 1)

/-- A capped sum is the lesser of the sum and the greatest number. -/
theorem toNat_addCapped (a b : UInt64) :
    (addCapped a b).toNat = min (UInt64.size - 1) (a.toNat + b.toNat) := by
  have ha := a.toNat_lt
  have hb := b.toNat_lt
  have hsize : UInt64.size = 18446744073709551616 := rfl
  unfold addCapped
  split
  · rw [UInt64.toNat_add]
    omega
  · have : (UInt64.ofNat (UInt64.size - 1)).toNat = UInt64.size - 1 := by decide
    omega

/-- An attendee of the conference. -/
structure Attendee where
  /-- The address made from the ticket id. -/
  address : Address
  /-- The ticket id that the badge shows. -/
  id : String
  /-- The class of the ticket. -/
  ticketClass : String
  /-- The display name, empty until claimed. -/
  name : String
  /-- The key that the custodian installed. -/
  pubKey : Option PublicKey
  /-- The commitment to the secret of the claim, from keying to claiming. -/
  commitment : Option Commitment
  /-- Whether the attendee has claimed the account. -/
  claimed : Bool
  /-- Reputation points. -/
  rep : UInt64
  /-- The highest prize tier reached. -/
  tier : UInt8
  /-- The key with which others encrypt what they share. -/
  rsaPublicKey : String
  /-- The profile, encrypted by the attendee. -/
  encryptedInfo : Blob
  /-- The meetings the attendee took part in, first ones first. -/
  scanIds : List ScanId
  /-- The prizes won, in the order they were won. -/
  winnings : List Win
  deriving DecidableEq

namespace Attendee

/-- A record that says nothing but whose it is. -/
def blank (address : Address) : Attendee where
  address := address
  id := ""
  ticketClass := ""
  name := ""
  pubKey := none
  commitment := none
  claimed := false
  rep := 0
  tier := 0
  rsaPublicKey := ""
  encryptedInfo := .empty
  scanIds := []
  winnings := []

/-- The record of a ticket on the roster. -/
def ofTicket (id ticketClass : String) : Attendee :=
  { blank (.ofTicket id) with id, ticketClass }

/-- Whether a key is installed. -/
def isKeyed (a : Attendee) : Bool := a.pubKey.isSome

/-- The record with reputation points added. -/
def addRep (points : UInt64) (a : Attendee) : Attendee :=
  { a with rep := addCapped a.rep points }

/-- Whether a meeting is listed. -/
def listsScan (id : ScanId) (a : Attendee) : Bool := a.scanIds.contains id

/-- The record with a meeting listed, once. -/
def addScanId (id : ScanId) (a : Attendee) : Attendee :=
  if a.listsScan id then a else { a with scanIds := a.scanIds ++ [id] }

/-- The wins that were not collected yet. -/
def unclaimedWinnings (a : Attendee) : List Win := a.winnings.filter (!·.claimed)

/-- The record with every win collected. -/
def collectWinnings (a : Attendee) : Attendee :=
  { a with winnings := a.winnings.map fun w => { w with claimed := true } }

/-- The names of the fields, in order. -/
def fieldNames : List String :=
  ["address", "id", "ticket_class", "name", "pub_key", "commitment", "claimed", "rep", "tier",
    "rsa_public_key", "encrypted_info", "scan_ids", "winnings"]

instance : JsonForm Attendee where
  toJson a := .obj [
    ("address", toJson a.address),
    ("id", toJson a.id),
    ("ticket_class", toJson a.ticketClass),
    ("name", toJson a.name),
    ("pub_key", toJson a.pubKey),
    ("commitment", toJson a.commitment),
    ("claimed", toJson a.claimed),
    ("rep", toJson a.rep),
    ("tier", toJson a.tier),
    ("rsa_public_key", toJson a.rsaPublicKey),
    ("encrypted_info", toJson a.encryptedInfo),
    ("scan_ids", toJson a.scanIds),
    ("winnings", toJson a.winnings)]
  ofJson? j := do
    let [address, id, ticketClass, name, pubKey, commitment, claimed, rep, tier, rsaPublicKey,
      encryptedInfo, scanIds, winnings] ← Json.slots? fieldNames j | none
    return ⟨← address.required ofJson?, ← id.required ofJson?, ← ticketClass.required ofJson?,
      ← name.required ofJson?, ← pubKey.optional ofJson?, ← commitment.optional ofJson?,
      ← claimed.required ofJson?, ← rep.required ofJson?, ← tier.required ofJson?,
      ← rsaPublicKey.required ofJson?, ← encryptedInfo.required ofJson?,
      ← scanIds.required ofJson?, ← winnings.required ofJson?⟩

instance : Binary Attendee where
  put a :=
    put a.address ++ put a.id ++ put a.ticketClass ++ put a.name ++ put a.pubKey ++
      put a.commitment ++ put a.claimed ++ put a.rep ++ put a.tier ++ put a.rsaPublicKey ++
      put a.encryptedInfo ++ put a.scanIds ++ put a.winnings
  get := return ⟨← Binary.get, ← Binary.get, ← Binary.get, ← Binary.get, ← Binary.get,
    ← Binary.get, ← Binary.get, ← Binary.get, ← Binary.get, ← Binary.get, ← Binary.get,
    ← Binary.get, ← Binary.get⟩

end Attendee

end ConferenceLedger

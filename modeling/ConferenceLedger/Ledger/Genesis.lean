import ConferenceLedger.Ledger.Records

/-!
# Genesis

A ledger starts with the accounts of two services, a roster of attendees and a prize table.
Account numbers are given in this order: the service that keys attendees, the service that
redeems prizes, the roster. An address that comes again keeps its account.
-/

namespace ConferenceLedger

/-- A ticket on the roster. -/
structure RosterEntry where
  /-- The ticket id. -/
  id : String
  /-- The class of the ticket. -/
  ticketClass : String
  deriving DecidableEq

/-- The contents that a ledger starts with. -/
structure Genesis where
  /-- The key of the service that keys attendees. -/
  keyService : PublicKey
  /-- The key of the service that redeems prizes. -/
  redeemService : PublicKey
  /-- The roster. -/
  attendees : List RosterEntry
  /-- The prize table. -/
  prizes : List Prize
  deriving DecidableEq

namespace RosterEntry

/-- The names of the fields, in order. -/
def fieldNames : List String := ["id", "ticket_class"]

instance : JsonForm RosterEntry where
  toJson e := .obj [("id", toJson e.id), ("ticket_class", toJson e.ticketClass)]
  ofJson? j := do
    let [id, ticketClass] ← Json.slots? fieldNames j | none
    return ⟨← id.required ofJson?, ← ticketClass.required ofJson?⟩

instance : Binary RosterEntry where
  put e := put e.id ++ put e.ticketClass
  get := return ⟨← Binary.get, ← Binary.get⟩

end RosterEntry

namespace Genesis

/-- A genesis of two services, with the default prizes and nobody on the roster. -/
def new (keyService redeemService : PublicKey) : Genesis :=
  ⟨keyService, redeemService, [], Prize.defaults⟩

/-- The genesis with one more ticket on the roster. -/
def withAttendee (id ticketClass : String) (g : Genesis) : Genesis :=
  { g with attendees := g.attendees ++ [⟨id, ticketClass⟩] }

/-- Create the account of a service. -/
def enrolService (key : PublicKey) : LedgerAccess Address := do
  let _ ← Records.createAccount (.ofPublicKey key) (some key)
  return .ofPublicKey key

/-- Create the account and the record of a ticket. -/
def enrolAttendee (e : RosterEntry) : LedgerAccess Unit := do
  let a := Attendee.ofTicket e.id e.ticketClass
  let _ ← Records.createAccount a.address none
  Records.setAttendee a

/-- Fill a store with the contents of a genesis. -/
def program (g : Genesis) : LedgerAccess Unit := do
  Records.setMaster (← enrolService g.keyService)
  Records.setRedeem (← enrolService g.redeemService)
  g.attendees.forM enrolAttendee
  g.prizes.forM Records.setPrize

/-- The names of the fields, in order. -/
def fieldNames : List String := ["key_service", "redeem_service", "attendees", "prizes"]

instance : JsonForm Genesis where
  toJson g := .obj [
    ("key_service", toJson g.keyService),
    ("redeem_service", toJson g.redeemService),
    ("attendees", toJson g.attendees),
    ("prizes", toJson g.prizes)]
  ofJson? j := do
    let [keyService, redeemService, attendees, prizes] ← Json.slots? fieldNames j | none
    return ⟨← keyService.required ofJson?, ← redeemService.required ofJson?,
      ← attendees.required ofJson?, ← prizes.required ofJson?⟩

instance : Binary Genesis where
  put g := put g.keyService ++ put g.redeemService ++ put g.attendees ++ put g.prizes
  get := return ⟨← Binary.get, ← Binary.get, ← Binary.get, ← Binary.get⟩

end Genesis

end ConferenceLedger

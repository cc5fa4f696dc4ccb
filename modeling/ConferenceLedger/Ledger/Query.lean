import ConferenceLedger.Ledger.Records

/-!
# Queries

A query reads the ledger and answers with records, a list of them, or a yes or no. The
leaderboard ranks attendees by reputation, and by address where that is equal.
-/

namespace ConferenceLedger

/-- A question to the ledger. -/
inductive Query where
  /-- The attendee of an address. -/
  | attendee (address : Address)
  /-- The attendee with a ticket id. -/
  | attendeeById (id : String)
  /-- Whether the attendee with a ticket id has a key. -/
  | keyed (id : String)
  /-- Whether the attendee with a ticket id has claimed the account. -/
  | claimed (id : String)
  /-- A meeting. -/
  | scan (id : ScanId)
  /-- Every meeting of an attendee. -/
  | attendeeScans (address : Address)
  /-- Every attendee. -/
  | attendees
  /-- The prize table. -/
  | prizes
  /-- The prize of a tier. -/
  | prize (tier : UInt8)
  /-- The attendees of the highest reputation, at most so many. -/
  | leaderboard (limit : UInt64)
  /-- The wins that an attendee has not collected. -/
  | redeemable (address : Address)
  deriving DecidableEq

/-- One row of the leaderboard. -/
structure LeaderboardEntry where
  /-- The attendee. -/
  address : Address
  /-- The display name, empty until claimed. -/
  name : String
  /-- The reputation. -/
  rep : UInt64
  /-- The tier reached. -/
  tier : UInt8
  deriving DecidableEq

/-- What a query answers. -/
inductive QueryResponse where
  /-- One attendee. -/
  | attendee (a : Attendee)
  /-- Attendees. -/
  | attendees (as : List Attendee)
  /-- A yes or no. -/
  | flag (b : Bool)
  /-- One meeting. -/
  | scan (s : Scan)
  /-- Meetings. -/
  | scans (ss : List Scan)
  /-- The prize table. -/
  | prizes (ps : List Prize)
  /-- One prize. -/
  | prize (p : Prize)
  /-- The leaderboard. -/
  | leaderboard (rows : List LeaderboardEntry)
  /-- Wins that were not collected. -/
  | redeemable (ws : List Win)
  deriving DecidableEq

namespace LeaderboardEntry

/-- The row of an attendee. -/
def ofAttendee (a : Attendee) : LeaderboardEntry := ⟨a.address, a.name, a.rep, a.tier⟩

/-- Whether a row stands above another: by more reputation, or the lesser address. -/
def ranksAbove (a b : LeaderboardEntry) : Bool :=
  b.rep < a.rep || (a.rep = b.rep && a.address < b.address)

/-- Put a row in front of the first row that does not stand above it. -/
def insertRow (r : LeaderboardEntry) : List LeaderboardEntry → List LeaderboardEntry
  | [] => [r]
  | other :: rest => if other.ranksAbove r then other :: insertRow r rest else r :: other :: rest

/-- Rows in order of rank. -/
def ranked (rows : List LeaderboardEntry) : List LeaderboardEntry := rows.foldr insertRow []

/-- The names of the fields, in order. -/
def fieldNames : List String := ["address", "name", "rep", "tier"]

instance : JsonForm LeaderboardEntry where
  toJson r := .obj [
    ("address", toJson r.address),
    ("name", toJson r.name),
    ("rep", toJson r.rep),
    ("tier", toJson r.tier)]
  ofJson? j := do
    let [address, name, rep, tier] ← Json.slots? fieldNames j | none
    return ⟨← address.required ofJson?, ← name.required ofJson?, ← rep.required ofJson?,
      ← tier.required ofJson?⟩

instance : Binary LeaderboardEntry where
  put r := put r.address ++ put r.name ++ put r.rep ++ put r.tier
  get := return ⟨← Binary.get, ← Binary.get, ← Binary.get, ← Binary.get⟩

end LeaderboardEntry

/-- The attendees of the highest reputation, at most `limit` of them. -/
def leaderboard (limit : Nat) : LedgerAccess (List LeaderboardEntry) := do
  let all ← Records.attendees
  return (LeaderboardEntry.ranked (all.map .ofAttendee)).take limit

namespace Query

/-- What a query answers. -/
def answer : Query → LedgerAccess QueryResponse
  | attendee address => return .attendee (← Records.knownAttendee address)
  | attendeeById id => return .attendee (← Records.knownAttendee (.ofTicket id))
  | keyed id => return .flag (← Records.knownAttendee (.ofTicket id)).isKeyed
  | claimed id => return .flag (← Records.knownAttendee (.ofTicket id)).claimed
  | scan id => do
    match ← Records.scan id with
    | some s => return .scan s
    | none => Access.fail .scanNotFound
  | attendeeScans address => return .scans (← Records.scansOf address)
  | attendees => return .attendees (← Records.attendees)
  | prizes => return .prizes (← Records.prizes)
  | prize tier => do
    match ← Records.prize tier with
    | some p => return .prize p
    | none => Access.fail .prizeNotFound
  | leaderboard limit => return .leaderboard (← ConferenceLedger.leaderboard limit.toNat)
  | redeemable address => return .redeemable (← Records.knownAttendee address).unclaimedWinnings

/-- The names of the cases, in order. -/
def caseNames : List String :=
  ["attendee", "attendee_by_id", "keyed", "claimed", "scan", "attendee_scans", "attendees",
    "prizes", "prize", "leaderboard", "redeemable"]

/-- The name and the fields of a query. -/
def shape : Query → String × List (String × Json)
  | attendee address => ("attendee", [("address", toJson address)])
  | attendeeById id => ("attendee_by_id", [("id", toJson id)])
  | keyed id => ("keyed", [("id", toJson id)])
  | claimed id => ("claimed", [("id", toJson id)])
  | scan id => ("scan", [("id", toJson id)])
  | attendeeScans address => ("attendee_scans", [("address", toJson address)])
  | attendees => ("attendees", [])
  | prizes => ("prizes", [])
  | prize tier => ("prize", [("tier", toJson tier)])
  | leaderboard limit => ("leaderboard", [("limit", toJson limit)])
  | redeemable address => ("redeemable", [("address", toJson address)])

/-- How many rows a leaderboard has if the query does not say. -/
def defaultLimit : UInt64 := 10

/-- The only field of a record. -/
def onlyField? {α : Type} [JsonForm α] (name : String) (j : Json) : Option α := do
  let [slot] ← Json.slots? [name] j | none
  slot.required ofJson?

/-- The query that a JSON value of an origin asks. -/
def ofJsonOf? (origin : Json.Origin) (j : Json) : Option Query := do
  let (index, body) ← Json.tagged? "path" caseNames origin j
  match caseNames[index]? with
  | some "attendee" => return attendee (← onlyField? "address" body)
  | some "attendee_by_id" => return attendeeById (← onlyField? "id" body)
  | some "keyed" => return keyed (← onlyField? "id" body)
  | some "claimed" => return claimed (← onlyField? "id" body)
  | some "scan" => return scan (← onlyField? "id" body)
  | some "attendee_scans" => return attendeeScans (← onlyField? "address" body)
  | some "attendees" => do
    Json.noFields? body
    return attendees
  | some "prizes" => do
    Json.noFields? body
    return prizes
  | some "prize" => return prize (← onlyField? "tier" body)
  | some "leaderboard" => do
    let [limit] ← Json.slots? ["limit"] body | none
    return leaderboard (← limit.defaulted defaultLimit ofJson?)
  | some "redeemable" => return redeemable (← onlyField? "address" body)
  | _ => none

instance : JsonForm Query where
  toJson q := .obj (("path", .str q.shape.1) :: q.shape.2)
  ofJson? := ofJsonOf? .direct

/-- The binary form of the fields of a query. -/
def putFields : Query → Bytes
  | attendee address => put address
  | attendeeById id => put id
  | keyed id => put id
  | claimed id => put id
  | scan id => put id
  | attendeeScans address => put address
  | attendees => []
  | prizes => []
  | prize tier => put tier
  | leaderboard limit => put limit
  | redeemable address => put address

/-- A query is written with the name of its case, but which fields follow can only be told
from a form that describes itself, so it is not read back. -/
instance : Binary Query where
  put q := put q.shape.1 ++ q.putFields
  get := throw .selfDescribing

end Query

namespace QueryResponse

/-- The names of the cases, in order. -/
def caseNames : List String :=
  ["attendee", "attendees", "flag", "scan", "scans", "prizes", "prize", "leaderboard",
    "redeemable"]

/-- The name and the contents of an answer. -/
def shape : QueryResponse → String × Json
  | attendee a => ("attendee", toJson a)
  | attendees as => ("attendees", toJson as)
  | flag b => ("flag", toJson b)
  | scan s => ("scan", toJson s)
  | scans ss => ("scans", toJson ss)
  | prizes ps => ("prizes", toJson ps)
  | prize p => ("prize", toJson p)
  | leaderboard rows => ("leaderboard", toJson rows)
  | redeemable ws => ("redeemable", toJson ws)

/-- The answer that a JSON value of an origin gives. -/
def ofJsonOf? (origin : Json.Origin) (j : Json) : Option QueryResponse := do
  let (index, _, body) ← Json.adjacent? "type" "data" caseNames origin j
  match caseNames[index]? with
  | some "attendee" => return attendee (← ofJson? body)
  | some "attendees" => return attendees (← ofJson? body)
  | some "flag" => return flag (← ofJson? body)
  | some "scan" => return scan (← ofJson? body)
  | some "scans" => return scans (← ofJson? body)
  | some "prizes" => return prizes (← ofJson? body)
  | some "prize" => return prize (← ofJson? body)
  | some "leaderboard" => return leaderboard (← ofJson? body)
  | some "redeemable" => return redeemable (← ofJson? body)
  | _ => none

instance : JsonForm QueryResponse where
  toJson r := .obj [("type", .str r.shape.1), ("data", r.shape.2)]
  ofJson? := ofJsonOf? .direct

/-- The index of the case, and the binary form of the contents. -/
def putContents : QueryResponse → Nat × Bytes
  | attendee a => (0, put a)
  | attendees as => (1, put as)
  | flag b => (2, put b)
  | scan s => (3, put s)
  | scans ss => (4, put ss)
  | prizes ps => (5, put ps)
  | prize p => (6, put p)
  | leaderboard rows => (7, put rows)
  | redeemable ws => (8, put ws)

/-- An answer is written with the index of its case, but a reader asks for the name. -/
instance : Binary QueryResponse where
  put r := Binary.putCase r.putContents.1 ++ r.putContents.2
  get := throw .namedCase

end QueryResponse

end ConferenceLedger

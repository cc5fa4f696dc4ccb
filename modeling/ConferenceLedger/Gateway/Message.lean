import ConferenceLedger.Json.Reader
import ConferenceLedger.Ledger.Query

/-!
# Messages

Clients and the server exchange JSON texts. A message names its kind in the field `type`,
beside its other fields. The parts of a message are read before its kind is known.
-/

namespace ConferenceLedger

/-- What a client sends. -/
inductive ClientMessage where
  /-- A token that says who the client is. -/
  | auth (token clientVersion : String)
  /-- A request to key the account of the attendee that the client is. -/
  | key (publicKey : PublicKey)
  /-- A query, which anyone may ask. -/
  | query (q : Query)
  /-- A question for a sign of life. -/
  | ping (timestamp : UInt64)
  deriving DecidableEq

/-- What went wrong, as clients tell it apart. -/
inductive ErrorCode where
  /-- The client must authenticate first. -/
  | notAuthenticated
  /-- The message is none, or its fields are wrong. -/
  | invalidMessage
  /-- There is no such attendee. -/
  | attendeeNotFound
  /-- The attendee has a key already. -/
  | alreadyKeyed
  /-- The ledger refused. -/
  | ledgerRejected
  /-- The ledger was not reached; trying again is safe. -/
  | ledgerUnavailable
  /-- Too many requests are waiting; nothing was sent. -/
  | busy
  /-- Anything else. -/
  | internalError
  deriving DecidableEq

/-- What the server sends. -/
inductive ServerMessage where
  /-- Whether a token was accepted, and whose it is. -/
  | authResult (success : Bool) (address : Option Address) (serverVersion : String)
      (reason : Option String)
  /-- The account was keyed; the secret comes by another way. -/
  | keyed (address : Address)
  /-- What a query answers. -/
  | queryResult (result : QueryResponse)
  /-- A sign of life, with the client's time and the server's in milliseconds. -/
  | pong (timestamp serverTime : UInt64)
  /-- A request failed. -/
  | error (code : ErrorCode) (text : String)
  /-- The server ends the connection. -/
  | shutdown (reason : String)
  deriving DecidableEq

namespace ErrorCode

/-- The names of the codes, in order. -/
def names : List String :=
  ["not_authenticated", "invalid_message", "attendee_not_found", "already_keyed",
    "ledger_rejected", "ledger_unavailable", "busy", "internal_error"]

/-- The codes, in order. -/
def all : List ErrorCode :=
  [notAuthenticated, invalidMessage, attendeeNotFound, alreadyKeyed, ledgerRejected,
    ledgerUnavailable, busy, internalError]

/-- The place of a code among all codes. -/
def index : ErrorCode → Nat
  | notAuthenticated => 0
  | invalidMessage => 1
  | attendeeNotFound => 2
  | alreadyKeyed => 3
  | ledgerRejected => 4
  | ledgerUnavailable => 5
  | busy => 6
  | internalError => 7

/-- The name of a code. -/
def name (c : ErrorCode) : String := names.getD c.index ""

/-- The code that a JSON value of an origin names. -/
def ofJsonOf? (origin : Json.Origin) (j : Json) : Option ErrorCode :=
  (Json.bareCase? names origin j).bind fun index => all[index]?

instance : JsonForm ErrorCode where
  toJson c := .str c.name
  ofJson? := ofJsonOf? .direct

instance : Binary ErrorCode where
  put c := Binary.putCase c.index
  get := do
    match ← Binary.getCase 8 with
    | 0 => return notAuthenticated
    | 1 => return invalidMessage
    | 2 => return attendeeNotFound
    | 3 => return alreadyKeyed
    | 4 => return ledgerRejected
    | 5 => return ledgerUnavailable
    | 6 => return busy
    | 7 => return internalError

end ErrorCode

namespace ClientMessage

/-- The names of the kinds, in order. -/
def caseNames : List String := ["auth", "key", "query", "ping"]

instance : JsonForm ClientMessage where
  toJson
    | auth token clientVersion => .obj [
        ("type", .str "auth"), ("token", toJson token), ("client_version", toJson clientVersion)]
    | key publicKey => .obj [("type", .str "key"), ("public_key", toJson publicKey)]
    | query q => .obj [("type", .str "query"), ("query", toJson q)]
    | ping timestamp => .obj [("type", .str "ping"), ("timestamp", toJson timestamp)]
  ofJson? j := do
    let (index, body) ← Json.tagged? "type" caseNames .direct j
    match caseNames[index]? with
    | some "auth" => do
      let [token, clientVersion] ← Json.slots? ["token", "client_version"] body | none
      return auth (← token.required ofJson?) (← clientVersion.defaulted "" ofJson?)
    | some "key" => do
      let [publicKey] ← Json.slots? ["public_key"] body | none
      return key (← publicKey.required ofJson?)
    | some "query" => do
      let [q] ← Json.slots? ["query"] body | none
      return query (← q.required (Query.ofJsonOf? .buffered))
    | some "ping" => do
      let [timestamp] ← Json.slots? ["timestamp"] body | none
      return ping (← timestamp.required ofJson?)
    | _ => none

/-- The message that a text writes. -/
def ofText? (s : String) : Option ClientMessage := ofJsonText? s

/-- The text of a message. -/
def text (m : ClientMessage) : String := (toJson m).render

end ClientMessage

namespace ServerMessage

/-- The names of the kinds, in order. -/
def caseNames : List String :=
  ["auth_result", "keyed", "query_result", "pong", "error", "shutdown"]

/-- The names of the fields that tell whether a token was accepted, in order. -/
def authResultNames : List String := ["success", "address", "server_version", "error"]

instance : JsonForm ServerMessage where
  toJson
    | authResult success address serverVersion reason => .obj [
        ("type", .str "auth_result"), ("success", toJson success), ("address", toJson address),
        ("server_version", toJson serverVersion), ("error", toJson reason)]
    | keyed address => .obj [("type", .str "keyed"), ("address", toJson address)]
    | queryResult result => .obj [("type", .str "query_result"), ("result", toJson result)]
    | pong timestamp serverTime => .obj [
        ("type", .str "pong"), ("timestamp", toJson timestamp), ("server_time", toJson serverTime)]
    | error code text => .obj [
        ("type", .str "error"), ("code", toJson code), ("message", toJson text)]
    | shutdown reason => .obj [("type", .str "shutdown"), ("reason", toJson reason)]
  ofJson? j := do
    let (index, body) ← Json.tagged? "type" caseNames .direct j
    match caseNames[index]? with
    | some "auth_result" => do
      let [success, address, serverVersion, reason] ← Json.slots? authResultNames body | none
      return authResult (← success.required ofJson?) (← address.optional ofJson?)
        (← serverVersion.required ofJson?) (← reason.optional ofJson?)
    | some "keyed" => do
      let [address] ← Json.slots? ["address"] body | none
      return keyed (← address.required ofJson?)
    | some "query_result" => do
      let [result] ← Json.slots? ["result"] body | none
      return queryResult (← result.required (QueryResponse.ofJsonOf? .buffered))
    | some "pong" => do
      let [timestamp, serverTime] ← Json.slots? ["timestamp", "server_time"] body | none
      return pong (← timestamp.required ofJson?) (← serverTime.required ofJson?)
    | some "error" => do
      let [code, text] ← Json.slots? ["code", "message"] body | none
      return error (← code.required (ErrorCode.ofJsonOf? .buffered)) (← text.required ofJson?)
    | some "shutdown" => do
      let [reason] ← Json.slots? ["reason"] body | none
      return shutdown (← reason.required ofJson?)
    | _ => none

/-- The message that a text writes. -/
def ofText? (s : String) : Option ServerMessage := ofJsonText? s

/-- The text of a message. -/
def text (m : ServerMessage) : String := (toJson m).render

end ServerMessage

end ConferenceLedger

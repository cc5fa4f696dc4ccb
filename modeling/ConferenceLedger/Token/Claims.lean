import ConferenceLedger.Identity.Key

/-!
# Claims

A token says for whom it speaks, by ticket id, and may say until when, by whom and for whom
it was issued. The audience may be any JSON value.
-/

namespace ConferenceLedger

/-- What a token claims. -/
structure Claims where
  /-- The ticket id of the attendee. -/
  subject : String
  /-- The address for mail. -/
  email : Option String
  /-- When the token expires, in seconds; zero if it does not say. -/
  expiry : UInt64
  /-- When the token was issued, in seconds. -/
  issuedAt : UInt64
  /-- Who issued the token. -/
  issuer : Option String
  /-- For whom the token was issued. -/
  audience : Option Json

namespace Claims

/-- The address of the attendee. -/
def address (c : Claims) : Address := .ofTicket c.subject

/-- An audience, which must be readable and of bounded depth; `null` is none. -/
def audience? : Json → Option (Option Json)
  | .null => some none
  | j => if Json.bufferable 1 j then some (some j.canonical) else none

/-- The names of the fields, in order. -/
def fieldNames : List String := ["sub", "email", "exp", "iat", "iss", "aud"]

instance : JsonForm Claims where
  toJson c := .obj [
    ("sub", toJson c.subject),
    ("email", toJson c.email),
    ("exp", toJson c.expiry),
    ("iat", toJson c.issuedAt),
    ("iss", toJson c.issuer),
    ("aud", c.audience.getD .null)]
  ofJson? j := do
    let [sub, email, exp, iat, iss, aud] ← Json.slots? fieldNames j | none
    return ⟨← sub.required ofJson?, ← email.defaulted none ofJson?, ← exp.defaulted 0 ofJson?,
      ← iat.defaulted 0 ofJson?, ← iss.defaulted none ofJson?, ← aud.defaulted none audience?⟩

mutual

/-- The binary form of a JSON value, which does not tell its kind. -/
def putJson : Json → Bytes
  | .null => []
  | .bool b => put b
  | .nat n => Bytes.ofNatLE 8 n
  | .negative n => put (Int64.ofInt (-n))
  | .real x => Bytes.ofNatLE 8 x.bits
  | .str s => put s
  | .arr js => Bytes.ofNatLE 8 js.length ++ putItems js
  | .obj fields => Bytes.ofNatLE 8 fields.length ++ putFields fields
  | .unreadable _ => []

/-- The binary forms of JSON values. -/
def putItems : List Json → Bytes
  | [] => []
  | j :: rest => putJson j ++ putItems rest

/-- The binary forms of the fields of an object. -/
def putFields : List (String × Json) → Bytes
  | [] => []
  | (name, j) :: rest => put name ++ putJson j ++ putFields rest

end

/-- An audience is written without its kind, so only claims without one are read back. -/
instance : Binary Claims where
  put c :=
    put c.subject ++ put c.email ++ put c.expiry ++ put c.issuedAt ++ put c.issuer ++
      match c.audience with
      | none => [0]
      | some j => 1 :: putJson j
  get := do
    let subject ← Binary.get
    let email ← Binary.get
    let expiry ← Binary.get
    let issuedAt ← Binary.get
    let issuer ← Binary.get
    let marker : UInt8 ← Binary.get
    if marker = 0 then return ⟨subject, email, expiry, issuedAt, issuer, none⟩
    else if marker = 1 then throw .selfDescribing
    else throw (.badOption marker)

end Claims

end ConferenceLedger

import ConferenceLedger.Relay.Basic

/-!
# The key service

The service keys the account of an attendee in three steps. It asks the ledger for the
attendee, has the relay grant the key together with a commitment to a fresh secret, and
sends the attendee a link with the secret. Requests may take their steps in turns.
-/

namespace ConferenceLedger

/-- Why the service did not do what it was asked. -/
inductive ServiceError where
  /-- The ticket id is none. -/
  | invalidAttendeeId (id : String)
  /-- There is no attendee of the ticket. -/
  | notFound
  /-- The attendee has a key already. -/
  | alreadyKeyed
  /-- The relay did not grant the key. -/
  | relay (error : RelayError)
  /-- The ledger was not reached, or did not answer as asked. -/
  | client (error : ClientError)
  /-- The key was granted, but the link did not go out. -/
  | delivery (reason : String)
  /-- The ledger answered something else. -/
  | unexpectedResponse
  deriving DecidableEq

namespace ServiceError

/-- The text that reports why the service did not do what it was asked. -/
def message : ServiceError → String
  | invalidAttendeeId id => "invalid attendee id: " ++ id
  | notFound => "attendee not found"
  | alreadyKeyed => "attendee already key'ed"
  | relay error => error.message
  | client error => error.message
  | delivery reason => "secret delivery failed: " ++ reason
  | unexpectedResponse => "unexpected ledger response"

/-- The error of the service that the relay did not grant a key. -/
def ofRelayError : RelayError → ServiceError
  | .alreadyKeyed => alreadyKeyed
  | error => relay error

/-- The error of the service that the ledger did not answer. -/
def ofClientError : ClientError → ServiceError
  | .rejected .attendeeNotFound => notFound
  | error => client error

end ServiceError

/-- The page where accounts are claimed, with what the attendee needs for it. -/
def claimUrl (base : String) (attendee : Attendee) (secret : String) : String :=
  let page := String.ofList (base.toList.reverse.dropWhile (· = '/')).reverse
  page ++ "?id=" ++ attendee.id ++ "&address=" ++ attendee.address.hex ++ "&secret=" ++ secret

/-- A link that was sent. -/
structure ClaimLink where
  /-- The attendee it was sent to. -/
  attendee : Attendee
  /-- The secret in it. -/
  secret : String
  /-- The link. -/
  url : String

/-- Where links go out. -/
structure Outbox where
  /-- Why links do not go out at present, unless they do. -/
  failure : Option String
  /-- The links that went out, first ones first. -/
  sent : List ClaimLink

/-- An outbox that nothing went out of. -/
def Outbox.empty : Outbox := ⟨none, []⟩

/-- The key service and what it works with. -/
structure KeyService (σ : Type) where
  /-- The relay. -/
  relay : Relay
  /-- The ledger. -/
  ledger : σ
  /-- Where links go out. -/
  outbox : Outbox
  /-- The page where accounts are claimed. -/
  claimBase : String

/-- A request to key the account of an attendee. -/
structure KeyRequest where
  /-- The ticket id of the attendee. -/
  ticket : String
  /-- The key. -/
  publicKey : PublicKey
  /-- The secret for the link. -/
  secret : String
  deriving DecidableEq

namespace KeyRequest

/-- The commitment to the secret of a request. -/
def commitment (q : KeyRequest) : Commitment := .ofSecret (Bytes.ofText q.secret)

/-- What the relay is asked for an attendee. -/
def custody (q : KeyRequest) (a : Attendee) : CustodyRequest :=
  ⟨a.address, q.publicKey, q.commitment⟩

end KeyRequest

/-- How far a request has come. -/
inductive Progress where
  /-- It was made. -/
  | asked
  /-- The attendee was found and has no key. -/
  | resolved (a : Attendee)
  /-- The key was granted. -/
  | granted (a : Attendee)
  /-- It has ended. -/
  | ended (result : Except ServiceError Address)

namespace KeyService

variable {σ : Type} [LedgerClient σ]

/-- What a query answers. -/
def query (q : Query) (s : KeyService σ) : Except ServiceError QueryResponse × KeyService σ :=
  let (answer, ledger) := LedgerClient.query q s.ledger
  (answer.mapError .ofClientError, { s with ledger })

/-- How far a request has come when the ledger was asked for the attendee. -/
def afterQuery : Except ServiceError QueryResponse → Progress
  | .error e => .ended (.error e)
  | .ok (.attendee a) => if a.isKeyed then .ended (.error .alreadyKeyed) else .resolved a
  | .ok _ => .ended (.error .unexpectedResponse)

/-- Find the attendee of a request. -/
def resolve (q : KeyRequest) (s : KeyService σ) : Progress × KeyService σ :=
  if isTicketId q.ticket then
    let (answer, s) := s.query (.attendeeById q.ticket)
    (afterQuery answer, s)
  else (.ended (.error (.invalidAttendeeId q.ticket)), s)

/-- Have the relay grant the key. -/
def grant (q : KeyRequest) (a : Attendee) (s : KeyService σ) : Progress × KeyService σ :=
  let (result, relay, ledger) := s.relay.submit (q.custody a) s.ledger
  let progress := match result with
    | .ok () => .granted a
    | .error e => .ended (.error (.ofRelayError e))
  (progress, { s with relay, ledger })

/-- Send the link. -/
def deliver (q : KeyRequest) (a : Attendee) (s : KeyService σ) : Progress × KeyService σ :=
  match s.outbox.failure with
  | some reason => (.ended (.error (.delivery reason)), s)
  | none =>
    let link : ClaimLink := ⟨a, q.secret, claimUrl s.claimBase a q.secret⟩
    (.ended (.ok a.address), { s with outbox := { s.outbox with sent := s.outbox.sent ++ [link] } })

/-- Take the next step of a request. -/
def advance (q : KeyRequest) (s : KeyService σ) : Progress → Progress × KeyService σ
  | .asked => s.resolve q
  | .resolved a => s.grant q a
  | .granted a => s.deliver q a
  | .ended result => (.ended result, s)

/-- Take so many steps of a request. -/
def advanceTimes (q : KeyRequest) : (steps : Nat) → Progress → KeyService σ → Progress × KeyService σ
  | 0, p, s => (p, s)
  | steps + 1, p, s =>
    let (p, s) := s.advance q p
    advanceTimes q steps p s

/-- Key the account of an attendee, with no other request in between. -/
def keyAttendee (q : KeyRequest) (s : KeyService σ) :
    Except ServiceError Address × KeyService σ :=
  match advanceTimes q 3 .asked s with
  | (.ended result, s) => (result, s)
  | (_, s) => (.error .unexpectedResponse, s)

end KeyService

end ConferenceLedger

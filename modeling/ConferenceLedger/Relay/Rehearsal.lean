import ConferenceLedger.Relay.Calls

/-!
# Rehearsed ledgers

A rehearsal answers what the relay asks from prepared lists, each question with the next
answer of its kind. Where an answer is left open or the list has run out, a ledger at hand
answers, and without one a fixed answer is given. An answer to a transaction may take its
time or never come. Time passes only while a call waits for the ledger, and no wait ends
after the farthest moment.
-/

namespace ConferenceLedger

/-- A prepared answer to a transaction. -/
structure PreparedReply where
  /-- How long it takes, in milliseconds. -/
  delay : Nat
  /-- The answer, unless it never comes. -/
  answer : Option (Except ClientError TxResponse)

/-- A prepared answer to a look at an account. -/
inductive PreparedAccount where
  /-- The account is found. -/
  | found (info : AccountInfo)
  /-- The ledger is not reached. -/
  | unreachable (reason : String)
  /-- There is no such account. -/
  | notFound

/-- A ledger with prepared answers. -/
structure Rehearsal where
  /-- Answers to looks at accounts; an open one is left to the ledger at hand. -/
  accounts : List (Option PreparedAccount)
  /-- Answers to transactions. -/
  replies : List (Option PreparedReply)
  /-- Answers to queries. -/
  queries : List (Option (Except ClientError QueryResponse))
  /-- A ledger at hand. -/
  ledger : Option LocalLedger
  /-- The transactions that were received, first ones first. -/
  received : List SignedTx
  /-- The time, in milliseconds from the start. -/
  now : Nat

namespace Rehearsal

/-- The farthest moment that a wait can be for: thirty years from the start. -/
def farthest : Nat := 30 * 365 * 24 * 3600 * 1000

/-- When a wait ends that begins at a moment. -/
def waitEnd (start wait : Nat) : Nat := min (start + wait) farthest

/-- The next prepared answer, unless it is open, and the answers after it. -/
def next {α : Type} : List (Option α) → Option α × List (Option α)
  | [] => (none, [])
  | a :: rest => (a, rest)

/-- Look up an account. -/
def account (a : Address) (h : Rehearsal) : Except ClientError AccountInfo × Rehearsal :=
  let (prepared, accounts) := next h.accounts
  let answer := match prepared with
    | some (.found info) => .ok info
    | some (.unreachable reason) => .error (.unreachable reason)
    | some .notFound => .error (.accountNotFound a)
    | none =>
      match h.ledger with
      | some l => l.account a
      | none => .ok ⟨0, 0⟩
  (answer, { h with accounts })

/-- Send a transaction, with the time that the answer takes. -/
def reply (tx : SignedTx) (h : Rehearsal) : PreparedReply × Rehearsal :=
  let (prepared, replies) := next h.replies
  let h := { h with replies, received := h.received ++ [tx] }
  match prepared, h.ledger with
  | some r, _ => (r, h)
  | none, some l =>
    let (response, l) := l.broadcast tx
    (⟨0, some (.ok response)⟩, { h with ledger := some l })
  | none, none => (⟨0, some (.ok (.ok 1))⟩, h)

/-- Ask a query. -/
def query (q : Query) (h : Rehearsal) : Except ClientError QueryResponse × Rehearsal :=
  let (prepared, queries) := next h.queries
  let answer := match prepared with
    | some a => a
    | none =>
      match h.ledger with
      | some l => l.query q
      | none => .ok (.flag false)
  (answer, { h with queries })

/-- To one who waits however long it takes, an answer that never comes is a ledger that is
not reached. -/
instance : LedgerClient Rehearsal where
  account := account
  broadcast tx h :=
    let (r, h) := h.reply tx
    (r.answer.getD (.error (.unreachable "")), h)
  query := query

end Rehearsal

/-- Calls of a relay to a rehearsed ledger, all made at the time of the ledger. -/
structure TimedCalls where
  /-- The calls. -/
  calls : Calls
  /-- The ledger. -/
  ledger : Rehearsal
  /-- When the turn is free, unless it never is. -/
  free : Option Nat
  /-- When the last transaction was sent whose answer takes time, or the time of the calls. -/
  asked : Nat

namespace TimedCalls

/-- Calls that are made at once. -/
def start (r : Relay) (requests : List CustodyRequest) (ledger : Rehearsal) : TimedCalls :=
  ⟨.start r requests, ledger, some ledger.now, ledger.now⟩

/-- So many calls can be gone through in their order at every moment. -/
def fewCalls : Nat := 30

/-- Whether one who waits from the time of the calls has no turn at the moment at which the
wait ends and the turn is free. Few calls are gone through in their order, and the one that
has the turn comes first. Of many calls the one comes first that has waited longer for that
moment. -/
def losesTie (t : TimedCalls) : Bool := fewCalls < t.calls.phases.length && t.ledger.now < t.asked

/-- Whether the turn comes too late for one who waits from the time of the calls. -/
def tooLate (t : TimedCalls) : Bool :=
  match t.calls.relay.lockTimeout, t.free with
  | none, _ => false
  | some _, none => true
  | some limit, some free =>
    let deadline := Rehearsal.waitEnd t.ledger.now limit
    deadline < free || deadline = free && t.losesTie

/-- The answer to the question for the account, where it is asked. -/
def afterReply (t : TimedCalls) (call : Nat) : TimedCalls :=
  match t.calls.phase? call with
  | some (.resyncing _) =>
    let (answer, ledger) := t.ledger.account t.calls.relay.address
    { t with calls := t.calls.step (.lookup answer), ledger }
  | _ => t

/-- Give a waiting call the turn and let it send its transaction, and then answer it, if the
answer comes by the time at which the call is given up. -/
def transact (givenUp : Option Nat) (t : TimedCalls) (call : Nat) : TimedCalls :=
  let calls := t.calls.step (.acquire call)
  match calls.phase? call with
  | some (.broadcasting tx) =>
    let (r, ledger) := t.ledger.reply tx
    let arrival := t.free.map (Rehearsal.waitEnd · r.delay)
    let late := givenUp.any fun d => arrival.all (d < ·)
    match r.answer, late with
    | some answer, false =>
      let asked := if arrival = t.free then t.asked else t.free.getD t.asked
      afterReply ⟨calls.step (.reply answer), ledger, arrival, asked⟩ call
    | _, _ =>
      if givenUp.isSome then ⟨calls.step (.abandon call), ledger, givenUp, t.asked⟩
      else ⟨calls, ledger, none, t.asked⟩
  | _ => t

/-- Take one call as far as it comes when those before it have been served. -/
def serve (t : TimedCalls) (call : Nat) : TimedCalls :=
  if t.tooLate then { t with calls := t.calls.step (.expire call) } else t.transact none call

/-- The ledger when the turn is free. -/
def ledgerAfter (t : TimedCalls) : Rehearsal := { t.ledger with now := t.free.getD t.ledger.now }

end TimedCalls

namespace Relay

/-- The results of requests made at once and served in order, each if it ends. -/
def submitAll (requests : List CustodyRequest) (r : Relay) (ledger : Rehearsal) :
    List (Option (Except RelayError Unit)) × Relay × Rehearsal :=
  let calls := List.range requests.length
  let t := calls.foldl TimedCalls.serve (.start r requests ledger)
  (calls.map t.calls.result?, t.calls.relay, t.ledgerAfter)

/-- The result of a request that is given up after a time, if it ends before. -/
def submitFor (milliseconds : Nat) (q : CustodyRequest) (r : Relay) (ledger : Rehearsal) :
    Option (Except RelayError Unit) × Relay × Rehearsal :=
  let givenUp := Rehearsal.waitEnd ledger.now milliseconds
  let t := (TimedCalls.start r [q] ledger).transact (some givenUp) 0
  (t.calls.result? 0, t.calls.relay, t.ledgerAfter)

end Relay

end ConferenceLedger

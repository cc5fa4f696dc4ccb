import ConferenceLedger.Relay.Basic

/-!
# Calls of the relay

Many requests may come to the relay at once. One of them at a time has the turn: from the
moment its transaction is signed until the sequence is settled. The others wait, and a
request that waits too long or is given up ends without a transaction.
-/

namespace ConferenceLedger

/-- Where a call stands. -/
inductive CallPhase where
  /-- It waits for its turn. -/
  | waiting (q : CustodyRequest)
  /-- It has the turn, and its transaction is on its way. -/
  | broadcasting (tx : SignedTx)
  /-- It has the turn, and the sequence is being asked for. -/
  | resyncing (error : RelayError)
  /-- It has ended. -/
  | ended (result : Except RelayError Unit)
  /-- The caller has given it up. -/
  | dropped

/-- What can happen to calls. -/
inductive CallEvent where
  /-- A waiting call gets the turn. -/
  | acquire (call : Nat)
  /-- A waiting call has waited too long. -/
  | expire (call : Nat)
  /-- The ledger answers the transaction on its way. -/
  | reply (answer : Except ClientError TxResponse)
  /-- The ledger answers the question for the account. -/
  | lookup (answer : Except ClientError AccountInfo)
  /-- The caller gives a call up. -/
  | abandon (call : Nat)

/-- The relay and the calls made of it. -/
structure Calls where
  /-- The relay. -/
  relay : Relay
  /-- Where each call stands. -/
  phases : List CallPhase
  /-- The call that has the turn. -/
  holder : Option Nat
  /-- The transactions that were sent, first ones first. -/
  sent : List SignedTx

namespace Calls

/-- Where a new call stands: a request that is wrong in itself has ended. -/
def entry (r : Relay) (q : CustodyRequest) : CallPhase :=
  match (r.operation q).check with
  | .ok () => .waiting q
  | .error e => .ended (.error (.invalidRequest e))

/-- Calls that are made at once. -/
def start (r : Relay) (requests : List CustodyRequest) : Calls :=
  ⟨r, requests.map (entry r), none, []⟩

/-- Where a call stands, if it was made. -/
def phase? (c : Calls) (call : Nat) : Option CallPhase := c.phases[call]?

/-- The calls with one of them at a new place. -/
def place (call : Nat) (p : CallPhase) (c : Calls) : Calls :=
  { c with phases := c.phases.set call p }

/-- What an event makes of the calls; an event that cannot happen changes nothing. -/
def step (c : Calls) : CallEvent → Calls
  | .acquire call =>
    match c.holder, c.phase? call with
    | none, some (.waiting q) =>
      let tx := c.relay.transaction q
      { c.place call (.broadcasting tx) with holder := some call, sent := c.sent ++ [tx] }
    | _, _ => c
  | .expire call =>
    match c.phase? call, c.relay.lockTimeout with
    | some (.waiting _), some limit => c.place call (.ended (.error (.busy limit)))
    | _, _ => c
  | .reply answer =>
    match c.holder with
    | none => c
    | some call =>
      match c.phase? call with
      | some (.broadcasting _) =>
        match c.relay.settle answer with
        | .ended result sequence =>
          { c.place call (.ended result) with holder := none, relay := { c.relay with sequence } }
        | .resync error => c.place call (.resyncing error)
      | _ => c
  | .lookup answer =>
    match c.holder with
    | none => c
    | some call =>
      match c.phase? call with
      | some (.resyncing error) =>
        { c.place call (.ended (.error error)) with
          holder := none, relay := c.relay.adopt answer }
      | _ => c
  | .abandon call =>
    match c.phase? call with
    | none => c
    | some (.ended _) => c
    | some _ =>
      { c.place call .dropped with holder := if c.holder = some call then none else c.holder }

/-- What events make of the calls, one after another. -/
def run (c : Calls) (events : List CallEvent) : Calls := events.foldl step c

/-- The result of a call that has ended. -/
def result? (c : Calls) (call : Nat) : Option (Except RelayError Unit) :=
  match c.phase? call with
  | some (.ended result) => some result
  | _ => none

end Calls

end ConferenceLedger

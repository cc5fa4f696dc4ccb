import ConferenceLedger.Proofs.Relay.Basic

/-!
# A line on which things get lost

A relay reaches the ledger over a line. A transaction may be lost on its way there, or the answer on
its way back, and a look at an account may fail. Others have their transactions delivered as well.
What a request does is told by what the line does to it and by what the ledger answers.
-/

namespace ConferenceLedger

/-- What the line does to a transaction. -/
inductive Passage where
  /-- It arrives, and the answer comes back. -/
  | answered
  /-- It is lost on its way. -/
  | lost (error : ClientError)
  /-- It arrives, and the answer is lost. -/
  | answerLost (error : ClientError)

/-- Whether the transaction arrives. -/
def Passage.arrives : Passage → Bool
  | answered => true
  | lost _ => false
  | answerLost _ => true

/-- A ledger at hand, behind a line. -/
structure Line where
  /-- The ledger. -/
  ledger : LocalLedger
  /-- What the line does to a transaction. -/
  passage : Passage
  /-- Why a look at an account fails, if it does. -/
  outage : Option ClientError

namespace Line

/-- Look up an account. -/
def account (a : Address) (l : Line) : Except ClientError AccountInfo :=
  match l.outage with
  | some e => .error e
  | none => l.ledger.account a

/-- Send a transaction. -/
def broadcast (tx : SignedTx) (l : Line) : Except ClientError TxResponse × Line :=
  match l.passage with
  | .answered => (.ok (l.ledger.broadcast tx).1, { l with ledger := (l.ledger.broadcast tx).2 })
  | .lost e => (.error e, l)
  | .answerLost e => (.error e, { l with ledger := (l.ledger.broadcast tx).2 })

instance : LedgerClient Line where
  account a l := (l.account a, l)
  broadcast := broadcast
  query q l := (l.ledger.query q, l)

end Line

/-- A relay and the chain at the other end of the line. -/
structure Link where
  /-- The relay. -/
  relay : Relay
  /-- The chain. -/
  chain : Chain

/-- What can happen on a link. -/
inductive LinkEvent where
  /-- The relay is asked to grant a key, at a time and in the weather of the line. -/
  | request (q : CustodyRequest) (passage : Passage) (outage : Option ClientError) (time : Int64)
  /-- Somebody else has a transaction delivered. -/
  | other (d : Delivery)

namespace Link

/-- The result of a request, and the link after it. -/
def submit (l : Link) (q : CustodyRequest) (passage : Passage) (outage : Option ClientError)
    (time : Int64) : Except RelayError Unit × Link :=
  let (result, relay, line) := l.relay.submit q (⟨⟨l.chain, time⟩, passage, outage⟩ : Line)
  (result, ⟨relay, line.ledger.chain⟩)

/-- The link after an event. -/
def step (l : Link) : LinkEvent → Link
  | .request q passage outage time => (l.submit q passage outage time).2
  | .other d => { l with chain := (l.chain.deliver d.tx d.time).2 }

/-- The link after events. -/
def run (l : Link) (events : List LinkEvent) : Link := events.foldl step l

/-- The response of the ledger to the transaction of a request, if it arrives. -/
def response (l : Link) (q : CustodyRequest) (time : Int64) : TxResponse :=
  (l.chain.deliver (l.relay.transaction q) time).1

/-- The chain after the transaction of a request, if it arrives. -/
def delivered (l : Link) (q : CustodyRequest) (time : Int64) : Chain :=
  (l.chain.deliver (l.relay.transaction q) time).2

/-- What becomes of a request. -/
inductive Submitted (l : Link) (q : CustodyRequest) (time : Int64) :
    Passage → Option ClientError → Except RelayError Unit × Link → Prop where
  /-- The request is wrong in itself, and nothing is sent. -/
  | refused {passage : Passage} {outage : Option ClientError} {e : LedgerError}
    (hcheck : (l.relay.operation q).check = .error e) :
    Submitted l q time passage outage (.error (.invalidRequest e), l)
  /-- The transaction is lost. -/
  | lost {outage : Option ClientError} (hcheck : (l.relay.operation q).check = .ok ())
    (e : ClientError) :
    Submitted l q time (.lost e) outage (.error (.submission e), l)
  /-- The transaction arrives, and the answer is lost. -/
  | answerLost {outage : Option ClientError} (hcheck : (l.relay.operation q).check = .ok ())
    (e : ClientError) :
    Submitted l q time (.answerLost e) outage
      (.error (.submission e), { l with chain := l.delivered q time })
  /-- The answer is that the sequence is wrong, and the look at the account fails. -/
  | stale (hcheck : (l.relay.operation q).check = .ok ())
    (hcode : (l.response q time).code = LedgerError.invalidSequenceCode) (e : ClientError)
    {error : RelayError} :
    Submitted l q time .answered (some e) (.error error, { l with chain := l.delivered q time })
  /-- The answer is that the sequence is wrong, and the ledger tells what it has. -/
  | resynced (hcheck : (l.relay.operation q).check = .ok ())
    (hcode : (l.response q time).code = LedgerError.invalidSequenceCode) {error : RelayError} :
    Submitted l q time .answered none (.error error,
      ⟨l.relay.adopt (LocalLedger.account l.relay.address ⟨l.delivered q time, time⟩),
        l.delivered q time⟩)
  /-- Any other answer settles the request. -/
  | settled {outage : Option ClientError} (hcheck : (l.relay.operation q).check = .ok ())
    (hcode : (l.response q time).code ≠ LedgerError.invalidSequenceCode)
    {result : Except RelayError Unit} (hresult : result = .ok () ↔ (l.response q time).code = 0) :
    Submitted l q time .answered outage (result,
      ⟨{ l.relay with sequence :=
          if (l.response q time).executed then l.relay.sequence + 1 else l.relay.sequence },
        l.delivered q time⟩)

/-- Every request is of one of these kinds. -/
theorem submitted (l : Link) (q : CustodyRequest) (passage : Passage) (outage : Option ClientError)
    (time : Int64) : l.Submitted q time passage outage (l.submit q passage outage time) := by
  rw [submit, Relay.submit]
  cases hcheck : (l.relay.operation q).check with
  | error e => exact .refused hcheck
  | ok =>
    cases passage with
    | lost e => exact .lost hcheck e
    | answerLost e => exact .answerLost hcheck e
    | answered =>
      have hreply : LedgerClient.broadcast (l.relay.transaction q)
          (⟨⟨l.chain, time⟩, .answered, outage⟩ : Line) =
            (.ok (l.response q time), ⟨⟨l.delivered q time, time⟩, .answered, outage⟩) := rfl
      rw [hreply]
      dsimp only
      have hsettles := l.relay.settles (.ok (l.response q time))
      generalize l.relay.settle (.ok (l.response q time)) = settlement at hsettles ⊢
      cases hsettles with
      | stale hcode =>
        cases outage with
        | some e => exact .stale hcheck hcode e
        | none => exact .resynced hcheck hcode
      | answered hcode hok herror => exact .settled hcheck hcode hok

/-- What an event has delivered. -/
def brought (l : Link) : LinkEvent → List Delivery
  | .request q passage _ time =>
    if (l.relay.operation q).check.isOk && passage.arrives then [⟨l.relay.transaction q, time⟩]
    else []
  | .other d => [d]

/-- What events have delivered. -/
def deliveries (l : Link) : List LinkEvent → List Delivery
  | [] => []
  | e :: events => l.brought e ++ (l.step e).deliveries events

/-- The chain goes on by what an event has delivered. -/
theorem chain_step (l : Link) (e : LinkEvent) : (l.step e).chain = l.chain.after (l.brought e) := by
  cases e with
  | other d => rfl
  | request q passage outage time =>
    have hsubmitted := l.submitted q passage outage time
    change (l.submit q passage outage time).2.chain = _
    generalize l.submit q passage outage time = r at hsubmitted ⊢
    rw [brought]
    cases hsubmitted with
    | refused hcheck =>
      rw [hcheck]
      rfl
    | lost hcheck e | answerLost hcheck e | stale hcheck _ e | resynced hcheck | settled hcheck =>
      rw [hcheck]
      rfl

/-- An event changes nothing of a relay but its sequence. -/
theorem relay_step (l : Link) (e : LinkEvent) :
    (l.step e).relay = { l.relay with sequence := (l.step e).relay.sequence } := by
  cases e with
  | other d => rfl
  | request q passage outage time =>
    have hsubmitted := l.submitted q passage outage time
    change (l.submit q passage outage time).2.relay = { l.relay with
      sequence := (l.submit q passage outage time).2.relay.sequence }
    generalize l.submit q passage outage time = r at hsubmitted ⊢
    cases hsubmitted with
    | resynced =>
      generalize LocalLedger.account _ _ = lookup
      cases lookup <;> rfl
    | refused | lost | answerLost | stale | settled => rfl

/-- The link after events in two parts. -/
theorem run_append (l : Link) (events later : List LinkEvent) :
    l.run (events ++ later) = (l.run events).run later :=
  List.foldl_append

/-- What events in two parts have delivered. -/
theorem deliveries_append (l : Link) (events later : List LinkEvent) :
    l.deliveries (events ++ later) = l.deliveries events ++ (l.run events).deliveries later := by
  induction events generalizing l with
  | nil => rfl
  | cons e events ih =>
    rw [List.cons_append, deliveries, ih, ← List.append_assoc]
    rfl

/-- The chain goes on by what events have delivered. -/
theorem chain_run (l : Link) (events : List LinkEvent) :
    (l.run events).chain = l.chain.after (l.deliveries events) := by
  induction events generalizing l with
  | nil => rfl
  | cons e events ih =>
    rw [deliveries, Chain.after_append, ← chain_step]
    exact ih (l.step e)

/-- Events change nothing of a relay but its sequence. -/
theorem relay_run (l : Link) (events : List LinkEvent) :
    (l.run events).relay = { l.relay with sequence := (l.run events).relay.sequence } := by
  induction events generalizing l with
  | nil => rfl
  | cons e events ih =>
    have hrest := ih (l.step e)
    rw [relay_step] at hrest
    exact hrest

end Link

end ConferenceLedger

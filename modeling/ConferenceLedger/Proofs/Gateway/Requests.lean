import ConferenceLedger.Gateway.Service
import ConferenceLedger.Proofs.Ledger.Keyings
import ConferenceLedger.Proofs.Relay.Line

/-!
# What a step of a key request does

A request to key an account finds the attendee of its ticket, has the relay send the keying, and
sends the link. Only the second step reaches the ledger, with one transaction at most, and only the
third sends a link. An error of the first two steps is never that a link did not go out.
-/

namespace ConferenceLedger

/-- The query for the attendee of a ticket answers with the record of the ticket's address. -/
theorem Chain.query_attendeeById {c : Chain} {members : List Address}
    (hs : c.store.Sound members) (ticket : String) :
    c.query (.attendeeById ticket) = match c.store.attendee (.ofTicket ticket) with
      | some a => .ok (.attendee a)
      | none => .error .attendeeNotFound := by
  rw [query, Query.answer, Records.knownAttendee, Access.eval, bind_assoc,
    Access.run_bind_of_ok (hs.attendee_run _)]
  cases c.store.attendee (.ofTicket ticket) <;> rfl

/-- A relay that has the ledger at hand does what it does on a line on which nothing is lost. -/
theorem Relay.submit_local (r : Relay) (q : CustodyRequest) (l : LocalLedger) :
    r.submit q l = (((⟨r, l.chain⟩ : Link).submit q .answered none l.time).1,
      ((⟨r, l.chain⟩ : Link).submit q .answered none l.time).2.relay,
      { l with chain := ((⟨r, l.chain⟩ : Link).submit q .answered none l.time).2.chain }) := by
  rw [Link.submit, submit, submit]
  cases (r.operation q).check with
  | error e => rfl
  | ok =>
    have hreply : LedgerClient.broadcast (r.transaction q) l =
        (.ok (l.broadcast (r.transaction q)).1, (l.broadcast (r.transaction q)).2) := rfl
    have hline : LedgerClient.broadcast (r.transaction q) (⟨l, .answered, none⟩ : Line) =
        (.ok (l.broadcast (r.transaction q)).1,
          ⟨(l.broadcast (r.transaction q)).2, .answered, none⟩) := rfl
    rw [hreply, hline]
    dsimp only
    cases r.settle (.ok (l.broadcast (r.transaction q)).1) <;> rfl

namespace ServiceError

/-- Whether the error is that a link did not go out. -/
def isUnsent : ServiceError → Bool
  | delivery _ => true
  | _ => false

/-- An error of the relay is not that a link did not go out. -/
@[simp] theorem isUnsent_ofRelayError (e : RelayError) : (ofRelayError e).isUnsent = false := by
  cases e <;> rfl

end ServiceError

/-- Whether a store holds the key and the commitment of a request at the address of its ticket. -/
def KeyRequest.HeldBy (q : KeyRequest) (s : Store) : Prop :=
  ∃ y, s.attendee (.ofTicket q.ticket) = some y ∧ y.pubKey = some q.publicKey ∧
    y.commitment = some q.commitment

/-- A store with the same entry of the attendee holds the same of a request. -/
theorem KeyRequest.HeldBy.of_get? {q : KeyRequest} {s t : Store}
    (hget : t.get? (StoreKey.attendee (.ofTicket q.ticket)) =
      s.get? (StoreKey.attendee (.ofTicket q.ticket))) (h : q.HeldBy s) : q.HeldBy t := by
  obtain ⟨y, hy, hkey, hcommitment⟩ := h
  refine ⟨y, ?_, hkey, hcommitment⟩
  rw [Store.attendee, Store.record?, hget]
  exact hy

namespace Progress

/-- The address that the request has found or granted. -/
def address? : Progress → Option Address
  | asked => none
  | resolved a => some a.address
  | granted a => some a.address
  | ended (.ok a) => some a
  | ended (.error _) => none

/-- Whether the key was granted. -/
def hasGrant : Progress → Bool
  | asked => false
  | resolved _ => false
  | granted _ => true
  | ended (.ok _) => true
  | ended (.error e) => e.isUnsent

/-- Whether the request may still send a keying. -/
def isOpen : Progress → Bool
  | asked => true
  | resolved _ => true
  | _ => false

end Progress

namespace KeyService

/-- The relay of the service and the chain that it reaches. -/
def link (s : KeyService LocalLedger) : Link := ⟨s.relay, s.ledger.chain⟩

/-- The keying that a request has the relay send for an attendee. -/
def keying (s : KeyService LocalLedger) (q : KeyRequest) (a : Attendee) : Delivery :=
  ⟨s.relay.transaction (q.custody a), s.ledger.time⟩

/-- Every keying fits. -/
theorem fits_keying (s : KeyService LocalLedger) (q : KeyRequest) (a : Attendee) :
    Fits (s.keying q a).tx.op := trivial

/-- The response of the ledger to the keying. -/
def response (s : KeyService LocalLedger) (q : KeyRequest) (a : Attendee) : TxResponse :=
  (s.ledger.chain.deliver (s.keying q a).tx (s.keying q a).time).1

/-- The service after the keying, with the relay that goes on. -/
def keyed (s : KeyService LocalLedger) (q : KeyRequest) (a : Attendee) (relay : Relay) :
    KeyService LocalLedger :=
  { s with relay, ledger := { s.ledger with chain := s.ledger.chain.after [s.keying q a] } }

/-- The link that a request sends an attendee. -/
def claimLink (s : KeyService LocalLedger) (q : KeyRequest) (a : Attendee) : ClaimLink :=
  ⟨a, q.secret, claimUrl s.claimBase a q.secret⟩

/-- What a step of a request has delivered. -/
def brought (s : KeyService LocalLedger) (q : KeyRequest) : Progress → List Delivery
  | .resolved a => if (s.relay.operation (q.custody a)).check.isOk then [s.keying q a] else []
  | _ => []

/-- What a step of a request delivers and what else it does. -/
inductive Advanced (s : KeyService LocalLedger) (q : KeyRequest) :
    Progress → List Delivery → Progress × KeyService LocalLedger → Prop where
  /-- No attendee who could be keyed is found. -/
  | unresolved {e : ServiceError} (he : e.isUnsent = false) :
    Advanced s q .asked [] (.ended (.error e), s)
  /-- The attendee of the ticket is found and has no key. -/
  | resolved {a : Attendee}
    (hfound : s.ledger.chain.store.attendee (.ofTicket q.ticket) = some a)
    (hkey : a.isKeyed = false) : Advanced s q .asked [] (.resolved a, s)
  /-- The keying is wrong in itself, and nothing is sent. -/
  | refused {a : Attendee} {e : LedgerError}
    (hcheck : (s.relay.operation (q.custody a)).check = .error e) :
    Advanced s q (.resolved a) [] (.ended (.error (.relay (.invalidRequest e))), s)
  /-- The keying is sent and succeeds. -/
  | granted {a : Attendee} {relay : Relay}
    (hrelay : relay = { s.relay with sequence := relay.sequence })
    (hcode : (s.response q a).code = 0) :
    Advanced s q (.resolved a) [s.keying q a] (.granted a, s.keyed q a relay)
  /-- The keying is sent and does not succeed. -/
  | declined {a : Attendee} {relay : Relay} {e : ServiceError}
    (hrelay : relay = { s.relay with sequence := relay.sequence })
    (hcode : (s.response q a).code ≠ 0) (he : e.isUnsent = false) :
    Advanced s q (.resolved a) [s.keying q a] (.ended (.error e), s.keyed q a relay)
  /-- The link goes out. -/
  | sent {a : Attendee} (hfailure : s.outbox.failure = none) :
    Advanced s q (.granted a) [] (.ended (.ok a.address),
      { s with outbox := { s.outbox with sent := s.outbox.sent ++ [s.claimLink q a] } })
  /-- The link does not go out. -/
  | unsent {a : Attendee} {reason : String} (hfailure : s.outbox.failure = some reason) :
    Advanced s q (.granted a) [] (.ended (.error (.delivery reason)), s)
  /-- A request that has ended takes no step. -/
  | ended (result : Except ServiceError Address) :
    Advanced s q (.ended result) [] (.ended result, s)

variable {s : KeyService LocalLedger} {members : List Address}

/-- Finding the attendee of a request. -/
theorem advanced_resolve (hs : s.ledger.chain.store.Sound members) (q : KeyRequest) :
    s.Advanced q .asked [] (s.resolve q) := by
  rw [resolve]
  by_cases hticket : isTicketId q.ticket = true
  · have hquery : s.query (.attendeeById q.ticket) =
        (((s.ledger.chain.query (.attendeeById q.ticket)).mapError .rejected).mapError
          .ofClientError, s) := rfl
    rw [if_pos hticket, hquery, Chain.query_attendeeById hs]
    cases hfound : s.ledger.chain.store.attendee (.ofTicket q.ticket) with
    | none => exact .unresolved rfl
    | some a =>
      have hafter : afterQuery (.ok (.attendee a)) =
          if a.isKeyed then .ended (.error .alreadyKeyed) else .resolved a := rfl
      change s.Advanced q .asked [] (afterQuery (.ok (.attendee a)), s)
      rw [hafter]
      by_cases hkey : a.isKeyed = true
      · rw [if_pos hkey]
        exact .unresolved rfl
      · rw [if_neg hkey]
        exact .resolved hfound (Bool.eq_false_iff.mpr hkey)
  · rw [if_neg hticket]
    exact .unresolved rfl

/-- How far a request has come when the relay has answered. -/
def afterGrant (a : Attendee) : Except RelayError Unit → Progress
  | .ok () => .granted a
  | .error e => .ended (.error (.ofRelayError e))

/-- What the service makes of what the relay does. -/
theorem grant_of_submit {q : KeyRequest} {a : Attendee} {result : Except RelayError Unit} {l : Link}
    (h : s.link.submit (q.custody a) .answered none s.ledger.time = (result, l)) :
    s.grant q a = (afterGrant a result,
      { s with relay := l.relay, ledger := { s.ledger with chain := l.chain } }) := by
  have hsubmit : (⟨s.relay, s.ledger.chain⟩ : Link).submit (q.custody a) .answered none
      s.ledger.time = (result, l) := h
  rw [grant, Relay.submit_local, hsubmit]
  cases result <;> rfl

/-- Having the relay send the keying of an attendee. -/
theorem advanced_grant (s : KeyService LocalLedger) (q : KeyRequest) (a : Attendee) :
    s.Advanced q (.resolved a) (s.brought q (.resolved a)) (s.grant q a) := by
  have hsubmitted := s.link.submitted (q.custody a) .answered none s.ledger.time
  have hrelay := s.link.relay_step (.request (q.custody a) .answered none s.ledger.time)
  rw [Link.step] at hrelay
  rcases hsubmit : s.link.submit (q.custody a) .answered none s.ledger.time with ⟨result, l⟩
  rw [grant_of_submit hsubmit]
  rw [hsubmit] at hsubmitted hrelay
  rw [brought]
  cases hsubmitted with
  | refused hcheck =>
    have hrefused : (s.relay.operation (q.custody a)).check = .error _ := hcheck
    rw [hrefused]
    exact .refused hcheck
  | resynced hcheck hcode =>
    have hright : (s.relay.operation (q.custody a)).check = .ok () := hcheck
    have hstale : LedgerError.invalidSequenceCode ≠ 0 := by decide
    rw [hright]
    exact .declined hrelay (fun hzero => hstale (hcode.symm.trans hzero))
      (ServiceError.isUnsent_ofRelayError _)
  | settled hcheck hcode hresult =>
    have hright : (s.relay.operation (q.custody a)).check = .ok () := hcheck
    rw [hright]
    cases result with
    | ok => exact .granted hrelay (hresult.mp rfl)
    | error e =>
      have hfailed : (s.response q a).code ≠ 0 := fun hzero => nomatch hresult.mpr hzero
      exact .declined hrelay hfailed (ServiceError.isUnsent_ofRelayError e)

/-- Sending the link. -/
theorem advanced_deliver (s : KeyService LocalLedger) (q : KeyRequest) (a : Attendee) :
    s.Advanced q (.granted a) [] (s.deliver q a) := by
  rw [deliver]
  cases hfailure : s.outbox.failure with
  | none => exact .sent hfailure
  | some reason => exact .unsent hfailure

/-- Every step of a request is of one of these kinds. -/
theorem advanced (hs : s.ledger.chain.store.Sound members) (q : KeyRequest) (p : Progress) :
    s.Advanced q p (s.brought q p) (s.advance q p) := by
  cases p with
  | asked => exact advanced_resolve hs q
  | resolved a => exact s.advanced_grant q a
  | granted a => exact s.advanced_deliver q a
  | ended result => exact .ended result

namespace Advanced

variable {q : KeyRequest} {p : Progress} {ds : List Delivery}
  {r : Progress × KeyService LocalLedger}

/-- A step changes nothing of the relay but its sequence. -/
theorem relay (h : s.Advanced q p ds r) :
    r.2.relay = { s.relay with sequence := r.2.relay.sequence } := by
  cases h with
  | granted hrelay | declined hrelay => exact hrelay
  | unresolved | resolved | refused | sent | unsent | ended => rfl

/-- The relay keeps its address. -/
theorem address (h : s.Advanced q p ds r) : r.2.relay.address = s.relay.address := by
  rw [h.relay]
  rfl

/-- The ledger goes on by what a step has delivered. -/
theorem chain (h : s.Advanced q p ds r) : r.2.ledger.chain = s.ledger.chain.after ds := by
  cases h <;> rfl

/-- A step keeps what the ledger can hold. -/
theorem sound (h : s.Advanced q p ds r) (hs : s.ledger.chain.store.Sound members) :
    r.2.ledger.chain.store.Sound members := by
  cases h with
  | granted | declined => exact Chain.deliver_sound hs (s.fits_keying q _) _
  | unresolved | resolved | refused | sent | unsent | ended => exact hs

/-- A step leaves the page of the service, and the links that went out, unless a request that was
granted its key sends its link and ends. -/
theorem sent_or_not (h : s.Advanced q p ds r) : r.2.claimBase = s.claimBase ∧
    ((r.2.outbox.sent = s.outbox.sent ∧ ∀ b, r.1 = .ended (.ok b) ↔ p = .ended (.ok b)) ∨
      ∃ a, p = .granted a ∧ r.1 = .ended (.ok a.address) ∧
        r.2.outbox.sent = s.outbox.sent ++ [s.claimLink q a]) := by
  cases h with
  | @sent a hfailure => exact ⟨rfl, Or.inr ⟨a, rfl, rfl, rfl⟩⟩
  | unresolved | resolved | refused | granted | declined | unsent =>
    exact ⟨rfl, Or.inl ⟨rfl, fun b => ⟨nofun, nofun⟩⟩⟩
  | ended => exact ⟨rfl, Or.inl ⟨rfl, fun b => Iff.rfl⟩⟩

/-- What a request finds, grants and answers with has the address of its ticket. -/
theorem address? (h : s.Advanced q p ds r) (hs : s.ledger.chain.store.Sound members)
    (hp : ∀ b ∈ p.address?, b = .ofTicket q.ticket) :
    ∀ b ∈ r.1.address?, b = .ofTicket q.ticket := by
  cases h with
  | @resolved a hfound hkey =>
    intro b hb
    cases hb
    exact (hs.attendee hfound).2
  | granted | sent | ended => exact hp
  | unresolved | refused | declined | unsent => exact nofun

/-- A step of a request that is not granted its key leaves every entry but the account of the
relay. -/
theorem get?_of_hasGrant (h : s.Advanced q p ds r) (hs : s.ledger.chain.store.Sound members)
    (hgrant : r.1.hasGrant = false) {k : Bytes} (hk : k ≠ StoreKey.account s.relay.address) :
    r.2.ledger.chain.store.get? k = s.ledger.chain.store.get? k := by
  cases h with
  | granted => cases hgrant
  | declined _ hcode => exact Chain.get?_of_code_ne hs.rows.placed hcode hk
  | unresolved | resolved | refused | sent | unsent | ended => rfl

/-- A step leaves every entry but the record and the account of the ticket's address and the account
of the relay. -/
theorem get? (h : s.Advanced q p ds r) (hs : s.ledger.chain.store.Sound members)
    (hp : ∀ b ∈ p.address?, b = .ofTicket q.ticket) {k : Bytes}
    (hattendee : k ≠ StoreKey.attendee (.ofTicket q.ticket))
    (haccount : k ≠ StoreKey.account (.ofTicket q.ticket))
    (hrelay : k ≠ StoreKey.account s.relay.address) :
    r.2.ledger.chain.store.get? k = s.ledger.chain.store.get? k := by
  cases h with
  | @granted a relay | @declined a relay =>
    rw [← hp a.address rfl] at hattendee haccount
    exact Chain.get?_of_keying (m := ⟨a.address, s.relay.address, q.publicKey, q.commitment⟩) hs rfl
      hattendee haccount hrelay
  | unresolved | resolved | refused | sent | unsent | ended => rfl

/-- A step that sends nothing leaves the question whether the key was granted, and a request that
sends no more keyings does not begin to again. A step that sends something is the keying of a request
that has found its attendee; it sends no other, and the key was granted if the keying succeeded. -/
theorem quiet_or_sends (h : s.Advanced q p ds r) :
    (ds = [] ∧ r.1.hasGrant = p.hasGrant ∧ (p.isOpen = false → r.1.isOpen = false)) ∨
      ∃ a, p = .resolved a ∧ ds = [s.keying q a] ∧ r.1.isOpen = false ∧
        (r.1.hasGrant = true ↔ (s.response q a).code = 0) := by
  cases h with
  | @granted a relay hrelay hcode => exact Or.inr ⟨a, rfl, rfl, rfl, fun _ => hcode, fun _ => rfl⟩
  | @declined a relay e hrelay hcode he =>
    have hnone : (Progress.ended (.error e)).hasGrant = false := he
    refine Or.inr ⟨a, rfl, rfl, rfl, ?_⟩
    rw [hnone]
    exact ⟨nofun, fun hzero => absurd hzero hcode⟩
  | unresolved he => exact Or.inl ⟨rfl, he, nofun⟩
  | resolved | refused => exact Or.inl ⟨rfl, rfl, nofun⟩
  | sent | unsent | ended => exact Or.inl ⟨rfl, rfl, fun _ => rfl⟩

/-- A step after which the key was not granted had it not granted before. -/
theorem hasGrant_of_eq_false (h : s.Advanced q p ds r) (hr : r.1.hasGrant = false) :
    p.hasGrant = false := by
  rcases h.quiet_or_sends with ⟨-, hgrant, -⟩ | ⟨a, rfl, -⟩
  · exact hgrant.symm.trans hr
  · rfl

/-- A step after which the key was granted is the one that has it granted, unless the key was
granted before. -/
theorem granted_of_hasGrant (h : s.Advanced q p ds r) (hr : r.1.hasGrant = true)
    (hp : p.hasGrant = false) : ∃ a, r.1 = .granted a := by
  cases h with
  | @granted a => exact ⟨a, rfl⟩
  | unresolved he | declined _ _ he => exact absurd (he.symm.trans hr) Bool.false_ne_true
  | resolved | refused => cases hr
  | sent | unsent => cases hp
  | ended => exact absurd (hp.symm.trans hr) Bool.false_ne_true

/-- A step that grants a key leaves the ledger with the key and the commitment of the request, at an
address that held those of no request before. -/
theorem heldBy_of_granted {a : Attendee} (h : s.Advanced q p ds r) (hr : r.1 = .granted a)
    (hs : s.ledger.chain.store.Sound members) (hp : ∀ b ∈ p.address?, b = .ofTicket q.ticket) :
    q.HeldBy r.2.ledger.chain.store ∧ ∀ q' : KeyRequest, q'.HeldBy s.ledger.chain.store →
      Address.ofTicket q'.ticket ≠ .ofTicket q.ticket := by
  cases h with
  | @granted a relay hrelay hcode =>
    have haddress : a.address = .ofTicket q.ticket := hp a.address rfl
    have hop : (s.keying q a).tx.op =
        .key ⟨.ofTicket q.ticket, s.relay.address, q.publicKey, q.commitment⟩ := by
      rw [← haddress]
      rfl
    constructor
    · obtain ⟨y, hy, hkey, hcommitment⟩ := (Chain.hasKeyed_of_code hs hop hcode).attendee
      rw [Chain.attendee_eval (Chain.deliver_sound hs (s.fits_keying q a) _)] at hy
      exact ⟨y, Except.ok.inj hy, hkey, hcommitment⟩
    · rintro q' ⟨y, hy, hkey, -⟩ heq
      have hunkeyed := Chain.unkeyed_of_code hop hcode
      rw [heq] at hy
      rw [Store.attendeeOrBlank_of_attendee hy, Attendee.isKeyed, hkey] at hunkeyed
      cases hunkeyed
  | unresolved | resolved | refused | declined | sent | unsent | ended => cases hr

/-- What the ledger holds of a request stays whatever step another request takes. -/
theorem heldBy (h : s.Advanced q p ds r) (hs : s.ledger.chain.store.Sound members)
    (hp : ∀ b ∈ p.address?, b = .ofTicket q.ticket) {q' : KeyRequest}
    (hheld : q'.HeldBy s.ledger.chain.store) : q'.HeldBy r.2.ledger.chain.store := by
  apply KeyRequest.HeldBy.of_get? ?_ hheld
  cases h with
  | @granted a relay hrelay hcode =>
    have hgranted : s.Advanced q (.resolved a) _ (.granted a, s.keyed q a relay) :=
      .granted hrelay hcode
    obtain ⟨-, hother⟩ := hgranted.heldBy_of_granted rfl hs hp
    have hne := hother q' hheld
    apply hgranted.get? hs hp
    · exact fun heq => hne (StoreKey.attendee_inj.mp heq)
    · exact StoreKey.attendee_ne_account _ _
    · exact StoreKey.attendee_ne_account _ _
  | declined _ hcode =>
    exact Chain.get?_of_code_ne hs.rows.placed hcode (StoreKey.attendee_ne_account _ _)
  | unresolved | resolved | refused | sent | unsent | ended => rfl

end Advanced

end KeyService

end ConferenceLedger

import ConferenceLedger.Proofs.Ledger.Keyings
import ConferenceLedger.Proofs.Ledger.Replay
import ConferenceLedger.Proofs.Relay.Line
import Mathlib.Data.List.Induction

/-!
# A relay and its ledger stay close

A relay counts by itself what the ledger counts of its account. Most events move both counts or
neither. If the answer to an executed transaction is lost, the ledger is one ahead; then no
transaction of the relay is executed until it takes over the count of the ledger.
-/

namespace ConferenceLedger

namespace Link

/-- What the ledger counts of the account of the relay. -/
def ledgerSequence (l : Link) : UInt64 := l.chain.store.sequence l.relay.address

/-- Whether an event is a request that is executed and of which the answer is lost. -/
def losesAnswer (l : Link) : LinkEvent → Bool
  | .request q (.answerLost _) _ time =>
    (l.relay.operation q).check.isOk && (l.response q time).executed
  | _ => false

/-- Whether an event is a request that is told that its sequence is wrong and then looks up the
right one. -/
def resyncs (l : Link) : LinkEvent → Bool
  | .request q .answered none time =>
    (l.relay.operation q).check.isOk &&
      decide ((l.response q time).code = LedgerError.invalidSequenceCode) &&
      (LocalLedger.account l.relay.address ⟨l.delivered q time, time⟩).isOk
  | _ => false

/-- Whether the relay looks up the right sequence in the course of events. -/
def everResyncs (l : Link) : List LinkEvent → Bool
  | [] => false
  | e :: events => l.resyncs e || (l.step e).everResyncs events

/-- An answer was lost in the course of events, and no right sequence looked up since. -/
def Lags (l : Link) (events : List LinkEvent) : Prop :=
  ∃ before e later, events = before ++ e :: later ∧ (l.run before).losesAnswer e = true ∧
    ((l.run before).step e).everResyncs later = false

/-- A request of which the answer is lost has delivered its transaction. -/
theorem length_brought_of_losesAnswer {l : Link} {e : LinkEvent} (h : l.losesAnswer e = true) :
    (l.brought e).length = 1 := by
  cases e with
  | other d => cases h
  | request q passage outage time =>
    cases passage with
    | answered | lost => cases h
    | answerLost =>
      rw [losesAnswer, Bool.and_eq_true] at h
      rw [brought, h.1]
      rfl

/-- What an event does to the counts of the relay and of the ledger. -/
inductive Counts (l : Link) (e : LinkEvent) (next : Link) : Prop where
  /-- Neither count moves. -/
  | still (hresync : l.resyncs e = false) (hrelay : next.relay.sequence = l.relay.sequence)
    (hledger : next.ledgerSequence = l.ledgerSequence)
  /-- The counts agree, and both move. -/
  | both (heq : l.relay.sequence = l.ledgerSequence)
    (hrelay : next.relay.sequence = l.relay.sequence + 1)
    (hledger : next.ledgerSequence = l.ledgerSequence + 1)
  /-- The counts agree, and that of the ledger moves: the answer is lost. -/
  | lost (hlost : l.losesAnswer e = true) (heq : l.relay.sequence = l.ledgerSequence)
    (hrelay : next.relay.sequence = l.relay.sequence)
    (hledger : next.ledgerSequence = l.ledgerSequence + 1)
  /-- The relay takes over the count of the ledger. -/
  | resynced (hrelay : next.relay.sequence = next.ledgerSequence)

/-- A transaction of the relay that arrives is executed only at the count of the ledger, which then
moves; otherwise it stays. -/
theorem sequence_delivered {l : Link} (hs : l.chain.store.Placed) (q : CustodyRequest)
    (time : Int64) :
    if (l.response q time).executed then
      l.relay.sequence = l.ledgerSequence ∧
        (l.delivered q time).store.sequence l.relay.address = l.ledgerSequence + 1
    else (l.delivered q time).store.sequence l.relay.address = l.ledgerSequence := by
  have hdelivery := Chain.sequence_deliver hs (l.relay.transaction q) time l.relay.address
  have hsigner : (l.relay.transaction q).op.signer = l.relay.address := rfl
  simp only [hsigner, and_true] at hdelivery
  exact hdelivery

/-- A transaction that is told that its sequence is wrong was not executed, so the count of the
ledger stays. -/
theorem sequence_of_stale {l : Link} (hs : l.chain.store.Placed) {q : CustodyRequest}
    {time : Int64} (hcode : (l.response q time).code = LedgerError.invalidSequenceCode) :
    (l.delivered q time).store.sequence l.relay.address = l.ledgerSequence := by
  have hdelivery := sequence_delivered hs q time
  have hexecuted : ¬(l.response q time).executed = true := fun hexecuted =>
    Chain.code_ne_of_executed rfl hexecuted hcode
  rwa [if_neg hexecuted] at hdelivery

/-- An event moves the counts in one of these ways. -/
theorem counts {l : Link} (hs : l.chain.store.Placed) {e : LinkEvent}
    (he : ∀ d, e = .other d → d.tx.op.signer ≠ l.relay.address) : l.Counts e (l.step e) := by
  cases e with
  | other d =>
    have hdelivery := Chain.sequence_deliver hs d.tx d.time l.relay.address
    rw [if_neg fun h => he d rfl h.2] at hdelivery
    exact .still rfl rfl hdelivery
  | request q passage outage time =>
    have hsubmitted := l.submitted q passage outage time
    have hdelivery := sequence_delivered hs q time
    change l.Counts _ (l.submit q passage outage time).2
    generalize l.submit q passage outage time = r at hsubmitted ⊢
    cases hsubmitted with
    | refused hcheck =>
      refine .still ?_ rfl rfl
      cases passage <;> cases outage <;> simp [resyncs, hcheck, Except.isOk, Except.toBool]
    | lost hcheck e => exact .still rfl rfl rfl
    | answerLost hcheck e =>
      by_cases hexecuted : (l.response q time).executed = true
      · rw [if_pos hexecuted] at hdelivery
        refine .lost ?_ hdelivery.1 rfl hdelivery.2
        rw [losesAnswer, hcheck, hexecuted]
        rfl
      · rw [if_neg hexecuted] at hdelivery
        exact .still rfl rfl hdelivery
    | stale hcheck hcode e => exact .still rfl rfl (sequence_of_stale hs hcode)
    | resynced hcheck hcode =>
      have hledger := sequence_of_stale hs hcode
      have hplaced : (l.delivered q time).store.Placed := Chain.deliver_placed hs _ time
      cases hfound : (l.delivered q time).store.account l.relay.address with
      | none =>
        have haccount : LocalLedger.account l.relay.address ⟨l.delivered q time, time⟩ =
            .error (.accountNotFound l.relay.address) := by
          rw [LocalLedger.account_eq hplaced, hfound]
        rw [haccount]
        refine .still ?_ rfl hledger
        rw [resyncs, haccount]
        exact Bool.and_false _
      | some x =>
        have haccount : LocalLedger.account l.relay.address ⟨l.delivered q time, time⟩ =
            .ok ⟨x.number, x.sequence⟩ := by
          rw [LocalLedger.account_eq hplaced, hfound]
        rw [haccount]
        refine .resynced ?_
        have hsequence : (l.delivered q time).store.sequence l.relay.address = x.sequence := by
          rw [Store.sequence, hfound]
          rfl
        exact hsequence.symm
    | settled hcheck hcode hresult =>
      by_cases hexecuted : (l.response q time).executed = true
      · rw [if_pos hexecuted] at hdelivery
        rw [if_pos hexecuted]
        exact .both hdelivery.1 rfl hdelivery.2
      · rw [if_neg hexecuted] at hdelivery
        rw [if_neg hexecuted]
        refine .still ?_ rfl hdelivery
        cases outage <;> simp [resyncs, hcode]

/-- Looking up the right sequence in the course of more events. -/
theorem everResyncs_concat (l : Link) (events : List LinkEvent) (e : LinkEvent) :
    l.everResyncs (events ++ [e]) = (l.everResyncs events || (l.run events).resyncs e) := by
  induction events generalizing l with
  | nil =>
    rw [List.nil_append, everResyncs, everResyncs, everResyncs, Bool.or_false, Bool.false_or]
    rfl
  | cons f events ih =>
    rw [List.cons_append, everResyncs, ih, everResyncs, Bool.or_assoc]
    rfl

/-- A link goes on to lag unless the relay looks up the right sequence. -/
theorem Lags.concat {l : Link} {events : List LinkEvent} (h : l.Lags events) {e : LinkEvent}
    (hresync : (l.run events).resyncs e = false) : l.Lags (events ++ [e]) := by
  obtain ⟨before, f, later, rfl, hlost, hlater⟩ := h
  refine ⟨before, f, later ++ [e], by simp, hlost, ?_⟩
  have hrun : ((l.run before).step f).run later = l.run (before ++ f :: later) := by
    rw [run_append]
    rfl
  rw [everResyncs_concat, hlater, hrun, hresync]
  rfl

/-- The relay of a link keeps its address. -/
theorem address_run (l : Link) (events : List LinkEvent) :
    (l.run events).relay.address = l.relay.address := by
  rw [relay_run]
  rfl

/-- A link on which the relay knows the name of the chain and the number of its account. -/
structure Matched (l : Link) : Prop where
  /-- Every record of the chain is at its place. -/
  placed : l.chain.store.Placed
  /-- The name of the chain is the one that the relay signs for. -/
  chainId : l.chain.chainId = l.relay.chainId
  /-- The account is there and has the number that the relay signs for. -/
  number : (l.chain.store.account l.relay.address).map (·.number) = some l.relay.accountNumber

/-- The account of the relay on a matched link. -/
theorem Matched.exists_account {l : Link} (h : l.Matched) :
    ∃ x, l.chain.store.account l.relay.address = some x ∧
      l.chain.account l.relay.address = .ok (some x) ∧ x.number = l.relay.accountNumber ∧
      x.sequence = l.ledgerSequence := by
  obtain ⟨x, hx, hnumber⟩ := Option.map_eq_some_iff.mp h.number
  refine ⟨x, hx, ?_, hnumber, ?_⟩
  · rw [Chain.account_eq h.placed, hx]
  · rw [ledgerSequence, Store.sequence, hx]
    rfl

/-- A matched link stays matched. -/
theorem Matched.run {l : Link} (h : l.Matched) (events : List LinkEvent) :
    (l.run events).Matched := by
  constructor
  · rw [chain_run]
    exact Chain.placed_after h.placed _
  · rw [chain_run, Chain.chainId_after, h.chainId, relay_run]
  · rw [chain_run, Chain.number_after h.placed, address_run, h.number, relay_run]

/-- A link is matched when the relay has connected. -/
theorem matched_of_connect {c : Chain} (hs : c.store.Placed) {key : SigningKey}
    {lockTimeout : Option Nat} {time : Int64} {r : Relay} {ledger : LocalLedger}
    (h : Relay.connect key c.chainId lockTimeout (⟨c, time⟩ : LocalLedger) = (.ok r, ledger)) :
    (⟨r, c⟩ : Link).Matched ∧ r.sequence = (⟨r, c⟩ : Link).ledgerSequence := by
  obtain ⟨info, haccount, rfl⟩ := Relay.connect_eq_ok h
  rw [LocalLedger.client_account, LocalLedger.account_eq hs] at haccount
  dsimp only at haccount
  split at haccount
  · next x hx =>
    cases haccount
    refine ⟨⟨hs, rfl, ?_⟩, ?_⟩
    · exact congrArg (Option.map (·.number)) hx
    · exact (congrArg (fun o => Option.elim o 0 (·.sequence)) hx).symm
  · cases haccount

/-- While the account has the key of the relay, a request that is answered brings the counts
together, if it is right in itself, its signature is right and the account can be looked up. -/
def Recovers (l : Link) : Prop :=
  ∀ x, l.chain.account l.relay.address = .ok (some x) → x.pubKey = some l.relay.publicKey →
    ∀ q time, (l.relay.operation q).check = .ok () →
      (l.relay.transaction q).checkSignature l.relay.chainId = .ok () →
      ∃ y, (l.step (.request q .answered none time)).chain.account l.relay.address = .ok (some y) ∧
        y.sequence = (l.step (.request q .answered none time)).relay.sequence

/-- A transaction of a matched link that is right but for the sequence is told that the sequence is
wrong, and then the relay looks up the right one. -/
theorem Matched.resyncs_of_ne {l : Link} (h : l.Matched) {x : Account}
    (hx : l.chain.store.account l.relay.address = some x) (hkey : x.pubKey = some l.relay.publicKey)
    {q : CustodyRequest} (hcheck : (l.relay.operation q).check = .ok ())
    (hsignature : (l.relay.transaction q).checkSignature l.relay.chainId = .ok ()) (time : Int64)
    (hne : l.relay.sequence ≠ l.ledgerSequence) :
    l.resyncs (.request q .answered none time) = true := by
  obtain ⟨y, hy, -, hnumber, hsequence⟩ := h.exists_account
  obtain rfl : x = y := Option.some.inj (hx.symm.trans hy)
  have hwrong : (l.relay.transaction q).sequence ≠ x.sequence := hsequence ▸ hne
  have hright : (l.relay.transaction q).op.check = .ok () := hcheck
  have hsigner : l.chain.store.account (l.relay.transaction q).op.signer = some x := hx
  rw [← h.chainId] at hsignature
  rw [l.relay.publicKey_key] at hkey
  have hdelivery :=
    Chain.deliver_of_signed h.placed time hright hsigner hkey hsignature hnumber.symm
  rw [if_neg hwrong] at hdelivery
  have hcode : (l.response q time).code = LedgerError.invalidSequenceCode := hdelivery.2
  have hkept : ((l.delivered q time).store.account l.relay.address).map (·.number) =
      some l.relay.accountNumber := by
    rw [delivered, Chain.number_deliver h.placed, h.number]
  obtain ⟨z, hz, -⟩ := Option.map_eq_some_iff.mp hkept
  have haccount : LocalLedger.account l.relay.address ⟨l.delivered q time, time⟩ =
      .ok ⟨z.number, z.sequence⟩ := by
    rw [LocalLedger.account_eq (Chain.deliver_placed h.placed _ time), hz]
  rw [resyncs, hcheck, hcode, haccount]
  rfl

/-- A relay on a matched link recovers. -/
theorem Matched.recovers {l : Link} (h : l.Matched) : l.Recovers := by
  intro x hx hkey q time hcheck hsignature
  have hfound : l.chain.store.account l.relay.address = some x :=
    Except.ok.inj ((Chain.account_eq h.placed _).symm.trans hx)
  have hcounts : l.Counts (.request q .answered none time) _ := counts h.placed nofun
  obtain ⟨y, -, hy, -, hsequence⟩ := (h.run [.request q .answered none time]).exists_account
  rw [address_run] at hy
  refine ⟨y, hy, hsequence.trans ?_⟩
  cases hcounts with
  | both heq hrelay hledger =>
    rw [hrelay, heq]
    exact hledger
  | lost hlost => cases hlost
  | resynced hrelay => exact hrelay.symm
  | still hresync hrelay hledger =>
    by_cases heq : l.relay.sequence = l.ledgerSequence
    · exact hledger.trans (hrelay.trans heq).symm
    · rw [h.resyncs_of_ne hfound hkey hcheck hsignature time heq] at hresync
      cases hresync

/-- What a request that succeeds has done. -/
structure Grants (l : Link) (q : CustodyRequest) (time : Int64) : Prop where
  /-- The transaction is the keying that was asked for. -/
  op : (l.relay.transaction q).op =
    .key ⟨q.attendee, l.relay.address, q.publicKey, q.commitment⟩
  /-- The transaction was executed. -/
  executed : (l.response q time).executed = true
  /-- It succeeded. -/
  code : (l.response q time).code = 0
  /-- The attendee has the key and the commitment. -/
  keyed : (l.delivered q time).HasKeyed ⟨q.attendee, l.relay.address, q.publicKey, q.commitment⟩

/-- A request that succeeds has delivered its transaction and keyed the attendee. -/
theorem grants_of_ok {members : List Address} {l : Link} (hs : l.chain.store.Sound members)
    {q : CustodyRequest} {passage : Passage} {outage : Option ClientError} {time : Int64}
    (hok : (l.submit q passage outage time).1 = .ok ()) : l.Grants q time ∧
      l.brought (.request q passage outage time) = [⟨l.relay.transaction q, time⟩] := by
  have hsubmitted := l.submitted q passage outage time
  generalize l.submit q passage outage time = r at hsubmitted hok
  cases hsubmitted with
  | refused | lost | answerLost | stale | resynced => cases hok
  | settled hcheck hcode hresult =>
    have hzero := hresult.mp hok
    refine ⟨⟨rfl, Chain.executed_of_code hzero, hzero, Chain.hasKeyed_of_code hs rfl hzero⟩, ?_⟩
    rw [brought, hcheck]
    rfl

/-- The transactions that the events of a link deliver fit, if those of others do. -/
theorem fits_deliveries (l : Link) {events : List LinkEvent}
    (hothers : ∀ d, .other d ∈ events → Fits d.tx.op) :
    ∀ d ∈ l.deliveries events, Fits d.tx.op := by
  induction events generalizing l with
  | nil => exact fun d hd => absurd hd List.not_mem_nil
  | cons e events ih =>
    intro d hd
    rcases List.mem_append.mp hd with hbrought | hrest
    · cases e with
      | other f =>
        rw [brought, List.mem_singleton] at hbrought
        subst hbrought
        exact hothers d List.mem_cons_self
      | request q passage outage time =>
        rw [brought] at hbrought
        split at hbrought
        · rw [List.mem_singleton] at hbrought
          subst hbrought
          exact trivial
        · cases hbrought
    · exact ih (l.step e) (fun f hf => hothers f (List.mem_cons_of_mem e hf)) d hrest

/-- A link that began after the deliveries `ds` from a genesis, and had events since. -/
structure KeepsUp (c : Chain) (ds : List Delivery) (l : Link) (events : List LinkEvent) :
    Prop where
  /-- The relay is the same but for its sequence. -/
  relay : (l.run events).relay = { l.relay with sequence := (l.run events).relay.sequence }
  /-- The counts agree, or that of the ledger is one ahead because an answer was lost; as numbers
  too, as long as no more transactions were delivered than a sequence can count. -/
  close : ∃ x, (l.run events).chain.account l.relay.address = .ok (some x) ∧
    (x.sequence = (l.run events).relay.sequence ∨
      x.sequence = (l.run events).relay.sequence + 1 ∧ l.Lags events) ∧
    (ds.length + (l.deliveries events).length < UInt64.size →
      (l.run events).relay.sequence.toNat ≤ x.sequence.toNat ∧
        x.sequence.toNat ≤ (l.run events).relay.sequence.toNat + 1)
  /-- The next request that is answered brings the counts together, while the account has the key of
  the relay. -/
  recovers : (l.run events).Recovers
  /-- A request that succeeded has delivered one transaction, which keyed the attendee as asked, and
  no other transaction ever keys that attendee. -/
  granted : ∀ before q passage outage time later,
    events = before ++ .request q passage outage time :: later →
    ((l.run before).submit q passage outage time).1 = .ok () →
    (l.run before).Grants q time ∧
      l.deliveries events = l.deliveries before ++ ⟨(l.run before).relay.transaction q, time⟩ ::
        ((l.run before).step (.request q passage outage time)).deliveries later ∧
      c.keyings (ds ++ l.deliveries events) q.attendee = [(l.run before).relay.transaction q]

section Run

variable {chainId : String} {g : Genesis} {c : Chain} {ds : List Delivery} {l : Link}
  {events : List LinkEvent}

/-- The chain of a link that begins after a run goes on with that run. -/
theorem chain_run_of_chain (hl : l.chain = c.after ds) (events : List LinkEvent) :
    (l.run events).chain = c.after (ds ++ l.deliveries events) := by
  rw [chain_run, hl, Chain.after_append]

/-- The counts agree, or that of the ledger is one ahead because an answer was lost. -/
theorem close_run (h : Chain.ofGenesis chainId g = .ok c) (hl : l.chain = c.after ds)
    (hstart : l.relay.sequence = l.ledgerSequence)
    (hothers : ∀ d, .other d ∈ events → d.tx.op.signer ≠ l.relay.address) :
    (l.run events).relay.sequence = (l.run events).ledgerSequence ∨
      ((l.run events).ledgerSequence = (l.run events).relay.sequence + 1 ∧ l.Lags events ∧
        (ds.length + (l.deliveries events).length < UInt64.size →
          (l.run events).ledgerSequence.toNat = (l.run events).relay.sequence.toNat + 1)) := by
  -- from the last event, which finds the link as the events before have left it
  induction events using List.reverseRecOn with
  | nil => exact Or.inl hstart
  | append_singleton events e ih =>
    have hnear := ih fun d hd => hothers d (List.mem_append_left _ hd)
    have hchain := chain_run_of_chain hl events
    have hcounts : (l.run events).Counts e ((l.run events).step e) := by
      apply counts (hchain ▸ Chain.after_placed h _)
      rintro d rfl
      rw [address_run]
      exact hothers d (List.mem_append_right _ List.mem_cons_self)
    have hrun : l.run (events ++ [e]) = (l.run events).step e := run_append l events [e]
    have hdeliveries : l.deliveries (events ++ [e]) =
        l.deliveries events ++ (l.run events).brought e := by
      rw [deliveries_append, deliveries, deliveries, List.append_nil]
    rw [hrun, hdeliveries, List.length_append]
    cases hcounts with
    | still hresync hrelay hledger =>
      rw [hrelay, hledger]
      rcases hnear with heq | ⟨hone, hlags, hroom⟩
      · exact Or.inl heq
      · exact Or.inr ⟨hone, hlags.concat hresync, fun hlt => hroom (by omega)⟩
    | both heq hrelay hledger =>
      rw [hrelay, hledger, heq]
      exact Or.inl rfl
    | lost hlost heq hrelay hledger =>
      -- the count of the ledger is at most the number of deliveries before, so it has a next one
      rw [hrelay, hledger, heq]
      refine Or.inr ⟨rfl, ⟨events, e, [], rfl, hlost, rfl⟩, fun hlt => ?_⟩
      have hbrought := length_brought_of_losesAnswer hlost
      have hle := Chain.sequence_after_le h (ds ++ l.deliveries events)
        (by rw [List.length_append]; omega) (l.run events).relay.address
      rw [← hchain, List.length_append] at hle
      exact toNat_add_one (Nat.lt_of_le_of_lt (Nat.succ_le_succ hle) (by omega))
    | resynced hrelay => exact Or.inl hrelay

/-- A matched link with an account that both count alike keeps up. -/
theorem Matched.keeps (hg : g.Sized) (h : Chain.ofGenesis chainId g = .ok c)
    (hds : ∀ d ∈ ds, Fits d.tx.op) (hl : l.chain = c.after ds) (hmatched : l.Matched)
    (hstart : l.relay.sequence = l.ledgerSequence)
    (hothers : ∀ d, .other d ∈ events → Fits d.tx.op ∧ d.tx.op.signer ≠ l.relay.address) :
    KeepsUp c ds l events := by
  have hfits : ∀ d ∈ ds ++ l.deliveries events, Fits d.tx.op := by
    intro d hd
    rcases List.mem_append.mp hd with hbefore | hsince
    · exact hds d hbefore
    · exact l.fits_deliveries (fun d hd => (hothers d hd).1) d hsince
  refine ⟨relay_run l events, ?_, (hmatched.run events).recovers, ?_⟩
  · obtain ⟨x, -, hx, -, hsequence⟩ := (hmatched.run events).exists_account
    rw [address_run] at hx
    refine ⟨x, hx, ?_⟩
    rw [hsequence]
    rcases close_run h hl hstart fun d hd => (hothers d hd).2 with heq | ⟨hone, hlags, hroom⟩
    · rw [heq]
      exact ⟨Or.inl rfl, fun _ => ⟨Nat.le_refl _, Nat.le_succ _⟩⟩
    · refine ⟨Or.inr ⟨hone, hlags⟩, fun hlt => ?_⟩
      rw [hroom hlt]
      exact ⟨Nat.le_succ _, Nat.le_refl _⟩
  · rintro before q passage outage time later rfl hok
    have hchain := chain_run_of_chain hl before
    rw [deliveries_append] at hfits ⊢
    have hsound : (l.run before).chain.store.Sound g.members := by
      rw [hchain]
      refine Chain.after_sound hg h fun d hd => hfits d ?_
      rw [← List.append_assoc]
      exact List.mem_append_left _ hd
    obtain ⟨hgrants, hbrought⟩ := grants_of_ok hsound hok
    rw [deliveries, hbrought, List.singleton_append, ← List.append_assoc] at hfits ⊢
    have hcode : ((c.after (ds ++ l.deliveries before)).deliver
        ((l.run before).relay.transaction q) time).1.code = 0 := by
      rw [← hchain]
      exact hgrants.code
    exact ⟨hgrants, rfl, Chain.keyings_eq_singleton hg h hfits rfl hcode⟩

/-- A relay that was connected in any state that a run from a genesis reaches, and that alone sends
for its account, keeps up with the ledger, whatever the line does. -/
theorem keepsUp (hg : g.Sized) (h : Chain.ofGenesis chainId g = .ok c)
    (hds : ∀ d ∈ ds, Fits d.tx.op) {key : SigningKey} {lockTimeout : Option Nat} {time : Int64}
    {r : Relay} {ledger : LocalLedger}
    (hconnect : Relay.connect key chainId lockTimeout (⟨c.after ds, time⟩ : LocalLedger) =
      (.ok r, ledger))
    (hothers : ∀ d, .other d ∈ events → Fits d.tx.op ∧ d.tx.op.signer ≠ r.address) :
    KeepsUp c ds ⟨r, c.after ds⟩ events := by
  rw [← Chain.chainId_of_genesis h, ← Chain.chainId_after c ds] at hconnect
  obtain ⟨hmatched, hstart⟩ := matched_of_connect (Chain.after_placed h ds) hconnect
  exact hmatched.keeps hg h hds rfl hstart hothers

end Run

end Link

namespace SmallLedger

/-- The attendee claims too early, and then the answer to the request to key the attendee is
lost. -/
def lapse : List LinkEvent :=
  [.other claim, .request ⟨.ofTicket "1", attendeeKey, .ofSecret (Bytes.ofText "s")⟩
    (.answerLost (.unreachable "timeout")) none 0]

end SmallLedger

/-- On the small ledger the relay keeps up, and the ledger is one ahead after the lost answer. -/
theorem Link.keepsUp_lapse :
    SmallLedger.genesis.Sized ∧
      Chain.ofGenesis "test-chain" SmallLedger.genesis = .ok SmallLedger.chain ∧
      Relay.connect SmallLedger.signer "test-chain" (some 5) (⟨SmallLedger.chain, 0⟩ : LocalLedger) =
        (.ok SmallLedger.relay, ⟨SmallLedger.chain, 0⟩) ∧
      (∀ d, .other d ∈ SmallLedger.lapse →
        Fits d.tx.op ∧ d.tx.op.signer ≠ SmallLedger.relay.address) ∧
      KeepsUp SmallLedger.chain [] ⟨SmallLedger.relay, SmallLedger.chain⟩ SmallLedger.lapse ∧
      (((⟨SmallLedger.relay, SmallLedger.chain⟩ : Link).run SmallLedger.lapse).relay.sequence,
        ((⟨SmallLedger.relay, SmallLedger.chain⟩ : Link).run SmallLedger.lapse).ledgerSequence) =
          (0, 1) := by
  have hothers : ∀ d, .other d ∈ SmallLedger.lapse →
      Fits d.tx.op ∧ d.tx.op.signer ≠ SmallLedger.relay.address := by
    intro d hd
    have hd : d = SmallLedger.claim := by simpa [SmallLedger.lapse] using hd
    rw [hd]
    exact ⟨SmallLedger.fits_lifecycle _ (by simp [SmallLedger.lifecycle]), by decide +kernel⟩
  have hfits : ∀ d ∈ ([] : List Delivery), Fits d.tx.op := fun d hd => absurd hd List.not_mem_nil
  have hconnect : Relay.connect SmallLedger.signer "test-chain" (some 5)
      (⟨SmallLedger.chain.after [], 0⟩ : LocalLedger) =
        (.ok SmallLedger.relay, ⟨SmallLedger.chain, 0⟩) := by
    rw [Chain.after_nil, SmallLedger.connect_eq]
  have hkeeps := keepsUp SmallLedger.sized SmallLedger.ofGenesis_eq hfits hconnect hothers
  rw [Chain.after_nil] at hkeeps
  have hcounts : (((⟨SmallLedger.relay, SmallLedger.chain⟩ : Link).run
        SmallLedger.lapse).relay.sequence,
      ((⟨SmallLedger.relay, SmallLedger.chain⟩ : Link).run SmallLedger.lapse).ledgerSequence) =
        (0, 1) := by
    decide +kernel
  exact ⟨SmallLedger.sized, SmallLedger.ofGenesis_eq, SmallLedger.connect_eq, hothers, hkeeps,
    hcounts⟩

end ConferenceLedger

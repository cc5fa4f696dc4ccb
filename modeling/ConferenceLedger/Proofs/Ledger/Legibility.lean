import ConferenceLedger.Proofs.Ledger.Listing
import ConferenceLedger.Proofs.Ledger.Verdicts

/-!
# No record is misfiled or unreadable

Every entry of the ledger is a record that can be read and that goes to just this key. So nothing
that the ledger is asked ever fails because a value cannot be read: no transaction, whatever it
carries, and no query, whatever bytes it names a meeting by. What stands in the way of an operation
is known, and it is never that. Admission and the queries are composed of reads and guards, and each
of these spares that failure on a store of records that the ledger can hold.
-/

namespace ConferenceLedger

/-- Whether an error says that a value cannot be read. -/
def LedgerError.isCodec : LedgerError → Bool
  | codec _ => true
  | _ => false

/-- Only the error that a value cannot be read has the code one. -/
theorem LedgerError.code_eq_one {e : LedgerError} : e.code = 1 ↔ e.isCodec = true := by
  cases e <;> simp [code, isCodec, attendeeKeyedCode, invalidSequenceCode]

namespace Access

variable {α β : Type} {s t : Store}

/-- A program that does not fail, on a store, because a value cannot be read. -/
def Legible (x : LedgerAccess α) (s : Store) : Prop :=
  ∀ e t, x.run s = (.error e, t) → e.isCodec = false

/-- A program that succeeds has read everything. -/
theorem legible_of_ok {x : LedgerAccess α} {a : α} (h : x.run s = (.ok a, t)) : x.Legible s := by
  intro e u hrun
  rw [h] at hrun
  cases hrun

/-- A result needs no reading. -/
theorem legible_pure (a : α) : (pure a : LedgerAccess α).Legible s := by
  intro e u hrun
  cases hrun

/-- A program that ends with another error. -/
theorem legible_fail {e : LedgerError} (he : e.isCodec = false) :
    (fail e : LedgerAccess α).Legible s := by
  intro d u hrun
  cases hrun
  exact he

/-- A plain computation whose errors are other ones. -/
theorem legible_ofExcept {x : Except LedgerError α} (h : ∀ e, x = .error e → e.isCodec = false) :
    (ofExcept x).Legible s := by
  intro e u hrun
  rw [run_ofExcept] at hrun
  exact h e (congrArg Prod.fst hrun)

/-- A sequence of programs reads through if the first does, and the second on what it leaves. -/
theorem Legible.bind {x : LedgerAccess α} {f : α → LedgerAccess β} (h : x.Legible s)
    (hf : ∀ a t, x.run s = (.ok a, t) → (f a).Legible t) : (x >>= f).Legible s := by
  intro e u hrun
  rcases run_bind_error hrun with hfirst | ⟨a, t, hfirst, hsecond⟩
  · exact h e u hfirst
  · exact hf a t hfirst e u hsecond

/-- What follows a program that succeeds must read through on what it leaves. -/
theorem legible_bind_of_ok {x : LedgerAccess α} {f : α → LedgerAccess β} {a : α}
    (h : x.run s = (.ok a, t)) (hf : (f a).Legible t) : (x >>= f).Legible s := by
  refine (legible_of_ok h).bind fun b u hrun => ?_
  rw [h] at hrun
  cases hrun
  exact hf

/-- Behind a guard with another error a program reads through. -/
theorem legible_guard {c : Prop} [Decidable c] {e : LedgerError} {x : LedgerAccess α}
    (he : e.isCodec = false) (h : x.Legible s) : (if c then fail e else x).Legible s := by
  by_cases hc : c
  · rw [if_pos hc]
    exact legible_fail he
  · rw [if_neg hc]
    exact h

/-- Programs that read through and leave the store do so one after another. -/
theorem legible_mapM {f : α → LedgerAccess β} {l : List α}
    (h : ∀ a ∈ l, (f a).Legible s ∧ ∀ b t, (f a).run s = (.ok b, t) → t = s) :
    (l.mapM f).Legible s := by
  induction l with
  | nil => exact legible_pure []
  | cons a l ih =>
    obtain ⟨hfirst, hleaves⟩ := h a List.mem_cons_self
    rw [List.mapM_cons]
    refine hfirst.bind fun b t hrun => ?_
    rw [hleaves b t hrun]
    exact (ih fun c hc => h c (List.mem_cons_of_mem a hc)).bind fun _ _ _ => legible_pure _

end Access

/-- No check of an operation reads anything. -/
theorem Operation.check_isCodec {op : Operation} {e : LedgerError} (h : op.check = .error e) :
    e.isCodec = false := by
  have hticket : ∀ s, checkTicketId s = .error e → e.isCodec = false := by
    intro s hs
    unfold checkTicketId at hs
    split_ifs at hs
    cases hs
    rfl
  cases op with
  | key m =>
    change m.check = _ at h
    unfold KeyGrant.check at h
    split_ifs at h <;> cases h <;> rfl
  | claimKey m =>
    change m.check = _ at h
    unfold KeyClaim.check at h
    split_ifs at h <;> cases h <;> rfl
  | scanQr m =>
    change m.check = _ at h
    unfold BadgeScan.check at h
    split_ifs at h
    · cases h
      rfl
    · exact hticket _ h
  | redeem m =>
    change m.check = _ at h
    unfold Redemption.check at h
    split_ifs at h
    · cases h
      rfl
    · exact hticket _ h

/-- What stands in the way of an operation is never that a value cannot be read. -/
theorem Operation.verdict_isCodec {op : Operation} {s : Store} {e : LedgerError}
    (h : op.verdict s = .error e) : e.isCodec = false := by
  cases op with
  | key m =>
    rw [verdict] at h
    split_ifs at h <;> cases h <;> rfl
  | claimKey m =>
    rw [verdict] at h
    cases hx : s.attendee m.attendee with
    | none =>
      rw [hx] at h
      cases h
      rfl
    | some x =>
      rw [hx] at h
      dsimp only at h
      split_ifs at h <;> cases h <;> rfl
  | scanQr m =>
    rw [verdict] at h
    by_cases hscanned : s.attendee (.ofTicket m.ticket) = none
    · rw [if_pos hscanned] at h
      cases h
      rfl
    · rw [if_neg hscanned] at h
      cases hpair : ScanId.ofPair m.sender (.ofTicket m.ticket) with
      | error d =>
        rw [hpair] at h
        cases h
        cases d <;> rfl
      | ok id =>
        rw [hpair] at h
        dsimp only at h
        split_ifs at h
        cases h
        rfl
  | redeem m =>
    rw [verdict] at h
    by_cases hredeem : s.redeem = some m.sender
    · rw [if_neg (not_not_intro hredeem)] at h
      cases hx : s.attendee (.ofTicket m.ticket) with
      | none =>
        rw [hx] at h
        cases h
        rfl
      | some x =>
        rw [hx] at h
        dsimp only at h
        split_ifs at h
        cases h
        rfl
    · rw [if_pos hredeem] at h
      cases h
      rfl

/-- No check of a signature reads anything from the store. -/
theorem SignedTx.checkSignature_isCodec {chainId : String} {tx : SignedTx} {e : LedgerError}
    (h : tx.checkSignature chainId = .error e) : e.isCodec = false := by
  unfold checkSignature at h
  split_ifs at h
  · cases h
    rfl
  · split at h
    · cases h
      rfl
    · dsimp only at h
      split_ifs at h
      cases h
      rfl

namespace Store.Sound

open Access

variable {members : List Address} {s : Store}

/-- An attendee who must be there is read, if there. -/
theorem legible_knownAttendee (hs : s.Sound members) (a : Address) :
    (Records.knownAttendee a).Legible s := by
  refine legible_bind_of_ok (hs.attendee_run a) ?_
  cases s.attendee a with
  | none => exact legible_fail rfl
  | some x => exact legible_pure x

/-- Every operation reads through. -/
theorem legible_program (hs : s.Sound members) (op : Operation) (time : Int64) :
    (op.program time).Legible s := by
  intro e t hrun
  have hverdict := Operation.run_eq_verdict hs op time
  rw [hrun] at hverdict
  exact Operation.verdict_isCodec hverdict.symm

/-- Admission reads through. -/
theorem legible_admission (hs : s.Sound members) (chainId : String) (tx : SignedTx) :
    (Chain.admission chainId tx).Legible s := by
  refine (legible_ofExcept fun e => Operation.check_isCodec).bind fun _ t hcheck => ?_
  rw [run_ofExcept] at hcheck
  obtain ⟨-, rfl⟩ := Prod.mk.inj hcheck
  refine legible_bind_of_ok (hs.rows.account_run _) ?_
  cases s.account tx.op.signer with
  | none => exact legible_fail rfl
  | some x =>
    refine legible_guard rfl ?_
    refine (legible_ofExcept fun e => SignedTx.checkSignature_isCodec).bind fun _ t _ => ?_
    exact legible_guard rfl (legible_guard rfl (legible_pure x))

/-- The meetings of an attendee are read one by one. -/
theorem legible_scansOf (hs : s.Sound members) (a : Address) : (Records.scansOf a).Legible s := by
  refine (hs.legible_knownAttendee a).bind fun x t hread => ?_
  obtain ⟨rfl, -⟩ := Records.knownAttendee_run_ok hread
  refine legible_mapM fun id _ => ⟨?_, ?_⟩
  · refine legible_bind_of_ok (hs.scan_run id) ?_
    cases s.meeting id with
    | none => exact legible_fail rfl
    | some scan => exact legible_pure scan
  · intro scan u hrun
    rw [run_bind_of_ok (hs.scan_run id)] at hrun
    cases hmeeting : s.meeting id with
    | none =>
      rw [hmeeting] at hrun
      cases hrun
    | some y =>
      rw [hmeeting] at hrun
      cases hrun
      rfl

/-- Every query reads through. -/
theorem legible_answer (hs : s.Sound members) (q : Query) : q.answer.Legible s := by
  have hattendees : Records.attendees.run s = (.ok s.attendees, s) :=
    (hs.rows.attendees fun _ hx => hx.fits hs.countable).1
  cases q with
  | attendee address => exact (hs.legible_knownAttendee _).bind fun _ _ _ => legible_pure _
  | attendeeById id => exact (hs.legible_knownAttendee _).bind fun _ _ _ => legible_pure _
  | keyed id => exact (hs.legible_knownAttendee _).bind fun _ _ _ => legible_pure _
  | claimed id => exact (hs.legible_knownAttendee _).bind fun _ _ _ => legible_pure _
  | scan id =>
    refine legible_bind_of_ok (hs.scan_run id) ?_
    cases s.meeting id with
    | none => exact legible_fail rfl
    | some scan => exact legible_pure _
  | attendeeScans address => exact (hs.legible_scansOf address).bind fun _ _ _ => legible_pure _
  | attendees => exact legible_bind_of_ok hattendees (legible_pure _)
  | prizes => exact legible_bind_of_ok hs.prizes_run (legible_pure _)
  | prize tier =>
    refine legible_bind_of_ok (hs.prize_run tier) ?_
    cases s.prize tier with
    | none => exact legible_fail rfl
    | some p => exact legible_pure _
  | leaderboard limit =>
    refine Legible.bind (legible_bind_of_ok hattendees (legible_pure _)) fun _ _ _ => ?_
    exact legible_pure _
  | redeemable address => exact (hs.legible_knownAttendee _).bind fun _ _ _ => legible_pure _

end Store.Sound

/-! ### Every genesis is accepted -/

namespace Genesis

open Access

variable {s : Store}

/-- The counter can be read. -/
theorem counter_run (hs : s.Placed) : (Records.read StoreKey.accountNumber).run s =
    (.ok (s.record? UInt64 StoreKey.accountNumber), s) := by
  apply hs.read_run rfl
  intro r hcls _
  cases r with
  | counter n => exact ⟨n, LawfulBinary.decode_put (a := n) trivial⟩
  | _ => simp at hcls

/-- Creating an account succeeds, and keeps every record at its place. -/
theorem createAccount_run (hs : s.Placed) (a : Address) (k : Option PublicKey) :
    ∃ x t, (Records.createAccount a k).run s = (.ok x, t) ∧ t.Placed := by
  rw [Records.createAccount, run_bind_of_ok (hs.account_run a)]
  cases s.account a with
  | some x => exact ⟨x, s, rfl, hs⟩
  | none =>
    dsimp only
    rw [run_bind_of_ok (counter_run hs)]
    have hnumber := hs.file (r := .counter
      ((s.record? UInt64 StoreKey.accountNumber).getD 0 + 1)) trivial trivial
    exact ⟨_, _, rfl, hnumber.file (r := .account _) trivial trivial⟩

/-- Enrolling a service succeeds, and keeps every record at its place. -/
theorem enrolService_run (hs : s.Placed) (k : PublicKey) :
    ∃ a t, (enrolService k).run s = (.ok a, t) ∧ t.Placed := by
  obtain ⟨x, t, hcreate, ht⟩ := createAccount_run hs (.ofPublicKey k) (some k)
  exact ⟨.ofPublicKey k, t, run_bind_of_ok hcreate _, ht⟩

/-- Enrolling a roster succeeds, and keeps every record at its place. -/
theorem forM_enrolAttendee_run (hs : s.Placed) (l : List RosterEntry) :
    ∃ t, (l.forM enrolAttendee).run s = (.ok (), t) ∧ t.Placed := by
  induction l generalizing s with
  | nil => exact ⟨s, rfl, hs⟩
  | cons e l ih =>
    obtain ⟨x, t, hcreate, ht⟩ := createAccount_run hs (.ofTicket e.id) none
    have hone : (enrolAttendee e).run s =
        (.ok (), t.file (.attendee (.ofTicket e.id e.ticketClass))) := run_bind_of_ok hcreate _
    obtain ⟨u, hrest, hu⟩ := ih (ht.file (r := .attendee _) trivial trivial)
    exact ⟨u, (run_bind_of_ok hone _).trans hrest, hu⟩

/-- A genesis succeeds when the services and the roster are enrolled. -/
theorem run_program {g : Genesis} {a b : Address} {t u v : Store}
    (hmaster : (enrolService g.keyService).run .empty = (.ok a, t))
    (hredeem : (enrolService g.redeemService).run (t.file (.master a)) = (.ok b, u))
    (hroster : (g.attendees.forM enrolAttendee).run (u.file (.redeem b)) = (.ok (), v)) :
    g.program.run .empty = (.ok (), v.fileAll (g.prizes.map .prize)) := by
  rw [program, run_bind_of_ok hmaster]
  refine (run_bind_of_ok (t := t.file (.master a)) rfl _).trans ?_
  rw [run_bind_of_ok hredeem]
  refine (run_bind_of_ok (t := u.file (.redeem b)) rfl _).trans ?_
  rw [run_bind_of_ok hroster]
  exact forM_setPrize_run g.prizes v

/-- Every genesis is accepted: it reads accounts and the counter only, and these can be read. -/
theorem accepted (chainId : String) (g : Genesis) : ∃ c, Chain.ofGenesis chainId g = .ok c := by
  obtain ⟨a, t, hmaster, ht⟩ := enrolService_run Store.holds_empty g.keyService
  obtain ⟨b, u, hredeem, hu⟩ :=
    enrolService_run (ht.file (r := .master a) trivial trivial) g.redeemService
  obtain ⟨v, hroster, -⟩ :=
    forM_enrolAttendee_run (hu.file (r := .redeem b) trivial trivial) g.attendees
  have hrun := run_program hmaster hredeem hroster
  refine ⟨⟨chainId, 0, v.fileAll (g.prizes.map .prize)⟩, ?_⟩
  rw [Chain.ofGenesis, hrun]

end Genesis

/-! ### Entries, responses and answers -/

/-- An entry is a record that can be read and that goes to just this key. -/
inductive Entry.Filed (k v : Bytes) : Prop where
  /-- An attendee, under its address. -/
  | attendee (x : Attendee) (hkey : k = StoreKey.attendee x.address)
    (hvalue : Binary.decode v = .ok x)
  /-- A meeting, under the identifier of its two attendees. -/
  | meeting (x : Scan) (hpair : ScanId.ofPair x.first.address x.second.address = .ok x.id)
    (hkey : k = x.id.bytes) (hlength : k.length = 43) (hvalue : Binary.decode v = .ok x)
  /-- A prize, under its tier. -/
  | prize (p : Prize) (hkey : k = StoreKey.prize p.tier) (hvalue : Binary.decode v = .ok p)
  /-- An account, under its address. -/
  | account (x : Account) (hkey : k = StoreKey.account x.address)
    (hvalue : Binary.decode v = .ok x)
  /-- The address of the service that keys attendees. -/
  | master (a : Address) (hkey : k = StoreKey.master) (hvalue : Binary.decode v = .ok a)
  /-- The address of the service that redeems prizes. -/
  | redeem (a : Address) (hkey : k = StoreKey.redeem) (hvalue : Binary.decode v = .ok a)
  /-- The number of the next account. -/
  | counter (n : UInt64) (hkey : k = StoreKey.accountNumber) (hvalue : Binary.decode v = .ok n)

/-- Every entry of a store that can be held is such a record. -/
theorem Store.Sound.filed {members : List Address} {s : Store} (hs : s.Sound members) {k v : Bytes}
    (h : s.get? k = some v) : Entry.Filed k v := by
  obtain ⟨r, -, hr, rfl, rfl⟩ := hs.rows k v h
  cases r with
  | attendee x => exact .attendee x rfl (LawfulBinary.decode_put (hr.fits hs.countable))
  | meeting x =>
    exact .meeting x hr.pair rfl (ScanId.length_ofPair hr.pair) (LawfulBinary.decode_put hr.fits)
  | prize p => exact .prize p rfl (LawfulBinary.decode_put hr)
  | account x => exact .account x rfl (LawfulBinary.decode_put (a := x) trivial)
  | master a => exact .master a rfl (LawfulBinary.decode_put (a := a) trivial)
  | redeem a => exact .redeem a rfl (LawfulBinary.decode_put (a := a) trivial)
  | counter n => exact .counter n rfl (LawfulBinary.decode_put (a := n) trivial)

namespace Chain

/-- A chain that never fails because a value cannot be read. -/
structure IsLegible (c : Chain) : Prop where
  /-- Every entry is a record that can be read and that goes to just this key. -/
  filed : ∀ k v, c.store.get? k = some v → Entry.Filed k v
  /-- No response to a transaction has the code of a value that cannot be read. -/
  delivers : ∀ (tx : SignedTx) (time : Int64), (c.deliver tx time).1.code ≠ 1
  /-- No query is answered with the error that a value cannot be read. -/
  answers : ∀ (q : Query) (e : CodecError), c.query q ≠ .error (.codec e)
  /-- Whatever bytes a query names a meeting by, it gives the meeting with just this identifier, or
  says that there is none. -/
  scans : ∀ id : ScanId, (∃ x, c.query (.scan id) = .ok (.scan x) ∧ x.id = id) ∨
    c.query (.scan id) = .error .scanNotFound

variable {chainId : String} {g : Genesis} {c : Chain} {members : List Address}

/-- No response has the code of a value that cannot be read, in a chain that can be held. -/
theorem code_ne_one (hs : c.store.Sound members) (tx : SignedTx) (time : Int64) :
    (c.deliver tx time).1.code ≠ 1 := by
  have hcode : ∀ e : LedgerError, e.isCodec = false → e.code ≠ 1 := by
    intro e he hone
    rw [LedgerError.code_eq_one.mp hone] at he
    cases he
  unfold deliver
  dsimp only
  cases hadmission : (admission c.chainId tx).eval c.store with
  | error e =>
    refine hcode e (hs.legible_admission c.chainId tx e _ (Prod.ext hadmission rfl))
  | ok x =>
    have hcounted : ((Records.setAccount { x with sequence := x.sequence + 1 }).run c.store).2 =
        c.store.counted x := rfl
    have hsound := counted_sound hs (admits_of_admission hadmission)
    dsimp only
    rw [hcounted, Operation.execute, Access.atomically_eq]
    rcases hrun : (tx.op.program time).run (c.store.counted x) with ⟨⟨e⟩ | ⟨⟨⟩⟩, t⟩
    · exact hcode e (hsound.legible_program tx.op time e t hrun)
    · exact UInt32.zero_ne_one

/-- A chain that can be held never fails because a value cannot be read. -/
theorem isLegible (hs : c.store.Sound members) : c.IsLegible := by
  refine ⟨fun k v => hs.filed, code_ne_one hs, ?_, ?_⟩
  · intro q e h
    have hcodec := hs.legible_answer q (.codec e) _ (Prod.ext h rfl)
    cases hcodec
  · intro id
    have hanswer : c.query (.scan id) =
        (c.store.meeting id).elim (.error .scanNotFound) fun x => .ok (.scan x) := by
      rw [query, Query.answer, Access.eval, Access.run_bind_of_ok (hs.scan_run id)]
      cases c.store.meeting id <;> rfl
    rw [hanswer]
    cases hmeeting : c.store.meeting id with
    | some x => exact Or.inl ⟨x, rfl, (hs.meeting hmeeting).2⟩
    | none => exact Or.inr rfl

/-- Every sized genesis starts a chain, and after every run of operations that fit the chain never
fails because a value cannot be read. -/
theorem staysLegible (chainId : String) {g : Genesis} (hg : g.Sized) :
    ∃ c, ofGenesis chainId g = .ok c ∧
      ∀ ds : List Delivery, (∀ d ∈ ds, Fits d.tx.op) → (c.after ds).IsLegible := by
  obtain ⟨c, hc⟩ := g.accepted chainId
  exact ⟨c, hc, fun ds hds => isLegible (after_sound hg hc hds)⟩

/-- After two attendees met, the chain never fails because a value cannot be read. -/
theorem staysLegible_encounter :
    SmallLedger.pair.Sized ∧ (∀ d ∈ SmallLedger.encounter, Fits d.tx.op) ∧
      ofGenesis "test-chain" SmallLedger.pair = .ok SmallLedger.pairChain ∧
      (SmallLedger.pairChain.after SmallLedger.encounter).IsLegible := by
  obtain ⟨c, hc, hlegible⟩ := staysLegible "test-chain" SmallLedger.sized_pair
  have hsame : c = SmallLedger.pairChain :=
    Except.ok.inj (hc.symm.trans SmallLedger.ofGenesis_pair)
  rw [hsame] at hlegible
  exact ⟨SmallLedger.sized_pair, SmallLedger.fits_encounter, SmallLedger.ofGenesis_pair,
    hlegible _ SmallLedger.fits_encounter⟩

end Chain

end ConferenceLedger

import ConferenceLedger.Proofs.Ledger.Effects

/-!
# Whether an operation goes through

An operation that fails does so before it writes anything, for one of a few reasons that it finds in
the records. So what an operation answers is a function of these records: who the services are,
whether there is an account, and what the attendees it names have. Awards and meetings never fail.
-/

namespace ConferenceLedger

/-- Whether an operation goes through on the records of a store, or what stands in its way. -/
def Operation.verdict (s : Store) : Operation → Except LedgerError Unit
  | key m =>
    if s.master ≠ some m.master then .error (.unauthorized (.notMaster m.master))
    else if s.account m.attendee = none then .error .attendeeNotFound
    else if (s.attendeeOrBlank m.attendee).isKeyed then .error .attendeeKeyed
    else .ok ()
  | claimKey m =>
    match s.attendee m.attendee with
    | none => .error .attendeeNotFound
    | some x =>
      if x.claimed then .error .attendeeClaimed
      else if !Custody.reveals x m.secret then .error .invalidCommitmentReveal
      else .ok ()
  | scanQr m =>
    if s.attendee (.ofTicket m.ticket) = none then .error .attendeeNotFound
    else match ScanId.ofPair m.sender (.ofTicket m.ticket) with
      | .error e => .error (.ofPairError e)
      | .ok _ => if s.attendee m.sender = none then .error .attendeeNotFound else .ok ()
  | redeem m =>
    if s.redeem ≠ some m.sender then .error (.unauthorized (.notRedeem m.sender))
    else match s.attendee (.ofTicket m.ticket) with
      | none => .error .attendeeNotFound
      | some x => if x.unclaimedWinnings.isEmpty then .error .noUnclaimedWinnings else .ok ()

variable {members : List Address} {s : Store}

/-- An award can always be made. -/
theorem Store.Sound.award_run (hs : s.Sound members) (points : UInt64) (x : Attendee) :
    (Award.awardPoints points x).run s = (.ok (s.awarded points x), s.handOut points x) :=
  Award.awardPoints_run hs.prizes_run points x

namespace Custody

/-- What a keying answers. -/
theorem grantKey_verdict (hs : s.Sound members) (m : KeyGrant) :
    ((grantKey m).run s).1 = (Operation.key m).verdict s := by
  have haccount := hs.rows.account_run m.attendee
  rw [grantKey, Access.run_bind_of_ok hs.master_run, Operation.verdict]
  by_cases hmaster : s.master = some m.master
  · rw [if_neg (not_not_intro hmaster), if_neg (not_not_intro hmaster),
      Access.run_bind_of_ok haccount]
    cases hx : s.account m.attendee with
    | none => rfl
    | some x =>
      have hknown := hs.attendee_run m.attendee
      dsimp only
      rw [Access.run_bind_of_ok hknown, if_neg (Option.some_ne_none x), Store.attendeeOrBlank]
      split_ifs <;> rfl
  · rw [if_pos hmaster, if_pos hmaster]
    rfl

/-- What a claim answers. -/
theorem claimKey_verdict (hs : s.Sound members) (m : KeyClaim) :
    ((claimKey m).run s).1 = (Operation.claimKey m).verdict s := by
  rw [claimKey, Operation.verdict]
  cases hx : s.attendee m.attendee with
  | none => rw [Access.run_bind_of_error (hs.knownAttendee_run_none hx)]
  | some x =>
    rw [Access.run_bind_of_ok (hs.knownAttendee_run hx)]
    dsimp only
    split_ifs
    · rfl
    · rfl
    · rw [Access.run_bind_of_ok (hs.rows.account_run m.attendee),
        Access.run_bind_of_ok (hs.award_run _ _)]
      rfl

end Custody

namespace Meeting

/-- Two who are a pair can always meet. -/
theorem meet_run {sender : Address} {id : ScanId} {a b : Attendee} (hs : s.Sound members)
    (hpair : ScanId.ofPair sender b.address = .ok id) (time : Int64) :
    ∃ p t, (meet sender time id a b).run s = (.ok p, t) := by
  rw [meet, Access.run_bind_of_ok (hs.scan_run id)]
  cases hmeeting : s.meeting id with
  | some scan => exact ⟨_, _, rfl⟩
  | none =>
    have hnew : (Access.ofExcept ((Scan.new sender b.address time).mapError
        LedgerError.ofPairError)).run s = (.ok ⟨id, ⟨sender, .empty, 0⟩, ⟨b.address, .empty, 0⟩,
          time⟩, s) := by
      rw [Scan.new, hpair]
      rfl
    have hfirst := hs.award_run Award.scanPoints a
    have hsecond := (hs.handOut Award.scanPoints a).award_run Award.scanPoints b
    dsimp only
    rw [Access.run_bind_of_ok hnew, Access.run_bind_of_ok hfirst, Access.run_bind_of_ok hsecond]
    exact ⟨_, _, rfl⟩

/-- Sharing never fails. -/
theorem share_run (hs : s.Sound members) (a : Address) (data : Blob) (p : Parties) :
    ∃ q t, (share a data p).run s = (.ok q, t) := by
  rw [share]
  split_ifs
  · rw [Access.run_bind_of_ok (hs.award_run _ _)]
    exact ⟨_, _, rfl⟩
  · exact ⟨_, _, rfl⟩

/-- What a scan answers. -/
theorem scanBadge_verdict (hs : s.Sound members) (time : Int64) (m : BadgeScan) :
    ((scanBadge time m).run s).1 = (Operation.scanQr m).verdict s := by
  rw [scanBadge, Operation.verdict]
  cases hscanned : s.attendee (.ofTicket m.ticket) with
  | none =>
    rw [Access.run_bind_of_error (hs.knownAttendee_run_none hscanned)]
    rfl
  | some scanned =>
    have haddress := (hs.attendee hscanned).2
    rw [Access.run_bind_of_ok (hs.knownAttendee_run hscanned), haddress,
      if_neg (Option.some_ne_none scanned)]
    cases hpair : ScanId.ofPair m.sender (.ofTicket m.ticket) with
    | error e => rfl
    | ok id =>
      have hid : (Access.ofExcept (Except.mapError LedgerError.ofPairError
          (.ok id : Except PairError ScanId))).run s = (.ok id, s) := rfl
      rw [Access.run_bind_of_ok hid]
      cases hsender : s.attendee m.sender with
      | none =>
        rw [Access.run_bind_of_error (hs.knownAttendee_run_none hsender)]
        rfl
      | some sender =>
        rw [← haddress] at hpair
        obtain ⟨met, t, hmeet⟩ := meet_run (a := sender) hs hpair time
        have ht := (meet_awarding hmeet).sound hs
        obtain ⟨shared, u, hshare⟩ := share_run ht m.sender m.data met.listed
        rw [Access.run_bind_of_ok (hs.knownAttendee_run hsender), Access.run_bind_of_ok hmeet]
        exact congrArg Prod.fst (Access.run_bind_of_ok hshare _)

end Meeting

/-- What a redemption answers. -/
theorem Booth.collect_verdict (hs : s.Sound members) (m : Redemption) :
    ((collect m).run s).1 = (Operation.redeem m).verdict s := by
  rw [collect, Access.run_bind_of_ok hs.redeem_run, Operation.verdict]
  by_cases hredeem : s.redeem = some m.sender
  · rw [if_neg (not_not_intro hredeem), if_neg (not_not_intro hredeem)]
    cases hx : s.attendee (.ofTicket m.ticket) with
    | none => rw [Access.run_bind_of_error (hs.knownAttendee_run_none hx)]
    | some x =>
      rw [Access.run_bind_of_ok (hs.knownAttendee_run hx)]
      dsimp only
      split_ifs <;> rfl
  · rw [if_pos hredeem, if_pos hredeem]
    rfl

namespace Operation

/-- What an operation answers is its verdict on the records. -/
theorem run_eq_verdict (hs : s.Sound members) (op : Operation) (time : Int64) :
    ((op.program time).run s).1 = op.verdict s := by
  cases op with
  | key m => exact Custody.grantKey_verdict hs m
  | claimKey m => exact Custody.claimKey_verdict hs m
  | scanQr m => exact Meeting.scanBadge_verdict hs time m
  | redeem m => exact Booth.collect_verdict hs m

/-- An operation that goes through is executed as it runs. -/
theorem execute_of_verdict_ok (hs : s.Sound members) {op : Operation} (time : Int64)
    (h : op.verdict s = .ok ()) :
    ∃ t, (op.program time).run s = (.ok (), t) ∧ op.execute time s = (.ok (), t) := by
  rw [← run_eq_verdict hs op time] at h
  have hrun : (op.program time).run s = (.ok (), ((op.program time).run s).2) := Prod.ext h rfl
  refine ⟨_, hrun, ?_⟩
  rw [execute, Access.atomically_eq, hrun]

/-- What an operation answers when it is executed is its verdict as well. -/
theorem execute_eq_verdict (hs : s.Sound members) (op : Operation) (time : Int64) :
    (op.execute time s).1 = op.verdict s := by
  rw [← run_eq_verdict hs op time, execute, Access.atomically_eq]
  rcases (op.program time).run s with ⟨⟨e⟩ | ⟨⟨⟩⟩, t⟩ <;> rfl

/-- An operation that does not go through leaves the store. -/
theorem execute_of_verdict_error (hs : s.Sound members) {op : Operation} {time : Int64}
    {e : LedgerError} (h : op.verdict s = .error e) : op.execute time s = (.error e, s) := by
  rw [← run_eq_verdict hs op time] at h
  have hrun : (op.program time).run s = (.error e, ((op.program time).run s).2) := Prod.ext h rfl
  rw [execute, Access.atomically_eq, hrun]

end Operation

end ConferenceLedger

import ConferenceLedger.Ledger.Execution
import ConferenceLedger.Proofs.Ledger.Award

/-!
# What a successful operation does

For each operation there is one account of what it found in the store when it succeeded and
of the store that it leaves. All that is proved about operations is proved from these.
-/

namespace ConferenceLedger

/-- The store with the record of an attendee: what it holds, or a blank one. -/
def Store.attendeeOrBlank (s : Store) (a : Address) : Attendee := (s.attendee a).getD (.blank a)

namespace Custody

/-- The record of an attendee who is keyed. -/
def keyed (m : KeyGrant) (x : Attendee) : Attendee :=
  { x with pubKey := some m.newKey, commitment := some m.commitment }

/-- The record of an attendee who has claimed, before the award. -/
def claimed (m : KeyClaim) (installed : Option PublicKey) (x : Attendee) : Attendee :=
  { x with
    pubKey := installed.or x.pubKey
    commitment := none
    claimed := true
    name := m.name
    rsaPublicKey := m.rsaPublicKey
    encryptedInfo := m.encryptedInfo }

/-- A key is installed by the keying service, on an account that is there, for an attendee who
has none. -/
theorem grantKey_run_ok {m : KeyGrant} {s t : Store} (h : (grantKey m).run s = (.ok (), t)) :
    s.master = some m.master ∧ (s.attendeeOrBlank m.attendee).isKeyed = false ∧
      ∃ account, s.account m.attendee = some account ∧
        t = s.fileAll [.account { account with pubKey := some m.newKey },
          .attendee (keyed m (s.attendeeOrBlank m.attendee))] := by
  obtain ⟨master, u, hmaster, h⟩ := Access.run_bind_ok.mp h
  obtain ⟨rfl, rfl⟩ := Records.read_run_ok hmaster
  obtain ⟨hm, h⟩ := Access.run_guard_ok.mp h
  obtain ⟨account, u, haccount, h⟩ := Access.run_bind_ok.mp h
  obtain ⟨rfl, rfl⟩ := Records.read_run_ok haccount
  cases hacc : s.record? Account (StoreKey.account m.attendee) with
  | none =>
    rw [hacc] at h
    cases h
  | some account =>
    rw [hacc] at h
    obtain ⟨known, u, hknown, h⟩ := Access.run_bind_ok.mp h
    obtain ⟨rfl, rfl⟩ := Records.read_run_ok hknown
    obtain ⟨hkeyed, h⟩ := Access.run_guard_ok.mp h
    cases h
    exact ⟨Decidable.not_not.mp hm, Bool.eq_false_iff.mpr hkeyed, account, hacc, rfl⟩

/-- The errors of a keying. -/
theorem grantKey_run_error {m : KeyGrant} {s t : Store} {e : LedgerError}
    (h : (grantKey m).run s = (.error e, t)) : (∃ d, e = .codec d) ∨
      e = .unauthorized (.notMaster m.master) ∨ e = .attendeeNotFound ∨ e = .attendeeKeyed := by
  rcases Access.run_bind_error h with hmaster | ⟨master, u, -, h⟩
  · exact Or.inl (Records.read_run_error hmaster)
  · split_ifs at h
    · cases h
      exact Or.inr (Or.inl rfl)
    · rcases Access.run_bind_error h with haccount | ⟨account, u, -, h⟩
      · exact Or.inl (Records.read_run_error haccount)
      · cases account with
        | none =>
          cases h
          exact Or.inr (Or.inr (Or.inl rfl))
        | some account =>
          rcases Access.run_bind_error h with hknown | ⟨known, u, -, h⟩
          · exact Or.inl (Records.read_run_error hknown)
          · dsimp only at h
            split_ifs at h
            · cases h
              exact Or.inr (Or.inr (Or.inr rfl))
            · cases h

/-- An account is claimed once, by opening the commitment. -/
theorem claimKey_run_ok {m : KeyClaim} {s t : Store} (h : (claimKey m).run s = (.ok (), t)) :
    ∃ x, s.attendee m.attendee = some x ∧ x.claimed = false ∧ reveals x m.secret = true ∧
      ∃ y, y = claimed m ((s.account m.attendee).bind (·.pubKey)) x ∧
        t = (s.handOut Award.claimPoints y).file
          (.attendee (s.awarded Award.claimPoints y)) := by
  obtain ⟨x, u, hknown, h⟩ := Access.run_bind_ok.mp h
  obtain ⟨rfl, hx⟩ := Records.knownAttendee_run_ok hknown
  obtain ⟨hclaimed, h⟩ := Access.run_guard_ok.mp h
  obtain ⟨hreveals, h⟩ := Access.run_guard_ok.mp h
  obtain ⟨account, u, haccount, h⟩ := Access.run_bind_ok.mp h
  obtain ⟨rfl, rfl⟩ := Records.read_run_ok haccount
  obtain ⟨y, u, haward, h⟩ := Access.run_bind_ok.mp h
  obtain ⟨rfl, rfl⟩ := Award.awardPoints_run_ok haward
  cases h
  exact ⟨x, hx, by simpa using hclaimed, by simpa using hreveals, _, rfl, rfl⟩

end Custody

namespace Meeting

/-- A meeting that is there is left alone; a new one awards both attendees. -/
theorem meet_run_ok {sender : Address} {time : Int64} {id : ScanId} {a b : Attendee}
    {p : Parties} {s t : Store} (h : (meet sender time id a b).run s = (.ok p, t)) :
    (∃ scan, s.meeting id = some scan ∧ p = ⟨scan, a, b⟩ ∧ t = s) ∨
      (s.meeting id = none ∧ ∃ scan, Scan.new sender b.address time = .ok scan ∧
        p = ⟨scan.addPoints Award.scanPoints Award.scanPoints, s.awarded Award.scanPoints a,
          (s.handOut Award.scanPoints a).awarded Award.scanPoints b⟩ ∧
        t = (s.handOut Award.scanPoints a).handOut Award.scanPoints b) := by
  obtain ⟨found, u, hread, h⟩ := Access.run_bind_ok.mp h
  obtain ⟨rfl, rfl⟩ := Records.scan_run_ok hread
  cases hmeeting : s.meeting id with
  | some scan =>
    rw [hmeeting] at h
    cases h
    exact Or.inl ⟨scan, rfl, rfl, rfl⟩
  | none =>
    rw [hmeeting] at h
    obtain ⟨scan, u, hnew, h⟩ := Access.run_bind_ok.mp h
    obtain ⟨rfl, hscan⟩ := Access.run_mapError_ok hnew
    obtain ⟨a', u, hfirst, h⟩ := Access.run_bind_ok.mp h
    obtain ⟨rfl, rfl⟩ := Award.awardPoints_run_ok hfirst
    obtain ⟨b', u, hsecond, h⟩ := Access.run_bind_ok.mp h
    obtain ⟨rfl, rfl⟩ := Award.awardPoints_run_ok hsecond
    cases h
    exact Or.inr ⟨rfl, scan, hscan, rfl, rfl⟩

/-- Whether a scan shares data: the sender has shared nothing yet and shares something now. -/
def shares (sender : Address) (data : Blob) (scan : Scan) : Bool :=
  (scan.side sender).data.isEmpty && !data.isEmpty

/-- Sharing data fills the side of the sender and awards the sender; else nothing happens. -/
theorem share_run_ok {sender : Address} {data : Blob} {p q : Parties} {s t : Store}
    (h : (share sender data p).run s = (.ok q, t)) :
    (shares sender data p.scan = true ∧
      q = { p with
        scan := p.scan.updateSide sender (·.share data.bytes Award.sharePoints)
        sender := s.awarded Award.sharePoints p.sender } ∧
      t = s.handOut Award.sharePoints p.sender) ∨
    (shares sender data p.scan = false ∧ q = p ∧ t = s) := by
  by_cases hshares : ((p.scan.side sender).data.isEmpty && !data.isEmpty) = true
  · rw [share, if_pos hshares] at h
    obtain ⟨a, u, haward, h⟩ := Access.run_bind_ok.mp h
    obtain ⟨rfl, rfl⟩ := Award.awardPoints_run_ok haward
    cases h
    exact Or.inl ⟨hshares, rfl, rfl⟩
  · rw [share, if_neg hshares] at h
    cases h
    exact Or.inr ⟨Bool.eq_false_iff.mpr hshares, rfl, rfl⟩

/-- All that a meeting changes of the store is the stock of prizes. -/
theorem meet_awarding {sender : Address} {time : Int64} {id : ScanId} {a b : Attendee}
    {p : Parties} {s t : Store} (h : (meet sender time id a b).run s = (.ok p, t)) :
    s.Awarding t := by
  rcases meet_run_ok h with ⟨-, -, -, rfl⟩ | ⟨-, -, -, -, rfl⟩
  · exact .none t
  · exact ((Store.Awarding.none s).award _ _).award _ _

/-- All that sharing changes of the store is the stock of prizes. -/
theorem share_awarding {sender : Address} {data : Blob} {p q : Parties} {s t : Store}
    (h : (share sender data p).run s = (.ok q, t)) : s.Awarding t := by
  rcases share_run_ok h with ⟨-, -, rfl⟩ | ⟨-, -, rfl⟩
  · exact (Store.Awarding.none s).award _ _
  · exact .none t

/-- The parties with the meeting listed by both. -/
def Parties.listed (p : Parties) : Parties :=
  { p with
    sender := p.sender.addScanId p.scan.id
    scanned := p.scanned.addScanId p.scan.id }

/-- The rows of the parties. -/
def Parties.rows (p : Parties) : List Row :=
  [.meeting p.scan, .attendee p.sender, .attendee p.scanned]

/-- A scan finds both attendees, who are a pair; they meet, list the meeting, may share, and
all three records are written. -/
theorem scanBadge_run_ok {time : Int64} {m : BadgeScan} {s t : Store}
    (h : (scanBadge time m).run s = (.ok (), t)) :
    ∃ scanned sender id, s.attendee (.ofTicket m.ticket) = some scanned ∧
      s.attendee m.sender = some sender ∧ ScanId.ofPair m.sender scanned.address = .ok id ∧
      ∃ met u shared v, (meet m.sender time id sender scanned).run s = (.ok met, u) ∧
        (share m.sender m.data met.listed).run u = (.ok shared, v) ∧
        t = v.fileAll shared.rows := by
  obtain ⟨scanned, u, hfound, h⟩ := Access.run_bind_ok.mp h
  obtain ⟨rfl, hscanned⟩ := Records.knownAttendee_run_ok hfound
  obtain ⟨id, u, hid, h⟩ := Access.run_bind_ok.mp h
  obtain ⟨rfl, hpair⟩ := Access.run_mapError_ok hid
  obtain ⟨sender, u, hknown, h⟩ := Access.run_bind_ok.mp h
  obtain ⟨rfl, hsender⟩ := Records.knownAttendee_run_ok hknown
  obtain ⟨met, u, hmeet, h⟩ := Access.run_bind_ok.mp h
  obtain ⟨shared, v, hshare, h⟩ := Access.run_bind_ok.mp h
  cases h
  exact ⟨scanned, sender, id, hscanned, hsender, hpair, met, u, shared, v, hmeet, hshare, rfl⟩

end Meeting

namespace Booth

/-- Wins are collected by the redeeming service, from an attendee who has some left. -/
theorem collect_run_ok {m : Redemption} {s t : Store} (h : (collect m).run s = (.ok (), t)) :
    s.redeem = some m.sender ∧ ∃ x, s.attendee (.ofTicket m.ticket) = some x ∧
      x.unclaimedWinnings ≠ [] ∧ t = s.file (.attendee x.collectWinnings) := by
  obtain ⟨redeem, u, hredeem, h⟩ := Access.run_bind_ok.mp h
  obtain ⟨rfl, rfl⟩ := Records.read_run_ok hredeem
  obtain ⟨hr, h⟩ := Access.run_guard_ok.mp h
  obtain ⟨x, u, hknown, h⟩ := Access.run_bind_ok.mp h
  obtain ⟨rfl, hx⟩ := Records.knownAttendee_run_ok hknown
  obtain ⟨hempty, h⟩ := Access.run_guard_ok.mp h
  cases h
  exact ⟨Decidable.not_not.mp hr, x, hx, by simpa using hempty, rfl⟩

end Booth

end ConferenceLedger

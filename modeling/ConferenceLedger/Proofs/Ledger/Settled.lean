import ConferenceLedger.Proofs.Ledger.Events
import ConferenceLedger.Proofs.Ledger.History
import ConferenceLedger.Proofs.Ledger.ScanOrder

/-!
# Settled shares

Who has shared something in a meeting has shared for good. A later scan of the same badge by the
same attendee still writes three records, whatever data it brings, and each of them as it stands:
the side of the sender is filled, both list the meeting, and nothing is awarded. Every operation
keeps what has been shared, so this holds of every later state.
-/

namespace ConferenceLedger

/-- The side of an attendee grows with the meeting. -/
theorem Scan.GrowsInto.side {x y : Scan} (h : x.GrowsInto y) (a : Address) :
    (x.side a).GrowsInto (y.side a) := by
  rw [Scan.side, Scan.side, h.first.address]
  split_ifs
  · exact h.first
  · exact h.second

/-- Who joins a meeting joins what it has grown into. -/
theorem Scan.GrowsInto.joins {x y : Scan} (h : x.GrowsInto y) {a : Address} (ha : x.Joins a) :
    y.Joins a := by
  rw [Scan.Joins, h.first.address, h.second.address]
  exact ha

/-- A side that is filled stays so when the meeting grows. -/
theorem Scan.Filled.of_growsInto {x y : Scan} {a : Address} (hx : x.Filled a)
    (h : x.GrowsInto y) : y.Filled a := by
  refine ⟨h.joins hx.1, ?_⟩
  rw [(h.side a).data hx.2]
  exact hx.2

/-- A side that is filled shares nothing more, whatever is brought. -/
theorem Scan.Filled.not_shares {x : Scan} {a : Address} (hx : x.Filled a) (data : Blob) :
    Meeting.shares a data x = false := by
  rw [Meeting.shares, hx.2, Bool.false_and]

/-- A scan of two who are there and have met, the sender of which has shared something. -/
structure BadgeScan.Settled (s : Store) (id : ScanId) (m : BadgeScan) : Prop extends
    m.Meets s id where
  /-- The sender has shared something in the meeting. -/
  shared : s.Filled m.sender id

namespace Store

variable {members : List Address} {s t : Store}

/-- Filing an attendee of a store as found leaves the store. -/
theorem Sound.file_attendee (hs : s.Sound members) {a : Address} {x : Attendee}
    (h : s.attendee a = some x) : s.file (.attendee x) = s := by
  obtain ⟨-, haddress, hget⟩ := hs.rows.of_attendee (fun _ hx => hx.fits hs.countable) h
  rw [← haddress] at hget
  exact set_of_get? hget

/-- Filing a meeting of a store as found leaves the store. -/
theorem Sound.file_meeting (hs : s.Sound members) {id : ScanId} {x : Scan}
    (h : s.meeting id = some x) : s.file (.meeting x) = s := by
  obtain ⟨-, hget⟩ := hs.rows.meeting_filed (fun _ hx => hx.fits) h
  rw [← (hs.meeting h).2] at hget
  exact set_of_get? hget

/-- Filing the records of a meeting and its two attendees as found leaves the store. -/
theorem Sound.fileAll_rows (hs : s.Sound members) {p : Meeting.Parties} {a b : Address}
    {id : ScanId} (hscan : s.meeting id = some p.scan) (hsender : s.attendee a = some p.sender)
    (hscanned : s.attendee b = some p.scanned) : s.fileAll p.rows = s := by
  rw [Meeting.Parties.rows, fileAll_cons, fileAll_cons, fileAll_cons, fileAll_nil,
    hs.file_meeting hscan, hs.file_attendee hsender, hs.file_attendee hscanned]

end Store

namespace Operation.Effect

variable {members : List Address} {op : Operation} {time : Int64} {s t : Store}

/-- Who is there is there after every operation. -/
theorem attendee_ne_none (h : op.Effect members time s t) {a : Address}
    (ha : s.attendee a ≠ none) : t.attendee a ≠ none := by
  have hrewritten : ∀ {b : Address} {y : Attendee}, s.Rewrites t b y → t.attendee a ≠ none := by
    intro b y hrecords
    rw [hrecords.attendee]
    split_ifs
    · exact Option.some_ne_none y
    · exact ha
  cases h with
  | keyed hop hmaster haccount hkey hrecords hprizes => exact hrewritten hrecords
  | claimed hop hx hclaimed hreveals hy hrecords hprizes => exact hrewritten hrecords
  | met hop e =>
    rw [e.attendee]
    split_ifs
    · exact Option.some_ne_none _
    · exact Option.some_ne_none _
    · exact ha
  | collected hop hredeem hx hrecords hprizes => exact hrewritten hrecords

/-- What was shared is shared after every operation. -/
theorem filled (h : op.Effect members time s t) {a : Address} {id : ScanId}
    (hfilled : s.Filled a id) : t.Filled a id := by
  obtain ⟨x, hx, hside⟩ := hfilled
  obtain ⟨y, hy, hxy⟩ := h.meeting_growsInto hx
  exact ⟨y, hy, hside.of_growsInto hxy⟩

end Operation.Effect

/-- After a scan that brings data the sender's share is settled. -/
theorem Meeting.Encounter.settled {members : List Address} {time : Int64} {m : BadgeScan}
    {s t : Store} (e : Encounter members time m s t) (hdata : m.data.isEmpty = false) :
    m.Settled t e.id where
  sender := by
    rw [e.attendee, if_neg e.ne.symm, if_pos rfl]
    exact Option.some_ne_none _
  scanned := by
    rw [e.attendee, if_pos rfl]
    exact Option.some_ne_none _
  pair := e.pair
  shared := (e.filled m.sender e.id).mpr (Or.inr ⟨rfl, rfl, hdata⟩)

namespace BadgeScan.Settled

variable {members : List Address} {s t : Store} {id : ScanId} {m : BadgeScan}

/-- A settled share stays settled when a sequence is counted up. -/
theorem counted (h : m.Settled s id) (x : Account) : m.Settled (s.counted x) id where
  sender := by
    rw [Store.attendee_counted]
    exact h.sender
  scanned := by
    rw [Store.attendee_counted]
    exact h.scanned
  pair := h.pair
  shared := by
    rw [Store.Filled, Store.meeting_counted]
    exact h.shared

/-- A settled share stays settled in every operation. -/
theorem effect {op : Operation} {time : Int64} (h : m.Settled s id)
    (heffect : op.Effect members time s t) : m.Settled t id where
  sender := heffect.attendee_ne_none h.sender
  scanned := heffect.attendee_ne_none h.scanned
  pair := h.pair
  shared := heffect.filled h.shared

/-- It does not matter what data comes with the scan. -/
theorem withData (h : m.Settled s id) (data : Blob) :
    BadgeScan.Settled s id { m with data } :=
  ⟨⟨h.sender, h.scanned, h.pair⟩, h.shared⟩

/-- A scan whose share is settled goes through and leaves the store. -/
theorem execute (h : m.Settled s id) (hs : s.Sound members) (hindexed : s.Indexed)
    (time : Int64) : (Operation.scanQr m).execute time s = (.ok (), s) := by
  obtain ⟨t, hrun, hexecute⟩ :=
    Operation.execute_of_verdict_ok hs time (Meeting.verdict_of_meets h.toMeets)
  obtain ⟨scanned, sender, id', hscanned, hsender, hpair, met, u, shared, v, hmeet, hshare, rfl⟩ :=
    Meeting.scanBadge_run_ok hrun
  obtain ⟨x, hx, hfilled⟩ := h.shared
  obtain ⟨hsound, hxid⟩ := hs.meeting hx
  have hid : id' = id := by
    rw [(hs.attendee hscanned).2, h.pair] at hpair
    exact (Except.ok.inj hpair).symm
  subst hid
  -- the meeting is there, so nobody is awarded for it
  have hmet : met = ⟨x, sender, scanned⟩ ∧ u = s := by
    rcases Meeting.meet_run_ok hmeet with ⟨y, hy, hmet, hu⟩ | ⟨hnone, -⟩
    · have hsame : y = x := Option.some.inj (hy.symm.trans hx)
      rw [hsame] at hmet
      exact ⟨hmet, hu⟩
    · rw [hx] at hnone
      cases hnone
  obtain ⟨rfl, rfl⟩ := hmet
  -- both list it already
  have hjoins : ∀ a, x.Joins a ↔ m.sender = a ∨ .ofTicket m.ticket = a :=
    hsound.joins_iff (hxid ▸ h.pair)
  have hlistsSender : x.id ∈ sender.scanIds := by
    rw [hxid]
    exact (hindexed.mem_scanIds hsender).mpr ⟨x, hx, (hjoins _).mpr (Or.inl rfl)⟩
  have hlistsScanned : x.id ∈ scanned.scanIds := by
    rw [hxid]
    exact (hindexed.mem_scanIds hscanned).mpr ⟨x, hx, (hjoins _).mpr (Or.inr rfl)⟩
  have hlisted : (⟨x, sender, scanned⟩ : Meeting.Parties).listed = ⟨x, sender, scanned⟩ := by
    rw [Meeting.Parties.listed, Attendee.addScanId_of_mem hlistsSender,
      Attendee.addScanId_of_mem hlistsScanned]
  rw [hlisted] at hshare
  -- the side is filled, so nothing is shared
  rcases Meeting.share_run_ok hshare with ⟨hshares, -⟩ | ⟨-, rfl, rfl⟩
  · rw [hfilled.not_shares] at hshares
    cases hshares
  · rw [hs.fileAll_rows hx hsender hscanned] at hexecute
    exact hexecute

end BadgeScan.Settled

namespace Chain

variable {chainId : String} {g : Genesis} {c : Chain} {members : List Address}

/-- Every run of operations that fit from a sized genesis leaves what can be held, and the lists of
the attendees right. -/
theorem through_indexed (hg : g.Sized) (h : ofGenesis chainId g = .ok c) {es : List LedgerEvent}
    (hes : ∀ e ∈ es, Fits e.op) :
    (c.through es).store.Sound g.members ∧ (c.through es).store.Indexed :=
  through_keeps (fun _ x hindexed => hindexed.counted x)
    (fun _ _ _ _ hs hindexed heffect => heffect.indexed hindexed hs) (sound_of_genesis hg h)
    (indexed_of_genesis hg h) hes

/-- A scan that brings data and is carried out settles the share of its sender. -/
theorem settled_of_carriesOut (hs : c.store.Sound members) {e : LedgerEvent} (he : Fits e.op)
    {m : BadgeScan} (hop : e.op = .scanQr m) (hdata : m.data.isEmpty = false)
    (hdone : c.CarriesOut e) : ∃ id, m.Settled (c.happen e).store id := by
  obtain ⟨s, hsound, hrun⟩ := run_of_carriesOut hs hdone
  rw [hop] at hrun he
  obtain ⟨encounter⟩ := Meeting.encounter_of_run_ok hsound he hrun
  exact ⟨encounter.id, encounter.settled hdata⟩

/-- In every run of operations that fit from a sized genesis, by transactions or without, once a
scan that brings data has been carried out, the same attendee may scan the same badge with any data
and at any time in every later state: the scan goes through and leaves the store as it is. -/
theorem execute_settled (hg : g.Sized) (h : ofGenesis chainId g = .ok c)
    {es fs : List LedgerEvent} {e : LedgerEvent} (hfits : ∀ f ∈ es ++ e :: fs, Fits f.op)
    {m : BadgeScan} (hop : e.op = .scanQr m) (hdata : m.data.isEmpty = false)
    (hdone : (c.through es).CarriesOut e) (data : Blob) (time : Int64) :
    (Operation.scanQr { m with data }).execute time (c.through (es ++ e :: fs)).store =
      (.ok (), (c.through (es ++ e :: fs)).store) := by
  have hes : ∀ f ∈ es, Fits f.op := fun f hf => hfits f (List.mem_append_left _ hf)
  have hlater : ∀ f ∈ e :: fs, Fits f.op := fun f hf => hfits f (List.mem_append_right _ hf)
  have he := hlater e List.mem_cons_self
  have hfs : ∀ f ∈ fs, Fits f.op := fun f hf => hlater f (List.mem_cons_of_mem e hf)
  have hs := (through_indexed hg h hes).1
  obtain ⟨hlast, hindexed⟩ := through_indexed hg h hfits
  obtain ⟨id, hsettled⟩ := settled_of_carriesOut hs he hop hdata hdone
  have hkept : m.Settled (c.through (es ++ e :: fs)).store id := by
    rw [through_append]
    exact (through_keeps (P := (m.Settled · id)) (fun _ x hsettled => hsettled.counted x)
      (fun _ _ _ _ _ hsettled heffect => hsettled.effect heffect) (happen_sound hs he) hsettled
      hfs).2
  exact (hkept.withData data).execute hlast hindexed time

end Chain

namespace SmallLedger

/-- The keying and the claim. -/
def opening : List LedgerEvent := lifecycle.map .delivery

/-- The second attendee scans the first and shares data, without a transaction. -/
def scanBack : LedgerEvent := .operation (.scanQr ⟨.ofTicket "2", "1", ⟨[8]⟩⟩) 9

/-- The keying, the claim and both scans fit. -/
theorem fits_scanBack : ∀ f ∈ opening ++ .delivery scan :: [scanBack], Fits f.op := by
  intro f hf
  rcases List.mem_append.mp hf with hf | hf
  · obtain ⟨d, hd, rfl⟩ := List.mem_map.mp hf
    exact fits_lifecycle d hd
  · simp only [List.mem_cons, List.not_mem_nil, or_false] at hf
    rcases hf with rfl | rfl
    · exact fits_encounter scan (List.mem_append_right _ (List.mem_singleton.mpr rfl))
    · have hticket : (Bytes.ofText "1").length < UInt64.size := by decide
      have hdata : 2 * ([8] : Bytes).length < UInt64.size := by decide
      exact ⟨hticket, hdata⟩

/-- The first scan is carried out. -/
theorem carriesOut_scan : (pairChain.through opening).CarriesOut (.delivery scan) := by
  rw [opening, Chain.through_deliveries]
  exact Chain.code_of_answers [0, 0] codes_encounter

end SmallLedger

namespace Chain

/-- On the ledger of two attendees one of them is keyed, claims the account, scans the other and
shares something. The other scans back without a transaction and shares as well, and after this the
first scans again with other data and leaves the store as it is. -/
theorem execute_settled_scanBack :
    SmallLedger.pair.Sized ∧ ofGenesis "test-chain" SmallLedger.pair = .ok SmallLedger.pairChain ∧
      (∀ f ∈ SmallLedger.opening ++ .delivery SmallLedger.scan :: [SmallLedger.scanBack],
        Fits f.op) ∧
      (⟨[7]⟩ : Blob).isEmpty = false ∧
      (SmallLedger.pairChain.through SmallLedger.opening).CarriesOut
        (.delivery SmallLedger.scan) ∧
      (Operation.scanQr ⟨.ofTicket "1", "2", ⟨[8, 9]⟩⟩).execute 30
          (SmallLedger.pairChain.through (SmallLedger.opening ++
            .delivery SmallLedger.scan :: [SmallLedger.scanBack])).store =
        (.ok (), (SmallLedger.pairChain.through (SmallLedger.opening ++
          .delivery SmallLedger.scan :: [SmallLedger.scanBack])).store) :=
  ⟨SmallLedger.sized_pair, SmallLedger.ofGenesis_pair, SmallLedger.fits_scanBack, rfl,
    SmallLedger.carriesOut_scan,
    execute_settled SmallLedger.sized_pair SmallLedger.ofGenesis_pair SmallLedger.fits_scanBack rfl
      rfl SmallLedger.carriesOut_scan _ _⟩

end Chain

end ConferenceLedger

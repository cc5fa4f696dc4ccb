import ConferenceLedger.Proofs.Ledger.Effects
import ConferenceLedger.Proofs.Ledger.Lifecycle

/-!
# Who lists a meeting

Meetings are stored under the identifier of their pair, and every attendee lists identifiers of
meetings. Every operation keeps it so that an attendee lists exactly the stored meetings in which
the attendee has a side. So the meetings of an attendee can be read, and they are read once each.
-/

namespace ConferenceLedger

/-- An attendee who has a side of a meeting. -/
def Scan.Joins (a : Address) (x : Scan) : Prop := x.first.address = a ∨ x.second.address = a

/-- Who joins the meeting of a pair is one of the pair. -/
theorem Scan.Sound.joins_iff {x : Scan} (h : x.Sound) {a b : Address}
    (hpair : ScanId.ofPair a b = .ok x.id) (c : Address) : x.Joins c ↔ a = c ∨ b = c := by
  rw [Joins]
  rcases ScanId.ofPair_inj h.pair hpair with ⟨hfirst, hsecond⟩ | ⟨hfirst, hsecond⟩
  · rw [hfirst, hsecond]
  · rw [hfirst, hsecond]
    exact or_comm

namespace Attendee

/-- Who lists a meeting does not change by listing it. -/
theorem addScanId_of_mem {i : ScanId} {x : Attendee} (h : i ∈ x.scanIds) : x.addScanId i = x := by
  have hlists : x.listsScan i = true := List.contains_iff_mem.mpr h
  rw [addScanId, if_pos hlists]

/-- A meeting is added to the list unless it is there. -/
theorem scanIds_addScanId (i : ScanId) (x : Attendee) :
    (x.addScanId i).scanIds = if i ∈ x.scanIds then x.scanIds else x.scanIds ++ [i] := by
  by_cases hlisted : i ∈ x.scanIds
  · rw [addScanId_of_mem hlisted, if_pos hlisted]
  · have hlists : ¬x.listsScan i = true := fun h => hlisted (List.contains_iff_mem.mp h)
    rw [addScanId, if_neg hlists, if_neg hlisted]

/-- Who adds a meeting to the list lists this meeting and those of before. -/
theorem mem_scanIds_addScanId {i j : ScanId} {x : Attendee} :
    j ∈ (x.addScanId i).scanIds ↔ j ∈ x.scanIds ∨ j = i := by
  rw [scanIds_addScanId]
  split_ifs with hlisted
  · constructor
    · exact Or.inl
    · rintro (hj | rfl)
      · exact hj
      · exact hlisted
  · rw [List.mem_append, List.mem_singleton]

end Attendee

namespace Meeting.Encounter

variable {members : List Address} {time : Int64} {m : BadgeScan} {s t : Store}

/-- Both list the meeting. -/
theorem scanIds (e : Encounter members time m s t) :
    e.shared.sender.scanIds = (e.sender.addScanId e.id).scanIds ∧
      e.shared.scanned.scanIds = (e.scanned.addScanId e.id).scanIds := by
  have hid : e.met.scan.id = e.id := (id_of_share e.shares).symm.trans e.id_shared
  have hmet : e.met.sender.scanIds = e.sender.scanIds ∧
      e.met.scanned.scanIds = e.scanned.scanIds := by
    rcases meet_run_ok e.meets with ⟨scan, -, hp, -⟩ | ⟨-, scan, -, hp, -⟩
    all_goals
      rw [hp]
      exact ⟨rfl, rfl⟩
  have hshared : e.shared.sender.scanIds = e.met.listed.sender.scanIds ∧
      e.shared.scanned.scanIds = e.met.listed.scanned.scanIds := by
    rcases share_run_ok e.shares with ⟨-, hp, -⟩ | ⟨-, hp, -⟩
    all_goals
      rw [hp]
      exact ⟨rfl, rfl⟩
  constructor
  · rw [hshared.1, Parties.listed, Attendee.scanIds_addScanId, Attendee.scanIds_addScanId, hid,
      hmet.1]
  · rw [hshared.2, Parties.listed, Attendee.scanIds_addScanId, Attendee.scanIds_addScanId, hid,
      hmet.2]

/-- After a scan the two list their meeting besides those of before, and nobody else lists more. -/
theorem mem_scanIds (e : Encounter members time m s t) (a : Address) (i : ScanId) :
    i ∈ (t.attendeeOrBlank a).scanIds ↔ i ∈ (s.attendeeOrBlank a).scanIds ∨
      i = e.id ∧ (m.sender = a ∨ .ofTicket m.ticket = a) := by
  rw [e.attendeeOrBlank]
  by_cases hscanned : Address.ofTicket m.ticket = a
  · rw [if_pos hscanned, e.scanIds.2, Attendee.mem_scanIds_addScanId, ← hscanned,
      Store.attendeeOrBlank_of_attendee e.found_scanned]
    simp
  · by_cases hsender : m.sender = a
    · rw [if_neg hscanned, if_pos hsender, e.scanIds.1, Attendee.mem_scanIds_addScanId, ← hsender,
        Store.attendeeOrBlank_of_attendee e.found_sender]
      simp
    · rw [if_neg hscanned, if_neg hsender]
      simp [hscanned, hsender]

end Meeting.Encounter

/-- A store in which every attendee lists exactly the meetings that the attendee joins. -/
def Store.Indexed (s : Store) : Prop :=
  ∀ a id, id ∈ (s.attendeeOrBlank a).scanIds ↔ ∃ x, s.meeting id = some x ∧ x.Joins a

namespace Store.Indexed

variable {members : List Address} {s t : Store}

/-- Counting up a sequence keeps the index. -/
theorem counted (hs : s.Indexed) (x : Account) : (s.counted x).Indexed := by
  intro a id
  rw [attendeeOrBlank_counted, meeting_counted]
  exact hs a id

/-- Rewriting an attendee who keeps the list keeps the index. -/
theorem of_rewrites (hs : s.Indexed) {b : Address} {y : Attendee} (h : s.Rewrites t b y)
    (hy : y.scanIds = (s.attendeeOrBlank b).scanIds) : t.Indexed := by
  intro a id
  have hlist : (t.attendeeOrBlank a).scanIds = (s.attendeeOrBlank a).scanIds := by
    rw [h.attendeeOrBlank]
    split_ifs with ha
    · rw [hy, ha]
    · rfl
  rw [hlist, h.meeting]
  exact hs a id

/-- A scan keeps the index: the meeting of the two is the only one that it writes, and they are
those who join it. -/
theorem of_encounter (hs : s.Indexed) (hsound : s.Sound members) {time : Int64} {m : BadgeScan}
    (e : Meeting.Encounter members time m s t) : t.Indexed := by
  intro a i
  rw [e.mem_scanIds, e.meeting]
  by_cases hi : i = e.id
  · subst hi
    have hpair : ScanId.ofPair m.sender (.ofTicket m.ticket) = .ok e.shared.scan.id := by
      rw [e.id_shared]
      exact e.pair
    have hnew : e.shared.scan.Joins a ↔ m.sender = a ∨ .ofTicket m.ticket = a :=
      e.shared_sound.scan.joins_iff hpair a
    -- whoever listed the meeting before joined it then, under the identifier of the same pair
    have hold : e.id ∈ (s.attendeeOrBlank a).scanIds →
        m.sender = a ∨ Address.ofTicket m.ticket = a := by
      intro hlisted
      obtain ⟨x, hx, hjoins⟩ := (hs a e.id).mp hlisted
      obtain ⟨hxsound, hxid⟩ := hsound.meeting hx
      exact (hxsound.joins_iff (hxid.symm ▸ e.pair) a).mp hjoins
    rw [if_pos rfl]
    constructor
    · rintro (hlisted | ⟨-, hparty⟩)
      · exact ⟨_, rfl, hnew.mpr (hold hlisted)⟩
      · exact ⟨_, rfl, hnew.mpr hparty⟩
    · rintro ⟨x, hx, hjoins⟩
      cases hx
      exact Or.inr ⟨rfl, hnew.mp hjoins⟩
  · rw [if_neg (Ne.symm hi), ← hs a i]
    simp [hi]

/-- An attendee of the store lists exactly the meetings that the attendee joins. -/
theorem mem_scanIds (hs : s.Indexed) {a : Address} {y : Attendee} (h : s.attendee a = some y)
    {id : ScanId} : id ∈ y.scanIds ↔ ∃ x, s.meeting id = some x ∧ x.Joins a := by
  rw [← attendeeOrBlank_of_attendee h]
  exact hs a id

/-- The meetings that an attendee lists can be read, in the order of the list. -/
theorem scansOf_run (hs : s.Indexed) (hsound : s.Sound members) {a : Address} {y : Attendee}
    (h : s.attendee a = some y) :
    (Records.scansOf a).run s = (.ok (y.scanIds.filterMap s.meeting), s) := by
  rw [Records.scansOf, Access.run_bind_of_ok (hsound.knownAttendee_run h)]
  apply Access.run_mapM_of_forall
  intro id hid
  obtain ⟨x, hx, -⟩ := (hs.mem_scanIds h).mp hid
  have hread := hsound.scan_run id
  rw [hx] at hread
  refine ⟨x, hx, ?_⟩
  rw [Access.run_bind_of_ok hread]
  rfl

/-- The meetings that an attendee lists are those that the attendee joins, each once. -/
theorem scansOf (hs : s.Indexed) (hsound : s.Sound members) {a : Address} {y : Attendee}
    (h : s.attendee a = some y) :
    (y.scanIds.filterMap s.meeting).map (·.id) = y.scanIds ∧
      (y.scanIds.filterMap s.meeting).Nodup ∧
      ∀ x, x ∈ y.scanIds.filterMap s.meeting ↔ s.meeting x.id = some x ∧ x.Joins a := by
  have hids : (y.scanIds.filterMap s.meeting).map (·.id) = y.scanIds := by
    rw [List.map_filterMap]
    have hsame : ∀ id ∈ y.scanIds, (s.meeting id).map (·.id) = some id := by
      intro id hid
      obtain ⟨x, hx, -⟩ := (hs.mem_scanIds h).mp hid
      rw [hx, Option.map_some, (hsound.meeting hx).2]
    rw [List.filterMap_congr hsame, List.filterMap_some]
  refine ⟨hids, ?_, ?_⟩
  · have hnodup := (hsound.attendee h).1.scanIds_nodup
    rw [← hids] at hnodup
    exact hnodup.of_map _
  · intro x
    rw [List.mem_filterMap]
    constructor
    · rintro ⟨id, hid, hx⟩
      obtain ⟨z, hz, hjoins⟩ := (hs.mem_scanIds h).mp hid
      rw [hx] at hz
      cases hz
      rw [(hsound.meeting hx).2]
      exact ⟨hx, hjoins⟩
    · rintro ⟨hx, hjoins⟩
      exact ⟨x.id, (hs.mem_scanIds h).mpr ⟨x, hx, hjoins⟩, hx⟩

end Store.Indexed

/-- Every operation keeps the index. -/
theorem Operation.Effect.indexed {members : List Address} {op : Operation} {time : Int64}
    {s t : Store} (h : op.Effect members time s t) (hs : s.Indexed) (hsound : s.Sound members) :
    t.Indexed := by
  cases h with
  | keyed hop hmaster haccount hkey hrecords hprizes => exact hs.of_rewrites hrecords rfl
  | claimed hop hx hclaimed hreveals hy hrecords hprizes =>
    refine hs.of_rewrites hrecords ?_
    rw [Store.attendeeOrBlank_of_attendee hx, hy]
    rfl
  | met hop e => exact hs.of_encounter hsound e
  | collected hop hredeem hx hrecords hprizes =>
    refine hs.of_rewrites hrecords ?_
    rw [Store.attendeeOrBlank_of_attendee hx]
    rfl

namespace SmallLedger

/-- Two attendees and the default prizes. -/
def pair : Genesis := genesis.withAttendee "2" "GA"

/-- The chain that starts from the genesis of two attendees. -/
def pairChain : Chain :=
  match Chain.ofGenesis "test-chain" pair with
  | .ok c => c
  | .error _ => ⟨"test-chain", 0, .empty⟩

/-- The first attendee scans the second and shares data, signed with the key that the keying
installs. -/
def scan : Delivery where
  tx :=
    { op := .scanQr ⟨.ofTicket "1", "2", ⟨[7]⟩⟩
      accountNumber := 2
      sequence := 1
      pubKey := attendeeKey
      signature := ⟨Bytes.ofNatBE 64
        0x3ab2b3ed7833f01f54cb8c0938b14d8c4f0b3ebde1e9f6fdbc49aa20bbdf027a994b62de8292261111191e625a0c9e7a1e4c69fa00c5f3165f82cf373c221605⟩ }
  time := 7

/-- The keying, the claim and the scan. -/
def encounter : List Delivery := lifecycle ++ [scan]

/-- The genesis of two attendees is accepted. -/
theorem ofGenesis_pair : Chain.ofGenesis "test-chain" pair = .ok pairChain := by
  have hok : (Chain.ofGenesis "test-chain" pair).isOk = true := by decide +kernel
  obtain ⟨c, hc⟩ := ofGenesis_of_isOk hok
  unfold pairChain
  rw [hc]

/-- The genesis of two attendees is sized. -/
theorem sized_pair : pair.Sized := by
  have hroster : ∀ e ∈ pair.attendees, (Bytes.ofText e.id).length < UInt64.size ∧
      (Bytes.ofText e.ticketClass).length < UInt64.size := by decide
  exact ⟨by decide, hroster, sized.prizes⟩

/-- The keying, the claim and the scan fit. -/
theorem fits_encounter : ∀ d ∈ encounter, Fits d.tx.op := by
  intro d hd
  rcases List.mem_append.mp hd with hd | hd
  · exact fits_lifecycle d hd
  · rw [List.mem_singleton.mp hd]
    have hticket : (Bytes.ofText "2").length < UInt64.size := by decide
    have hdata : 2 * ([7] : Bytes).length < UInt64.size := by decide
    exact ⟨hticket, hdata⟩

/-- All three are carried out. -/
theorem codes_encounter : (pairChain.answers encounter).map (·.2.code) = [0, 0, 0] := by
  decide +kernel

end SmallLedger

namespace Chain

variable {chainId : String} {g : Genesis} {c : Chain}

/-- In the store of a sized genesis nobody lists a meeting, and there is none. -/
theorem indexed_of_genesis (hg : g.Sized) (h : ofGenesis chainId g = .ok c) :
    c.store.Indexed := by
  intro a id
  have hlist : (c.store.attendeeOrBlank a).scanIds = [] := by
    rcases attendeeOrBlank_of_genesis hg h a with hblank | ⟨e, -, hticket⟩
    · rw [hblank]
      rfl
    · rw [hticket]
      rfl
  rw [hlist, meeting_of_genesis h]
  simp

/-- Every run of operations that fit from a sized genesis keeps the index. -/
theorem after_indexed (hg : g.Sized) (h : ofGenesis chainId g = .ok c) {ds : List Delivery}
    (hds : ∀ d ∈ ds, Fits d.tx.op) : (c.after ds).store.Indexed := by
  apply after_of_effects hg h hds (indexed_of_genesis hg h)
  · intro s x hs
    exact hs.counted x
  · intro op time s t hsound hs heffect
    exact heffect.indexed hs hsound

/-- A meeting that a chain has of two attendees. -/
structure HasMeeting (c : Chain) (x : Scan) : Prop where
  /-- The ledger finds the meeting under its identifier. -/
  found : (Records.scan x.id).eval c.store = .ok (some x)
  /-- The identifier is that of the pair. -/
  pair : ScanId.ofPair x.first.address x.second.address = .ok x.id
  /-- The two are different. -/
  distinct : x.first.address ≠ x.second.address
  /-- Both are somebody. -/
  somebody : x.first.address ≠ .zero ∧ x.second.address ≠ .zero
  /-- Both are attendees who list the meeting. -/
  listed : ∀ a, x.Joins a →
    ∃ y, (Records.attendee a).eval c.store = .ok (some y) ∧ x.id ∈ y.scanIds

/-- An attendee of a chain whose list is that of the meetings that the attendee joins. -/
structure ListsMeetings (c : Chain) (y : Attendee) : Prop where
  /-- The ledger finds the attendee under its address. -/
  found : (Records.attendee y.address).eval c.store = .ok (some y)
  /-- No meeting is listed twice. -/
  nodup : y.scanIds.Nodup
  /-- Every meeting that is listed is one that the chain has and the attendee joins. -/
  joined : ∀ id ∈ y.scanIds, ∃ x, x.id = id ∧ c.HasMeeting x ∧ x.Joins y.address
  /-- The ledger answers who asks for the meetings of the attendee with those of the list. They are
  the meetings that the attendee joins, each once. -/
  answered : ∃ xs, (Records.scansOf y.address).eval c.store = .ok xs ∧
    c.query (.attendeeScans y.address) = .ok (.scans xs) ∧ xs.map (·.id) = y.scanIds ∧ xs.Nodup ∧
      ∀ x, x ∈ xs ↔ c.HasMeeting x ∧ x.Joins y.address

/-- A chain whose meetings and the lists of whose attendees agree. -/
structure AgreesOnMeetings (c : Chain) : Prop where
  /-- Every entry under the key of a meeting is a meeting of two attendees who list it. -/
  meetings : ∀ k v, c.store.get? k = some v → StoreKey.isMember StoreKey.scanClass k = true →
    ∃ x : Scan, Binary.decode v = .ok x ∧ k = x.id.bytes ∧ c.HasMeeting x
  /-- Every entry under the key of an attendee is an attendee whose list is right. -/
  attendees : ∀ k v, c.store.get? k = some v → StoreKey.isMember StoreKey.attendeeClass k = true →
    ∃ y : Attendee, Binary.decode v = .ok y ∧ k = StoreKey.attendee y.address ∧ c.ListsMeetings y
  /-- Two attendees have one meeting at most. -/
  unique : ∀ x y, c.HasMeeting x → c.HasMeeting y → ∀ a b, a ≠ b → x.Joins a → x.Joins b →
    y.Joins a → y.Joins b → x = y

/-- A chain has the meetings that its store holds, when every record can be held and the lists are
right. -/
theorem hasMeeting_iff {members : List Address} (hs : c.store.Sound members)
    (hindexed : c.store.Indexed) {x : Scan} :
    c.HasMeeting x ↔ c.store.meeting x.id = some x := by
  have hread : (Records.scan x.id).eval c.store = .ok (c.store.meeting x.id) := by
    rw [Access.eval, hs.scan_run]
  constructor
  · intro h
    have hfound := h.found
    rw [hread] at hfound
    exact Except.ok.inj hfound
  · intro hx
    have hpair := (hs.meeting hx).1.pair
    obtain ⟨hdistinct, hfirst, hsecond, -⟩ := ScanId.ofPair_eq_ok hpair
    have hsomebody : ∀ {a : Address}, a.isEmpty = false → a ≠ .zero := by
      intro a ha
      simpa [Address.isEmpty] using ha
    refine ⟨by rw [hread, hx], hpair, hdistinct, ⟨hsomebody hfirst, hsomebody hsecond⟩, ?_⟩
    intro a hjoins
    have hlisted := (hindexed a x.id).mpr ⟨x, hx, hjoins⟩
    unfold Store.attendeeOrBlank at hlisted
    rw [attendee_eval hs]
    cases hy : c.store.attendee a with
    | none =>
      rw [hy] at hlisted
      cases hlisted
    | some y =>
      rw [hy, Option.getD_some] at hlisted
      exact ⟨y, rfl, hlisted⟩

/-- The meeting of two attendees has the identifier of the two. -/
theorem HasMeeting.pair_of_joins {x : Scan} (h : c.HasMeeting x) {a b : Address} (hne : a ≠ b)
    (ha : x.Joins a) (hb : x.Joins b) : ScanId.ofPair a b = .ok x.id := by
  rcases ha with rfl | rfl <;> rcases hb with rfl | rfl
  · exact absurd rfl hne
  · exact h.pair
  · rw [ScanId.ofPair_comm]
    exact h.pair
  · exact absurd rfl hne

/-- The attendees of a chain list their meetings, when every record can be held and the lists are
right. -/
theorem listsMeetings {members : List Address} (hs : c.store.Sound members)
    (hindexed : c.store.Indexed) {y : Attendee} (hy : c.store.attendee y.address = some y) :
    c.ListsMeetings y := by
  obtain ⟨hids, hnodup, hmem⟩ := hindexed.scansOf hs hy
  have hread : (Records.scansOf y.address).eval c.store =
      .ok (y.scanIds.filterMap c.store.meeting) := by
    rw [Access.eval, hindexed.scansOf_run hs hy]
  have hquery : c.query (.attendeeScans y.address) =
      .ok (.scans (y.scanIds.filterMap c.store.meeting)) := by
    rw [query, Query.answer, Access.eval, Access.run_bind_of_ok (hindexed.scansOf_run hs hy)]
    rfl
  constructor
  · rw [attendee_eval hs, hy]
  · exact (hs.attendee hy).1.scanIds_nodup
  · intro id hid
    obtain ⟨x, hx, hjoins⟩ := (hindexed.mem_scanIds hy).mp hid
    obtain ⟨-, rfl⟩ := hs.meeting hx
    exact ⟨x, rfl, (hasMeeting_iff hs hindexed).mpr hx, hjoins⟩
  · refine ⟨_, hread, hquery, hids, hnodup, fun x => ?_⟩
    rw [hmem x, hasMeeting_iff hs hindexed]

/-- In every state that a run of operations that fit reaches from a sized genesis, the stored
meetings and the lists of the attendees agree. -/
theorem agreesOnMeetings (hg : g.Sized) (h : ofGenesis chainId g = .ok c) {ds : List Delivery}
    (hds : ∀ d ∈ ds, Fits d.tx.op) : (c.after ds).AgreesOnMeetings := by
  have hs := after_sound hg h hds
  have hindexed := after_indexed hg h hds
  constructor
  · intro k v hget hk
    obtain ⟨x, hdecode, hkey, hx⟩ := hs.meeting_of_entry hget hk
    exact ⟨x, hdecode, hkey, (hasMeeting_iff hs hindexed).mpr hx⟩
  · intro k v hget hk
    obtain ⟨y, hdecode, hkey, hy⟩ := hs.attendee_of_entry hget hk
    exact ⟨y, hdecode, hkey, listsMeetings hs hindexed hy⟩
  · intro x y hx hy a b hne hxa hxb hya hyb
    have hid : x.id = y.id := by
      have hsame := hx.pair_of_joins hne hxa hxb
      rw [hy.pair_of_joins hne hya hyb] at hsame
      exact (Except.ok.inj hsame).symm
    have hfound := hx.found
    rw [hid, hy.found] at hfound
    exact (Option.some.inj (Except.ok.inj hfound)).symm

/-- On the ledger of two attendees one of them is keyed, claims the account and scans the other, and
the meeting and the lists agree. -/
theorem agreesOnMeetings_encounter :
    SmallLedger.pair.Sized ∧ ofGenesis "test-chain" SmallLedger.pair = .ok SmallLedger.pairChain ∧
      (∀ d ∈ SmallLedger.encounter, Fits d.tx.op) ∧
      (SmallLedger.pairChain.after SmallLedger.encounter).AgreesOnMeetings ∧
      (SmallLedger.pairChain.answers SmallLedger.encounter).map (·.2.code) = [0, 0, 0] :=
  ⟨SmallLedger.sized_pair, SmallLedger.ofGenesis_pair, SmallLedger.fits_encounter,
    agreesOnMeetings SmallLedger.sized_pair SmallLedger.ofGenesis_pair SmallLedger.fits_encounter,
    SmallLedger.codes_encounter⟩

end Chain

end ConferenceLedger

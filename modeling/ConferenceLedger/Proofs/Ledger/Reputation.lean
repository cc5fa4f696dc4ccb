import ConferenceLedger.Proofs.Ledger.Listing

/-!
# Where reputation comes from

Every point of reputation is one of a claim or one that is noted on the attendee's own side of a
meeting. An award raises the reputation by as much as is noted, and the reputation is capped at
the greatest number. So the reputation of an attendee is the capped sum of what is noted, whatever
the order of claims and scans.
-/

namespace ConferenceLedger

namespace Attendee

/-- The same attendee with so many more points of reputation, as far as numbers go. -/
def Grows (k : Nat) (x y : Attendee) : Prop :=
  y.rep.toNat = min (UInt64.size - 1) (x.rep.toNat + k)

namespace Grows

variable {j k : Nat} {x y z : Attendee}

/-- The same reputation is one with no more points. -/
theorem of_eq (h : y.rep = x.rep) : x.Grows 0 y := by
  have hx := x.rep.toNat_lt
  have hsize : UInt64.size = 2 ^ 64 := rfl
  rw [Grows, h]
  omega

/-- Points upon points are added up. -/
theorem trans (h : x.Grows j y) (h' : y.Grows k z) : x.Grows (j + k) z := by
  unfold Grows at h h' ⊢
  omega

/-- An award gives its points. -/
theorem awarded (s : Store) (points : UInt64) (x : Attendee) :
    x.Grows points.toNat (s.awarded points x) :=
  toNat_addCapped x.rep points

end Grows

/-- The points of the claim, if there was one. -/
def bonus (x : Attendee) : Nat := if x.claimed then 5 else 0

/-- Who earns otherwise earns no points of a claim. -/
theorem Earns.bonus {x y : Attendee} (h : x.Earns y) : y.bonus = x.bonus :=
  h.same (·.bonus) fun _ _ _ _ => rfl

/-- Listing a meeting gives no points. -/
theorem grows_addScanId (i : ScanId) (x : Attendee) : x.Grows 0 (x.addScanId i) := by
  apply Grows.of_eq
  unfold addScanId
  split_ifs <;> rfl

end Attendee

/-- A side that notes the point of the meeting and, if data was shared, those of sharing. -/
def Side.Fair (s : Side) : Prop := s.points.toNat = 1 + if s.data.isEmpty then 0 else 3

/-- Sharing data for the first time is noted. -/
theorem Side.Fair.share {s : Side} (h : s.Fair) (hfirst : s.data.isEmpty = true) {data : Blob}
    (hdata : data.isEmpty = false) :
    (s.share data.bytes Award.sharePoints).Fair ∧
      (s.share data.bytes Award.sharePoints).points.toNat = s.points.toNat + 3 := by
  have hpoints : s.points.toNat = 1 := by
    rw [h, if_pos hfirst]
  have hbytes : s.data.bytes = [] := List.isEmpty_iff.mp hfirst
  have hshared : (s.share data.bytes Award.sharePoints).points.toNat = 4 := by
    change (addCapped s.points Award.sharePoints).toNat = 4
    rw [toNat_addCapped, hpoints]
    rfl
  have hfilled : (s.share data.bytes Award.sharePoints).data.isEmpty = false := by
    change (s.data.bytes ++ data.bytes).isEmpty = false
    rw [hbytes, List.nil_append]
    exact hdata
  constructor
  · rw [Fair, hshared, hfilled]
    rfl
  · rw [hshared, hpoints]

namespace Scan

/-- A meeting that notes on both sides what was earned. -/
structure Fair (x : Scan) : Prop where
  /-- The first side notes it. -/
  first : x.first.Fair
  /-- The second side notes it. -/
  second : x.second.Fair

/-- Every side of a fair meeting notes what was earned. -/
theorem Fair.side {x : Scan} (h : x.Fair) (a : Address) : (x.side a).Fair := by
  unfold Scan.side
  split_ifs
  · exact h.first
  · exact h.second

/-- A new meeting notes one point on both sides. -/
theorem fair_new {first second : Address} {time : Int64} {x : Scan}
    (h : Scan.new first second time = .ok x) :
    (x.addPoints Award.scanPoints Award.scanPoints).Fair ∧
      ∀ a, ((x.addPoints Award.scanPoints Award.scanPoints).side a).points.toNat = 1 := by
  unfold Scan.new at h
  cases hpair : ScanId.ofPair first second with
  | error e =>
    rw [hpair] at h
    cases h
  | ok id =>
    rw [hpair] at h
    cases h
    refine ⟨⟨rfl, rfl⟩, fun a => ?_⟩
    unfold Scan.side
    split_ifs <;> rfl

/-- The side of an attendee is changed as it should be. -/
theorem side_updateSide_self (a : Address) {change : Side → Side}
    (haddress : ∀ s, (change s).address = s.address) (x : Scan) :
    (x.updateSide a change).side a = change (x.side a) := by
  unfold updateSide Scan.side
  by_cases ha : x.first.address = a
  · have hchanged : (change x.first).address = a := (haddress x.first).trans ha
    simp only [if_pos ha, if_pos hchanged]
  · simp only [if_neg ha]

/-- The side of the other attendee is left. -/
theorem side_updateSide_other {a b : Address} (hne : a ≠ b) {change : Side → Side}
    (haddress : ∀ s, (change s).address = s.address) {x : Scan}
    (hfirst : x.first.address = a ∨ x.first.address = b) :
    (x.updateSide a change).side b = x.side b := by
  unfold updateSide Scan.side
  rcases hfirst with ha | hb
  · have hb : ¬x.first.address = b := fun h => hne (ha.symm.trans h)
    have hchanged : ¬(change x.first).address = b := fun h => hb ((haddress x.first).symm.trans h)
    simp only [if_pos ha, if_neg hb, if_neg hchanged]
  · have ha : ¬x.first.address = a := fun h => hne (h.symm.trans hb)
    simp only [if_neg ha, if_pos hb]

/-- Sharing data for the first time keeps a meeting fair. -/
theorem Fair.share {x : Scan} (h : x.Fair) {a : Address} {data : Blob}
    (hshares : Meeting.shares a data x = true) :
    (x.updateSide a (·.share data.bytes Award.sharePoints)).Fair := by
  obtain ⟨hfirst, hdata⟩ := Bool.and_eq_true_iff.mp hshares
  have hdata' : data.isEmpty = false := by simpa using hdata
  unfold Scan.side at hfirst
  unfold updateSide
  by_cases ha : x.first.address = a
  · rw [if_pos ha] at hfirst ⊢
    exact ⟨(h.first.share hfirst hdata').1, h.second⟩
  · rw [if_neg ha] at hfirst ⊢
    exact ⟨h.first, (h.second.share hfirst hdata').1⟩

end Scan

namespace Store

/-- The points that an attendee's side of a meeting notes, if the meeting is there. -/
def pointsAt (s : Store) (a : Address) (id : ScanId) : Nat :=
  ((s.meeting id).map fun x => (x.side a).points.toNat).getD 0

/-- The points that are noted in the meetings that an attendee lists. -/
def earned (s : Store) (a : Address) : Nat :=
  ((s.attendeeOrBlank a).scanIds.map (s.pointsAt a)).sum

/-- A store in which every reputation is the capped sum of what is noted. -/
structure Balanced (s : Store) : Prop where
  /-- The meetings note what was earned. -/
  fair : ∀ id x, s.meeting id = some x → x.Fair
  /-- The reputation of an attendee is what was earned by the claim and in the meetings. -/
  rep : ∀ a, (s.attendeeOrBlank a).rep.toNat =
    min (UInt64.size - 1) ((s.attendeeOrBlank a).bonus + s.earned a)

/-- Only the meetings tell what is noted. -/
theorem pointsAt_of_meeting {s t : Store} (h : ∀ id, t.meeting id = s.meeting id) (a : Address) :
    t.pointsAt a = s.pointsAt a := by
  funext id
  rw [pointsAt, h, pointsAt]

/-- Counting up a sequence keeps the balance. -/
theorem Balanced.counted {s : Store} (hs : s.Balanced) (x : Account) : (s.counted x).Balanced := by
  constructor
  · intro id y hy
    rw [meeting_counted] at hy
    exact hs.fair id y hy
  · intro a
    rw [earned, pointsAt_of_meeting (meeting_counted s x), attendeeOrBlank_counted]
    exact hs.rep a

/-- Rewriting an attendee who keeps the list and gets the points of a claim, if any, keeps the
balance. -/
theorem Balanced.of_rewrites {s t : Store} (hs : s.Balanced) {b : Address} {y : Attendee}
    (h : s.Rewrites t b y) (hlist : y.scanIds = (s.attendeeOrBlank b).scanIds) {k : Nat}
    (hrep : (s.attendeeOrBlank b).Grows k y) (hbonus : y.bonus = (s.attendeeOrBlank b).bonus + k) :
    t.Balanced := by
  constructor
  · intro id x hx
    rw [h.meeting] at hx
    exact hs.fair id x hx
  · intro a
    have hearned : t.earned a = s.earned a := by
      rw [earned, pointsAt_of_meeting h.meeting, h.attendeeOrBlank, earned]
      split_ifs with ha
      · rw [hlist, ha]
      · rfl
    have hbefore := hs.rep a
    rw [hearned, h.attendeeOrBlank]
    split_ifs with ha
    · subst ha
      unfold Attendee.Grows at hrep
      omega
    · exact hbefore

end Store

namespace Meeting

/-- An attendee who became another in a meeting, with as many more points as the own side of the
meeting notes beyond what it noted before. -/
def Noted (s : Store) (scan : Scan) (x y : Attendee) : Prop :=
  ∃ k, x.Grows k y ∧ (scan.side x.address).points.toNat = s.pointsAt x.address scan.id + k

/-- Listing the meeting leaves what is noted. -/
theorem Noted.addScanId {s : Store} {scan : Scan} {x y : Attendee} (h : Noted s scan x y)
    (i : ScanId) : Noted s scan x (y.addScanId i) := by
  obtain ⟨k, hgrows, hpoints⟩ := h
  exact ⟨k, hgrows.trans (y.grows_addScanId i), hpoints⟩

/-- Those who meet get the points that their meeting notes. -/
theorem meet_noted {members : List Address} {sender : Address} {time : Int64} {id : ScanId}
    {a b : Attendee} {p : Parties} {s t : Store} (hsound : s.Sound members)
    (hfair : ∀ id x, s.meeting id = some x → x.Fair)
    (hpair : ScanId.ofPair sender b.address = .ok id)
    (h : (meet sender time id a b).run s = (.ok p, t)) :
    p.scan.Fair ∧ Noted s p.scan a p.sender ∧ Noted s p.scan b p.scanned := by
  have hid : p.scan.id = id := id_of_meet hsound.rows.placed hpair h
  rcases meet_run_ok h with ⟨scan, hfound, rfl, -⟩ | ⟨hnone, scan, hnew, rfl, -⟩
  · have hnoted : ∀ x : Attendee, Noted s scan x x := by
      intro x
      refine ⟨0, .of_eq rfl, ?_⟩
      have hmeeting : s.meeting scan.id = some scan := by
        rw [hid, hfound]
      rw [Store.pointsAt, hmeeting, Option.map_some, Option.getD_some, Nat.add_zero]
    exact ⟨hfair id scan hfound, hnoted a, hnoted b⟩
  · obtain ⟨hscan, hpoints⟩ := Scan.fair_new hnew
    have hnoted : ∀ (u : Store) (x : Attendee), Noted s
        (scan.addPoints Award.scanPoints Award.scanPoints) x (u.awarded Award.scanPoints x) := by
      intro u x
      refine ⟨Award.scanPoints.toNat, .awarded u _ x, ?_⟩
      rw [hpoints, hid, Store.pointsAt, hnone]
      rfl
    exact ⟨hscan, hnoted s a, hnoted _ b⟩

/-- Who shares gets the points that the own side of the meeting notes, and the other side is
left. -/
theorem share_noted {a b : Attendee} {data : Blob} {p q : Parties} {r s t : Store}
    (hne : a.address ≠ b.address)
    (hsides : p.scan.first.address = a.address ∨ p.scan.first.address = b.address)
    (hfair : p.scan.Fair) (ha : Noted r p.scan a p.sender) (hb : Noted r p.scan b p.scanned)
    (h : (share a.address data p).run s = (.ok q, t)) :
    q.scan.Fair ∧ Noted r q.scan a q.sender ∧ Noted r q.scan b q.scanned := by
  rcases share_run_ok h with ⟨hshares, rfl, -⟩ | ⟨-, rfl, -⟩
  · have haddress : ∀ side : Side,
        (side.share data.bytes Award.sharePoints).address = side.address := fun _ => rfl
    obtain ⟨hfirst, hdata⟩ := Bool.and_eq_true_iff.mp hshares
    have hdata' : data.isEmpty = false := by simpa using hdata
    refine ⟨hfair.share hshares, ?_, ?_⟩
    · obtain ⟨k, hgrows, hpoints⟩ := ha
      refine ⟨k + Award.sharePoints.toNat, hgrows.trans (.awarded s _ p.sender), ?_⟩
      have hthree : Award.sharePoints.toNat = 3 := rfl
      rw [Scan.side_updateSide_self _ haddress, Scan.id_updateSide,
        ((hfair.side a.address).share hfirst hdata').2, hpoints, hthree, Nat.add_assoc]
    · -- the two are different, so the other side is not the one that is written
      obtain ⟨k, hgrows, hpoints⟩ := hb
      refine ⟨k, hgrows, ?_⟩
      rw [Scan.side_updateSide_other hne haddress hsides, Scan.id_updateSide, hpoints]
  · exact ⟨hfair, ha, hb⟩

namespace Encounter

variable {members : List Address} {time : Int64} {m : BadgeScan} {s t : Store}

/-- The two get the points that their meeting notes. -/
theorem noted (e : Encounter members time m s t) (hsound : s.Sound members)
    (hfair : ∀ id x, s.meeting id = some x → x.Fair) :
    e.shared.scan.Fair ∧ Noted s e.shared.scan e.sender e.shared.sender ∧
      Noted s e.shared.scan e.scanned e.shared.scanned := by
  have hmeet := e.meets
  have hshare := e.shares
  have hpair : ScanId.ofPair e.sender.address e.scanned.address = .ok e.id := by
    rw [e.address_sender, e.address_scanned]
    exact e.pair
  have hne : e.sender.address ≠ e.scanned.address := (ScanId.ofPair_eq_ok hpair).1
  rw [← e.address_sender] at hmeet hshare
  obtain ⟨hscan, ha, hb⟩ := meet_noted hsound hfair hpair hmeet
  have hid : e.met.scan.id = e.id := id_of_meet hsound.rows.placed hpair hmeet
  have hmetPair : ScanId.ofPair e.sender.address e.scanned.address = .ok e.met.scan.id := by
    rw [hid]
    exact hpair
  have hsides : e.met.scan.first.address = e.sender.address ∨
      e.met.scan.first.address = e.scanned.address := by
    have hjoins := (e.met_sound.scan.joins_iff hmetPair e.met.scan.first.address).mp (Or.inl rfl)
    exact hjoins.imp Eq.symm Eq.symm
  exact share_noted (p := e.met.listed) hne hsides hscan (ha.addScanId _) (hb.addScanId _) hshare

/-- What a side of a meeting notes after a scan: that of the meeting of the two is the new one. -/
theorem pointsAt (e : Encounter members time m s t) (a : Address) (i : ScanId) :
    t.pointsAt a i = if e.id = i then (e.shared.scan.side a).points.toNat else s.pointsAt a i := by
  rw [Store.pointsAt, e.meeting]
  split_ifs <;> rfl

/-- An attendee who lists the meeting of the two and those of before has earned as much more as
the meeting notes beyond what it noted before. -/
theorem earned (e : Encounter members time m s t) (hsound : s.Sound members)
    (hindexed : s.Indexed) {a : Address} {x y : Attendee} {k : Nat} (hx : s.attendee a = some x)
    (hy : t.attendeeOrBlank a = y) (hids : y.scanIds = (x.addScanId e.id).scanIds)
    (hparty : m.sender = a ∨ .ofTicket m.ticket = a)
    (hpoints : (e.shared.scan.side a).points.toNat = s.pointsAt a e.id + k) :
    t.earned a = s.earned a + k := by
  have hbefore : s.attendeeOrBlank a = x := Store.attendeeOrBlank_of_attendee hx
  have hnodup := (hsound.attendee hx).1.scanIds_nodup
  have hother : ∀ j, j ≠ e.id → t.pointsAt a j = s.pointsAt a j := by
    intro j hj
    rw [e.pointsAt, if_neg (Ne.symm hj)]
  have hterm : t.pointsAt a e.id = s.pointsAt a e.id + k := by
    rw [e.pointsAt, if_pos rfl, hpoints]
  rw [Store.earned, hy, hids, Attendee.scanIds_addScanId, Store.earned, hbefore]
  by_cases hlisted : e.id ∈ x.scanIds
  · have hsum := sum_map_update hnodup hlisted hother
    rw [if_pos hlisted]
    omega
  · -- a meeting that was not listed was not there, so nothing was noted in it
    have hnothing : s.pointsAt a e.id = 0 := by
      rw [Store.pointsAt]
      cases hz : s.meeting e.id with
      | none => rfl
      | some z =>
        obtain ⟨hzsound, hzid⟩ := hsound.meeting hz
        have hjoins := (hzsound.joins_iff (hzid.symm ▸ e.pair) a).mpr hparty
        have hin := (hindexed a e.id).mpr ⟨z, hz, hjoins⟩
        rw [hbefore] at hin
        exact absurd hin hlisted
    have hsame : x.scanIds.map (t.pointsAt a) = x.scanIds.map (s.pointsAt a) := by
      apply List.map_congr_left
      intro j hj
      exact hother j (ne_of_mem_of_not_mem hj hlisted)
    rw [if_neg hlisted, List.map_append, List.sum_append, hsame, List.map_singleton,
      List.sum_singleton, hterm, hnothing, Nat.zero_add]

/-- Whoever is not one of the two has earned what was earned before. -/
theorem earned_of_ne (e : Encounter members time m s t) (hsound : s.Sound members)
    (hindexed : s.Indexed) {a : Address} (hsender : m.sender ≠ a)
    (hscanned : Address.ofTicket m.ticket ≠ a) : t.earned a = s.earned a := by
  have hrecord : t.attendeeOrBlank a = s.attendeeOrBlank a := by
    rw [e.attendeeOrBlank, if_neg hscanned, if_neg hsender]
  rw [Store.earned, hrecord, Store.earned]
  congr 1
  apply List.map_congr_left
  intro j hj
  rw [e.pointsAt]
  split_ifs with hid
  · obtain ⟨z, hz, hjoins⟩ := (hindexed a j).mp hj
    obtain ⟨hzsound, hzid⟩ := hsound.meeting hz
    have hpair : ScanId.ofPair m.sender (.ofTicket m.ticket) = .ok z.id := by
      rw [hzid, ← hid]
      exact e.pair
    rcases (hzsound.joins_iff hpair a).mp hjoins with h | h
    · exact absurd h hsender
    · exact absurd h hscanned
  · rfl

end Encounter

end Meeting

namespace Store.Balanced

variable {members : List Address} {s t : Store}

/-- An attendee who earns otherwise than by a claim, and as much as is noted, is in balance. -/
theorem rep_of_grows (hs : s.Balanced) {a : Address} {x y : Attendee} {k : Nat}
    (hx : s.attendeeOrBlank a = x) (hy : t.attendeeOrBlank a = y) (hearns : x.Earns y)
    (hgrows : x.Grows k y) (hearned : t.earned a = s.earned a + k) :
    (t.attendeeOrBlank a).rep.toNat =
      min (UInt64.size - 1) ((t.attendeeOrBlank a).bonus + t.earned a) := by
  have hbefore := hs.rep a
  rw [hx] at hbefore
  unfold Attendee.Grows at hgrows
  rw [hy, hearned, hearns.bonus]
  omega

/-- A scan keeps the balance. -/
theorem of_encounter (hs : s.Balanced) (hsound : s.Sound members) (hindexed : s.Indexed)
    {time : Int64} {m : BadgeScan} (e : Meeting.Encounter members time m s t) : t.Balanced := by
  obtain ⟨hscan, ⟨j, hsender, hsenderPoints⟩, ⟨k, hscanned, hscannedPoints⟩⟩ :=
    e.noted hsound hs.fair
  rw [e.address_sender, e.id_shared] at hsenderPoints
  rw [e.address_scanned, e.id_shared] at hscannedPoints
  constructor
  · intro id x hx
    rw [e.meeting] at hx
    split_ifs at hx with hid
    · cases hx
      exact hscan
    · exact hs.fair id x hx
  · intro a
    by_cases hb : Address.ofTicket m.ticket = a
    · subst hb
      have hy : t.attendeeOrBlank (.ofTicket m.ticket) = e.shared.scanned := by
        rw [e.attendeeOrBlank, if_pos rfl]
      have hearned := e.earned hsound hindexed e.found_scanned hy e.scanIds.2 (Or.inr rfl)
        hscannedPoints
      exact hs.rep_of_grows (attendeeOrBlank_of_attendee e.found_scanned) hy e.earns_scanned
        hscanned hearned
    · by_cases ha : m.sender = a
      · subst ha
        have hy : t.attendeeOrBlank m.sender = e.shared.sender := by
          rw [e.attendeeOrBlank, if_neg hb, if_pos rfl]
        have hearned := e.earned hsound hindexed e.found_sender hy e.scanIds.1 (Or.inl rfl)
          hsenderPoints
        exact hs.rep_of_grows (attendeeOrBlank_of_attendee e.found_sender) hy e.earns_sender
          hsender hearned
      · have hrecord : t.attendeeOrBlank a = s.attendeeOrBlank a := by
          rw [e.attendeeOrBlank, if_neg hb, if_neg ha]
        rw [hrecord, e.earned_of_ne hsound hindexed ha hb]
        exact hs.rep a

end Store.Balanced

/-- Every operation keeps the balance. -/
theorem Operation.Effect.balanced {members : List Address} {op : Operation} {time : Int64}
    {s t : Store} (h : op.Effect members time s t) (hs : s.Balanced) (hsound : s.Sound members)
    (hindexed : s.Indexed) : t.Balanced := by
  cases h with
  | keyed hop hmaster haccount hkey hrecords hprizes =>
    exact hs.of_rewrites hrecords rfl (.of_eq rfl) rfl
  | @claimed m hop x y hx hclaimed hreveals hy hrecords hprizes =>
    have hbefore : s.attendeeOrBlank m.attendee = x := Store.attendeeOrBlank_of_attendee hx
    have hgrows : x.Grows 5 (s.awarded Award.claimPoints y) := by
      have haward := Attendee.Grows.awarded s Award.claimPoints y
      rw [hy] at haward ⊢
      exact haward
    have hbonus : (s.awarded Award.claimPoints y).bonus = x.bonus + 5 := by
      rw [hy, Attendee.bonus, Attendee.bonus, hclaimed]
      rfl
    refine hs.of_rewrites hrecords ?_ (hbefore.symm ▸ hgrows) (hbefore.symm ▸ hbonus)
    rw [hbefore, hy]
    rfl
  | met hop e => exact hs.of_encounter hsound hindexed e
  | @collected m hop hredeem x hx hrecords hprizes =>
    have hbefore : s.attendeeOrBlank (.ofTicket m.ticket) = x :=
      Store.attendeeOrBlank_of_attendee hx
    refine hs.of_rewrites hrecords ?_ (.of_eq ?_) ?_
    all_goals
      rw [hbefore]
      rfl

namespace Chain

variable {chainId : String} {g : Genesis} {c : Chain}

/-- In the store of a sized genesis nobody has any reputation, and nothing is noted. -/
theorem balanced_of_genesis (hg : g.Sized) (h : ofGenesis chainId g = .ok c) :
    c.store.Balanced := by
  constructor
  · intro id x hx
    rw [meeting_of_genesis h] at hx
    cases hx
  · intro a
    rw [Store.earned]
    rcases attendeeOrBlank_of_genesis hg h a with hblank | ⟨e, -, hticket⟩
    · rw [hblank]
      rfl
    · rw [hticket]
      rfl

/-- Every run of operations that fit from a sized genesis keeps the balance. -/
theorem after_balanced (hg : g.Sized) (h : ofGenesis chainId g = .ok c) {ds : List Delivery}
    (hds : ∀ d ∈ ds, Fits d.tx.op) : (c.after ds).store.Balanced := by
  have hrun : (c.after ds).store.Indexed ∧ (c.after ds).store.Balanced := by
    apply after_of_effects (P := fun s => s.Indexed ∧ s.Balanced) hg h hds
      ⟨indexed_of_genesis hg h, balanced_of_genesis hg h⟩
    · rintro s x ⟨hindexed, hs⟩
      exact ⟨hindexed.counted x, hs.counted x⟩
    · rintro op time s t hsound ⟨hindexed, hs⟩ heffect
      exact ⟨heffect.indexed hindexed hsound, heffect.balanced hs hsound hindexed⟩
  exact hrun.2

/-- A chain whose meetings note what was earned in them and whose attendees have the reputation that
is noted. -/
structure BalancesReputation (c : Chain) : Prop where
  /-- Every entry under the key of a meeting is a meeting that has one point on every side, and
  three more on a side with data. -/
  meetings : ∀ k v, c.store.get? k = some v → StoreKey.isMember StoreKey.scanClass k = true →
    ∃ x : Scan, Binary.decode v = .ok x ∧
      x.first.points.toNat = 1 + (if x.first.data.isEmpty then 0 else 3) ∧
      x.second.points.toNat = 1 + (if x.second.data.isEmpty then 0 else 3)
  /-- Every entry under the key of an attendee is an attendee whose reputation is the capped sum of
  the points of the claim and of those on the attendee's own side of every meeting listed. -/
  attendees : ∀ k v, c.store.get? k = some v → StoreKey.isMember StoreKey.attendeeClass k = true →
    ∃ (y : Attendee) (xs : List Scan), Binary.decode v = .ok y ∧
      k = StoreKey.attendee y.address ∧
      (Records.scansOf y.address).eval c.store = .ok xs ∧ xs.map (·.id) = y.scanIds ∧
      (∀ x ∈ xs, x.Joins y.address) ∧
      y.rep.toNat = min (2 ^ 64 - 1)
        ((if y.claimed then 5 else 0) + (xs.map fun x => (x.side y.address).points.toNat).sum)

/-- In every state that a run of operations that fit reaches from a sized genesis, reputation is in
balance. -/
theorem balancesReputation (hg : g.Sized) (h : ofGenesis chainId g = .ok c) {ds : List Delivery}
    (hds : ∀ d ∈ ds, Fits d.tx.op) : (c.after ds).BalancesReputation := by
  have hs := after_sound hg h hds
  have hindexed := after_indexed hg h hds
  have hbalanced := after_balanced hg h hds
  constructor
  · intro k v hget hk
    obtain ⟨x, hdecode, -, hx⟩ := hs.meeting_of_entry hget hk
    have hfair := hbalanced.fair x.id x hx
    exact ⟨x, hdecode, hfair.first, hfair.second⟩
  · intro k v hget hk
    obtain ⟨y, hdecode, hkey, hy⟩ := hs.attendee_of_entry hget hk
    obtain ⟨hids, -, hmem⟩ := hindexed.scansOf hs hy
    refine ⟨y, y.scanIds.filterMap (c.after ds).store.meeting, hdecode, hkey, ?_, hids, ?_, ?_⟩
    · rw [Access.eval, hindexed.scansOf_run hs hy]
    · intro x hx
      exact ((hmem x).mp hx).2
    · have hrep := hbalanced.rep y.address
      rw [Store.earned, Store.attendeeOrBlank_of_attendee hy] at hrep
      rw [sum_map_filterMap]
      exact hrep

/-- On the ledger of two attendees one of them is keyed, claims the account and scans the other, and
reputation is in balance. -/
theorem balancesReputation_encounter :
    SmallLedger.pair.Sized ∧ ofGenesis "test-chain" SmallLedger.pair = .ok SmallLedger.pairChain ∧
      (∀ d ∈ SmallLedger.encounter, Fits d.tx.op) ∧
      (SmallLedger.pairChain.after SmallLedger.encounter).BalancesReputation ∧
      (SmallLedger.pairChain.answers SmallLedger.encounter).map (·.2.code) = [0, 0, 0] :=
  ⟨SmallLedger.sized_pair, SmallLedger.ofGenesis_pair, SmallLedger.fits_encounter,
    balancesReputation SmallLedger.sized_pair SmallLedger.ofGenesis_pair SmallLedger.fits_encounter,
    SmallLedger.codes_encounter⟩

end Chain

end ConferenceLedger

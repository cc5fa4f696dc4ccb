import ConferenceLedger.Proofs.Ledger.Authority
import ConferenceLedger.Proofs.Ledger.Stock

/-!
# History only grows

Every operation reads whole records, edits them and writes them back. None takes a record away, and
no edit takes back what a record says: points, tiers and lists go up, stock goes down, and whatever
names a record or was filled in once stays. What a record grows into is said for every kind of
record, every operation is shown to let the records grow, and so does every part of a run.
-/

namespace ConferenceLedger

/-! ### What a record grows into -/

/-- A capped sum is at least what was added to. -/
theorem le_addCapped (a b : UInt64) : a ≤ addCapped a b := by
  have ha := a.toNat_lt
  have hsize : UInt64.size = 2 ^ 64 := rfl
  rw [UInt64.le_iff_toNat_le, toNat_addCapped]
  omega

/-- The same win, which stays collected once it is. -/
structure Win.GrowsInto (v w : Win) : Prop where
  /-- It is of the same tier. -/
  tier : w.tier = v.tier
  /-- It is the same prize. -/
  name : w.name = v.name
  /-- It stays collected. -/
  claimed : v.claimed = true → w.claimed = true

/-- A win may stay as it is. -/
theorem Win.GrowsInto.refl (v : Win) : v.GrowsInto v := ⟨rfl, rfl, fun h => h⟩

/-- A win may be collected later still. -/
theorem Win.GrowsInto.trans {u v w : Win} (h : u.GrowsInto v) (h' : v.GrowsInto w) :
    u.GrowsInto w :=
  ⟨h'.tier.trans h.tier, h'.name.trans h.name, fun hu => h'.claimed (h.claimed hu)⟩

/-- The same attendee, later. -/
structure Attendee.GrowsInto (x y : Attendee) : Prop where
  /-- The address stays. -/
  address : y.address = x.address
  /-- The ticket id stays. -/
  id : y.id = x.id
  /-- The class of the ticket stays. -/
  ticketClass : y.ticketClass = x.ticketClass
  /-- Reputation does not go down. -/
  rep : x.rep ≤ y.rep
  /-- The tier does not go down. -/
  tier : x.tier ≤ y.tier
  /-- A key stays. -/
  pubKey : ∀ k, x.pubKey = some k → y.pubKey = some k
  /-- Who has claimed has claimed. -/
  claimed : x.claimed = true → y.claimed = true
  /-- The profile that a claim has filled in stays. -/
  profile : x.claimed = true →
    y.name = x.name ∧ y.rsaPublicKey = x.rsaPublicKey ∧ y.encryptedInfo = x.encryptedInfo
  /-- The list of meetings begins with the old one. -/
  scanIds : x.scanIds <+: y.scanIds
  /-- Every win stays at its place among the wins. -/
  winnings : ∀ (i : Nat) v, x.winnings[i]? = some v → ∃ w, y.winnings[i]? = some w ∧ v.GrowsInto w

/-- The same side of a meeting, later. -/
structure Side.GrowsInto (v w : Side) : Prop where
  /-- It is the side of the same attendee. -/
  address : w.address = v.address
  /-- What was shared stays. -/
  data : v.data.isEmpty = false → w.data = v.data
  /-- The points do not go down. -/
  points : v.points ≤ w.points

/-- The same meeting, later. -/
structure Scan.GrowsInto (x y : Scan) : Prop where
  /-- The identifier stays. -/
  id : y.id = x.id
  /-- The side of the one who scanned first grows. -/
  first : x.first.GrowsInto y.first
  /-- The side of the other grows. -/
  second : x.second.GrowsInto y.second
  /-- The time of the first scan stays. -/
  time : y.time = x.time

/-- The same prize, later. -/
structure Prize.RunsDownTo (p q : Prize) : Prop where
  /-- The tier stays. -/
  tier : q.tier = p.tier
  /-- The threshold stays. -/
  repNeeded : q.repNeeded = p.repNeeded
  /-- What the prize is stays. -/
  text : q.text = p.text
  /-- The units left do not go up. -/
  quantity : q.quantity ≤ p.quantity

namespace Attendee.GrowsInto

variable {x y z : Attendee}

/-- A record may stay as it is. -/
theorem refl (x : Attendee) : x.GrowsInto x := by
  constructor
  case rep => exact UInt64.le_refl _
  case tier => exact UInt8.le_refl _
  case scanIds => exact List.prefix_rfl
  case winnings => exact fun i v hv => ⟨v, hv, .refl v⟩
  case pubKey => exact fun _ hk => hk
  case claimed => exact fun hx => hx
  case profile => exact fun _ => ⟨rfl, rfl, rfl⟩
  all_goals rfl

/-- A record may grow again. -/
theorem trans (h : x.GrowsInto y) (h' : y.GrowsInto z) : x.GrowsInto z := by
  constructor
  · exact h'.address.trans h.address
  · exact h'.id.trans h.id
  · exact h'.ticketClass.trans h.ticketClass
  · exact UInt64.le_trans h.rep h'.rep
  · exact UInt8.le_trans h.tier h'.tier
  · intro k hk
    exact h'.pubKey k (h.pubKey k hk)
  · intro hx
    exact h'.claimed (h.claimed hx)
  · intro hx
    obtain ⟨hname, hkey, hinfo⟩ := h.profile hx
    obtain ⟨hname', hkey', hinfo'⟩ := h'.profile (h.claimed hx)
    exact ⟨hname'.trans hname, hkey'.trans hkey, hinfo'.trans hinfo⟩
  · exact h.scanIds.trans h'.scanIds
  · intro i u hu
    obtain ⟨v, hv, huv⟩ := h.winnings i u hu
    obtain ⟨w, hw, hvw⟩ := h'.winnings i v hv
    exact ⟨w, hw, huv.trans hvw⟩

/-- Who earns grows, as long as nothing of what is earned goes down. -/
theorem of_earns (h : x.Earns y) (hrep : x.rep ≤ y.rep) (htier : x.tier ≤ y.tier)
    (hscanIds : x.scanIds <+: y.scanIds) : x.GrowsInto y := by
  have hclaimed : y.claimed = x.claimed := h.same (·.claimed) fun _ _ _ _ => rfl
  constructor
  · exact h.address
  · exact h.same (·.id) fun _ _ _ _ => rfl
  · exact h.same (·.ticketClass) fun _ _ _ _ => rfl
  · exact hrep
  · exact htier
  · intro k hk
    exact (h.same (·.pubKey) fun _ _ _ _ => rfl).trans hk
  · exact hclaimed.trans
  · intro _
    exact ⟨h.same (·.name) fun _ _ _ _ => rfl, h.same (·.rsaPublicKey) fun _ _ _ _ => rfl,
      h.same (·.encryptedInfo) fun _ _ _ _ => rfl⟩
  · exact hscanIds
  · intro i v hv
    obtain ⟨more, hmore⟩ := h.winnings
    have hlt : i < x.winnings.length := (List.getElem?_eq_some_iff.mp hv).1
    refine ⟨v, ?_, .refl v⟩
    rw [← hmore, List.getElem?_append_left hlt, hv]

/-- Who is awarded points grows. -/
theorem awarded (s : Store) (points : UInt64) (x : Attendee) :
    x.GrowsInto (s.awarded points x) := by
  have htier : x.tier ≤ (s.awarded points x).tier :=
    le_tier_promote.mpr (Or.inl (UInt8.le_refl _))
  exact of_earns (.awarded s points x) (le_addCapped _ _) htier List.prefix_rfl

/-- Who lists a meeting grows. -/
theorem addScanId (i : ScanId) (x : Attendee) : x.GrowsInto (x.addScanId i) := by
  have hrest : (x.addScanId i).rep = x.rep ∧ (x.addScanId i).tier = x.tier := by
    unfold Attendee.addScanId
    split_ifs
    all_goals exact ⟨rfl, rfl⟩
  refine of_earns (.addScanId i x) ?_ ?_ ?_
  · rw [hrest.1]
    exact UInt64.le_refl _
  · rw [hrest.2]
    exact UInt8.le_refl _
  · rw [scanIds_addScanId]
    split_ifs
    · exact List.prefix_rfl
    · exact List.prefix_append _ _

/-- Who had no key is keyed. -/
theorem keyed (m : KeyGrant) (hkey : x.isKeyed = false) : x.GrowsInto (Custody.keyed m x) := by
  have hnone : x.pubKey = none := by simpa [isKeyed] using hkey
  refine { refl x with pubKey := fun k hk => ?_ }
  rw [hnone] at hk
  cases hk

/-- Who has not claimed claims, with the key that is installed. -/
theorem claims (m : KeyClaim) (hclaimed : x.claimed = false) :
    x.GrowsInto (Custody.claimed m x.pubKey x) := by
  refine { refl x with pubKey := fun k hk => ?_, claimed := fun _ => rfl, profile := fun hx => ?_ }
  · rw [Custody.claimed, Option.or_self]
    exact hk
  · rw [hclaimed] at hx
    cases hx

/-- Who collects the wins has the same ones, collected. -/
theorem collectWinnings (x : Attendee) : x.GrowsInto x.collectWinnings := by
  refine { refl x with winnings := fun i v hv => ⟨{ v with claimed := true }, ?_, rfl, rfl, ?_⟩ }
  · rw [Attendee.collectWinnings, List.getElem?_map, hv, Option.map_some]
  · exact fun _ => rfl

end Attendee.GrowsInto

namespace Side.GrowsInto

variable {u v w : Side}

/-- A side may stay as it is. -/
theorem refl (v : Side) : v.GrowsInto v := ⟨rfl, fun _ => rfl, UInt64.le_refl _⟩

/-- A side may grow again. -/
theorem trans (h : u.GrowsInto v) (h' : v.GrowsInto w) : u.GrowsInto w := by
  refine ⟨h'.address.trans h.address, ?_, UInt64.le_trans h.points h'.points⟩
  intro hu
  have hv := h.data hu
  rw [← hv] at hu
  exact (h'.data hu).trans hv

/-- A side without data grows by what is shared. -/
theorem share (hfirst : v.data.isEmpty = true) (data : Bytes) (points : UInt64) :
    v.GrowsInto (v.share data points) := by
  refine ⟨rfl, ?_, le_addCapped _ _⟩
  intro hfilled
  rw [hfirst] at hfilled
  cases hfilled

end Side.GrowsInto

namespace Scan.GrowsInto

variable {x y z : Scan}

/-- A meeting may stay as it is. -/
theorem refl (x : Scan) : x.GrowsInto x := ⟨rfl, .refl _, .refl _, rfl⟩

/-- A meeting may grow again. -/
theorem trans (h : x.GrowsInto y) (h' : y.GrowsInto z) : x.GrowsInto z :=
  ⟨h'.id.trans h.id, h.first.trans h'.first, h.second.trans h'.second, h'.time.trans h.time⟩

/-- A meeting grows by what is shared in it for the first time. -/
theorem share {a : Address} {data : Blob} (hshares : Meeting.shares a data x = true) :
    x.GrowsInto (x.updateSide a (·.share data.bytes Award.sharePoints)) := by
  have hfirst := (Bool.and_eq_true_iff.mp hshares).1
  unfold Scan.side at hfirst
  unfold updateSide
  by_cases ha : x.first.address = a
  · rw [if_pos ha] at hfirst ⊢
    exact ⟨rfl, .share hfirst _ _, .refl _, rfl⟩
  · rw [if_neg ha] at hfirst ⊢
    exact ⟨rfl, .refl _, .share hfirst _ _, rfl⟩

end Scan.GrowsInto

namespace Prize.RunsDownTo

variable {p q r : Prize}

/-- A prize may stay as it is. -/
theorem refl (p : Prize) : p.RunsDownTo p := ⟨rfl, rfl, rfl, UInt32.le_refl _⟩

/-- A prize may run down further. -/
theorem trans (h : p.RunsDownTo q) (h' : q.RunsDownTo r) : p.RunsDownTo r :=
  ⟨h'.tier.trans h.tier, h'.repNeeded.trans h.repNeeded, h'.text.trans h.text,
    UInt32.le_trans h'.quantity h.quantity⟩

/-- A prize in stock runs down when a unit is taken. -/
theorem taken (h : p.inStock = true) : p.RunsDownTo p.taken := by
  refine ⟨rfl, rfl, rfl, ?_⟩
  rw [UInt32.le_iff_toNat_le, Prize.toNat_quantity_taken h]
  exact Nat.sub_le _ _

end Prize.RunsDownTo

/-! ### What the store grows into -/

/-- A program never takes an entry away. -/
theorem Access.present_of_run {ε α : Type} (x : Access ε α) {s : Store} {k : Bytes}
    (h : (s.get? k).isSome = true) : ((x.run s).2.get? k).isSome = true := by
  induction x generalizing s with
  | done a => exact h
  | fail e => exact h
  | read key next ih => exact ih _ h
  | write key value next ih =>
    apply ih
    rw [Store.get?_set]
    split_ifs
    · rfl
    · exact h
  | list start next ih => exact ih _ h

namespace Store

/-- A store, and one in which every record is found that it has grown into. -/
structure GrowsInto (s t : Store) : Prop where
  /-- Every entry is still there. -/
  present : ∀ k, (s.get? k).isSome = true → (t.get? k).isSome = true
  /-- Every attendee has grown. -/
  attendee : ∀ a x, s.attendee a = some x → ∃ y, t.attendee a = some y ∧ x.GrowsInto y
  /-- Every meeting has grown. -/
  meeting : ∀ id x, s.meeting id = some x → ∃ y, t.meeting id = some y ∧ x.GrowsInto y
  /-- Every prize has run down. -/
  prize : ∀ tier p, s.prize tier = some p → ∃ q, t.prize tier = some q ∧ p.RunsDownTo q
  /-- Every account keeps its address and its number. -/
  account : ∀ a x, s.account a = some x →
    ∃ y, t.account a = some y ∧ y.address = x.address ∧ y.number = x.number
  /-- The entries under bare classes are the same. -/
  single : ∀ cls : UInt8, t.get? [cls] = s.get? [cls]

variable {members : List Address} {s t u : Store}

/-- A store may stay as it is. -/
theorem GrowsInto.refl (s : Store) : s.GrowsInto s where
  present _ h := h
  attendee _ x hx := ⟨x, hx, .refl x⟩
  meeting _ x hx := ⟨x, hx, .refl x⟩
  prize _ p hp := ⟨p, hp, .refl p⟩
  account _ x hx := ⟨x, hx, rfl, rfl⟩
  single _ := rfl

/-- A store may grow again. -/
theorem GrowsInto.trans (h : s.GrowsInto t) (h' : t.GrowsInto u) : s.GrowsInto u := by
  constructor
  · intro k hk
    exact h'.present k (h.present k hk)
  · intro a x hx
    obtain ⟨y, hy, hxy⟩ := h.attendee a x hx
    obtain ⟨z, hz, hyz⟩ := h'.attendee a y hy
    exact ⟨z, hz, hxy.trans hyz⟩
  · intro id x hx
    obtain ⟨y, hy, hxy⟩ := h.meeting id x hx
    obtain ⟨z, hz, hyz⟩ := h'.meeting id y hy
    exact ⟨z, hz, hxy.trans hyz⟩
  · intro tier p hp
    obtain ⟨q, hq, hpq⟩ := h.prize tier p hp
    obtain ⟨r, hr, hqr⟩ := h'.prize tier q hq
    exact ⟨r, hr, hpq.trans hqr⟩
  · intro a x hx
    obtain ⟨y, hy, haddress, hnumber⟩ := h.account a x hx
    obtain ⟨z, hz, haddress', hnumber'⟩ := h'.account a y hy
    exact ⟨z, hz, haddress'.trans haddress, hnumber'.trans hnumber⟩
  · intro cls
    exact (h'.single cls).trans (h.single cls)

/-- Prizes run down by an award. -/
theorem Sound.runsDown_handOut (hs : s.Sound members) (points : UInt64) (x : Attendee)
    {tier : UInt8} {p : Prize} (hp : s.prize tier = some p) :
    ∃ q, (s.handOut points x).prize tier = some q ∧ p.RunsDownTo q := by
  refine ⟨_, by rw [hs.prize_handOut, hp, Option.map_some], ?_⟩
  split_ifs with hgained
  · exact .taken (Attendee.mem_gains.mp hgained).2.2.2
  · exact .refl p

/-- Prizes run down by awards. -/
theorem Awarding.runsDown (h : Awarding s t) (hs : s.Sound members) {tier : UInt8} {p : Prize}
    (hp : s.prize tier = some p) : ∃ q, t.prize tier = some q ∧ p.RunsDownTo q := by
  induction h with
  | none => exact ⟨p, hp, .refl p⟩
  | award h points a ih =>
    obtain ⟨q, hq, hpq⟩ := ih
    obtain ⟨r, hr, hqr⟩ := (h.sound hs).runsDown_handOut points a hq
    exact ⟨r, hr, hpq.trans hqr⟩

/-- Attendees grow if the one who is rewritten does. -/
theorem Rewrites.attendee_growsInto {b : Address} {y : Attendee} (h : s.Rewrites t b y)
    (hgrows : (s.attendeeOrBlank b).GrowsInto y) {a : Address} {x : Attendee}
    (hx : s.attendee a = some x) : ∃ z, t.attendee a = some z ∧ x.GrowsInto z := by
  by_cases ha : b = a
  · subst ha
    rw [attendeeOrBlank_of_attendee hx] at hgrows
    exact ⟨y, by rw [h.attendee, if_pos rfl], hgrows⟩
  · exact ⟨x, by rw [h.attendee, if_neg ha, hx], .refl x⟩

end Store

namespace Meeting

/-- Those who meet grow. -/
theorem meet_growsInto {sender : Address} {time : Int64} {id : ScanId} {a b : Attendee}
    {p : Parties} {s t : Store} (h : (meet sender time id a b).run s = (.ok p, t)) :
    a.GrowsInto p.sender ∧ b.GrowsInto p.scanned := by
  rcases meet_run_ok h with ⟨scan, -, rfl, -⟩ | ⟨-, scan, -, rfl, -⟩
  · exact ⟨.refl a, .refl b⟩
  · exact ⟨.awarded _ _ a, .awarded _ _ b⟩

/-- The parties grow when one of them shares, and so does their meeting. -/
theorem share_growsInto {a : Address} {data : Blob} {p q : Parties} {s t : Store}
    (h : (share a data p).run s = (.ok q, t)) :
    p.sender.GrowsInto q.sender ∧ p.scanned.GrowsInto q.scanned ∧ p.scan.GrowsInto q.scan := by
  rcases share_run_ok h with ⟨hshares, rfl, -⟩ | ⟨-, rfl, -⟩
  · exact ⟨.awarded _ _ _, .refl _, .share hshares⟩
  · exact ⟨.refl _, .refl _, .refl _⟩

namespace Encounter

variable {members : List Address} {time : Int64} {m : BadgeScan} {s t : Store}

/-- Attendees grow by a scan. -/
theorem attendee_growsInto (e : Encounter members time m s t) {a : Address} {x : Attendee}
    (hx : s.attendee a = some x) : ∃ y, t.attendee a = some y ∧ x.GrowsInto y := by
  obtain ⟨hsender, hscanned⟩ := meet_growsInto e.meets
  obtain ⟨hsender', hscanned', -⟩ := share_growsInto e.shares
  by_cases hb : .ofTicket m.ticket = a
  · subst hb
    have hsame : e.scanned = x := Option.some.inj (e.found_scanned.symm.trans hx)
    refine ⟨e.shared.scanned, by rw [e.attendee, if_pos rfl], ?_⟩
    rw [← hsame]
    exact (hscanned.trans (.addScanId _ _)).trans hscanned'
  · by_cases ha : m.sender = a
    · subst ha
      have hsame : e.sender = x := Option.some.inj (e.found_sender.symm.trans hx)
      refine ⟨e.shared.sender, by rw [e.attendee, if_neg hb, if_pos rfl], ?_⟩
      rw [← hsame]
      exact (hsender.trans (.addScanId _ _)).trans hsender'
    · exact ⟨x, by rw [e.attendee, if_neg hb, if_neg ha, hx], .refl x⟩

/-- Meetings grow by a scan: the one of the two, if it was there, was not made anew. -/
theorem meeting_growsInto (e : Encounter members time m s t) {i : ScanId} {x : Scan}
    (hx : s.meeting i = some x) : ∃ y, t.meeting i = some y ∧ x.GrowsInto y := by
  by_cases hi : e.id = i
  · subst hi
    refine ⟨e.shared.scan, by rw [e.meeting, if_pos rfl], ?_⟩
    have hshared := (share_growsInto e.shares).2.2
    rcases meet_run_ok e.meets with ⟨scan, hfound, hp, -⟩ | ⟨hnone, -⟩
    · have hmet : e.met.listed.scan = x := by
        rw [hp]
        exact Option.some.inj (hfound.symm.trans hx)
      rw [hmet] at hshared
      exact hshared
    · rw [hx] at hnone
      cases hnone
  · exact ⟨x, by rw [e.meeting, if_neg hi, hx], .refl x⟩

end Encounter

end Meeting

namespace Operation

variable {members : List Address} {op : Operation} {time : Int64} {s t : Store}

/-- Attendees grow by every operation. -/
theorem Effect.attendee_growsInto (h : op.Effect members time s t) (hcustody : s.InCustody)
    {a : Address} {x : Attendee} (hx : s.attendee a = some x) :
    ∃ y, t.attendee a = some y ∧ x.GrowsInto y := by
  cases h with
  | keyed hop hmaster haccount hkey hrecords hprizes =>
    exact hrecords.attendee_growsInto (.keyed _ hkey) hx
  | @claimed m hop z y hz hclaimed hreveals hy hrecords hprizes =>
    -- the key that the claim installs is that of the account, which custody keeps equal
    obtain ⟨account, haccount, hkey⟩ := hcustody.key_of_reveals hz hreveals
    have hinstalled : (s.account m.attendee).bind (·.pubKey) = z.pubKey := by
      rw [haccount]
      exact hkey
    rw [hinstalled] at hy
    refine hrecords.attendee_growsInto ?_ hx
    rw [Store.attendeeOrBlank_of_attendee hz, hy]
    exact (Attendee.GrowsInto.claims m hclaimed).trans (.awarded _ _ _)
  | met hop e => exact e.attendee_growsInto hx
  | collected hop hredeem hz hrecords hprizes =>
    refine hrecords.attendee_growsInto ?_ hx
    rw [Store.attendeeOrBlank_of_attendee hz]
    exact .collectWinnings _

/-- Meetings grow by every operation. -/
theorem Effect.meeting_growsInto (h : op.Effect members time s t) {id : ScanId} {x : Scan}
    (hx : s.meeting id = some x) : ∃ y, t.meeting id = some y ∧ x.GrowsInto y := by
  cases h with
  | keyed hop hmaster haccount hkey hrecords hprizes =>
    exact ⟨x, by rw [hrecords.meeting, hx], .refl x⟩
  | claimed hop hz hclaimed hreveals hy hrecords hprizes =>
    exact ⟨x, by rw [hrecords.meeting, hx], .refl x⟩
  | met hop e => exact e.meeting_growsInto hx
  | collected hop hredeem hz hrecords hprizes =>
    exact ⟨x, by rw [hrecords.meeting, hx], .refl x⟩

/-- Prizes run down by every operation. -/
theorem Effect.runsDown (h : op.Effect members time s t) (hs : s.Sound members) {tier : UInt8}
    {p : Prize} (hp : s.prize tier = some p) : ∃ q, t.prize tier = some q ∧ p.RunsDownTo q := by
  cases h with
  | keyed hop hmaster haccount hkey hrecords hprizes => exact ⟨p, by rw [hprizes, hp], .refl p⟩
  | claimed hop hz hclaimed hreveals hy hrecords hprizes =>
    rw [hprizes]
    exact hs.runsDown_handOut _ _ hp
  | met hop e =>
    rw [e.prize]
    exact ((Meeting.meet_awarding e.meets).append (Meeting.share_awarding e.shares)).runsDown hs hp
  | collected hop hredeem hz hrecords hprizes => exact ⟨p, by rw [hprizes, hp], .refl p⟩

/-- The store grows by every operation that succeeds. -/
theorem growsInto_of_run_ok (hs : s.Sound members) (hcustody : s.InCustody) (hop : Fits op)
    (h : (op.program time).run s = (.ok (), t)) : s.GrowsInto t := by
  have heffect := effect_of_run_ok hs hop h
  constructor
  · intro k hk
    have hpresent := Access.present_of_run (op.program time) hk
    rw [h] at hpresent
    exact hpresent
  · exact fun a x => heffect.attendee_growsInto hcustody
  · exact fun id x => heffect.meeting_growsInto
  · exact fun tier p => heffect.runsDown hs
  · intro a x hx
    refine ⟨op.rekey a x, by rw [account_of_run_ok hs.rows.placed h, hx, Option.map_some], ?_⟩
    rw [rekey_eq]
    exact ⟨rfl, rfl⟩
  · intro cls
    have hprize : ∀ tier, [cls] ≠ StoreKey.prize tier := by
      intro tier
      simp [StoreKey.prize, StoreKey.member, StoreKey.collection]
    exact get?_of_run_ok hs hop h (op.not_names_single cls) hprize

end Operation

namespace Chain

variable {chainId : String} {g : Genesis} {c : Chain} {members : List Address}

/-- The store grows when the sequence of the signer is counted up. -/
theorem counted_growsInto (hs : c.store.Placed) {tx : SignedTx} {x : Account}
    (h : c.Admits tx x) : c.store.GrowsInto (c.store.counted x) := by
  constructor
  · exact fun k => Access.present_of_run (Records.setAccount { x with sequence := x.sequence + 1 })
  · exact fun a y hy => ⟨y, by rw [Store.attendee_counted, hy], .refl y⟩
  · exact fun id y hy => ⟨y, by rw [Store.meeting_counted, hy], .refl y⟩
  · exact fun tier p hp => ⟨p, by rw [Store.prize_counted, hp], .refl p⟩
  · intro a y hy
    refine ⟨_, by rw [account_of_admits hs h, hy, Option.map_some], ?_⟩
    split_ifs
    all_goals exact ⟨rfl, rfl⟩
  · intro cls
    have hne : StoreKey.account x.address ≠ [cls] := by
      simp [StoreKey.account, StoreKey.member, StoreKey.collection]
    exact Store.get?_set_ne _ _ hne

/-- The store grows by every delivery. -/
theorem deliver_growsInto (hs : c.store.Sound members) (hcustody : c.store.InCustody)
    {tx : SignedTx} (htx : Fits tx.op) (time : Int64) :
    c.store.GrowsInto (c.deliver tx time).2.store := by
  have hdelivered := c.delivered tx time
  generalize c.deliver tx time = r at hdelivered ⊢
  cases hdelivered with
  | notAdmitted e => exact .refl _
  | failed hadmits e hrun => exact counted_growsInto hs.rows.placed hadmits
  | done hadmits hrun =>
    have hcounted := counted_growsInto hs.rows.placed hadmits
    exact hcounted.trans (Operation.growsInto_of_run_ok (counted_sound hs hadmits)
      (counted_inCustody hs hcustody hadmits) htx hrun)

/-- The store grows by every run. -/
theorem after_growsInto (hs : c.store.Sound members) (hcustody : c.store.InCustody)
    {ds : List Delivery} (hds : ∀ d ∈ ds, Fits d.tx.op) :
    c.store.GrowsInto (c.after ds).store := by
  have hrun : (c.after ds).store.Sound members ∧ (c.after ds).store.InCustody ∧
      c.store.GrowsInto (c.after ds).store := by
    refine after_induction
      (P := fun b => b.store.Sound members ∧ b.store.InCustody ∧ c.store.GrowsInto b.store)
      ⟨hs, hcustody, .refl _⟩ ?_
    rintro d hd b ⟨hb, hbcustody, hgrows⟩
    exact ⟨deliver_sound hb (hds d hd) d.time,
      (deliver_inCustody hb hbcustody (hds d hd) d.time).1,
      hgrows.trans (deliver_growsInto hb hbcustody (hds d hd) d.time)⟩
  exact hrun.2.2

/-! ### What the sequences count -/

/-- A run in two parts executes what the first part does, and then what the second does. -/
theorem executedFor_append (c : Chain) (ds es : List Delivery) (a : Address) :
    c.executedFor (ds ++ es) a = c.executedFor ds a ++ (c.after ds).executedFor es a := by
  induction ds generalizing c with
  | nil => rfl
  | cons d ds ih =>
    have hafter : c.after (d :: ds) = (c.deliver d.tx d.time).2.after ds := rfl
    rw [List.cons_append, executedFor_cons, executedFor_cons, ih, hafter]
    split_ifs
    · rw [List.cons_append]
    · rfl

/-- The sequence of an address goes up by the number of transactions executed for it, as far as it
can count. -/
theorem sequence_after (hs : c.store.Placed) (ds : List Delivery) (a : Address) :
    (c.after ds).store.sequence a =
      c.store.sequence a + UInt64.ofNat (c.executedFor ds a).length := by
  induction ds generalizing c with
  | nil => exact (UInt64.add_zero _).symm
  | cons d ds ih =>
    have hstep := sequence_deliver hs d.tx d.time a
    have hafter : c.after (d :: ds) = (c.deliver d.tx d.time).2.after ds := rfl
    rw [executedFor_cons, hafter, ih (deliver_placed hs d.tx d.time)]
    by_cases hcounts : (c.deliver d.tx d.time).1.executed = true ∧ d.tx.op.signer = a
    · rw [if_pos hcounts] at hstep ⊢
      have hone : UInt64.ofNat 1 = 1 := rfl
      rw [hstep.2, List.length_cons, Nat.add_comm, UInt64.ofNat_add, hone, UInt64.add_assoc]
    · rw [if_neg hcounts] at hstep ⊢
      rw [hstep]

/-- The sequences of a genesis count the transactions executed since, and do not go down as long as
they can count them. -/
theorem sequence_le (h : ofGenesis chainId g = .ok c) (ds es : List Delivery) {a : Address}
    (hcounts : (c.executedFor (ds ++ es) a).length < UInt64.size) :
    (c.after ds).store.sequence a ≤ (c.after (ds ++ es)).store.sequence a := by
  have hplaced := (holds_of_genesis h).placed
  have hlength := congrArg List.length (c.executedFor_append ds es a)
  rw [List.length_append] at hlength
  rw [UInt64.le_iff_toNat_le, sequence_after hplaced, sequence_after hplaced,
    sequence_of_genesis h, UInt64.zero_add, UInt64.zero_add,
    UInt64.toNat_ofNat_of_lt' hcounts, UInt64.toNat_ofNat_of_lt' (by omega)]
  omega

/-- A run in two parts that has taken back nothing, at its end, of what it had recorded between
them. -/
structure KeepsHistory (c : Chain) (ds es : List Delivery) : Prop where
  /-- Every entry is still there. -/
  present : ∀ k v, (c.after ds).store.get? k = some v →
    ∃ w, (c.after (ds ++ es)).store.get? k = some w
  /-- Every attendee has grown. -/
  attendees : ∀ a x, (Records.attendee a).eval (c.after ds).store = .ok (some x) →
    ∃ y, (Records.attendee a).eval (c.after (ds ++ es)).store = .ok (some y) ∧ x.GrowsInto y
  /-- Every meeting has grown. -/
  meetings : ∀ id x, (Records.scan id).eval (c.after ds).store = .ok (some x) →
    ∃ y, (Records.scan id).eval (c.after (ds ++ es)).store = .ok (some y) ∧ x.GrowsInto y
  /-- Every prize has run down. -/
  prizes : ∀ tier p, (Records.prize tier).eval (c.after ds).store = .ok (some p) →
    ∃ q, (Records.prize tier).eval (c.after (ds ++ es)).store = .ok (some q) ∧ p.RunsDownTo q
  /-- Every account keeps its address and its number. Its sequence has counted the transactions
  executed for it since, and has not gone down as long as it can count all of them. -/
  accounts : ∀ a x, (c.after ds).account a = .ok (some x) →
    ∃ y, (c.after (ds ++ es)).account a = .ok (some y) ∧ y.address = x.address ∧
      y.number = x.number ∧
      y.sequence = x.sequence + UInt64.ofNat ((c.after ds).executedFor es a).length ∧
      ((c.executedFor (ds ++ es) a).length < UInt64.size → x.sequence ≤ y.sequence)
  /-- The two services and the number of the next account are as they were. -/
  services : (c.after (ds ++ es)).store.get? StoreKey.master =
      (c.after ds).store.get? StoreKey.master ∧
    (c.after (ds ++ es)).store.get? StoreKey.redeem = (c.after ds).store.get? StoreKey.redeem ∧
    (c.after (ds ++ es)).store.get? StoreKey.accountNumber =
      (c.after ds).store.get? StoreKey.accountNumber

/-- Every run of operations that fit from a sized genesis keeps the history of each of its
beginnings. -/
theorem keepsHistory (hg : g.Sized) (h : ofGenesis chainId g = .ok c) {ds es : List Delivery}
    (hds : ∀ d ∈ ds ++ es, Fits d.tx.op) : c.KeepsHistory ds es := by
  have hfits : ∀ d ∈ ds, Fits d.tx.op := fun d hd => hds d (List.mem_append_left es hd)
  have hs := after_sound hg h hfits
  have hlast := after_sound hg h hds
  have hgrows : (c.after ds).store.GrowsInto (c.after (ds ++ es)).store := by
    rw [after_append]
    exact after_growsInto hs (after_inCustody hg h hfits) fun d hd =>
      hds d (List.mem_append_right ds hd)
  constructor
  · intro k v hv
    exact Option.isSome_iff_exists.mp (hgrows.present k (Option.isSome_of_eq_some hv))
  · intro a x hx
    rw [attendee_eval hs] at hx
    obtain ⟨y, hy, hxy⟩ := hgrows.attendee a x (Except.ok.inj hx)
    exact ⟨y, by rw [attendee_eval hlast, hy], hxy⟩
  · intro id x hx
    rw [Access.eval, hs.scan_run] at hx
    obtain ⟨y, hy, hxy⟩ := hgrows.meeting id x (Except.ok.inj hx)
    exact ⟨y, by rw [Access.eval, hlast.scan_run, hy], hxy⟩
  · intro tier p hp
    rw [Access.eval, hs.prize_run] at hp
    obtain ⟨q, hq, hpq⟩ := hgrows.prize tier p (Except.ok.inj hp)
    exact ⟨q, by rw [Access.eval, hlast.prize_run, hq], hpq⟩
  · intro a x hx
    rw [account_eq hs.rows.placed] at hx
    have hfound := Except.ok.inj hx
    obtain ⟨y, hy, haddress, hnumber⟩ := hgrows.account a x hfound
    have hbefore : (c.after ds).store.sequence a = x.sequence := by
      rw [Store.sequence, hfound, Option.elim_some]
    have hafter : (c.after (ds ++ es)).store.sequence a = y.sequence := by
      rw [Store.sequence, hy, Option.elim_some]
    refine ⟨y, by rw [account_eq hlast.rows.placed, hy], haddress, hnumber, ?_, ?_⟩
    · rw [← hafter, ← hbefore, after_append]
      exact sequence_after hs.rows.placed es a
    · intro hcounts
      rw [← hafter, ← hbefore]
      exact sequence_le h ds es hcounts
  · exact ⟨hgrows.single _, hgrows.single _, hgrows.single _⟩

/-- On the ledger of two attendees one of them is keyed and claims the account, and the scan of the
other that follows keeps this history. -/
theorem keepsHistory_scan :
    SmallLedger.pair.Sized ∧ ofGenesis "test-chain" SmallLedger.pair = .ok SmallLedger.pairChain ∧
      (∀ d ∈ SmallLedger.lifecycle ++ [SmallLedger.scan], Fits d.tx.op) ∧
      SmallLedger.pairChain.KeepsHistory SmallLedger.lifecycle [SmallLedger.scan] ∧
      (SmallLedger.pairChain.answers (SmallLedger.lifecycle ++ [SmallLedger.scan])).map
        (·.2.code) = [0, 0, 0] :=
  ⟨SmallLedger.sized_pair, SmallLedger.ofGenesis_pair, SmallLedger.fits_encounter,
    keepsHistory SmallLedger.sized_pair SmallLedger.ofGenesis_pair SmallLedger.fits_encounter,
    SmallLedger.codes_encounter⟩

end Chain

end ConferenceLedger

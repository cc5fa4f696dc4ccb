import ConferenceLedger.Proofs.Ledger.Supply
import ConferenceLedger.Proofs.Ledger.Verdicts

/-!
# What an operation reads and writes

Apart from the prizes an operation reads the addresses of the services and the records of the
addresses that it names: the attendees, the accounts and the meeting of two of them. It writes
nothing but such records and prizes. So on two stores that have the same of these, and enough of
every prize or none, it answers the same and writes the same records.
-/

namespace ConferenceLedger

namespace StoreKey

/-- The key of a record of some addresses: of an attendee, of an account or of the meeting of two. -/
def Concerns (l : List Address) (k : Bytes) : Prop :=
  ∃ a ∈ l, k = attendee a ∨ k = account a ∨ ∃ b ∈ l, ScanId.ofPair a b = .ok ⟨k⟩

namespace Concerns

variable {l m : List Address} {k : Bytes} {a b : Address}

/-- The record of an attendee concerns the attendee. -/
theorem attendee (ha : a ∈ l) : Concerns l (StoreKey.attendee a) := ⟨a, ha, Or.inl rfl⟩

/-- The account of an address concerns the address. -/
theorem account (ha : a ∈ l) : Concerns l (StoreKey.account a) := ⟨a, ha, Or.inr (Or.inl rfl)⟩

/-- The meeting of two concerns the two. -/
theorem meeting (ha : a ∈ l) (hb : b ∈ l) {id : ScanId} (h : ScanId.ofPair a b = .ok id) :
    Concerns l id.bytes := ⟨a, ha, Or.inr (Or.inr ⟨b, hb, h⟩)⟩

/-- Such a key is that of an attendee, of a meeting or of an account. -/
theorem isMember (h : Concerns l k) : isMember attendeeClass k = true ∨
    isMember scanClass k = true ∨ isMember accountClass k = true := by
  obtain ⟨a, -, rfl | rfl | ⟨b, -, hpair⟩⟩ := h
  · exact Or.inl rfl
  · exact Or.inr (Or.inr rfl)
  · exact Or.inr (Or.inl (ScanId.isMember_ofPair hpair))

/-- Such a key is not that of a prize. -/
theorem ne_prize (h : Concerns l k) (tier : UInt8) : k ≠ prize tier := by
  rintro rfl
  rcases h.isMember with hk | hk | hk <;> cases hk

/-- Such a key is not that of a single record. -/
theorem not_single (cls : UInt8) : ¬Concerns l [cls] := by
  intro h
  rcases h.isMember with hk | hk | hk <;> simp [StoreKey.isMember, collection, Bytes.startsWith] at hk

/-- What concerns some addresses does not concern others. -/
theorem not_disjoint (h : Concerns l k) (h' : Concerns m k) : ¬l.Disjoint m := by
  intro hdisjoint
  obtain ⟨a, ha, hka⟩ := h
  obtain ⟨c, hc, hkc⟩ := h'
  have hne : a ≠ c := fun heq => hdisjoint ha (heq ▸ hc)
  have hmeeting : ∀ {x y : Address}, ScanId.ofPair x y = .ok ⟨k⟩ → k.head? = some scanClass :=
    fun hpair => head?_of_isMember (ScanId.isMember_ofPair hpair)
  rcases hka with rfl | rfl | ⟨b, hb, hpair⟩
  · rcases hkc with heq | heq | ⟨d, -, hpair⟩
    · exact hne (attendee_inj.mp heq)
    · exact attendee_ne_account _ _ heq
    · cases hmeeting hpair
  · rcases hkc with heq | heq | ⟨d, -, hpair⟩
    · exact attendee_ne_account _ _ heq.symm
    · exact hne (account_inj.mp heq)
    · cases hmeeting hpair
  · rcases hkc with rfl | rfl | ⟨d, hd, hpair'⟩
    · cases hmeeting hpair
    · cases hmeeting hpair
    · rcases ScanId.ofPair_inj hpair hpair' with ⟨rfl, -⟩ | ⟨rfl, -⟩
      · exact hne rfl
      · exact hdisjoint ha hd

end Concerns

end StoreKey

namespace Operation

/-- The addresses that an operation names. -/
def parties : Operation → List Address
  | key m => [m.master, m.attendee]
  | claimKey m => [m.attendee]
  | scanQr m => [m.sender, .ofTicket m.ticket]
  | redeem m => [m.sender, .ofTicket m.ticket]

/-- The signer is one of them. -/
theorem signer_mem_parties (op : Operation) : op.signer ∈ op.parties := by
  cases op <;> exact List.mem_cons_self

/-- The attendee who is keyed is one of them. -/
theorem attendee_mem_parties (m : KeyGrant) : m.attendee ∈ (key m).parties :=
  List.mem_cons_of_mem _ List.mem_cons_self

/-- The attendee who is scanned is one of them. -/
theorem scanned_mem_parties (m : BadgeScan) : Address.ofTicket m.ticket ∈ (scanQr m).parties :=
  List.mem_cons_of_mem _ List.mem_cons_self

/-- The attendee who collects is one of them. -/
theorem collector_mem_parties (m : Redemption) : Address.ofTicket m.ticket ∈ (redeem m).parties :=
  List.mem_cons_of_mem _ List.mem_cons_self

/-- The keys that an operation names concern the addresses that it names. -/
theorem concerns_of_names {op : Operation} {k : Bytes} (h : op.Names k) :
    StoreKey.Concerns op.parties k := by
  cases op with
  | key m =>
    have hattendee := Operation.attendee_mem_parties m
    rcases h with rfl | rfl
    · exact .attendee hattendee
    · exact .account hattendee
  | claimKey m =>
    have hk : k = StoreKey.attendee m.attendee := h
    rw [hk]
    exact .attendee List.mem_cons_self
  | scanQr m =>
    have hticket := Operation.scanned_mem_parties m
    rcases h with rfl | rfl | hpair
    · exact .attendee List.mem_cons_self
    · exact .attendee hticket
    · exact .meeting List.mem_cons_self hticket hpair
  | redeem m =>
    have hk : k = StoreKey.attendee (.ofTicket m.ticket) := h
    rw [hk]
    exact .attendee (collector_mem_parties m)

end Operation

namespace Store

variable {members : List Address} {s t : Store}

/-- Two stores with the same services, the same records of some addresses and the same table of
prizes, which have two units of every prize or have both run out of it. -/
structure AgreesOn (l : List Address) (s t : Store) : Prop where
  /-- The records of the addresses are the same. -/
  entries : ∀ k, StoreKey.Concerns l k → t.get? k = s.get? k
  /-- The single records are the same. -/
  services : ∀ cls : UInt8, t.get? [cls] = s.get? [cls]
  /-- The prizes are the same but for the units left. -/
  brand : t.brand = s.brand
  /-- Two units are left of a prize or none in both. -/
  supply : StockedAlike 2 s t

/-- A record is read from its entry. -/
theorem record?_congr {α : Type} [Binary α] {k : Bytes} (h : t.get? k = s.get? k) :
    t.record? α k = s.record? α k := by
  rw [record?, h, record?]

/-- Rows filed on the same entry leave the same. -/
theorem get?_fileAll_congr (rows : List Row) {k : Bytes} (h : t.get? k = s.get? k) :
    (t.fileAll rows).get? k = (s.fileAll rows).get? k := by
  induction rows generalizing s t with
  | nil => exact h
  | cons r rows ih =>
    apply ih
    rw [file, file, get?_set, get?_set, h]

namespace AgreesOn

variable {l : List Address} {a b : Address}

/-- The attendees are the same. -/
theorem attendee (h : s.AgreesOn l t) (ha : a ∈ l) : t.attendee a = s.attendee a :=
  record?_congr (h.entries _ (.attendee ha))

/-- The accounts are the same. -/
theorem account (h : s.AgreesOn l t) (ha : a ∈ l) : t.account a = s.account a :=
  record?_congr (h.entries _ (.account ha))

/-- The records of the attendees are the same. -/
theorem attendeeOrBlank (h : s.AgreesOn l t) (ha : a ∈ l) :
    t.attendeeOrBlank a = s.attendeeOrBlank a := by
  rw [Store.attendeeOrBlank, h.attendee ha, Store.attendeeOrBlank]

/-- The meeting of two is the same. -/
theorem meeting (h : s.AgreesOn l t) (ha : a ∈ l) (hb : b ∈ l) {id : ScanId}
    (hpair : ScanId.ofPair a b = .ok id) : t.meeting id = s.meeting id := by
  rw [Store.meeting, Store.meeting, record?_congr (h.entries _ (.meeting ha hb hpair))]

/-- The keying service is the same. -/
theorem master (h : s.AgreesOn l t) : t.master = s.master := record?_congr (h.services _)

/-- The redeeming service is the same. -/
theorem redeem (h : s.AgreesOn l t) : t.redeem = s.redeem := record?_congr (h.services _)

/-- The verdict on an operation of these addresses is the same. -/
theorem verdict {op : Operation} (h : s.AgreesOn op.parties t) : op.verdict t = op.verdict s := by
  cases op with
  | key m =>
    have hattendee := Operation.attendee_mem_parties m
    rw [Operation.verdict, h.master, h.account hattendee, h.attendeeOrBlank hattendee,
      Operation.verdict]
  | claimKey m => rw [Operation.verdict, h.attendee List.mem_cons_self, Operation.verdict]
  | scanQr m =>
    have hticket := Operation.scanned_mem_parties m
    rw [Operation.verdict, h.attendee hticket, h.attendee List.mem_cons_self, Operation.verdict]
  | redeem m =>
    have hticket := Operation.collector_mem_parties m
    rw [Operation.verdict, h.redeem, h.attendee hticket, Operation.verdict]

/-- An award is the same, since units are left of the same tiers. -/
theorem awarded (h : s.AgreesOn l t) (hs : s.Sound members) (ht : t.Sound members)
    (points : UInt64) (x : Attendee) : t.awarded points x = s.awarded points x := by
  apply hs.awarded_congr ht h.brand
  intro tier _
  have hsupply := h.supply tier
  omega

end AgreesOn

end Store

namespace Meeting

variable {members : List Address} {time : Int64} {s t u v : Store}

/-- Two meet alike where their meeting is the same and enough is left of every prize. -/
theorem meet_congr {l : List Address} (h : s.AgreesOn l t) (hs : s.Sound members)
    (ht : t.Sound members) {sender : Address} {id : ScanId} {a b : Attendee} {p q : Parties}
    (hmeeting : t.meeting id = s.meeting id)
    (hmeet : (meet sender time id a b).run s = (.ok p, u))
    (hmeet' : (meet sender time id a b).run t = (.ok q, v)) : q = p := by
  rcases meet_run_ok hmeet with ⟨scan, hscan, rfl, -⟩ | ⟨hnone, scan, hscan, rfl, -⟩
  · rcases meet_run_ok hmeet' with ⟨scan', hscan', rfl, -⟩ | ⟨hnone', -⟩
    · rw [hmeeting, hscan] at hscan'
      cases hscan'
      rfl
    · rw [hmeeting, hscan] at hnone'
      cases hnone'
  · rcases meet_run_ok hmeet' with ⟨scan', hscan', -⟩ | ⟨-, scan', hscan', rfl, -⟩
    · rw [hmeeting, hnone] at hscan'
      cases hscan'
    · rw [hscan] at hscan'
      cases hscan'
      have hfirst : t.awarded Award.scanPoints a = s.awarded Award.scanPoints a :=
        h.awarded hs ht Award.scanPoints a
      have hbrand : (t.handOut Award.scanPoints a).brand = (s.handOut Award.scanPoints a).brand := by
        funext tier
        rw [ht.brand_handOut, hs.brand_handOut, h.brand]
      -- one of two units may be gone by now, so some are left where there were two
      have hsecond : (t.handOut Award.scanPoints a).awarded Award.scanPoints b =
          (s.handOut Award.scanPoints a).awarded Award.scanPoints b := by
        apply (hs.handOut Award.scanPoints a).awarded_congr (ht.handOut Award.scanPoints a) hbrand
        intro tier _
        have hsupply := h.supply tier
        have hstock := hs.stock_award Award.scanPoints a tier
        have hstock' := ht.stock_award Award.scanPoints a tier
        omega
      rw [hfirst, hsecond]

/-- The sender shares alike where units are left of the same tiers above that of the sender. -/
theorem share_congr (hu : u.Sound members) (hv : v.Sound members) (hbrand : v.brand = u.brand)
    {a : Address} {data : Blob} {p q r : Parties} {s' t' : Store}
    (hstock : ∀ tier, p.sender.tier < tier → (v.stock tier = 0 ↔ u.stock tier = 0))
    (hshare : (share a data p).run u = (.ok q, s'))
    (hshare' : (share a data p).run v = (.ok r, t')) : r = q := by
  have hawarded := hu.awarded_congr hv hbrand Award.sharePoints hstock
  rcases share_run_ok hshare with ⟨hshares, rfl, -⟩ | ⟨hshares, rfl, -⟩
  · rcases share_run_ok hshare' with ⟨-, rfl, -⟩ | ⟨hshares', -⟩
    · rw [hawarded]
    · rw [hshares] at hshares'
      cases hshares'
  · rcases share_run_ok hshare' with ⟨hshares', -⟩ | ⟨-, rfl, -⟩
    · rw [hshares] at hshares'
      cases hshares'
    · rfl

/-- A scan leaves the same records on two stores that agree on the two. -/
theorem scanBadge_congr {m : BadgeScan} (h : s.AgreesOn (Operation.scanQr m).parties t)
    (hs : s.Sound members) (ht : t.Sound members)
    (hrun : (scanBadge time m).run s = (.ok (), u))
    (hrun' : (scanBadge time m).run t = (.ok (), v)) {k : Bytes}
    (hk : StoreKey.Concerns (Operation.scanQr m).parties k) : v.get? k = u.get? k := by
  have hticket := Operation.scanned_mem_parties m
  have hsenderMem : m.sender ∈ (Operation.scanQr m).parties := List.mem_cons_self
  obtain ⟨scanned, sender, id, hscanned, hsender, hpair, met, u₁, shared, u₂, hmeet, hshare, rfl⟩ :=
    scanBadge_run_ok hrun
  obtain ⟨scanned', sender', id', hscanned', hsender', hpair', met', v₁, shared', v₂, hmeet',
    hshare', rfl⟩ := scanBadge_run_ok hrun'
  rw [h.attendee hticket, hscanned] at hscanned'
  cases hscanned'
  rw [h.attendee hsenderMem, hsender] at hsender'
  cases hsender'
  rw [hpair] at hpair'
  cases hpair'
  have haddress : scanned.address = .ofTicket m.ticket := (hs.attendee hscanned).2
  have hmeeting : t.meeting id = s.meeting id :=
    h.meeting hsenderMem hticket (haddress ▸ hpair)
  have hmet : met' = met := meet_congr h hs ht hmeeting hmeet hmeet'
  subst hmet
  have hu := (meet_awarding hmeet).sound hs
  have hv := (meet_awarding hmeet').sound ht
  have hbrand : v₁.brand = u₁.brand := by
    funext tier
    rw [(meet_awarding hmeet').brand ht, (meet_awarding hmeet).brand hs, h.brand]
  have hlisted : met'.listed.sender.tier = met'.sender.tier := by
    change (met'.sender.addScanId _).tier = _
    unfold Attendee.addScanId
    split_ifs <;> rfl
  have hshared : shared' = shared := by
    apply share_congr hu hv hbrand ?_ hshare hshare'
    intro tier htier
    rw [hlisted] at htier
    have hsupply := h.supply tier
    have hstock := meet_stock hs hmeet htier
    have hstock' := meet_stock ht hmeet' htier
    omega
  subst hshared
  apply Store.get?_fileAll_congr
  have hawarding := (meet_awarding hmeet).append (share_awarding hshare)
  have hawarding' := (meet_awarding hmeet').append (share_awarding hshare')
  rw [hawarding'.get? hk.ne_prize, hawarding.get? hk.ne_prize, h.entries k hk]

end Meeting

/-- An operation leaves the same records of the addresses that it names on two stores that agree on
them. -/
theorem Operation.get?_run_congr {members : List Address} {op : Operation} {time : Int64}
    {s t u v : Store} (h : s.AgreesOn op.parties t) (hs : s.Sound members) (ht : t.Sound members)
    (hrun : (op.program time).run s = (.ok (), u)) (hrun' : (op.program time).run t = (.ok (), v))
    {k : Bytes} (hk : StoreKey.Concerns op.parties k) : v.get? k = u.get? k := by
  cases op with
  | key m =>
    have hattendee := Operation.attendee_mem_parties m
    obtain ⟨-, -, account, haccount, rfl⟩ := Custody.grantKey_run_ok hrun
    obtain ⟨-, -, account', haccount', rfl⟩ := Custody.grantKey_run_ok hrun'
    rw [h.account hattendee, haccount] at haccount'
    cases haccount'
    rw [h.attendeeOrBlank hattendee]
    exact Store.get?_fileAll_congr _ (h.entries k hk)
  | claimKey m =>
    obtain ⟨x, hx, -, -, y, rfl, rfl⟩ := Custody.claimKey_run_ok hrun
    obtain ⟨x', hx', -, -, y', rfl, rfl⟩ := Custody.claimKey_run_ok hrun'
    rw [h.attendee List.mem_cons_self, hx] at hx'
    cases hx'
    rw [h.account List.mem_cons_self, h.awarded hs ht]
    apply Store.get?_fileAll_congr [_]
    rw [Store.get?_handOut _ _ _ hk.ne_prize, Store.get?_handOut _ _ _ hk.ne_prize, h.entries k hk]
  | scanQr m => exact Meeting.scanBadge_congr h hs ht hrun hrun' hk
  | redeem m =>
    have hticket := Operation.collector_mem_parties m
    obtain ⟨-, x, hx, -, rfl⟩ := Booth.collect_run_ok hrun
    obtain ⟨-, x', hx', -, rfl⟩ := Booth.collect_run_ok hrun'
    rw [h.attendee hticket, hx] at hx'
    cases hx'
    exact Store.get?_fileAll_congr [_] (h.entries k hk)

end ConferenceLedger

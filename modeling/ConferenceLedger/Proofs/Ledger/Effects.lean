import ConferenceLedger.Proofs.Ledger.Soundness
import Mathlib.Algebra.GroupWithZero.Nat
import Mathlib.Data.List.Dedup

/-!
# What an operation makes of the records

A keying, a claim and a redemption write the record of one attendee, and a scan writes those of
two and of their meeting. Awards take units of prizes and leave all else of a prize. Each operation
that succeeds has one account of what it found and of the records that it leaves, and what holds
of the records after every run is proved from these accounts.
-/

namespace ConferenceLedger

/-- A sum over a list without duplicates moves by what one of its terms moves. -/
theorem sum_map_update {α : Type} {f g : α → Nat} {i : α} {l : List α} (hl : l.Nodup) (hi : i ∈ l)
    (hother : ∀ j, j ≠ i → g j = f j) : (l.map g).sum + f i = (l.map f).sum + g i := by
  induction l with
  | nil => cases hi
  | cons j l ih =>
    obtain ⟨hj, hrest⟩ := List.nodup_cons.mp hl
    rw [List.map_cons, List.map_cons, List.sum_cons, List.sum_cons]
    by_cases heq : j = i
    · have hsame : l.map g = l.map f := by
        apply List.map_congr_left
        intro a ha
        apply hother
        rintro rfl
        exact hj (heq ▸ ha)
      rw [hsame, heq]
      omega
    · have hi' : i ∈ l := (List.mem_cons.mp hi).resolve_left (Ne.symm heq)
      have htail := ih hrest hi'
      rw [hother j heq]
      omega

/-- A sum over what is there is a sum in which nothing counts for what is not there. -/
theorem sum_map_filterMap {α β : Type} (f : α → Option β) (g : β → Nat) (l : List α) :
    ((l.filterMap f).map g).sum = (l.map fun a => ((f a).map g).getD 0).sum := by
  induction l with
  | nil => rfl
  | cons a l ih =>
    rw [List.map_cons, List.sum_cons, ← ih]
    cases ha : f a with
    | none => rw [List.filterMap_cons_none ha, Option.map_none, Option.getD_none, Nat.zero_add]
    | some b =>
      rw [List.filterMap_cons_some ha, List.map_cons, List.sum_cons, Option.map_some,
        Option.getD_some]

namespace Store

variable {members : List Address} {s t u : Store}

/-- A prize of a store that can be held fits and is filed under its tier. -/
theorem Sound.prize (hs : s.Sound members) {tier : UInt8} {p : Prize}
    (h : s.prize tier = some p) : Fits p ∧ p.tier = tier :=
  hs.rows.of_prize (fun _ hp => hp) h

/-- The prizes of a store that can be held are those found under their tiers. -/
theorem Sound.mem_prizes (hs : s.Sound members) {p : Prize} :
    p ∈ s.prizes ↔ s.prize p.tier = some p :=
  (hs.rows.prizes fun _ hp => hp).2.2 p

/-- A filed attendee leaves the prizes. -/
@[simp] theorem prize_file_attendee (x : Attendee) (tier : UInt8) :
    (s.file (.attendee x)).prize tier = s.prize tier :=
  record?_file_of_cls_ne (r := .attendee x) trivial rfl (by simp)

/-- A filed account leaves the prizes. -/
@[simp] theorem prize_file_account (x : Account) (tier : UInt8) :
    (s.file (.account x)).prize tier = s.prize tier :=
  record?_file_of_cls_ne (r := .account x) trivial rfl (by simp)

/-- The prizes of a store that can be held are found under their tiers. -/
theorem Sound.filesPrizes (hs : s.Sound members) : s.FilesPrizes :=
  hs.rows.filesPrizes fun _ hp => hp

/-- An award takes one unit of every prize gained and leaves the other prizes. -/
theorem Sound.prize_handOut (hs : s.Sound members) (points : UInt64) (a : Attendee)
    (tier : UInt8) : (s.handOut points a).prize tier = (s.prize tier).map fun p =>
      if p ∈ (a.addRep points).gains s.prizes then p.taken else p :=
  hs.filesPrizes.prize_handOut points a tier

/-- The prize of a tier, without how many units of it are left. -/
def brand (s : Store) (tier : UInt8) : Option Prize :=
  (s.prize tier).map fun p => { p with quantity := 0 }

/-- Stores with the same prizes have the same prizes but for the units left. -/
theorem brand_of_prize {tier : UInt8} (h : t.prize tier = s.prize tier) :
    t.brand tier = s.brand tier := by
  rw [brand, h, brand]

/-- All that an award changes of a prize is how many units are left. -/
theorem FilesPrizes.brand_handOut (hs : s.FilesPrizes) (points : UInt64) (a : Attendee)
    (tier : UInt8) : (s.handOut points a).brand tier = s.brand tier := by
  rw [brand, hs.prize_handOut, Option.map_map, brand]
  congr 1
  funext p
  rw [Function.comp_apply]
  split_ifs <;> rfl

/-- An award changes no more of a prize of a store that can be held. -/
theorem Sound.brand_handOut (hs : s.Sound members) (points : UInt64) (a : Attendee)
    (tier : UInt8) : (s.handOut points a).brand tier = s.brand tier :=
  hs.filesPrizes.brand_handOut points a tier

/-- The sum of a measure over the records of the members. -/
def total (members : List Address) (f : Attendee → Nat) (s : Store) : Nat :=
  (members.dedup.map fun a => f (s.attendeeOrBlank a)).sum

/-- A store that differs from another, as far as attendees and meetings go, in the record of one
attendee. -/
structure Rewrites (s t : Store) (b : Address) (y : Attendee) : Prop where
  /-- The record of this attendee is the new one, and any other is the old one. -/
  attendee : ∀ a, t.attendee a = if b = a then some y else s.attendee a
  /-- The meetings are the same. -/
  meeting : ∀ id, t.meeting id = s.meeting id

/-- The record of the attendee is the new one, and that of any other address is the old one. -/
theorem Rewrites.attendeeOrBlank {b : Address} {y : Attendee} (h : s.Rewrites t b y)
    (a : Address) : t.attendeeOrBlank a = if b = a then y else s.attendeeOrBlank a := by
  rw [Store.attendeeOrBlank, h.attendee]
  split_ifs <;> rfl

/-- Rewriting a member moves a sum over the members by what the measure of the record moves. -/
theorem Rewrites.total {b : Address} {y : Attendee} (h : s.Rewrites t b y) (hb : b ∈ members)
    (f : Attendee → Nat) :
    t.total members f + f (s.attendeeOrBlank b) = s.total members f + f y := by
  have hy : t.attendeeOrBlank b = y := by
    rw [h.attendeeOrBlank, if_pos rfl]
  have hother : ∀ a, a ≠ b → f (t.attendeeOrBlank a) = f (s.attendeeOrBlank a) := by
    intro a ha
    rw [h.attendeeOrBlank, if_neg (Ne.symm ha)]
  have hsum := sum_map_update members.nodup_dedup (List.mem_dedup.mpr hb) hother
  rw [hy] at hsum
  exact hsum

/-- Who is found has the record of the address. -/
theorem attendeeOrBlank_of_attendee {a : Address} {x : Attendee} (h : s.attendee a = some x) :
    s.attendeeOrBlank a = x := by
  rw [attendeeOrBlank, h, Option.getD_some]

/-- Awards leave the meetings. -/
theorem Awarding.meeting (h : Awarding s t) (id : ScanId) : t.meeting id = s.meeting id := by
  rw [Store.meeting, Store.meeting]
  by_cases hid : StoreKey.isMember StoreKey.scanClass id.bytes = true
  · rw [if_pos hid, if_pos hid]
    exact h.record? (StoreKey.head?_of_isMember hid) (by simp)
  · rw [if_neg hid, if_neg hid]

/-- Awards keep what can be held. -/
theorem Awarding.sound (h : Awarding s t) (hs : s.Sound members) : t.Sound members := by
  induction h with
  | none => exact hs
  | award _ points a ih => exact ⟨ih.countable, ih.rows.handOut ih.prizes.1 points a⟩

/-- All that awards change of a prize is how many units are left. -/
theorem Awarding.brand (h : Awarding s t) (hs : s.Sound members) (tier : UInt8) :
    t.brand tier = s.brand tier := by
  induction h with
  | none => rfl
  | award h points a ih => rw [(h.sound hs).brand_handOut, ih]

/-- Filing an attendee that fits, after awards, rewrites that attendee. -/
theorem Awarding.rewrites (h : Awarding s t) {y : Attendee} (hy : Fits y) :
    s.Rewrites (t.file (.attendee y)) y.address y := by
  constructor
  · intro a
    rw [attendee_file_attendee hy, h.attendee]
  · intro id
    rw [meeting_file_of_cls_ne (r := .attendee y) trivial (by simp), h.meeting]

/-- Counting up a sequence leaves the meetings. -/
@[simp] theorem meeting_counted (s : Store) (x : Account) (id : ScanId) :
    (s.counted x).meeting id = s.meeting id :=
  meeting_file_of_cls_ne (r := .account _) trivial (by simp) id

/-- Counting up a sequence leaves the prizes. -/
@[simp] theorem prize_counted (s : Store) (x : Account) (tier : UInt8) :
    (s.counted x).prize tier = s.prize tier :=
  prize_file_account _ tier

end Store

namespace Attendee

/-- The same attendee with more earnings: only the reputation, the tier, the meetings and the wins
are others, and the wins begin with the old ones. -/
structure Earns (x y : Attendee) : Prop where
  /-- All else is the same. -/
  rest : y = { x with rep := y.rep, tier := y.tier, scanIds := y.scanIds, winnings := y.winnings }
  /-- The old wins are the first ones. -/
  winnings : x.winnings <+: y.winnings

namespace Earns

variable {x y z : Attendee}

/-- An attendee may earn nothing. -/
theorem refl (x : Attendee) : x.Earns x := ⟨rfl, List.prefix_rfl⟩

/-- An attendee may earn again. -/
theorem trans (h : x.Earns y) (h' : y.Earns z) : x.Earns z := by
  refine ⟨?_, h.winnings.trans h'.winnings⟩
  have hz := h'.rest
  rw [h.rest] at hz
  exact hz

/-- Whatever does not depend on what is earned stays. -/
theorem same {α : Type} (f : Attendee → α)
    (hf : ∀ rep tier scanIds winnings, f { x with rep, tier, scanIds, winnings } = f x)
    (h : x.Earns y) : f y = f x := by
  rw [h.rest]
  exact hf _ _ _ _

/-- The address stays. -/
theorem address (h : x.Earns y) : y.address = x.address := h.same (·.address) fun _ _ _ _ => rfl

/-- An award is earned. -/
theorem awarded (s : Store) (points : UInt64) (x : Attendee) : x.Earns (s.awarded points x) :=
  ⟨rfl, List.prefix_append _ _⟩

/-- Listing a meeting earns the meeting. -/
theorem addScanId (i : ScanId) (x : Attendee) : x.Earns (x.addScanId i) := by
  unfold Attendee.addScanId
  split_ifs
  · exact refl x
  · exact ⟨rfl, List.prefix_rfl⟩

end Earns

end Attendee

namespace Meeting

/-- Those who meet earn, and nothing else of them changes. -/
theorem meet_earns {sender : Address} {time : Int64} {id : ScanId} {a b : Attendee} {p : Parties}
    {s t : Store} (h : (meet sender time id a b).run s = (.ok p, t)) :
    a.Earns p.sender ∧ b.Earns p.scanned := by
  rcases meet_run_ok h with ⟨scan, -, rfl, -⟩ | ⟨-, scan, -, rfl, -⟩
  · exact ⟨.refl a, .refl b⟩
  · exact ⟨.awarded _ _ a, .awarded _ _ b⟩

/-- Those who share earn, and nothing else of them changes. -/
theorem share_earns {a : Address} {data : Blob} {p q : Parties} {s t : Store}
    (h : (share a data p).run s = (.ok q, t)) :
    p.sender.Earns q.sender ∧ p.scanned.Earns q.scanned := by
  rcases share_run_ok h with ⟨-, rfl, -⟩ | ⟨-, rfl, -⟩
  · exact ⟨.awarded _ _ _, .refl _⟩
  · exact ⟨.refl _, .refl _⟩

/-- A scan that was carried out, with those it found, what they made of their meeting, and the
records that it left. -/
structure Encounter (members : List Address) (time : Int64) (m : BadgeScan) (s t : Store) where
  /-- The one who scans, as found. -/
  sender : Attendee
  /-- The one who is scanned, as found. -/
  scanned : Attendee
  /-- The identifier of their meeting. -/
  id : ScanId
  /-- The parties when they have met. -/
  met : Parties
  /-- The parties when the sender has shared, as they are stored. -/
  shared : Parties
  /-- The store when they have met. -/
  between : Store
  /-- The store when the sender has shared. -/
  last : Store
  /-- The sender was found. -/
  found_sender : s.attendee m.sender = some sender
  /-- The one with the ticket was found. -/
  found_scanned : s.attendee (.ofTicket m.ticket) = some scanned
  /-- The sender has the address of the sender. -/
  address_sender : sender.address = m.sender
  /-- The one who is scanned has the address of the ticket. -/
  address_scanned : scanned.address = .ofTicket m.ticket
  /-- They are the pair of the meeting. -/
  pair : ScanId.ofPair m.sender (.ofTicket m.ticket) = .ok id
  /-- They met. -/
  meets : (meet m.sender time id sender scanned).run s = (.ok met, between)
  /-- The sender shared, or not. -/
  shares : (share m.sender m.data met.listed).run between = (.ok shared, last)
  /-- The sender earned, and nothing else of the record changed. -/
  earns_sender : sender.Earns shared.sender
  /-- The one who is scanned earned, and nothing else of the record changed. -/
  earns_scanned : scanned.Earns shared.scanned
  /-- The store in which they had met can be held. -/
  between_sound : between.Sound members
  /-- What they had made of their meeting can be held. -/
  met_sound : met.Sound members
  /-- The records that are stored can be held. -/
  shared_sound : shared.Sound members
  /-- The meeting that is stored has the identifier of the pair. -/
  id_shared : shared.scan.id = id
  /-- The records were written last. -/
  stored : t = last.fileAll shared.rows
  /-- The records of the two were written and no other attendee's. -/
  attendee : ∀ a, t.attendee a = if .ofTicket m.ticket = a then some shared.scanned
    else if m.sender = a then some shared.sender else s.attendee a
  /-- Their meeting was written and no other. -/
  meeting : ∀ i, t.meeting i = if id = i then some shared.scan else s.meeting i
  /-- The prizes are those that the awards left. -/
  prize : ∀ tier, t.prize tier = last.prize tier

namespace Encounter

variable {members : List Address} {time : Int64} {m : BadgeScan} {s t : Store}

/-- The two are different attendees. -/
theorem ne (e : Encounter members time m s t) : m.sender ≠ .ofTicket m.ticket :=
  (ScanId.ofPair_eq_ok e.pair).1

/-- The records of the two are the new ones, and that of any other address is the old one. -/
theorem attendeeOrBlank (e : Encounter members time m s t) (a : Address) :
    t.attendeeOrBlank a = if .ofTicket m.ticket = a then e.shared.scanned
      else if m.sender = a then e.shared.sender else s.attendeeOrBlank a := by
  rw [Store.attendeeOrBlank, e.attendee]
  split_ifs <;> rfl

/-- All that a scan changes of a prize is how many units are left. -/
theorem brand (e : Encounter members time m s t) (hs : s.Sound members) (tier : UInt8) :
    t.brand tier = s.brand tier := by
  have hawarding := (meet_awarding e.meets).append (share_awarding e.shares)
  rw [Store.brand_of_prize (e.prize tier), hawarding.brand hs]

/-- A scan moves a sum over the members by what the measures of the two records move. -/
theorem total (e : Encounter members time m s t) (hs : s.Sound members) (f : Attendee → Nat) :
    t.total members f + (f e.sender + f e.scanned) =
      s.total members f + (f e.shared.sender + f e.shared.scanned) := by
  obtain ⟨hsender, hsenderAddress⟩ := hs.attendee e.found_sender
  obtain ⟨hscanned, hscannedAddress⟩ := hs.attendee e.found_scanned
  have hmembers : m.sender ∈ members.dedup ∧ .ofTicket m.ticket ∈ members.dedup := by
    rw [List.mem_dedup, List.mem_dedup, ← hsenderAddress, ← hscannedAddress]
    exact ⟨hsender.member, hscanned.member⟩
  -- the sum is moved twice, first by the record of the sender
  let between (a : Address) : Nat := if m.sender = a then f e.shared.sender else
    f (s.attendeeOrBlank a)
  have hfirst : (members.dedup.map between).sum + f e.sender =
      s.total members f + f e.shared.sender := by
    have hother : ∀ a, a ≠ m.sender → between a = f (s.attendeeOrBlank a) := fun a ha =>
      if_neg (Ne.symm ha)
    have hnew : between m.sender = f e.shared.sender := if_pos rfl
    have hsum := sum_map_update members.nodup_dedup hmembers.1 hother
    rw [hnew, Store.attendeeOrBlank_of_attendee e.found_sender] at hsum
    exact hsum
  have hsecond : t.total members f + f e.scanned =
      (members.dedup.map between).sum + f e.shared.scanned := by
    have hother : ∀ a, a ≠ .ofTicket m.ticket → f (t.attendeeOrBlank a) = between a := by
      intro a ha
      rw [e.attendeeOrBlank, if_neg (Ne.symm ha)]
      exact apply_ite f _ _ _
    have hold : between (.ofTicket m.ticket) = f e.scanned := by
      rw [← Store.attendeeOrBlank_of_attendee e.found_scanned]
      exact if_neg e.ne
    have hnew : t.attendeeOrBlank (.ofTicket m.ticket) = e.shared.scanned := by
      rw [e.attendeeOrBlank, if_pos rfl]
    have hsum := sum_map_update members.nodup_dedup hmembers.2 hother
    rw [hnew, hold] at hsum
    exact hsum
  omega

/-- A scan leaves every entry but those of the two, of their meeting and of prizes. -/
theorem get?_of_ne (e : Encounter members time m s t) {k : Bytes}
    (hsender : k ≠ StoreKey.attendee m.sender)
    (hscanned : k ≠ StoreKey.attendee (.ofTicket m.ticket)) (hid : k ≠ e.id.bytes)
    (hk : ∀ tier, k ≠ StoreKey.prize tier) : t.get? k = s.get? k := by
  have hawarding := (meet_awarding e.meets).append (share_awarding e.shares)
  have hsenderAddress := e.earns_sender.address.trans e.address_sender
  have hscannedAddress := e.earns_scanned.address.trans e.address_scanned
  rw [e.stored, ← hawarding.get? hk]
  apply Store.get?_fileAll_of_ne
  intro r hr
  simp only [Parties.rows, List.mem_cons, List.not_mem_nil, or_false] at hr
  rcases hr with rfl | rfl | rfl
  · rw [← e.id_shared] at hid
    exact hid.symm
  · rw [← hsenderAddress] at hsender
    exact hsender.symm
  · rw [← hscannedAddress] at hscanned
    exact hscanned.symm

end Encounter

variable {members : List Address} {time : Int64} {m : BadgeScan} {s t : Store}

/-- Every scan that succeeds is an encounter. -/
theorem encounter_of_run_ok (hs : s.Sound members) (hm : Fits m)
    (h : (scanBadge time m).run s = (.ok (), t)) : Nonempty (Encounter members time m s t) := by
  obtain ⟨scanned, sender, id, met, u, shared, v, hscanned, hsender, hpair, hmeet, hshare, hu, hmet,
    hv, hshared, rfl⟩ := scanBadge_sound hs hm h
  have haddress := (hs.attendee hsender).2
  have hbaddress := (hs.attendee hscanned).2
  have hawarding := (meet_awarding hmeet).append (share_awarding hshare)
  obtain ⟨hmetSender, hmetScanned⟩ := meet_earns hmeet
  obtain ⟨hsharedSender, hsharedScanned⟩ := share_earns hshare
  have hsenderEarns := (hmetSender.trans (.addScanId _ _)).trans hsharedSender
  have hscannedEarns := (hmetScanned.trans (.addScanId _ _)).trans hsharedScanned
  have hsenderAddress : shared.sender.address = m.sender := hsenderEarns.address.trans haddress
  have hscannedAddress : shared.scanned.address = .ofTicket m.ticket :=
    hscannedEarns.address.trans hbaddress
  have hid : shared.scan.id = id := by
    have hmade := hshared.pair
    rw [hsenderAddress, hscannedAddress, hpair] at hmade
    exact (Except.ok.inj hmade).symm
  have hplaced : (Row.meeting shared.scan).WellPlaced := ⟨_, _, hshared.pair⟩
  refine ⟨⟨sender, scanned, id, met, shared, u, v, hsender, hscanned, haddress, hbaddress, hpair,
    hmeet, hshare, hsenderEarns, hscannedEarns, hu, hmet, hshared, hid, rfl, ?_, ?_, ?_⟩⟩
  · intro a
    rw [Parties.rows, Store.fileAll_cons, Store.fileAll_cons, Store.fileAll_cons, Store.fileAll_nil,
      Store.attendee_file_attendee (hshared.scanned.fits hs.countable),
      Store.attendee_file_attendee (hshared.sender.fits hs.countable), hsenderAddress,
      hscannedAddress, ← hawarding.attendee]
    have hmeeting : (v.file (.meeting shared.scan)).attendee a = v.attendee a :=
      Store.record?_file_of_cls_ne hplaced rfl (by simp)
    rw [hmeeting]
  · intro i
    rw [Parties.rows, Store.fileAll_cons, Store.fileAll_cons, Store.fileAll_cons, Store.fileAll_nil,
      Store.meeting_file_of_cls_ne (r := .attendee shared.scanned) trivial (by simp),
      Store.meeting_file_of_cls_ne (r := .attendee shared.sender) trivial (by simp),
      Store.meeting_file_meeting hplaced hshared.scan.fits, hid, hawarding.meeting]
  · intro tier
    rw [Parties.rows, Store.fileAll_cons, Store.fileAll_cons, Store.fileAll_cons, Store.fileAll_nil,
      Store.prize_file_attendee, Store.prize_file_attendee]
    exact Store.record?_file_of_cls_ne hplaced rfl (by simp)

end Meeting

/-- A keying that succeeds leaves every entry but the record and the account of the attendee. -/
theorem Custody.get?_of_grantKey {members : List Address} {m : KeyGrant} {s t : Store}
    (hs : s.Sound members) (h : (grantKey m).run s = (.ok (), t)) {k : Bytes}
    (hattendee : k ≠ StoreKey.attendee m.attendee) (haccount : k ≠ StoreKey.account m.attendee) :
    t.get? k = s.get? k := by
  obtain ⟨-, -, account, hfound, rfl⟩ := grantKey_run_ok h
  have hrecord := (hs.attendeeOrBlank hfound).2
  have haddress := (hs.rows.of_account hfound).2.1
  rw [← hrecord] at hattendee
  rw [← haddress] at haccount
  apply Store.get?_fileAll_of_ne
  intro r hr
  simp only [List.mem_cons, List.not_mem_nil, or_false] at hr
  rcases hr with rfl | rfl
  · exact haccount.symm
  · exact hattendee.symm

namespace Operation

/-- What an operation that succeeds found in the store, and the records that it leaves. -/
inductive Effect (members : List Address) (op : Operation) (time : Int64) (s t : Store) : Prop where
  /-- The keying service keys an attendee, who has an account and no key. -/
  | keyed {m : KeyGrant} (hop : op = .key m) (hmaster : s.master = some m.master)
    (haccount : (s.account m.attendee).isSome = true)
    (hkey : (s.attendeeOrBlank m.attendee).isKeyed = false)
    (hrecords : s.Rewrites t m.attendee (Custody.keyed m (s.attendeeOrBlank m.attendee)))
    (hprizes : ∀ tier, t.prize tier = s.prize tier)
  /-- An attendee, who has not claimed and whose commitment the secret opens, claims and is
  awarded. -/
  | claimed {m : KeyClaim} (hop : op = .claimKey m) {x y : Attendee}
    (hx : s.attendee m.attendee = some x) (hclaimed : x.claimed = false)
    (hreveals : Custody.reveals x m.secret = true)
    (hy : y = Custody.claimed m ((s.account m.attendee).bind (·.pubKey)) x)
    (hrecords : s.Rewrites t m.attendee (s.awarded Award.claimPoints y))
    (hprizes : ∀ tier, t.prize tier = (s.handOut Award.claimPoints y).prize tier)
  /-- An attendee scans another. -/
  | met {m : BadgeScan} (hop : op = .scanQr m) (e : Meeting.Encounter members time m s t)
  /-- The redeeming service hands an attendee the wins that are left. -/
  | collected {m : Redemption} (hop : op = .redeem m) (hredeem : s.redeem = some m.sender)
    {x : Attendee} (hx : s.attendee (.ofTicket m.ticket) = some x)
    (hrecords : s.Rewrites t (.ofTicket m.ticket) x.collectWinnings)
    (hprizes : ∀ tier, t.prize tier = s.prize tier)

/-- Every operation that succeeds has one of these effects. -/
theorem effect_of_run_ok {members : List Address} {op : Operation} {time : Int64} {s t : Store}
    (hs : s.Sound members) (hop : Fits op) (h : (op.program time).run s = (.ok (), t)) :
    Effect members op time s t := by
  cases op with
  | key m =>
    obtain ⟨hmaster, hkey, account, haccount, rfl⟩ := Custody.grantKey_run_ok h
    obtain ⟨hsound, haddress⟩ := hs.attendeeOrBlank haccount
    have hfits : Fits (Custody.keyed m (s.attendeeOrBlank m.attendee)) :=
      (hsound.keyed m).fits hs.countable
    refine .keyed rfl hmaster (Option.isSome_of_eq_some haccount) hkey ⟨?_, ?_⟩ ?_
    · intro a
      have hname : (Custody.keyed m (s.attendeeOrBlank m.attendee)).address = m.attendee := haddress
      rw [Store.fileAll_cons, Store.fileAll_cons, Store.fileAll_nil,
        Store.attendee_file_attendee hfits, hname, Store.attendee_file_account]
    · intro id
      rw [Store.fileAll_cons, Store.fileAll_cons, Store.fileAll_nil,
        Store.meeting_file_of_cls_ne (r := .attendee _) trivial (by simp),
        Store.meeting_file_of_cls_ne (r := .account _) trivial (by simp)]
    · intro tier
      rw [Store.fileAll_cons, Store.fileAll_cons, Store.fileAll_nil, Store.prize_file_attendee,
        Store.prize_file_account]
  | claimKey m =>
    obtain ⟨x, hx, hclaimed, hreveals, y, hy, rfl⟩ := Custody.claimKey_run_ok h
    obtain ⟨hsound, haddress⟩ := hs.attendee hx
    have hysound := hsound.claimed hop ((s.account m.attendee).bind (·.pubKey))
    rw [← hy] at hysound
    have hfits := (hs.award hysound Award.claimPoints).2.fits hs.countable
    have hname : (s.awarded Award.claimPoints y).address = m.attendee := by
      rw [← haddress, hy]
      rfl
    have hrecords := ((Store.Awarding.none s).award Award.claimPoints y).rewrites hfits
    rw [hname] at hrecords
    exact .claimed rfl hx hclaimed hreveals hy hrecords fun tier => Store.prize_file_attendee _ tier
  | scanQr m =>
    obtain ⟨e⟩ := Meeting.encounter_of_run_ok hs hop h
    exact .met rfl e
  | redeem m =>
    obtain ⟨hredeem, x, hx, -, rfl⟩ := Booth.collect_run_ok h
    obtain ⟨hsound, haddress⟩ := hs.attendee hx
    have hfits := hsound.collectWinnings.fits hs.countable
    have hrecords := (Store.Awarding.none s).rewrites hfits
    have hname : x.collectWinnings.address = .ofTicket m.ticket := haddress
    rw [hname] at hrecords
    exact .collected rfl hredeem hx hrecords fun tier => Store.prize_file_attendee _ tier

/-- The keys that an operation names: those of the records of its attendees, of the account that it
keys and of the meeting of its pair. -/
def Names (k : Bytes) : Operation → Prop
  | key m => k = StoreKey.attendee m.attendee ∨ k = StoreKey.account m.attendee
  | claimKey m => k = StoreKey.attendee m.attendee
  | scanQr m => k = StoreKey.attendee m.sender ∨ k = StoreKey.attendee (.ofTicket m.ticket) ∨
    ScanId.ofPair m.sender (.ofTicket m.ticket) = .ok ⟨k⟩
  | redeem m => k = StoreKey.attendee (.ofTicket m.ticket)

/-- An operation that succeeds leaves every entry that it does not name, apart from prizes. -/
theorem get?_of_run_ok {members : List Address} {op : Operation} {time : Int64} {s t : Store}
    (hs : s.Sound members) (hop : Fits op) (h : (op.program time).run s = (.ok (), t)) {k : Bytes}
    (hnames : ¬op.Names k) (hk : ∀ tier, k ≠ StoreKey.prize tier) : t.get? k = s.get? k := by
  cases op with
  | key m =>
    obtain ⟨hattendee, haccount⟩ := not_or.mp hnames
    exact Custody.get?_of_grantKey hs h hattendee haccount
  | claimKey m =>
    obtain ⟨x, hx, -, -, y, rfl, rfl⟩ := Custody.claimKey_run_ok h
    have haddress := (hs.attendee hx).2
    have hne : StoreKey.attendee x.address ≠ k := by
      rw [haddress]
      exact fun heq => hnames heq.symm
    exact (Store.get?_set_ne _ _ hne).trans (Store.get?_handOut _ _ _ hk)
  | scanQr m =>
    obtain ⟨e⟩ := Meeting.encounter_of_run_ok hs hop h
    have hid : k ≠ e.id.bytes := by
      rintro rfl
      exact hnames (Or.inr (Or.inr e.pair))
    exact e.get?_of_ne (fun hk' => hnames (Or.inl hk')) (fun hk' => hnames (Or.inr (Or.inl hk')))
      hid hk
  | redeem m =>
    obtain ⟨-, x, hx, -, rfl⟩ := Booth.collect_run_ok h
    have haddress := (hs.attendee hx).2
    have hne : StoreKey.attendee x.address ≠ k := by
      rw [haddress]
      exact fun heq => hnames heq.symm
    exact Store.get?_set_ne _ _ hne

/-- All that an operation changes of a prize is how many units are left. -/
theorem Effect.brand {members : List Address} {op : Operation} {time : Int64} {s t : Store}
    (h : op.Effect members time s t) (hs : s.Sound members) (tier : UInt8) :
    t.brand tier = s.brand tier := by
  cases h with
  | keyed hop hmaster haccount hkey hrecords hprizes => exact Store.brand_of_prize (hprizes tier)
  | claimed hop hx hclaimed hreveals hy hrecords hprizes =>
    rw [Store.brand_of_prize (hprizes tier), hs.brand_handOut]
  | met hop e => exact e.brand hs tier
  | collected hop hredeem hx hrecords hprizes => exact Store.brand_of_prize (hprizes tier)

end Operation

namespace Chain

/-- What counting up a sequence and every effect of an operation keep, every delivery of an operation
that fits keeps. -/
theorem deliver_of_effects {members : List Address} {P : Store → Prop} {c : Chain}
    (hcounted : ∀ s x, P s → P (s.counted x))
    (heffect : ∀ (op : Operation) time s t, s.Sound members → P s →
      op.Effect members time s t → P t)
    (hs : c.store.Sound members) (hP : P c.store) {tx : SignedTx} (htx : Fits tx.op)
    {time : Int64} : P (c.deliver tx time).2.store := by
  have hdelivered := c.delivered tx time
  generalize c.deliver tx time = r at hdelivered ⊢
  cases hdelivered with
  | notAdmitted e => exact hP
  | failed hadmits e hrun => exact hcounted _ _ hP
  | done hadmits hrun =>
    have hsound := counted_sound hs hadmits
    exact heffect _ time _ _ hsound (hcounted _ _ hP)
      (Operation.effect_of_run_ok hsound htx hrun)

/-- What the store of a sized genesis has, and counting up a sequence and every effect of an
operation keep, the store has after every run of operations that fit. -/
theorem after_of_effects {P : Store → Prop} {chainId : String} {g : Genesis} {c : Chain}
    (hg : g.Sized) (h : ofGenesis chainId g = .ok c) {ds : List Delivery}
    (hds : ∀ d ∈ ds, Fits d.tx.op) (hstart : P c.store)
    (hcounted : ∀ s x, P s → P (s.counted x))
    (heffect : ∀ (op : Operation) time s t, s.Sound g.members → P s →
      op.Effect g.members time s t → P t) :
    P (c.after ds).store := by
  have hrun : (c.after ds).store.Sound g.members ∧ P (c.after ds).store := by
    refine after_induction (P := fun c => c.store.Sound g.members ∧ P c.store)
      ⟨sound_of_genesis hg h, hstart⟩ ?_
    rintro d hd c ⟨hs, hP⟩
    exact ⟨deliver_sound hs (hds d hd) d.time,
      deliver_of_effects hcounted heffect hs hP (hds d hd)⟩
  exact hrun.2

end Chain

end ConferenceLedger

import ConferenceLedger.Proofs.Ledger.Delivery
import Mathlib.Data.List.Nodup

/-!
# Every record stays readable

The lengths in a record are bounded by what the ledger holds: an attendee lists at most one
meeting with every member and at most one win of every tier. So every record that operations
write fits its binary form, as long as the members can be counted and the texts of genesis and
operations fit. A record that fits is read back, and reading never fails.
-/

namespace ConferenceLedger

/-- No byte comes twice among ascending ones. -/
theorem nodup_of_ascending {l : List UInt8} (h : l.Pairwise (· < ·)) : l.Nodup := by
  refine h.imp ?_
  intro a b hlt heq
  rw [heq] at hlt
  exact UInt8.lt_irrefl _ hlt

/-- Strictly ascending bytes are at most 256. -/
theorem length_le_of_ascending {l : List UInt8} (h : l.Pairwise (· < ·)) : l.length ≤ 256 := by
  have hnodup : (l.map UInt8.toNat).Nodup :=
    (nodup_of_ascending h).map fun _ _ hab => UInt8.toNat_inj.mp hab
  have hsubset : l.map UInt8.toNat ⊆ List.range 256 := by
    intro n hn
    obtain ⟨b, -, rfl⟩ := List.mem_map.mp hn
    exact List.mem_range.mpr b.toNat_lt
  have hle := hnodup.length_le_of_subset hsubset
  rwa [List.length_map, List.length_range] at hle

namespace Attendee

/-- A record of an attendee that the ledger can hold, when these addresses have accounts. -/
structure Sound (members : List Address) (x : Attendee) : Prop where
  /-- The attendee is one of them. -/
  member : x.address ∈ members
  /-- The ticket id fits. -/
  id : Fits x.id
  /-- The class of the ticket fits. -/
  ticketClass : Fits x.ticketClass
  /-- The display name fits. -/
  name : Fits x.name
  /-- The key for encryption fits. -/
  rsaPublicKey : Fits x.rsaPublicKey
  /-- The profile fits. -/
  encryptedInfo : Fits x.encryptedInfo
  /-- No meeting is listed twice. -/
  scanIds_nodup : x.scanIds.Nodup
  /-- Every meeting listed is one with a member. -/
  scanIds_pair : ∀ i ∈ x.scanIds, ∃ b ∈ members, ScanId.ofPair x.address b = .ok i
  /-- Prizes were won in ascending order of tiers. -/
  wins_ascending : x.winnings.Pairwise (·.tier < ·.tier)
  /-- No prize was won above the tier reached. -/
  wins_le : ∀ w ∈ x.winnings, w.tier ≤ x.tier
  /-- The names of the prizes won fit. -/
  wins_fit : ∀ w ∈ x.winnings, Fits w

namespace Sound

variable {members : List Address} {x : Attendee}

/-- An attendee lists at most one meeting with every member. -/
theorem length_scanIds_le (h : x.Sound members) : x.scanIds.length ≤ members.length := by
  have hsubset : x.scanIds ⊆ members.filterMap fun b => (ScanId.ofPair x.address b).toOption := by
    intro i hi
    obtain ⟨b, hb, hpair⟩ := h.scanIds_pair i hi
    rw [List.mem_filterMap]
    exact ⟨b, hb, by rw [hpair]; rfl⟩
  have hle := h.scanIds_nodup.length_le_of_subset hsubset
  exact Nat.le_trans hle (List.length_filterMap_le _ _)

/-- An attendee has at most one win of every tier. -/
theorem length_winnings_le (h : x.Sound members) : x.winnings.length ≤ 256 := by
  have hascending : (x.winnings.map (·.tier)).Pairwise (· < ·) :=
    List.pairwise_map.mpr h.wins_ascending
  have hle := length_le_of_ascending hascending
  rwa [List.length_map] at hle

/-- A record that the ledger can hold fits its binary form. -/
theorem fits (h : x.Sound members) (hmembers : members.length < UInt64.size) : Fits x := by
  have hscans : Fits x.scanIds := by
    constructor
    · exact Nat.lt_of_le_of_lt h.length_scanIds_le hmembers
    · intro i hi
      obtain ⟨b, -, hpair⟩ := h.scanIds_pair i hi
      change 2 * i.bytes.length < UInt64.size
      rw [ScanId.length_ofPair hpair]
      decide
  have hwins : Fits x.winnings := by
    constructor
    · have hle := h.length_winnings_le
      have hsize : UInt64.size = 2 ^ 64 := rfl
      omega
    · exact h.wins_fit
  exact ⟨h.id, h.ticketClass, h.name, h.rsaPublicKey, h.encryptedInfo, hscans, hwins⟩

/-- More points do not change what can be held. -/
theorem addRep (h : x.Sound members) (points : UInt64) : (x.addRep points).Sound members :=
  ⟨h.member, h.id, h.ticketClass, h.name, h.rsaPublicKey, h.encryptedInfo, h.scanIds_nodup,
    h.scanIds_pair, h.wins_ascending, h.wins_le, h.wins_fit⟩

/-- A promotion by prizes that fit, in ascending order of tiers, keeps what can be held. -/
theorem promote (h : x.Sound members) {prizes : List Prize} (hfits : ∀ p ∈ prizes, Fits p)
    (hascending : prizes.Pairwise (·.tier < ·.tier)) : (x.promote prizes).Sound members := by
  refine ⟨h.member, h.id, h.ticketClass, h.name, h.rsaPublicKey, h.encryptedInfo,
    h.scanIds_nodup, h.scanIds_pair, ?_, ?_, ?_⟩
  · -- every win is at most the old tier, and every gain is above it
    change (x.winnings ++ (x.gains prizes).map (·.won)).Pairwise (·.tier < ·.tier)
    rw [List.pairwise_append, List.pairwise_map]
    refine ⟨h.wins_ascending, (hascending.filter _).filter _, ?_⟩
    intro w hw v hv
    obtain ⟨p, hp, rfl⟩ := List.mem_map.mp hv
    exact UInt8.lt_of_le_of_lt (h.wins_le w hw) (mem_gains.mp hp).2.1
  · intro w hw
    rw [le_tier_promote]
    rcases List.mem_append.mp hw with hw | hw
    · exact Or.inl (h.wins_le w hw)
    · obtain ⟨p, hp, rfl⟩ := List.mem_map.mp hw
      exact Or.inr (mem_gains.mp hp).2.2.1
  · intro w hw
    rcases List.mem_append.mp hw with hw | hw
    · exact h.wins_fit w hw
    · obtain ⟨p, hp, rfl⟩ := List.mem_map.mp hw
      exact hfits p (mem_gains.mp hp).1

/-- Listing a meeting with a member keeps what can be held. -/
theorem addScanId (h : x.Sound members) {b : Address} {i : ScanId} (hb : b ∈ members)
    (hpair : ScanId.ofPair x.address b = .ok i) : (x.addScanId i).Sound members := by
  unfold Attendee.addScanId
  split_ifs with hlists
  · exact h
  · have hnew : i ∉ x.scanIds := by
      intro hi
      exact hlists (List.contains_iff_mem.mpr hi)
    refine ⟨h.member, h.id, h.ticketClass, h.name, h.rsaPublicKey, h.encryptedInfo, ?_, ?_,
      h.wins_ascending, h.wins_le, h.wins_fit⟩
    · change (x.scanIds ++ [i]).Nodup
      rw [List.nodup_append]
      refine ⟨h.scanIds_nodup, List.nodup_singleton i, ?_⟩
      intro j hj k hk
      rw [List.mem_singleton] at hk
      rintro rfl
      exact hnew (hk ▸ hj)
    · intro j hj
      rcases List.mem_append.mp hj with hj | hj
      · exact h.scanIds_pair j hj
      · rw [List.mem_singleton] at hj
        exact ⟨b, hb, hj ▸ hpair⟩

/-- Collecting wins keeps what can be held. -/
theorem collectWinnings (h : x.Sound members) : x.collectWinnings.Sound members := by
  refine ⟨h.member, h.id, h.ticketClass, h.name, h.rsaPublicKey, h.encryptedInfo,
    h.scanIds_nodup, h.scanIds_pair, ?_, ?_, ?_⟩
  · change (x.winnings.map fun w => { w with claimed := true }).Pairwise (·.tier < ·.tier)
    rw [List.pairwise_map]
    exact h.wins_ascending
  · intro w hw
    obtain ⟨v, hv, rfl⟩ := List.mem_map.mp hw
    exact h.wins_le v hv
  · intro w hw
    obtain ⟨v, hv, rfl⟩ := List.mem_map.mp hw
    exact h.wins_fit v hv

/-- A key and a commitment change nothing of what can be held. -/
theorem keyed (h : x.Sound members) (m : KeyGrant) : (Custody.keyed m x).Sound members :=
  ⟨h.member, h.id, h.ticketClass, h.name, h.rsaPublicKey, h.encryptedInfo, h.scanIds_nodup,
    h.scanIds_pair, h.wins_ascending, h.wins_le, h.wins_fit⟩

/-- A claim that fits keeps what can be held. -/
theorem claimed (h : x.Sound members) {m : KeyClaim} (hm : Fits m) (k : Option PublicKey) :
    (Custody.claimed m k x).Sound members :=
  ⟨h.member, h.id, h.ticketClass, hm.1, hm.2.2.1, hm.2.2.2, h.scanIds_nodup, h.scanIds_pair,
    h.wins_ascending, h.wins_le, h.wins_fit⟩

/-- A blank record of a member can be held. -/
theorem blank {a : Address} (ha : a ∈ members) : (Attendee.blank a).Sound members := by
  have htext : Fits "" := by
    change (Bytes.ofText "").length < UInt64.size
    decide
  have hblob : Fits Blob.empty := by
    change 2 * Blob.empty.bytes.length < UInt64.size
    decide
  refine ⟨ha, htext, htext, htext, htext, hblob, List.nodup_nil, ?_, List.Pairwise.nil, ?_, ?_⟩
  · intro i hi
    exact absurd hi List.not_mem_nil
  · intro w hw
    exact absurd hw List.not_mem_nil
  · intro w hw
    exact absurd hw List.not_mem_nil

/-- The record of a ticket that fits can be held. -/
theorem ofTicket {id ticketClass : String} (hmember : Address.ofTicket id ∈ members)
    (hid : Fits id) (hclass : Fits ticketClass) :
    (Attendee.ofTicket id ticketClass).Sound members :=
  let h := blank hmember
  ⟨hmember, hid, hclass, h.name, h.rsaPublicKey, h.encryptedInfo, h.scanIds_nodup,
    h.scanIds_pair, h.wins_ascending, h.wins_le, h.wins_fit⟩

end Sound

end Attendee

namespace Scan

/-- A record of a meeting that the ledger can hold: it has the identifier of its pair, and what
was shared fits. -/
structure Sound (x : Scan) : Prop where
  /-- The identifier is that of the pair. -/
  pair : ScanId.ofPair x.first.address x.second.address = .ok x.id
  /-- What the first attendee shared fits. -/
  first : Fits x.first.data
  /-- What the second attendee shared fits. -/
  second : Fits x.second.data

namespace Sound

variable {x : Scan}

/-- A record that the ledger can hold fits its binary form. -/
theorem fits (h : x.Sound) : Fits x := by
  refine ⟨?_, h.first, h.second⟩
  change 2 * x.id.bytes.length < UInt64.size
  rw [ScanId.length_ofPair h.pair]
  decide

/-- A new meeting can be held. -/
theorem new {first second : Address} {time : Int64} (h : Scan.new first second time = .ok x) :
    x.Sound := by
  have hid := id_new h
  unfold Scan.new at h
  rw [hid] at h
  have hx := Except.ok.inj h
  have hblob : Fits Blob.empty := by
    change 2 * Blob.empty.bytes.length < UInt64.size
    decide
  rw [← hx]
  exact ⟨hid, hblob, hblob⟩

/-- Points do not change what can be held. -/
theorem addPoints (h : x.Sound) (first second : UInt64) : (x.addPoints first second).Sound :=
  ⟨h.pair, h.first, h.second⟩

/-- Sharing data that fits for the first time keeps what can be held. -/
theorem share (h : x.Sound) {a : Address} {data : Blob} (hdata : Fits data)
    (hfirst : (x.side a).data.isEmpty = true) (points : UInt64) :
    (x.updateSide a (·.share data.bytes points)).Sound := by
  have hfits : ∀ s : Side, s.data.isEmpty = true → Fits (s.share data.bytes points).data := by
    intro s hs
    have hbytes : s.data.bytes = [] := List.isEmpty_iff.mp hs
    change 2 * (s.data.bytes ++ data.bytes).length < UInt64.size
    rw [hbytes, List.nil_append]
    exact hdata
  unfold side at hfirst
  unfold updateSide
  by_cases ha : x.first.address = a
  · rw [if_pos ha] at hfirst ⊢
    exact ⟨h.pair, hfits _ hfirst, h.second⟩
  · rw [if_neg ha] at hfirst ⊢
    exact ⟨h.pair, h.first, hfits _ hfirst⟩

end Sound

end Scan

/-- The rows that the ledger can hold when these addresses have accounts. -/
def Row.Sound (members : List Address) : Row → Prop
  | attendee x => x.Sound members
  | meeting x => x.Sound
  | prize p => Fits p
  | account x => x.address ∈ members
  | _ => True

namespace Store

/-- A store that the ledger can hold when these addresses, which can be counted, have accounts. -/
structure Sound (members : List Address) (s : Store) : Prop where
  /-- The members can be counted. -/
  countable : members.length < UInt64.size
  /-- Every entry is a row that the ledger can hold. -/
  rows : s.Holds (Row.Sound members)

namespace Sound

variable {members : List Address} {s t : Store}

/-- The attendees of a store that can be held are filed under their addresses. -/
theorem attendee (hs : s.Sound members) {a : Address} {x : Attendee}
    (h : s.attendee a = some x) : x.Sound members ∧ x.address = a := by
  obtain ⟨hx, haddress, -⟩ := hs.rows.of_attendee (fun _ hx => hx.fits hs.countable) h
  exact ⟨hx, haddress⟩

/-- The record of an address that has an account, or a blank one, can be held. -/
theorem attendeeOrBlank (hs : s.Sound members) {a : Address} {x : Account}
    (h : s.account a = some x) :
    (s.attendeeOrBlank a).Sound members ∧ (s.attendeeOrBlank a).address = a := by
  obtain ⟨hmember, haddress, -⟩ := hs.rows.of_account h
  unfold Store.attendeeOrBlank
  cases hx : s.attendee a with
  | none => exact ⟨.blank (haddress ▸ hmember), rfl⟩
  | some x => exact hs.attendee hx

/-- The attendees of a store that can be held can be read. -/
theorem attendee_run (hs : s.Sound members) (a : Address) :
    (Records.attendee a).run s = (.ok (s.attendee a), s) := by
  apply Records.read_run
  intro b hb
  obtain ⟨x, hx, -, rfl⟩ := hs.rows.attendee_of_get? hb rfl
  exact ⟨x, LawfulBinary.decode_put (hx.fits hs.countable)⟩

/-- An attendee who is there is found. -/
theorem knownAttendee_run (hs : s.Sound members) {a : Address} {x : Attendee}
    (h : s.attendee a = some x) : (Records.knownAttendee a).run s = (.ok x, s) := by
  rw [Records.knownAttendee, Access.run_bind_of_ok (hs.attendee_run a), h]
  rfl

/-- An attendee who is not there is not found. -/
theorem knownAttendee_run_none (hs : s.Sound members) {a : Address} (h : s.attendee a = none) :
    (Records.knownAttendee a).run s = (.error .attendeeNotFound, s) := by
  rw [Records.knownAttendee, Access.run_bind_of_ok (hs.attendee_run a), h]
  rfl

/-- The address of the keying service can be read. -/
theorem master_run (hs : s.Sound members) : Records.master.run s = (.ok s.master, s) := by
  apply hs.rows.read_run rfl
  intro r hcls _
  cases r with
  | master a => exact ⟨a, LawfulBinary.decode_put (a := a) trivial⟩
  | _ => simp at hcls

/-- The address of the redeeming service can be read. -/
theorem redeem_run (hs : s.Sound members) : Records.redeem.run s = (.ok s.redeem, s) := by
  apply hs.rows.read_run rfl
  intro r hcls _
  cases r with
  | redeem a => exact ⟨a, LawfulBinary.decode_put (a := a) trivial⟩
  | _ => simp at hcls

/-- The meetings of a store that can be held are filed under their identifiers. -/
theorem meeting (hs : s.Sound members) {id : ScanId} {x : Scan} (h : s.meeting id = some x) :
    x.Sound ∧ x.id = id :=
  ⟨(hs.rows.meeting_filed (fun _ hx => hx.fits) h).1, (hs.rows.of_meeting h).1⟩

/-- The meetings of a store that can be held can be read. -/
theorem scan_run (hs : s.Sound members) (id : ScanId) :
    (Records.scan id).run s = (.ok (s.meeting id), s) := by
  rw [Records.scan, Store.meeting]
  by_cases hid : StoreKey.isMember StoreKey.scanClass id.bytes = true
  · rw [if_pos hid, if_pos hid]
    apply hs.rows.read_run (StoreKey.head?_of_isMember hid)
    intro r hcls hr
    cases r with
    | meeting x => exact ⟨x, LawfulBinary.decode_put hr.fits⟩
    | _ => simp at hcls
  · rw [if_neg hid, if_neg hid]
    rfl

/-- The entries of attendees of a store that can be held are the attendees that are found. -/
theorem attendee_of_entry (hs : s.Sound members) {k v : Bytes} (h : s.get? k = some v)
    (hk : StoreKey.isMember StoreKey.attendeeClass k = true) :
    ∃ x : Attendee, Binary.decode v = .ok x ∧ k = StoreKey.attendee x.address ∧
      s.attendee x.address = some x := by
  obtain ⟨x, hx, rfl, rfl⟩ := hs.rows.attendee_of_get? h (StoreKey.head?_of_isMember hk)
  have hfits : Fits x := hx.fits hs.countable
  exact ⟨x, LawfulBinary.decode_put hfits, rfl, Store.record?_of_get? hfits h⟩

/-- The entries of meetings of a store that can be held are the meetings that are found. -/
theorem meeting_of_entry (hs : s.Sound members) {k v : Bytes} (h : s.get? k = some v)
    (hk : StoreKey.isMember StoreKey.scanClass k = true) :
    ∃ x : Scan, Binary.decode v = .ok x ∧ k = x.id.bytes ∧ s.meeting x.id = some x := by
  obtain ⟨x, hx, -, rfl, rfl⟩ := hs.rows.meeting_of_get? h (StoreKey.head?_of_isMember hk)
  refine ⟨x, LawfulBinary.decode_put hx.fits, rfl, ?_⟩
  rw [Store.meeting, if_pos hk]
  exact Store.record?_of_get? hx.fits h

/-- The prizes of a store that can be held fit and are in ascending order of tiers. -/
theorem prizes (hs : s.Sound members) :
    (∀ p ∈ s.prizes, Fits p) ∧ s.prizes.Pairwise (·.tier < ·.tier) := by
  obtain ⟨-, hascending, hmem⟩ := hs.rows.prizes fun _ hp => hp
  refine ⟨fun p hp => ?_, hascending⟩
  exact (hs.rows.of_prize (fun _ hp => hp) ((hmem p).mp hp)).1

/-- All prizes of a store that can be held can be read. -/
theorem prizes_run (hs : s.Sound members) : Records.prizes.run s = (.ok s.prizes, s) :=
  (hs.rows.prizes fun _ hp => hp).1

/-- The prizes of a store that can be held can be read. -/
theorem prize_run (hs : s.Sound members) (tier : UInt8) :
    (Records.prize tier).run s = (.ok (s.prize tier), s) := by
  apply hs.rows.read_run rfl
  intro r hcls hr
  cases r with
  | prize p => exact ⟨p, LawfulBinary.decode_put hr⟩
  | _ => simp at hcls

/-- Filing a row that can be held keeps the store so. -/
theorem file (hs : s.Sound members) {r : Row} (h : r.WellPlaced) (hr : r.Sound members) :
    (s.file r).Sound members :=
  ⟨hs.countable, hs.rows.file h hr⟩

/-- Handing out keeps what can be held. -/
theorem handOut (hs : s.Sound members) (points : UInt64) (x : Attendee) :
    (s.handOut points x).Sound members :=
  ⟨hs.countable, hs.rows.handOut hs.prizes.1 points x⟩

/-- An award keeps what can be held, of the store and of the attendee. -/
theorem award (hs : s.Sound members) {x : Attendee} (hx : x.Sound members) (points : UInt64) :
    (s.handOut points x).Sound members ∧ (s.awarded points x).Sound members := by
  obtain ⟨hfits, hascending⟩ := hs.prizes
  constructor
  · exact hs.handOut points x
  · exact (hx.addRep points).promote hfits hascending

end Sound

end Store

namespace Meeting

/-- The parties of a meeting that the ledger can hold: the records of two members, who are the
pair of the meeting. -/
structure Parties.Sound (members : List Address) (p : Parties) : Prop where
  /-- The meeting can be held. -/
  scan : p.scan.Sound
  /-- The record of the one who scans can be held. -/
  sender : p.sender.Sound members
  /-- The record of the one who is scanned can be held. -/
  scanned : p.scanned.Sound members
  /-- They are the pair of the meeting. -/
  pair : ScanId.ofPair p.sender.address p.scanned.address = .ok p.scan.id

variable {members : List Address} {s t : Store} {p q : Parties}

/-- Listing the meeting keeps what can be held. -/
theorem Parties.Sound.listed (h : p.Sound members) : p.listed.Sound members := by
  have haddress : ∀ (i : ScanId) (x : Attendee), (x.addScanId i).address = x.address := by
    intro i x
    unfold Attendee.addScanId
    split_ifs <;> rfl
  refine ⟨h.scan, h.sender.addScanId h.scanned.member h.pair, h.scanned.addScanId h.sender.member
    ((ScanId.ofPair_comm _ _).trans h.pair), ?_⟩
  change ScanId.ofPair (p.sender.addScanId p.scan.id).address
    (p.scanned.addScanId p.scan.id).address = _
  rw [haddress, haddress]
  exact h.pair

/-- Meeting keeps what can be held. -/
theorem meet_sound {time : Int64} {id : ScanId} {a b : Attendee} (hs : s.Sound members)
    (ha : a.Sound members) (hb : b.Sound members)
    (hpair : ScanId.ofPair a.address b.address = .ok id)
    (h : (meet a.address time id a b).run s = (.ok p, t)) :
    t.Sound members ∧ p.Sound members := by
  rcases meet_run_ok h with ⟨scan, hfound, rfl, rfl⟩ | ⟨-, scan, hnew, rfl, rfl⟩
  · obtain ⟨hscan, hid⟩ := hs.meeting hfound
    exact ⟨hs, hscan, ha, hb, hid ▸ hpair⟩
  · obtain ⟨hfirst, hsender⟩ := hs.award ha Award.scanPoints
    obtain ⟨hsecond, hscanned⟩ := hfirst.award hb Award.scanPoints
    have hid := Scan.id_new hnew
    exact ⟨hsecond, (Scan.Sound.new hnew).addPoints _ _, hsender, hscanned, hid⟩

/-- Sharing data that fits keeps what can be held. -/
theorem share_sound {a : Address} {data : Blob} (hs : s.Sound members) (hp : p.Sound members)
    (hdata : Fits data) (h : (share a data p).run s = (.ok q, t)) :
    t.Sound members ∧ q.Sound members := by
  rcases share_run_ok h with ⟨hshares, rfl, rfl⟩ | ⟨-, rfl, rfl⟩
  · obtain ⟨hfirst, -⟩ := Bool.and_eq_true_iff.mp hshares
    obtain ⟨haward, hsender⟩ := hs.award hp.sender Award.sharePoints
    refine ⟨haward, hp.scan.share hdata hfirst _, hsender, hp.scanned, ?_⟩
    rw [Scan.id_updateSide]
    exact hp.pair
  · exact ⟨hs, hp⟩

/-- A scan of data that fits writes the records of a meeting that can be held. -/
theorem scanBadge_sound {time : Int64} {m : BadgeScan} (hs : s.Sound members) (hm : Fits m)
    (h : (scanBadge time m).run s = (.ok (), t)) :
    ∃ scanned sender id met u shared v, s.attendee (.ofTicket m.ticket) = some scanned ∧
      s.attendee m.sender = some sender ∧
      ScanId.ofPair m.sender (.ofTicket m.ticket) = .ok id ∧
      (meet m.sender time id sender scanned).run s = (.ok met, u) ∧
      (share m.sender m.data met.listed).run u = (.ok shared, v) ∧
      u.Sound members ∧ met.Sound members ∧ v.Sound members ∧ shared.Sound members ∧
      t = v.fileAll shared.rows := by
  obtain ⟨scanned, sender, id, hscanned, hsender, hpair, met, u, shared, v, hmeet, hshare, rfl⟩ :=
    scanBadge_run_ok h
  obtain ⟨hb, hbaddress⟩ := hs.attendee hscanned
  obtain ⟨ha, haddress⟩ := hs.attendee hsender
  have hmeet' := hmeet
  have hpair' : ScanId.ofPair sender.address scanned.address = .ok id := by rwa [haddress]
  rw [← haddress] at hmeet'
  obtain ⟨hu, hmet⟩ := meet_sound hs ha hb hpair' hmeet'
  obtain ⟨hv, hshared⟩ := share_sound hu hmet.listed hm.2 hshare
  exact ⟨scanned, sender, id, met, u, shared, v, hscanned, hsender, hbaddress ▸ hpair, hmeet, hshare,
    hu, hmet, hv, hshared, rfl⟩

end Meeting

/-- Whatever an operation that fits writes into a store that the ledger can hold can be held. -/
theorem Operation.sound_of_run_ok {members : List Address} {op : Operation} {time : Int64}
    {s t : Store} (hs : s.Sound members) (hop : Fits op)
    (h : (op.program time).run s = (.ok (), t)) : t.Sound members := by
  cases op with
  | key m =>
    obtain ⟨-, -, account, haccount, rfl⟩ := Custody.grantKey_run_ok h
    have hmember := (hs.rows.of_account haccount).1
    have hattendee := (hs.attendeeOrBlank haccount).1
    have hstore := hs.file (r := .account { account with pubKey := some m.newKey }) trivial hmember
    exact hstore.file (r := .attendee _) trivial (hattendee.keyed m)
  | claimKey m =>
    obtain ⟨x, hx, -, -, y, rfl, rfl⟩ := Custody.claimKey_run_ok h
    have hy := (hs.attendee hx).1.claimed hop ((s.account m.attendee).bind (·.pubKey))
    obtain ⟨hstore, hattendee⟩ := hs.award hy Award.claimPoints
    exact hstore.file (r := .attendee _) trivial hattendee
  | scanQr m =>
    obtain ⟨-, -, -, -, -, shared, v, -, -, -, -, -, -, -, hv, hshared, rfl⟩ :=
      Meeting.scanBadge_sound hs hop h
    refine ⟨hs.countable, hv.rows.fileAll ?_⟩
    intro r hr
    simp only [Meeting.Parties.rows, List.mem_cons, List.not_mem_nil, or_false] at hr
    rcases hr with rfl | rfl | rfl
    · exact ⟨⟨_, _, hshared.scan.pair⟩, hshared.scan⟩
    · exact ⟨trivial, hshared.sender⟩
    · exact ⟨trivial, hshared.scanned⟩
  | redeem m =>
    obtain ⟨-, x, hx, -, rfl⟩ := Booth.collect_run_ok h
    exact hs.file (r := .attendee _) trivial (hs.attendee hx).1.collectWinnings

/-- A genesis whose members can be counted and whose texts fit. So is every genesis that a memory
with addresses of 64 bits can hold. -/
structure Genesis.Sized (g : Genesis) : Prop where
  /-- The two services and the roster can be counted. -/
  countable : g.attendees.length + 2 < UInt64.size
  /-- The roster fits. -/
  attendees : ∀ e ∈ g.attendees, Fits e
  /-- The prizes fit. -/
  prizes : ∀ p ∈ g.prizes, Fits p

/-- Every row that a sized genesis may leave can be held. -/
theorem Genesis.Sized.sound_of_ofGenesis {g : Genesis} (hg : g.Sized) {r : Row}
    (hr : r.OfGenesis g) : r.Sound g.members := by
  cases r with
  | attendee x =>
    obtain ⟨e, he, rfl⟩ := hr
    have hmember : Address.ofTicket e.id ∈ g.members := by
      simp only [members, List.mem_cons, List.mem_map]
      exact Or.inr (Or.inr ⟨e, he, rfl⟩)
    exact .ofTicket hmember (hg.attendees e he).1 (hg.attendees e he).2
  | meeting x => exact hr.elim
  | prize p => exact hg.prizes p hr
  | account x => exact hr.member
  | _ => trivial

namespace Chain

variable {chainId : String} {g : Genesis} {c : Chain}

/-- The store of a sized genesis can be held. -/
theorem sound_of_genesis (hg : g.Sized) (h : ofGenesis chainId g = .ok c) :
    c.store.Sound g.members := by
  constructor
  · rw [g.length_members]
    exact hg.countable
  · exact (holds_of_genesis h).mono fun r hr => hg.sound_of_ofGenesis hr

/-- In the store of a sized genesis an address has the record of a ticket, or none. -/
theorem attendeeOrBlank_of_genesis (hg : g.Sized) (h : ofGenesis chainId g = .ok c)
    (a : Address) : c.store.attendeeOrBlank a = .blank a ∨
      ∃ e ∈ g.attendees, c.store.attendeeOrBlank a = .ofTicket e.id e.ticketClass := by
  unfold Store.attendeeOrBlank
  cases hx : c.store.attendee a with
  | none => exact Or.inl rfl
  | some x =>
    have hfits : ∀ y, (Row.attendee y).OfGenesis g → Fits y := by
      intro y hy
      have hsound : y.Sound g.members := hg.sound_of_ofGenesis hy
      exact hsound.fits (sound_of_genesis hg h).countable
    obtain ⟨⟨e, he, hticket⟩, -⟩ := (holds_of_genesis h).of_attendee hfits hx
    exact Or.inr ⟨e, he, hticket⟩

/-- In the store of a genesis nobody has met. -/
theorem meeting_of_genesis (h : ofGenesis chainId g = .ok c) (id : ScanId) :
    c.store.meeting id = none := by
  by_contra hne
  obtain ⟨x, hx⟩ := Option.ne_none_iff_exists'.mp hne
  exact ((holds_of_genesis h).meeting_filed (fun _ hfalse => hfalse.elim) hx).1

/-- Counting up the sequence of a stored account keeps what can be held. -/
theorem counted_sound {members : List Address} (hs : c.store.Sound members) {tx : SignedTx}
    {x : Account} (h : c.Admits tx x) : (c.store.counted x).Sound members :=
  hs.file (r := .account { x with sequence := x.sequence + 1 }) trivial
    (hs.rows.of_account h.account).1

/-- A delivery of an operation that fits keeps what can be held. -/
theorem deliver_sound {members : List Address} (hs : c.store.Sound members) {tx : SignedTx}
    (htx : Fits tx.op) (time : Int64) : (c.deliver tx time).2.store.Sound members := by
  have hdelivered := c.delivered tx time
  generalize c.deliver tx time = r at hdelivered ⊢
  cases hdelivered with
  | notAdmitted e => exact hs
  | failed hadmits e hrun => exact counted_sound hs hadmits
  | done hadmits hrun => exact Operation.sound_of_run_ok (counted_sound hs hadmits) htx hrun

/-- Every run of operations that fit from a sized genesis leaves what can be held. -/
theorem after_sound (hg : g.Sized) (h : ofGenesis chainId g = .ok c) {ds : List Delivery}
    (hds : ∀ d ∈ ds, Fits d.tx.op) : (c.after ds).store.Sound g.members :=
  after_induction (P := fun c => c.store.Sound g.members) (sound_of_genesis hg h)
    fun d hd _ hs => deliver_sound hs (hds d hd) d.time

end Chain

namespace SmallLedger

/-- The genesis is sized. -/
theorem sized : genesis.Sized := by
  have hprizes : ∀ p ∈ genesis.prizes, (Bytes.ofText p.text).length < UInt64.size := by decide
  have hroster : ∀ e ∈ genesis.attendees, (Bytes.ofText e.id).length < UInt64.size ∧
      (Bytes.ofText e.ticketClass).length < UInt64.size := by decide
  exact ⟨by decide, hroster, hprizes⟩

end SmallLedger

end ConferenceLedger

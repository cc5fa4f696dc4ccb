import ConferenceLedger.Proofs.Ledger.Reputation
import ConferenceLedger.Proofs.Ledger.Tiers
import ConferenceLedger.Proofs.Ledger.Verdicts

/-!
# Scans in any order

Who scans first has the first side of the meeting, and whose data comes first keeps it, so scans do
not commute. What they are worth does not depend on their order all the same. A list of scans makes
the meetings of the pairs in it, and the senders who bring data share something, whatever came
before. What is noted on a side depends only on whether something is shared, the reputation is the
sum of what is noted, and the tier is that of the reputation.
-/

namespace ConferenceLedger

/-- Two values are related if both are there or neither, and what is there is related. -/
theorem Option.rel_of_none_iff {α β : Type} {r : α → β → Prop} {o : Option α} {p : Option β}
    (hnone : p = none ↔ o = none) (hsome : ∀ x y, o = some x → p = some y → r x y) :
    Option.Rel r o p := by
  cases o with
  | none =>
    rw [hnone.mpr rfl]
    exact .none
  | some x =>
    cases p with
    | none => cases hnone.mp rfl
    | some y => exact .some (hsome x y rfl rfl)

/-- A scan in a block of some time. -/
structure TimedScan where
  /-- The scan. -/
  scan : BadgeScan
  /-- The time of the block. -/
  time : Int64
  deriving DecidableEq

/-- A side on which an attendee of a meeting has shared something. -/
def Scan.Filled (a : Address) (x : Scan) : Prop := x.Joins a ∧ (x.side a).data.isEmpty = false

/-- Of two different attendees who join a meeting one has the first side. -/
theorem Scan.first_of_joins {x : Scan} {a b : Address} (hne : a ≠ b) (ha : x.Joins a)
    (hb : x.Joins b) : x.first.address = a ∨ x.first.address = b := by
  rcases ha with ha | ha
  · exact Or.inl ha
  · exact Or.inr (hb.resolve_right fun h => hne (ha.symm.trans h))

/-- Changing a side without its address leaves who joins a meeting. -/
theorem Scan.joins_updateSide {change : Side → Side} (haddress : ∀ s, (change s).address = s.address)
    (a b : Address) (x : Scan) : (x.updateSide a change).Joins b ↔ x.Joins b := by
  unfold updateSide Joins
  split_ifs
  · rw [haddress]
  · rw [haddress]

namespace Store

variable {members : List Address} {s t u : Store}

/-- The store after a scan, whether or not it succeeds. -/
def scanned (s : Store) (d : TimedScan) : Store := ((Operation.scanQr d.scan).execute d.time s).2

/-- What a scan answers. -/
def scanAnswer (s : Store) (d : TimedScan) : Except LedgerError Unit :=
  ((Operation.scanQr d.scan).execute d.time s).1

/-- The store after scans one after another, whether or not each succeeds. -/
def afterScans (s : Store) (ds : List TimedScan) : Store := ds.foldl scanned s

/-- Scans one after another, each with what it answers. -/
def scanAnswers (s : Store) : List TimedScan → List (TimedScan × Except LedgerError Unit)
  | [] => []
  | d :: ds => (d, s.scanAnswer d) :: (s.scanned d).scanAnswers ds

/-- A meeting that a store has, in which an attendee has shared something. -/
def Filled (s : Store) (a : Address) (id : ScanId) : Prop :=
  ∃ x, s.meeting id = some x ∧ x.Filled a

end Store

/-- A scan of two who are there, which makes their meeting if there is none. -/
structure BadgeScan.Meets (s : Store) (id : ScanId) (m : BadgeScan) : Prop where
  /-- The sender is there. -/
  sender : s.attendee m.sender ≠ none
  /-- The one who is scanned is there. -/
  scanned : s.attendee (.ofTicket m.ticket) ≠ none
  /-- They are the pair of the meeting. -/
  pair : ScanId.ofPair m.sender (.ofTicket m.ticket) = .ok id

namespace Meeting

variable {members : List Address} {time : Int64} {s t : Store}

/-- Those who meet have shared what they had shared before. -/
theorem meet_filled {sender : Address} {id : ScanId} {a b : Attendee} {p : Parties}
    (h : (meet sender time id a b).run s = (.ok p, t)) (c : Address) :
    p.scan.Filled c ↔ s.Filled c id := by
  rcases meet_run_ok h with ⟨scan, hfound, rfl, -⟩ | ⟨hnone, scan, hnew, rfl, -⟩
  · constructor
    · intro hfilled
      exact ⟨scan, hfound, hfilled⟩
    · rintro ⟨x, hx, hfilled⟩
      rw [hfound] at hx
      cases hx
      exact hfilled
  · constructor
    · -- the sides of a new meeting are empty
      rintro ⟨-, hdata⟩
      unfold Scan.new at hnew
      cases hpair : ScanId.ofPair sender b.address with
      | error e =>
        rw [hpair] at hnew
        cases hnew
      | ok id =>
        rw [hpair] at hnew
        cases hnew
        unfold Scan.side at hdata
        split_ifs at hdata <;> cases hdata
    · rintro ⟨x, hx, -⟩
      rw [hnone] at hx
      cases hx

/-- Who shares has shared what was shared before and, if there is data now, something. -/
theorem share_filled {a : Address} {data : Blob} {p q : Parties} (hjoins : p.scan.Joins a)
    (h : (share a data p).run s = (.ok q, t)) (c : Address) :
    q.scan.Filled c ↔ p.scan.Filled c ∨ a = c ∧ data.isEmpty = false := by
  have haddress : ∀ side : Side,
      (side.share data.bytes Award.sharePoints).address = side.address := fun _ => rfl
  rcases share_run_ok h with ⟨hshares, rfl, -⟩ | ⟨hshares, rfl, -⟩
  · obtain ⟨hfirst, hdata⟩ := Bool.and_eq_true_iff.mp hshares
    have hdata' : data.isEmpty = false := by simpa using hdata
    have hkept := Scan.joins_updateSide haddress a c p.scan
    by_cases hc : a = c
    · subst hc
      have hbytes : (p.scan.side a).data.bytes = [] := List.isEmpty_iff.mp hfirst
      have hfilled : ((p.scan.side a).share data.bytes Award.sharePoints).data.isEmpty = false := by
        change ((p.scan.side a).data.bytes ++ data.bytes).isEmpty = false
        rw [hbytes, List.nil_append]
        exact hdata'
      constructor
      · intro _
        exact Or.inr ⟨rfl, hdata'⟩
      · intro _
        refine ⟨hkept.mpr hjoins, ?_⟩
        rw [Scan.side_updateSide_self a haddress]
        exact hfilled
    · constructor
      · rintro ⟨hc', hfilled⟩
        have hjoins' := hkept.mp hc'
        have hsides := Scan.first_of_joins hc hjoins hjoins'
        rw [Scan.side_updateSide_other hc haddress hsides] at hfilled
        exact Or.inl ⟨hjoins', hfilled⟩
      · rintro (⟨hjoins', hfilled⟩ | ⟨heq, -⟩)
        · refine ⟨hkept.mpr hjoins', ?_⟩
          rw [Scan.side_updateSide_other hc haddress (Scan.first_of_joins hc hjoins hjoins')]
          exact hfilled
        · exact absurd heq hc
  · constructor
    · exact Or.inl
    · rintro (hfilled | ⟨rfl, hdata⟩)
      · exact hfilled
      · -- nothing is shared although there is data, so something was shared before
        refine ⟨hjoins, ?_⟩
        unfold shares at hshares
        rw [hdata, Bool.not_false, Bool.and_true] at hshares
        exact hshares

/-- A scan of two who meet goes through. -/
theorem verdict_of_meets {m : BadgeScan} {id : ScanId} (h : m.Meets s id) :
    (Operation.scanQr m).verdict s = .ok () := by
  rw [Operation.verdict, if_neg h.scanned, h.pair]
  exact if_neg h.sender

/-- A scan that goes through is one of two who meet. -/
theorem Encounter.scan_meets {m : BadgeScan} (e : Encounter members time m s t) :
    m.Meets s e.id where
  sender := by simp [e.found_sender]
  scanned := by simp [e.found_scanned]
  pair := e.pair

/-- After a scan, what was shared before is shared, and what the sender brings. -/
theorem Encounter.filled {m : BadgeScan} (e : Encounter members time m s t) (a : Address)
    (i : ScanId) : t.Filled a i ↔
      s.Filled a i ∨ e.id = i ∧ m.sender = a ∧ m.data.isEmpty = false := by
  by_cases hi : e.id = i
  · subst hi
    have hpair : ScanId.ofPair m.sender (.ofTicket m.ticket) = .ok e.met.scan.id := by
      have hmet := e.met_sound.pair
      rw [(meet_earns e.meets).1.address, (meet_earns e.meets).2.address, e.address_sender,
        e.address_scanned] at hmet
      exact hmet
    have hjoins : e.met.scan.Joins m.sender :=
      (e.met_sound.scan.joins_iff hpair m.sender).mpr (Or.inl rfl)
    have hshared := share_filled (p := e.met.listed) hjoins e.shares a
    have hmet := meet_filled e.meets a
    have hstored : t.Filled a e.id ↔ e.shared.scan.Filled a := by
      unfold Store.Filled
      rw [e.meeting, if_pos rfl]
      simp
    rw [hstored, hshared, ← hmet]
    simp [Parties.listed]
  · unfold Store.Filled
    rw [e.meeting, if_neg hi]
    simp [hi]

end Meeting

namespace Store

variable {members : List Address} {s t u : Store}

/-- What a list of scans makes of a store, whatever their order. -/
structure Scanned (ds : List TimedScan) (s t : Store) : Prop where
  /-- The same attendees are there. -/
  present : ∀ a, t.attendee a = none ↔ s.attendee a = none
  /-- The same attendees have claimed. -/
  bonus : ∀ a, (t.attendeeOrBlank a).bonus = (s.attendeeOrBlank a).bonus
  /-- The meetings are those of before and those of the pairs that are scanned. -/
  meeting : ∀ id, t.meeting id ≠ none ↔
    s.meeting id ≠ none ∨ ∃ d ∈ ds, d.scan.Meets s id
  /-- What was shared is shared, and so is what the senders bring. -/
  filled : ∀ a id, t.Filled a id ↔ s.Filled a id ∨
    ∃ d ∈ ds, d.scan.Meets s id ∧ d.scan.sender = a ∧ d.scan.data.isEmpty = false

/-- Who meets depends on nothing but who is there. -/
theorem Scanned.meets {ds : List TimedScan} (h : Scanned ds s t) (m : BadgeScan) (id : ScanId) :
    m.Meets t id ↔ m.Meets s id := by
  constructor
  · intro hm
    exact ⟨fun hnone => hm.sender ((h.present _).mpr hnone),
      fun hnone => hm.scanned ((h.present _).mpr hnone), hm.pair⟩
  · intro hm
    exact ⟨fun hnone => hm.sender ((h.present _).mp hnone),
      fun hnone => hm.scanned ((h.present _).mp hnone), hm.pair⟩

/-- Scans after scans are scans. -/
theorem Scanned.trans {ds es : List TimedScan} (h : Scanned ds s t) (h' : Scanned es t u) :
    Scanned (ds ++ es) s u where
  present a := (h'.present a).trans (h.present a)
  bonus a := (h'.bonus a).trans (h.bonus a)
  meeting id := by
    rw [h'.meeting, h.meeting, or_assoc]
    simp only [h.meets, List.mem_append, or_and_right, exists_or]
  filled a id := by
    rw [h'.filled, h.filled, or_assoc]
    simp only [h.meets, List.mem_append, or_and_right, exists_or]

/-- No scan leaves the store. -/
theorem Scanned.nil (s : Store) : Scanned [] s s := by
  constructor <;> simp

/-- A scan that does not go through is one of two who do not meet. -/
theorem Scanned.of_failed {d : TimedScan} {e : LedgerError}
    (h : (Operation.scanQr d.scan).verdict s = .error e) : Scanned [d] s s := by
  have hnot : ∀ id, ¬d.scan.Meets s id := by
    intro id hmeets
    rw [Meeting.verdict_of_meets hmeets] at h
    cases h
  constructor <;> simp [hnot]

/-- A scan that goes through is one of two who meet. -/
theorem Scanned.of_encounter {d : TimedScan}
    (e : Meeting.Encounter members d.time d.scan s t) : Scanned [d] s t := by
  have hmeets : ∀ id, d.scan.Meets s id ↔ e.id = id := by
    intro id
    constructor
    · intro hm
      have hpair := hm.pair
      rw [e.pair] at hpair
      exact Except.ok.inj hpair
    · rintro rfl
      exact e.scan_meets
  constructor
  · intro a
    rw [e.attendee]
    split_ifs with hscanned hsender
    · simp [← hscanned, e.found_scanned]
    · simp [← hsender, e.found_sender]
    · rfl
  · intro a
    rw [e.attendeeOrBlank]
    split_ifs with hscanned hsender
    · rw [← hscanned, attendeeOrBlank_of_attendee e.found_scanned]
      exact e.earns_scanned.bonus
    · rw [← hsender, attendeeOrBlank_of_attendee e.found_sender]
      exact e.earns_sender.bonus
    · rfl
  · intro id
    rw [e.meeting]
    by_cases hid : e.id = id
    · simp [hid, hmeets]
    · simp [hid, hmeets]
  · intro a id
    rw [e.filled]
    simp only [List.mem_singleton, exists_eq_left, hmeets]

/-- No meeting is listed twice. -/
theorem Sound.scanIds_nodup (hs : s.Sound members) (a : Address) :
    (s.attendeeOrBlank a).scanIds.Nodup := by
  unfold Store.attendeeOrBlank
  cases hx : s.attendee a with
  | none => exact List.nodup_nil
  | some x => exact (hs.attendee hx).1.scanIds_nodup

/-- A store that has come from another, in which reputation, tiers and lists are as they should
be. -/
structure Consistent (members : List Address) (s start : Store) : Prop where
  /-- Its records can be held. -/
  sound : s.Sound members
  /-- The lists are those of the meetings. -/
  indexed : s.Indexed
  /-- The reputation is the capped sum of what is noted. -/
  balanced : s.Balanced
  /-- The prizes are those of the start but for the units left. -/
  brand : s.brand = start.brand
  /-- The tier is that of the reputation. -/
  tier : ∀ a, (s.attendeeOrBlank a).tier = start.tierAt (s.attendeeOrBlank a).rep

/-- A scan keeps a store consistent, and makes of it what its list does. -/
theorem Consistent.scanned {start : Store} (hstart : start.Sound members)
    (h : s.Consistent members start) {d : TimedScan} (hd : Fits d.scan) :
    (s.scanned d).Consistent members start ∧ Scanned [d] s (s.scanned d) := by
  cases hverdict : (Operation.scanQr d.scan).verdict s with
  | error e =>
    rw [Store.scanned, Operation.execute_of_verdict_error h.sound hverdict]
    exact ⟨h, .of_failed hverdict⟩
  | ok =>
    obtain ⟨t, hrun, hexecute⟩ := Operation.execute_of_verdict_ok h.sound d.time hverdict
    have hfits : Fits (Operation.scanQr d.scan) := hd
    obtain ⟨e⟩ := Meeting.encounter_of_run_ok h.sound hd hrun
    have heffect : (Operation.scanQr d.scan).Effect members d.time s t := .met rfl e
    rw [Store.scanned, hexecute]
    refine ⟨⟨?_, ?_, ?_, ?_, ?_⟩, .of_encounter e⟩
    · exact Operation.sound_of_run_ok h.sound hfits hrun
    · exact heffect.indexed h.indexed h.sound
    · exact heffect.balanced h.balanced h.sound h.indexed
    · rw [← h.brand]
      exact funext fun tier => heffect.brand h.sound tier
    · exact hstart.tierAt_lasting.effect heffect h.sound h.brand h.tier

/-- Scans keep a store consistent, and make of it what their list does. -/
theorem Consistent.afterScans {start : Store} (hstart : start.Sound members)
    (h : s.Consistent members start) {ds : List TimedScan} (hds : ∀ d ∈ ds, Fits d.scan) :
    (s.afterScans ds).Consistent members start ∧ Scanned ds s (s.afterScans ds) := by
  induction ds generalizing s with
  | nil => exact ⟨h, .nil s⟩
  | cons d ds ih =>
    obtain ⟨hfirst, hscanned⟩ := h.scanned hstart (hds d List.mem_cons_self)
    obtain ⟨hlast, hrest⟩ := ih hfirst fun d hd => hds d (List.mem_cons_of_mem _ hd)
    exact ⟨hlast, hscanned.trans hrest⟩

/-- Every scan answers what it answers alone, whatever scans come before it. -/
theorem Consistent.scanAnswers {start : Store} (hstart : start.Sound members)
    (h : s.Consistent members start) {ds : List TimedScan} (hds : ∀ d ∈ ds, Fits d.scan) :
    s.scanAnswers ds = ds.map fun d => (d, s.scanAnswer d) := by
  induction ds generalizing s with
  | nil => rfl
  | cons d ds ih =>
    obtain ⟨hfirst, hscanned⟩ := h.scanned hstart (hds d List.mem_cons_self)
    have hrest := ih hfirst fun d hd => hds d (List.mem_cons_of_mem _ hd)
    have hsame : ∀ d', (s.scanned d).scanAnswer d' = s.scanAnswer d' := by
      intro d'
      rw [scanAnswer, Operation.execute_eq_verdict hfirst.sound, scanAnswer,
        Operation.execute_eq_verdict h.sound]
      simp only [Operation.verdict, hscanned.present]
    rw [Store.scanAnswers, hrest, List.map_cons]
    simp only [hsame]

/-- Two stores with the same attendees and meetings, in which the same attendees have claimed and
have shared something. -/
structure Matches (t u : Store) : Prop where
  /-- The same attendees are there. -/
  present : ∀ a, u.attendee a = none ↔ t.attendee a = none
  /-- The same attendees have claimed. -/
  bonus : ∀ a, (u.attendeeOrBlank a).bonus = (t.attendeeOrBlank a).bonus
  /-- The same meetings are there. -/
  meeting : ∀ id, u.meeting id = none ↔ t.meeting id = none
  /-- The same has been shared. -/
  filled : ∀ a id, u.Filled a id ↔ t.Filled a id

/-- Scans in two orders leave stores that match. -/
theorem Scanned.matches {ds es : List TimedScan} (h : Scanned ds s t) (h' : Scanned es s u)
    (hperm : ds.Perm es) : t.Matches u where
  present a := (h'.present a).trans (h.present a).symm
  bonus a := (h'.bonus a).trans (h.bonus a).symm
  meeting id := by
    have hsame : (∃ d ∈ es, d.scan.Meets s id) ↔ ∃ d ∈ ds, d.scan.Meets s id := by
      simp only [hperm.mem_iff]
    have hthere := h'.meeting id
    rw [hsame, ← h.meeting] at hthere
    exact not_iff_not.mp hthere
  filled a id := by
    rw [h'.filled, h.filled]
    simp only [hperm.mem_iff]

end Store

/-- Two records of one meeting that are worth the same to both. -/
structure Scan.SameTerms (x y : Scan) : Prop where
  /-- The same two join it. -/
  joins : ∀ a, y.Joins a ↔ x.Joins a
  /-- Each has the same points. -/
  points : ∀ a, x.Joins a → (y.side a).points = (x.side a).points
  /-- Each has shared something in both or in neither. -/
  filled : ∀ a, x.Joins a → (y.side a).data.isEmpty = (x.side a).data.isEmpty

/-- Two records of one attendee with the same standing. -/
structure Attendee.SameStanding (x y : Attendee) : Prop where
  /-- The reputation is the same. -/
  rep : y.rep = x.rep
  /-- The tier is the same. -/
  tier : y.tier = x.tier
  /-- The meetings are the same, in some order. -/
  scanIds : y.scanIds.Perm x.scanIds

namespace Store.Consistent

variable {members : List Address} {start t u : Store}

/-- The meetings of two consistent stores that match are worth the same. -/
theorem sameTerms (ht : t.Consistent members start) (hu : u.Consistent members start)
    (hmatch : t.Matches u) {id : ScanId} {x y : Scan} (hx : t.meeting id = some x)
    (hy : u.meeting id = some y) : x.SameTerms y := by
  obtain ⟨hxsound, hxid⟩ := ht.sound.meeting hx
  obtain ⟨hysound, hyid⟩ := hu.sound.meeting hy
  have hpair : ScanId.ofPair y.first.address y.second.address = .ok x.id := by
    rw [hxid, ← hyid]
    exact hysound.pair
  have hjoins : ∀ a, y.Joins a ↔ x.Joins a := fun a => (hxsound.joins_iff hpair a).symm
  have hfilled : ∀ a, x.Joins a → (y.side a).data.isEmpty = (x.side a).data.isEmpty := by
    intro a ha
    have hsame := hmatch.filled a id
    unfold Store.Filled at hsame
    rw [hx, hy] at hsame
    simp only [Option.some.injEq, exists_eq_left', Scan.Filled, hjoins, ha, true_and] at hsame
    rw [Bool.eq_iff_iff, ← not_iff_not, Bool.not_eq_true, Bool.not_eq_true]
    exact hsame
  refine ⟨hjoins, fun a ha => ?_, hfilled⟩
  have hxfair := (ht.balanced.fair id x hx).side a
  have hyfair := (hu.balanced.fair id y hy).side a
  apply UInt64.toNat_inj.mp
  rw [Side.Fair, hfilled a ha] at hyfair
  rw [hyfair, hxfair]

/-- Everyone has the same standing in two consistent stores that match. -/
theorem sameStanding (ht : t.Consistent members start) (hu : u.Consistent members start)
    (hmatch : t.Matches u) (a : Address) :
    (t.attendeeOrBlank a).SameStanding (u.attendeeOrBlank a) := by
  have hlisted : ∀ id, id ∈ (u.attendeeOrBlank a).scanIds ↔ id ∈ (t.attendeeOrBlank a).scanIds := by
    intro id
    rw [hu.indexed a id, ht.indexed a id]
    cases hx : t.meeting id with
    | none =>
      have hy := (hmatch.meeting id).mpr hx
      simp [hy]
    | some x =>
      cases hy : u.meeting id with
      | none =>
        have hnone := (hmatch.meeting id).mp hy
        simp [hnone] at hx
      | some y => simp [(ht.sameTerms hu hmatch hx hy).joins]
  have hlist : (u.attendeeOrBlank a).scanIds.Perm (t.attendeeOrBlank a).scanIds :=
    (List.perm_ext_iff_of_nodup (hu.sound.scanIds_nodup a) (ht.sound.scanIds_nodup a)).mpr hlisted
  have hpoints : ∀ id ∈ (t.attendeeOrBlank a).scanIds, u.pointsAt a id = t.pointsAt a id := by
    intro id hid
    obtain ⟨x, hx, hjoins⟩ := (ht.indexed a id).mp hid
    obtain ⟨y, hy, -⟩ := (hu.indexed a id).mp ((hlisted id).mpr hid)
    rw [Store.pointsAt, Store.pointsAt, hx, hy, Option.map_some, Option.map_some,
      (ht.sameTerms hu hmatch hx hy).points a hjoins]
  have hearned : u.earned a = t.earned a := by
    rw [Store.earned, (hlist.map _).sum_nat, List.map_congr_left hpoints, Store.earned]
  have hrep : (u.attendeeOrBlank a).rep = (t.attendeeOrBlank a).rep := by
    apply UInt64.toNat_inj.mp
    rw [hu.balanced.rep, ht.balanced.rep, hmatch.bonus, hearned]
  refine ⟨hrep, ?_, hlist⟩
  rw [hu.tier, ht.tier, hrep]

end Store.Consistent

namespace Store

/-- What two lists of scans have in common that differ in order only. -/
structure OrderIndifferent (s : Store) (ds es : List TimedScan) : Prop where
  /-- The same scans fail, each for the same reason. -/
  answers : (s.scanAnswers ds).Perm (s.scanAnswers es)
  /-- Each scan answers what it answers alone, wherever it stands in either list. -/
  alone : ∀ d r, (d, r) ∈ s.scanAnswers ds ∨ (d, r) ∈ s.scanAnswers es → r = s.scanAnswer d
  /-- The same attendees are there, with the same reputation, the same tier and the same
  meetings. -/
  attendees : ∀ a, ∃ o p, (Records.attendee a).eval (s.afterScans ds) = .ok o ∧
    (Records.attendee a).eval (s.afterScans es) = .ok p ∧ Option.Rel Attendee.SameStanding o p
  /-- The same meetings are there, in which each of the two has the same points and has shared
  something in both or in neither. -/
  meetings : ∀ id, ∃ o p, (Records.scan id).eval (s.afterScans ds) = .ok o ∧
    (Records.scan id).eval (s.afterScans es) = .ok p ∧ Option.Rel Scan.SameTerms o p

/-- Scans in two orders have all this in common on a consistent store. -/
theorem Consistent.orderIndifferent {members : List Address} {start s : Store}
    (hstart : start.Sound members) (h : s.Consistent members start) {ds es : List TimedScan}
    (hds : ∀ d ∈ ds, Fits d.scan) (hperm : ds.Perm es) : s.OrderIndifferent ds es := by
  have hes : ∀ d ∈ es, Fits d.scan := fun d hd => hds d (hperm.mem_iff.mpr hd)
  obtain ⟨ht, hscanned⟩ := h.afterScans hstart hds
  obtain ⟨hu, hscanned'⟩ := h.afterScans hstart hes
  have hmatch := hscanned.matches hscanned' hperm
  have hanswers := h.scanAnswers hstart hds
  have hanswers' := h.scanAnswers hstart hes
  refine ⟨?_, ?_, fun a => ?_, fun id => ?_⟩
  · rw [hanswers, hanswers']
    exact hperm.map _
  · intro d r hd
    rw [hanswers, hanswers', List.mem_map, List.mem_map] at hd
    rcases hd with ⟨d', -, heq⟩ | ⟨d', -, heq⟩
    · cases heq
      rfl
    · cases heq
      rfl
  · refine ⟨_, _, congrArg Prod.fst (ht.sound.attendee_run a),
      congrArg Prod.fst (hu.sound.attendee_run a), Option.rel_of_none_iff (hmatch.present a) ?_⟩
    intro x y hx hy
    have hstanding := ht.sameStanding hu hmatch a
    rwa [attendeeOrBlank_of_attendee hx, attendeeOrBlank_of_attendee hy] at hstanding
  · exact ⟨_, _, congrArg Prod.fst (ht.sound.scan_run id), congrArg Prod.fst (hu.sound.scan_run id),
      Option.rel_of_none_iff (hmatch.meeting id) fun x y hx hy => ht.sameTerms hu hmatch hx hy⟩

end Store

namespace SmallLedger

/-- Both attendees scan each other and share something, and one of them scans a badge of nobody. -/
def scans : List TimedScan :=
  [⟨⟨.ofTicket "1", "2", ⟨[7]⟩⟩, 7⟩, ⟨⟨.ofTicket "2", "1", ⟨[8]⟩⟩, 3⟩,
    ⟨⟨.ofTicket "1", "9", .empty⟩, 5⟩]

/-- The scans fit. -/
theorem fits_scans : ∀ d ∈ scans, Fits d.scan := by
  intro d hd
  simp only [scans, List.mem_cons, List.not_mem_nil, or_false] at hd
  have hbound : ∀ {n : Nat}, n ≤ 9 → n < UInt64.size := fun h =>
    Nat.lt_of_le_of_lt h (by decide)
  rcases hd with rfl | rfl | rfl
  · exact ⟨hbound (by decide), hbound (by decide)⟩
  · exact ⟨hbound (by decide), hbound (by decide)⟩
  · exact ⟨hbound (by decide), hbound (by decide)⟩

end SmallLedger

namespace Chain

variable {chainId : String} {g : Genesis} {c : Chain}

/-- In every state that a run of operations that fit reaches from a sized genesis, what scans are
worth does not depend on their order. -/
theorem scansInAnyOrder (hg : g.Sized) (h : ofGenesis chainId g = .ok c) {ds : List Delivery}
    (hds : ∀ d ∈ ds, Fits d.tx.op) {ms ns : List TimedScan} (hms : ∀ m ∈ ms, Fits m.scan)
    (hperm : ms.Perm ns) : (c.after ds).store.OrderIndifferent ms ns := by
  have hs := after_sound hg h hds
  have hconsistent : (c.after ds).store.Consistent g.members (c.after ds).store :=
    ⟨hs, after_indexed hg h hds, after_balanced hg h hds, rfl, after_tierAt hg h hds⟩
  exact hconsistent.orderIndifferent hs hms hperm

/-- On the ledger of two attendees, after a keying and a claim, the two scan each other and one of
them scans a badge of nobody. In either order the one who has claimed ends with nine points. -/
theorem scansInAnyOrder_reverse :
    SmallLedger.pair.Sized ∧ ofGenesis "test-chain" SmallLedger.pair = .ok SmallLedger.pairChain ∧
      (∀ d ∈ SmallLedger.lifecycle, Fits d.tx.op) ∧ (∀ m ∈ SmallLedger.scans, Fits m.scan) ∧
      SmallLedger.scans.Perm SmallLedger.scans.reverse ∧
      (SmallLedger.pairChain.after SmallLedger.lifecycle).store.OrderIndifferent SmallLedger.scans
        SmallLedger.scans.reverse ∧
      ((SmallLedger.pairChain.after SmallLedger.lifecycle).store.scanAnswers
        SmallLedger.scans).map (·.2) = [.ok (), .ok (), .error .attendeeNotFound] ∧
      [SmallLedger.scans, SmallLedger.scans.reverse].map (fun ms =>
        (((SmallLedger.pairChain.after SmallLedger.lifecycle).store.afterScans ms).attendee
          (.ofTicket "1")).map (·.rep)) = [some 9, some 9] := by
  have hperm : SmallLedger.scans.Perm SmallLedger.scans.reverse := (List.reverse_perm _).symm
  have hindifferent := scansInAnyOrder SmallLedger.sized_pair SmallLedger.ofGenesis_pair
    SmallLedger.fits_lifecycle SmallLedger.fits_scans hperm
  refine ⟨SmallLedger.sized_pair, SmallLedger.ofGenesis_pair, SmallLedger.fits_lifecycle,
    SmallLedger.fits_scans, hperm, hindifferent, ?_⟩
  decide +kernel

end Chain

end ConferenceLedger

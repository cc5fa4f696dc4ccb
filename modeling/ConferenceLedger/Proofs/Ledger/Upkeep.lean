import ConferenceLedger.Proofs.Ledger.Effects

/-!
# What every change of a record keeps

The record of an attendee changes in five ways: a key is put in, the account is claimed, a meeting
is listed, points are awarded and wins are collected. What each of these keeps of one attendee,
every run keeps of everyone. The tiers that an award reaches are those of the prizes that the
genesis laid out, since no operation changes more of a prize than how many units are left.
-/

namespace ConferenceLedger

/-- A tier is at most the highest one that reputation reaches if it is at most one of those that
reputation reaches. -/
theorem Prize.le_tierFor {prizes : List Prize} {rep : UInt64} {tier : UInt8} :
    tier ≤ Prize.tierFor prizes rep ↔
      tier ≤ 0 ∨ ∃ p ∈ prizes, p.repNeeded ≤ rep ∧ tier ≤ p.tier := by
  have hfold : ∀ (tiers : List UInt8) (start : UInt8),
      tier ≤ tiers.foldl max start ↔ tier ≤ start ∨ ∃ n ∈ tiers, tier ≤ n := by
    intro tiers
    induction tiers with
    | nil => simp
    | cons n tiers ih =>
      intro start
      rw [List.foldl_cons, ih, le_max_tier, or_assoc, List.exists_mem_cons_iff]
  rw [tierFor, hfold]
  simp only [List.mem_map, List.mem_filter, decide_eq_true_eq, exists_exists_and_eq_and]
  simp only [and_assoc]

/-- Two tiers are the same if no tier is at most only one of them. -/
theorem tier_eq_of_le_iff {a b : UInt8} (h : ∀ tier, tier ≤ a ↔ tier ≤ b) : a = b :=
  UInt8.le_antisymm ((h a).mp (UInt8.le_refl a)) ((h b).mpr (UInt8.le_refl b))

/-- Points added take no reputation away. -/
theorem Attendee.rep_le_addRep (points : UInt64) (x : Attendee) :
    x.rep ≤ (x.addRep points).rep := by
  have hrep : (x.addRep points).rep.toNat = min (UInt64.size - 1) (x.rep.toNat + points.toNat) :=
    toNat_addCapped x.rep points
  have hlt := x.rep.toNat_lt
  rw [UInt64.le_iff_toNat_le, hrep]
  change _ ≤ min (2 ^ 64 - 1) _
  omega

namespace Store

variable {members : List Address} {s t : Store}

/-- A prize is the one that the store has of its tier. -/
theorem FilesPrizes.brand_of_mem (hs : s.FilesPrizes) {p : Prize} (hp : p ∈ s.prizes) :
    s.brand p.tier = some { p with quantity := 0 } := by
  rw [brand, hs.mem_prizes.mp hp, Option.map_some]

/-- A tier is within reach if the store has a prize, of the tier or of one above it, that takes no
more reputation. -/
theorem FilesPrizes.le_tierFor (hs : s.FilesPrizes) {rep : UInt64} {tier : UInt8} :
    tier ≤ Prize.tierFor s.prizes rep ↔
      tier ≤ 0 ∨ ∃ n p, s.brand n = some p ∧ p.repNeeded ≤ rep ∧ tier ≤ n := by
  rw [Prize.le_tierFor]
  apply or_congr_right
  constructor
  · rintro ⟨p, hp, hrep, htier⟩
    exact ⟨p.tier, _, hs.brand_of_mem hp, hrep, htier⟩
  · rintro ⟨n, b, hb, hrep, htier⟩
    obtain ⟨p, hp, rfl⟩ := Option.map_eq_some_iff.mp hb
    have hn := (hs.prize hp).2
    subst hn
    exact ⟨p, hs.mem_prizes.mpr hp, hrep, htier⟩

/-- The tier that reputation reaches does not depend on how many units are left. -/
theorem FilesPrizes.tierFor_congr (hs : s.FilesPrizes) (ht : t.FilesPrizes)
    (hbrand : t.brand = s.brand) (rep : UInt64) :
    Prize.tierFor t.prizes rep = Prize.tierFor s.prizes rep := by
  apply tier_eq_of_le_iff
  intro tier
  rw [ht.le_tierFor, hs.le_tierFor, hbrand]

/-- Rewriting the record of one attendee keeps what everyone has, if the new record has it. -/
theorem Rewrites.all {P : Attendee → Prop} {b : Address} {y : Attendee} (h : s.Rewrites t b y)
    (hall : ∀ a, P (s.attendeeOrBlank a)) (hy : P y) (a : Address) : P (t.attendeeOrBlank a) := by
  rw [h.attendeeOrBlank]
  split_ifs
  · exact hy
  · exact hall a

end Store

/-- A property of attendees that every change of a record keeps, where the prizes are of a table. -/
structure Attendee.Lasting (members : List Address) (table : UInt8 → Option Prize)
    (P : Attendee → Prop) : Prop where
  /-- A key keeps it. -/
  keyed : ∀ m x, P x → P (Custody.keyed m x)
  /-- A claim keeps it. -/
  claimed : ∀ m k x, P x → P (Custody.claimed m k x)
  /-- A meeting listed keeps it. -/
  addScanId : ∀ i x, P x → P (x.addScanId i)
  /-- An award of points keeps it. -/
  awarded : ∀ (s : Store) points x, s.Sound members → s.brand = table → 0 < points → P x →
    P (s.awarded points x)
  /-- Wins collected keep it. -/
  collectWinnings : ∀ x, P x → P x.collectWinnings

namespace Attendee.Lasting

variable {members : List Address} {table : UInt8 → Option Prize} {P : Attendee → Prop}
variable {time : Int64} {s t : Store}

/-- Those who meet keep it. -/
theorem meet (hlasting : Lasting members table P) {sender : Address} {id : ScanId} {a b : Attendee}
    {p : Meeting.Parties} (hs : s.Sound members) (hbrand : s.brand = table)
    (h : (Meeting.meet sender time id a b).run s = (.ok p, t)) (ha : P a) (hb : P b) :
    P p.sender ∧ P p.scanned := by
  rcases Meeting.meet_run_ok h with ⟨scan, -, rfl, -⟩ | ⟨-, scan, -, rfl, -⟩
  · exact ⟨ha, hb⟩
  · have hawarding := (Store.Awarding.none s).award Award.scanPoints a
    have hbrand' : (s.handOut Award.scanPoints a).brand = table := by
      rw [← hbrand]
      exact funext fun tier => hawarding.brand hs tier
    exact ⟨hlasting.awarded s _ a hs hbrand (by decide) ha,
      hlasting.awarded _ _ b (hawarding.sound hs) hbrand' (by decide) hb⟩

/-- Those who share keep it. -/
theorem share (hlasting : Lasting members table P) {a : Address} {data : Blob} {p q : Meeting.Parties}
    (hs : s.Sound members) (hbrand : s.brand = table)
    (h : (Meeting.share a data p).run s = (.ok q, t)) (hsender : P p.sender)
    (hscanned : P p.scanned) : P q.sender ∧ P q.scanned := by
  rcases Meeting.share_run_ok h with ⟨-, rfl, -⟩ | ⟨-, rfl, -⟩
  · exact ⟨hlasting.awarded s _ _ hs hbrand (by decide) hsender, hscanned⟩
  · exact ⟨hsender, hscanned⟩

/-- Both sides of a scan keep it. -/
theorem encounter {m : BadgeScan} (hlasting : Lasting members table P)
    (e : Meeting.Encounter members time m s t) (hs : s.Sound members) (hbrand : s.brand = table)
    (hsender : P e.sender) (hscanned : P e.scanned) : P e.shared.sender ∧ P e.shared.scanned := by
  obtain ⟨ha, hb⟩ := hlasting.meet hs hbrand e.meets hsender hscanned
  have hbetween : e.between.brand = table := by
    rw [← hbrand]
    exact funext fun tier => (Meeting.meet_awarding e.meets).brand hs tier
  exact hlasting.share e.between_sound hbetween e.shares (hlasting.addScanId _ _ ha)
    (hlasting.addScanId _ _ hb)

/-- Every operation leaves everyone with it. -/
theorem effect {op : Operation} (hlasting : Lasting members table P)
    (heffect : op.Effect members time s t) (hs : s.Sound members) (hbrand : s.brand = table)
    (hall : ∀ a, P (s.attendeeOrBlank a)) (a : Address) : P (t.attendeeOrBlank a) := by
  have hfound : ∀ {b x}, s.attendee b = some x → P x := by
    intro b x hx
    rw [← Store.attendeeOrBlank_of_attendee hx]
    exact hall b
  cases heffect with
  | @keyed m hop hmaster haccount hkey hrecords hprizes =>
    exact hrecords.all hall (hlasting.keyed m _ (hall m.attendee)) a
  | @claimed m hop x y hx hclaimed hreveals hy hrecords hprizes =>
    have hPy : P y := hy ▸ hlasting.claimed m _ x (hfound hx)
    exact hrecords.all hall (hlasting.awarded s _ y hs hbrand (by decide) hPy) a
  | met hop e =>
    obtain ⟨hsender, hscanned⟩ :=
      hlasting.encounter e hs hbrand (hfound e.found_sender) (hfound e.found_scanned)
    rw [e.attendeeOrBlank]
    split_ifs
    · exact hscanned
    · exact hsender
    · exact hall a
  | collected hop hredeem hx hrecords hprizes =>
    exact hrecords.all hall (hlasting.collectWinnings _ (hfound hx)) a

end Attendee.Lasting

/-- In every state that a run of operations that fit reaches from a sized genesis, the prizes are
those that the genesis laid out but for the units left, and everyone has what new attendees have and
every change of a record keeps. -/
theorem Chain.after_lasting {P : Attendee → Prop} {chainId : String} {g : Genesis} {c : Chain}
    (hg : g.Sized) (h : ofGenesis chainId g = .ok c) {ds : List Delivery}
    (hds : ∀ d ∈ ds, Fits d.tx.op) (hlasting : Attendee.Lasting g.members c.store.brand P)
    (hblank : ∀ a, P (.blank a)) (hticket : ∀ id ticketClass, P (.ofTicket id ticketClass)) :
    (c.after ds).store.brand = c.store.brand ∧ ∀ a, P ((c.after ds).store.attendeeOrBlank a) := by
  apply after_of_effects (P := fun s => s.brand = c.store.brand ∧ ∀ a, P (s.attendeeOrBlank a))
    hg h hds
  · refine ⟨rfl, fun a => ?_⟩
    rcases attendeeOrBlank_of_genesis hg h a with hnew | ⟨e, -, hnew⟩
    · rw [hnew]
      exact hblank a
    · rw [hnew]
      exact hticket _ _
  · rintro s x ⟨hbrand, hall⟩
    refine ⟨?_, fun a => ?_⟩
    · rw [← hbrand]
      exact funext fun tier => Store.brand_of_prize (Store.prize_counted s x tier)
    · rw [Store.attendeeOrBlank_counted]
      exact hall a
  · rintro op time s t hs ⟨hbrand, hall⟩ heffect
    refine ⟨?_, hlasting.effect heffect hs hbrand hall⟩
    rw [← hbrand]
    exact funext fun tier => heffect.brand hs tier

end ConferenceLedger

import ConferenceLedger.Proofs.Ledger.Lifecycle
import ConferenceLedger.Proofs.Ledger.Upkeep

/-!
# The reputation behind a prize

An award asks which tier is the highest that reputation reaches, and then gives the prizes of all
the tiers up to it. So every win is of a tier at or below one that reputation has reached. The tier
of the win itself may take more reputation than that, if the table lets a higher tier take less.
-/

namespace ConferenceLedger

/-- A win of a prize of a table, whose tier is at or below one that a reputation has reached. -/
structure Win.WithinReach (table : UInt8 → Option Prize) (rep : UInt64) (w : Win) : Prop where
  /-- The win is of a prize of the table. -/
  prize : ∃ p, table w.tier = some p ∧ w.name = p.text
  /-- Reputation has reached the tier or one above it. -/
  reached : ∃ n p, table n = some p ∧ w.tier ≤ n ∧ p.repNeeded ≤ rep

/-- An attendee whose wins are all within the reach of reputation. -/
def Attendee.WithinReach (table : UInt8 → Option Prize) (x : Attendee) : Prop :=
  ∀ w ∈ x.winnings, w.WithinReach table x.rep

namespace Attendee.WithinReach

variable {table : UInt8 → Option Prize} {x y : Attendee}

/-- Who has won nothing is within reach. -/
theorem of_unrewarded (h : x.winnings = []) : x.WithinReach table := by
  intro w hw
  rw [h] at hw
  cases hw

/-- An attendee with the same wins and the same reputation is within reach as well. -/
theorem of_same (h : x.WithinReach table) (hwins : y.winnings = x.winnings)
    (hrep : y.rep = x.rep) : y.WithinReach table := by
  intro w hw
  rw [hwins] at hw
  rw [hrep]
  exact h w hw

/-- Listing a meeting leaves an attendee within reach. -/
theorem addScanId (h : x.WithinReach table) (id : ScanId) : (x.addScanId id).WithinReach table := by
  unfold Attendee.addScanId
  split_ifs
  · exact h
  · exact h.of_same rfl rfl

/-- Collecting wins leaves an attendee within reach. -/
theorem collectWinnings (h : x.WithinReach table) : x.collectWinnings.WithinReach table := by
  intro w hw
  obtain ⟨v, hv, rfl⟩ := List.mem_map.mp hw
  exact ⟨(h v hv).prize, (h v hv).reached⟩

end Attendee.WithinReach

/-- An award keeps an attendee within reach of the prizes of the store. -/
theorem Store.Sound.withinReach_awarded {members : List Address} {s : Store} (hs : s.Sound members)
    {x : Attendee} (hx : x.WithinReach s.brand) (points : UInt64) :
    (s.awarded points x).WithinReach s.brand := by
  intro w hw
  rcases List.mem_append.mp hw with hold | hnew
  · -- an old win stays within reach, since reputation does not fall
    obtain ⟨hprize, n, p, hp, hn, hrep⟩ := hx w hold
    exact ⟨hprize, n, p, hp, hn, UInt64.le_trans hrep (x.rep_le_addRep points)⟩
  · obtain ⟨p, hp, rfl⟩ := List.mem_map.mp hnew
    obtain ⟨hmem, hlow, hhigh, -⟩ := Attendee.mem_gains.mp hp
    have hpositive : ¬p.tier ≤ 0 := by
      intro hzero
      exact UInt8.not_lt.mpr hzero (UInt8.lt_of_le_of_lt UInt8.zero_le hlow)
    obtain ⟨n, q, hq, hrep, htier⟩ := (hs.filesPrizes.le_tierFor.mp hhigh).resolve_left hpositive
    exact ⟨⟨_, hs.filesPrizes.brand_of_mem hmem, rfl⟩, n, q, hq, htier, hrep⟩

/-- Every change of a record keeps an attendee within reach. -/
theorem Attendee.WithinReach.lasting (members : List Address) (table : UInt8 → Option Prize) :
    Attendee.Lasting members table (·.WithinReach table) where
  keyed _ _ h := h.of_same rfl rfl
  claimed _ _ _ h := h.of_same rfl rfl
  addScanId i _ h := h.addScanId i
  awarded s points x hs hbrand _ h := by
    subst hbrand
    exact hs.withinReach_awarded h points
  collectWinnings _ h := h.collectWinnings

/-- A store with the prizes of a table, in which everyone is within reach. -/
structure Store.WithinReach (table : UInt8 → Option Prize) (s : Store) : Prop where
  /-- The prizes are those of the table. -/
  brand : s.brand = table
  /-- Everyone is within reach. -/
  attendee : ∀ a, (s.attendeeOrBlank a).WithinReach table

namespace Genesis

/-- The prize of a tier that the table of a genesis sets: the last one of the tier. -/
def prizeOf (g : Genesis) (tier : UInt8) : Option Prize :=
  (g.prizes.filter (·.tier = tier)).getLast?

/-- A table in which no tier takes less reputation than one below it. -/
def Rising (g : Genesis) : Prop :=
  ∀ m n p q, m ≤ n → g.prizeOf m = some p → g.prizeOf n = some q → p.repNeeded ≤ q.repNeeded

end Genesis

namespace SmallLedger

/-- The small ledger with a first tier that takes more reputation than the second. -/
def uneven : Genesis := { genesis with prizes := [⟨1, 100, "Hoodie", 5⟩, ⟨2, 5, "Pin", 5⟩] }

/-- The chain that starts from the uneven table. -/
def unevenChain : Chain :=
  match Chain.ofGenesis "test-chain" uneven with
  | .ok c => c
  | .error _ => ⟨"test-chain", 0, .empty⟩

/-- The genesis with the uneven table is accepted. -/
theorem ofGenesis_uneven : Chain.ofGenesis "test-chain" uneven = .ok unevenChain := by
  have hok : (Chain.ofGenesis "test-chain" uneven).isOk = true := by decide +kernel
  obtain ⟨c, hc⟩ := ofGenesis_of_isOk hok
  unfold unevenChain
  rw [hc]

/-- The genesis with the uneven table is sized. -/
theorem sized_uneven : uneven.Sized := by
  have hprizes : ∀ p ∈ uneven.prizes, (Bytes.ofText p.text).length < UInt64.size := by decide
  exact ⟨sized.countable, sized.attendees, hprizes⟩

end SmallLedger

namespace Chain

variable {chainId : String} {g : Genesis} {c : Chain}

/-- In every state that a run of operations that fit reaches from a sized genesis, everyone is
within reach of the prizes that the genesis laid out. -/
theorem after_withinReach (hg : g.Sized) (h : ofGenesis chainId g = .ok c) {ds : List Delivery}
    (hds : ∀ d ∈ ds, Fits d.tx.op) : (c.after ds).store.WithinReach c.store.brand := by
  obtain ⟨hbrand, hattendee⟩ := after_lasting hg h hds (Attendee.WithinReach.lasting g.members c.store.brand)
    (fun _ => Attendee.WithinReach.of_unrewarded rfl)
    (fun _ _ => Attendee.WithinReach.of_unrewarded rfl)
  exact ⟨hbrand, hattendee⟩

/-- The prizes that the ledger has in a run are those that the genesis set, but for the units
left. -/
theorem brand_after (hg : g.Sized) (h : ofGenesis chainId g = .ok c) {ds : List Delivery}
    (hds : ∀ d ∈ ds, Fits d.tx.op) (tier : UInt8) : (c.after ds).store.brand tier =
      (g.prizeOf tier).map fun q => { q with quantity := 0 } := by
  rw [(after_withinReach hg h hds).brand, Store.brand,
    Genesis.prize_of_run hg.prizes (run_of_genesis h)]
  rfl

/-- What the ledger has of a tier in a run is what the genesis set, but for the units left. -/
theorem exists_prizeOf (hg : g.Sized) (h : ofGenesis chainId g = .ok c) {ds : List Delivery}
    (hds : ∀ d ∈ ds, Fits d.tx.op) {tier : UInt8} {p : Prize}
    (hp : (c.after ds).store.prize tier = some p) :
    ∃ q, g.prizeOf tier = some q ∧ q.repNeeded = p.repNeeded := by
  have hset := brand_after hg h hds tier
  rw [Store.brand, hp] at hset
  obtain ⟨q, hq, heq⟩ := Option.map_eq_some_iff.mp hset.symm
  have hneeded := congrArg Prize.repNeeded heq
  exact ⟨q, hq, hneeded⟩

/-- The ledger has the prize of every win in a run, and at its tier or above one that reputation has
reached. -/
theorem exists_prizes_of_win (hg : g.Sized) (h : ofGenesis chainId g = .ok c) {ds : List Delivery}
    (hds : ∀ d ∈ ds, Fits d.tx.op) {x : Attendee}
    (hx : (c.after ds).store.attendee x.address = some x) {w : Win} (hw : w ∈ x.winnings) :
    ∃ p n q, (c.after ds).store.prize w.tier = some p ∧ w.name = p.text ∧ w.tier ≤ n ∧
      (c.after ds).store.prize n = some q ∧ q.repNeeded ≤ x.rep := by
  obtain ⟨hbrand, hattendee⟩ := after_withinReach hg h hds
  have hreach := hattendee x.address
  rw [Store.attendeeOrBlank_of_attendee hx, ← hbrand] at hreach
  obtain ⟨⟨b, hb, hname⟩, n, d, hd, hn, hrep⟩ := hreach w hw
  obtain ⟨p, hp, rfl⟩ := Option.map_eq_some_iff.mp hb
  obtain ⟨q, hq, rfl⟩ := Option.map_eq_some_iff.mp hd
  exact ⟨p, n, q, hp, hname, hn, hq, hrep⟩

/-- The attendees of a chain, whose wins are within the reach of their reputation. -/
structure WinsWithinReach (c : Chain) (g : Genesis) (xs : List Attendee) : Prop where
  /-- The ledger reads these attendees. -/
  read : Records.attendees.eval c.store = .ok xs
  /-- Every entry under the key of an attendee is one of them. -/
  stored : ∀ k v, c.store.get? k = some v → StoreKey.isMember StoreKey.attendeeClass k = true →
    ∃ x ∈ xs, Binary.decode v = .ok x ∧ k = StoreKey.attendee x.address
  /-- The ledger has the prize of every win, for the reputation that the genesis set. Reputation
  has reached the tier of the win, or else one above it. -/
  wins : ∀ x ∈ xs, ∀ w ∈ x.winnings, ∃ p,
    (Records.prize w.tier).eval c.store = .ok (some p) ∧ w.name = p.text ∧
      (∃ q, g.prizeOf w.tier = some q ∧ q.repNeeded = p.repNeeded) ∧
      (p.repNeeded ≤ x.rep ∨ ∃ n q, w.tier < n ∧
        (Records.prize n).eval c.store = .ok (some q) ∧ q.repNeeded ≤ x.rep)
  /-- If no tier of the genesis takes less than one below it, reputation has reached the tier of
  every win. -/
  rising : g.Rising → ∀ x ∈ xs, ∀ w ∈ x.winnings, ∀ p,
    (Records.prize w.tier).eval c.store = .ok (some p) → p.repNeeded ≤ x.rep

/-- In every state that a run of operations that fit reaches from a sized genesis, every win is
within the reach of reputation. -/
theorem winsWithinReach (hg : g.Sized) (h : ofGenesis chainId g = .ok c) {ds : List Delivery}
    (hds : ∀ d ∈ ds, Fits d.tx.op) : ∃ xs, (c.after ds).WinsWithinReach g xs := by
  have hs := after_sound hg h hds
  obtain ⟨hread, -, hmem⟩ := hs.rows.attendees fun _ hx => hx.fits hs.countable
  have hprize : ∀ n p, (Records.prize n).eval (c.after ds).store = .ok (some p) ↔
      (c.after ds).store.prize n = some p := by
    intro n p
    rw [Access.eval, hs.prize_run, Except.ok.injEq]
  refine ⟨(c.after ds).store.attendees, ?_, ?_, ?_, ?_⟩
  · rw [Access.eval, hread]
  · intro k v hget hk
    obtain ⟨x, hdecode, hkey, hx⟩ := hs.attendee_of_entry hget hk
    exact ⟨x, (hmem x).mpr hx, hdecode, hkey⟩
  · intro x hx w hw
    obtain ⟨p, n, q, hp, hname, hn, hq, hrep⟩ :=
      exists_prizes_of_win hg h hds ((hmem x).mp hx) hw
    refine ⟨p, (hprize _ p).mpr hp, hname, exists_prizeOf hg h hds hp, ?_⟩
    by_cases heq : w.tier = n
    · rw [← heq, hp] at hq
      cases hq
      exact Or.inl hrep
    · exact Or.inr ⟨n, q, UInt8.lt_of_le_of_ne hn heq, (hprize n q).mpr hq, hrep⟩
  · intro hrising x hx w hw p hread
    have hp := (hprize _ p).mp hread
    obtain ⟨b, n, q, hb, -, hn, hq, hrep⟩ := exists_prizes_of_win hg h hds ((hmem x).mp hx) hw
    rw [hp] at hb
    cases hb
    obtain ⟨u, hu, hup⟩ := exists_prizeOf hg h hds hp
    obtain ⟨v, hv, hvq⟩ := exists_prizeOf hg h hds hq
    have hle := hrising _ _ u v hn hu hv
    rw [hup, hvq] at hle
    exact UInt64.le_trans hle hrep

/-- On the small ledger with the uneven table the attendee claims the account for five points. That
reaches the second tier and wins the prizes of both, of which the first takes a hundred. -/
theorem winsWithinReach_uneven :
    SmallLedger.uneven.Sized ∧
      ofGenesis "test-chain" SmallLedger.uneven = .ok SmallLedger.unevenChain ∧
      (∀ d ∈ SmallLedger.lifecycle, Fits d.tx.op) ∧
      (∃ xs, (SmallLedger.unevenChain.after SmallLedger.lifecycle).WinsWithinReach
        SmallLedger.uneven xs) ∧
      ((SmallLedger.unevenChain.after SmallLedger.lifecycle).store.attendee (.ofTicket "1")).map
        (fun x => (x.rep, x.winnings.map (·.tier))) = some (5, [1, 2]) ∧
      ((SmallLedger.unevenChain.after SmallLedger.lifecycle).store.prize 1).map (·.repNeeded) =
        some 100 := by
  have hunearned : ((SmallLedger.unevenChain.after SmallLedger.lifecycle).store.attendee
      (.ofTicket "1")).map (fun x => (x.rep, x.winnings.map (·.tier))) = some (5, [1, 2]) ∧
      ((SmallLedger.unevenChain.after SmallLedger.lifecycle).store.prize 1).map (·.repNeeded) =
        some 100 := by
    decide +kernel
  have hreach := winsWithinReach SmallLedger.sized_uneven SmallLedger.ofGenesis_uneven
    SmallLedger.fits_lifecycle
  exact ⟨SmallLedger.sized_uneven, SmallLedger.ofGenesis_uneven, SmallLedger.fits_lifecycle, hreach,
    hunearned⟩

end Chain

end ConferenceLedger

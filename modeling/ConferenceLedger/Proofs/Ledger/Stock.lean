import ConferenceLedger.Proofs.Ledger.Effects
import ConferenceLedger.Proofs.Ledger.Lifecycle
import Mathlib.Algebra.BigOperators.Group.List.Basic
import Mathlib.Data.List.Nodup

/-!
# Where the prizes go

For every tier a tally is kept of the units left, of the attendees who have reached the tier and of
the wins of the tier. An award deals as many units as attendees reach the tier by it, until none are
left. So every unit of a genesis is either left or was won, and as long as units are left every
attendee who has reached a tier has won its prize.
-/

namespace ConferenceLedger

/-- What is known of a tier. -/
structure Tally where
  /-- The units of the prize that are left. -/
  left : Nat
  /-- How many have reached the tier. -/
  reached : Nat
  /-- How many wins of the tier there are. -/
  won : Nat

namespace Tally

/-- A tally after some more have reached the tier and got a unit each, as long as there were any. -/
def Deals (a b : Tally) : Prop :=
  -- when fewer units than that are left, all of them go and `left` is cut off at zero
  ∃ k, b.left = a.left - k ∧ b.reached = a.reached + k ∧ b.won = a.won + min a.left k

/-- A tally of a tier that started with so many units. -/
structure Exact (quantity : Nat) (a : Tally) : Prop where
  /-- The units that are left are those that nobody has reached. -/
  left : a.left = quantity - a.reached
  /-- Whoever has reached the tier has won, as long as there were units. -/
  won : a.won = min quantity a.reached

variable {a b c : Tally}

/-- Nothing may be dealt. -/
theorem Deals.refl (a : Tally) : a.Deals a := ⟨0, by omega⟩

/-- Units may be dealt again. -/
theorem Deals.trans (h : a.Deals b) (h' : b.Deals c) : a.Deals c := by
  obtain ⟨j, hleft, hreached, hwon⟩ := h
  obtain ⟨k, hleft', hreached', hwon'⟩ := h'
  refine ⟨j + k, ?_, ?_, ?_⟩
  · omega
  · omega
  · omega

/-- A tally stays exact when units are dealt. -/
theorem Exact.deals {quantity : Nat} (h : a.Exact quantity) (h' : a.Deals b) : b.Exact quantity := by
  obtain ⟨k, hleft, hreached, hwon⟩ := h'
  have hbefore := h.left
  have hwonBefore := h.won
  constructor
  · omega
  · omega

/-- What is dealt to some is dealt to all. -/
theorem Deals.of_part (h : a.Deals b) {x y : Tally} (hleft : x.left = a.left ∧ y.left = b.left)
    (hreached : y.reached + a.reached = x.reached + b.reached)
    (hwon : y.won + a.won = x.won + b.won) : x.Deals y := by
  obtain ⟨k, hk, hkreached, hkwon⟩ := h
  obtain ⟨hx, hy⟩ := hleft
  refine ⟨k, ?_, ?_, ?_⟩
  · omega
  · omega
  · rw [hx]
    omega

end Tally

namespace Prize

/-- A prize is in stock if its number of units is not zero. -/
theorem inStock_iff {p : Prize} : p.inStock = true ↔ p.quantity.toNat ≠ 0 := by
  rw [inStock, bne_iff_ne, ne_eq, ne_eq, ← UInt32.toNat_inj]
  rfl

/-- A prize in stock has one unit less when one was taken. -/
theorem toNat_quantity_taken {p : Prize} (h : p.inStock = true) :
    p.taken.quantity.toNat = p.quantity.toNat - 1 := by
  have hpositive : (1 : UInt32) ≤ p.quantity := by
    rw [UInt32.le_iff_toNat_le]
    exact Nat.one_le_iff_ne_zero.mpr (inStock_iff.mp h)
  exact UInt32.toNat_sub_of_le _ _ hpositive

end Prize

namespace Attendee

/-- How many wins of a tier an attendee has. -/
def wins (tier : UInt8) (x : Attendee) : Nat := x.winnings.countP (·.tier = tier)

/-- One for an attendee who has reached a tier, and zero for any other. -/
def reaches (tier : UInt8) (x : Attendee) : Nat := if tier ≤ x.tier then 1 else 0

/-- One for an attendee who has not reached a tier that reputation has, and zero for any other. -/
def climbs (prizes : List Prize) (tier : UInt8) (x : Attendee) : Nat :=
  if x.tier < tier ∧ tier ≤ Prize.tierFor prizes x.rep then 1 else 0

/-- Those who have reached a tier are counted. -/
theorem sum_reaches (tier : UInt8) (xs : List Attendee) :
    (xs.map (·.reaches tier)).sum = xs.countP (tier ≤ ·.tier) := by
  induction xs with
  | nil => rfl
  | cons x xs ih =>
    rw [List.map_cons, List.sum_cons, ih, List.countP_cons, reaches, Nat.add_comm]
    simp only [decide_eq_true_eq]

/-- Wins in ascending order of tiers have at most one of a tier. -/
theorem wins_le_one {x : Attendee} (h : x.winnings.Pairwise (·.tier < ·.tier)) (tier : UInt8) :
    x.wins tier ≤ 1 := by
  have hnodup : (x.winnings.map (·.tier)).Nodup := nodup_of_ascending (List.pairwise_map.mpr h)
  have hcount := List.nodup_iff_count_le_one.mp hnodup tier
  rw [List.count_eq_countP, List.countP_map] at hcount
  exact hcount

/-- A promotion wins the prizes gained. -/
theorem wins_promote (prizes : List Prize) (tier : UInt8) (x : Attendee) :
    (x.promote prizes).wins tier = x.wins tier + (x.gains prizes).countP (·.tier = tier) := by
  change (x.winnings ++ (x.gains prizes).map (·.won)).countP _ = _
  rw [List.countP_append, List.countP_map]
  rfl

/-- A promotion reaches the tiers that are climbed. -/
theorem reaches_promote (prizes : List Prize) (tier : UInt8) (x : Attendee) :
    (x.promote prizes).reaches tier = x.reaches tier + x.climbs prizes tier := by
  rw [reaches, reaches, climbs]
  by_cases hold : tier ≤ x.tier
  · have hnot : ¬(x.tier < tier ∧ tier ≤ Prize.tierFor prizes x.rep) := fun h =>
      UInt8.not_lt.mpr hold h.1
    rw [if_pos (le_tier_promote.mpr (Or.inl hold)), if_pos hold, if_neg hnot]
  · have hlow : x.tier < tier := UInt8.not_le.mp hold
    by_cases hnew : tier ≤ Prize.tierFor prizes x.rep
    · rw [if_pos (le_tier_promote.mpr (Or.inr hnew)), if_neg hold, if_pos ⟨hlow, hnew⟩]
    · have hneither : ¬tier ≤ (x.promote prizes).tier := fun h =>
        (le_tier_promote.mp h).elim hold hnew
      have hnot : ¬(x.tier < tier ∧ tier ≤ Prize.tierFor prizes x.rep) := fun h => hnew h.2
      rw [if_neg hneither, if_neg hold, if_neg hnot]

end Attendee

namespace Store

variable {members : List Address} {s t : Store}

/-- How many units of the prize of a tier are left. -/
def stock (s : Store) (tier : UInt8) : Nat := ((s.prize tier).map (·.quantity.toNat)).getD 0

/-- The tally of a tier for one attendee. -/
def tally (s : Store) (tier : UInt8) (x : Attendee) : Tally :=
  ⟨s.stock tier, x.reaches tier, x.wins tier⟩

/-- The tally of a tier for all members. -/
def tallyOf (members : List Address) (s : Store) (tier : UInt8) : Tally :=
  ⟨s.stock tier, s.total members (·.reaches tier), s.total members (·.wins tier)⟩

/-- Of the prizes gained the only one of a tier is the one that is found under the tier. -/
theorem Sound.countP_gains (hs : s.Sound members) (x : Attendee) (tier : UInt8) :
    (x.gains s.prizes).countP (·.tier = tier) =
      ((s.prize tier).map fun p => if p ∈ x.gains s.prizes then 1 else 0).getD 0 := by
  have hnodup : (x.gains s.prizes).Nodup := by
    have htiers := nodup_of_ascending (List.pairwise_map.mpr hs.prizes.2)
    exact (htiers.of_map _ |>.filter _).filter _
  cases hp : s.prize tier with
  | none =>
    rw [Option.map_none, Option.getD_none, List.countP_eq_zero]
    intro q hq
    have hfound := hs.mem_prizes.mp (Attendee.mem_gains.mp hq).1
    simp only [decide_eq_true_eq]
    rintro rfl
    rw [hp] at hfound
    cases hfound
  | some p =>
    have honly : ∀ q ∈ x.gains s.prizes, decide (q.tier = tier) = true ↔ (q == p) = true := by
      intro q hq
      have hfound := hs.mem_prizes.mp (Attendee.mem_gains.mp hq).1
      rw [decide_eq_true_eq, beq_iff_eq]
      constructor
      · rintro rfl
        rw [hp] at hfound
        exact (Option.some.inj hfound).symm
      · rintro rfl
        exact (hs.prize hp).2
    rw [Option.map_some, Option.getD_some, List.countP_congr honly]
    exact hnodup.count

/-- An award takes the prizes gained out of stock. -/
theorem Sound.stock_handOut (hs : s.Sound members) (points : UInt64) (x : Attendee)
    (tier : UInt8) : (s.handOut points x).stock tier =
      s.stock tier - ((x.addRep points).gains s.prizes).countP (·.tier = tier) := by
  rw [hs.countP_gains, stock, hs.prize_handOut, stock]
  cases s.prize tier with
  | none => rfl
  | some p =>
    simp only [Option.map_some, Option.getD_some]
    split_ifs with hgained
    · exact Prize.toNat_quantity_taken (Attendee.mem_gains.mp hgained).2.2.2
    · rfl

/-- Who climbs to a tier gains its prize, as long as there are units. -/
theorem Sound.countP_gains_eq_min (hs : s.Sound members) (x : Attendee) (tier : UInt8) :
    (x.gains s.prizes).countP (·.tier = tier) = min (s.stock tier) (x.climbs s.prizes tier) := by
  rw [hs.countP_gains, stock]
  cases hp : s.prize tier with
  | none =>
    rw [Option.map_none, Option.map_none, Option.getD_none, Nat.zero_min]
  | some p =>
    have hmem : p ∈ s.prizes := by
      rw [hs.mem_prizes, (hs.prize hp).2, hp]
    have hgained : p ∈ x.gains s.prizes ↔
        (x.tier < tier ∧ tier ≤ Prize.tierFor s.prizes x.rep) ∧ p.quantity.toNat ≠ 0 := by
      rw [Attendee.mem_gains, Prize.inStock_iff, (hs.prize hp).2, and_assoc]
      exact and_iff_right hmem
    rw [Option.map_some, Option.map_some, Option.getD_some, Option.getD_some, Attendee.climbs]
    by_cases hclimbs : x.tier < tier ∧ tier ≤ Prize.tierFor s.prizes x.rep
    · -- a tier whose units have run out is reached without a win
      by_cases hleft : p.quantity.toNat = 0
      · have hnot : p ∉ x.gains s.prizes := fun h => (hgained.mp h).2 hleft
        rw [if_neg hnot, hleft, Nat.zero_min]
      · rw [if_pos (hgained.mpr ⟨hclimbs, hleft⟩), if_pos hclimbs]
        omega
    · have hnot : p ∉ x.gains s.prizes := fun h => hclimbs (hgained.mp h).1
      rw [if_neg hnot, if_neg hclimbs, Nat.min_zero]

/-- An award deals a unit if the attendee climbs to the tier by it. -/
theorem Sound.tally_award (hs : s.Sound members) (points : UInt64) (x : Attendee)
    (tier : UInt8) :
    (s.tally tier x).Deals ((s.handOut points x).tally tier (s.awarded points x)) := by
  have hstock := hs.stock_handOut points x tier
  have hgains := hs.countP_gains_eq_min (x.addRep points) tier
  have hwins := (x.addRep points).wins_promote s.prizes tier
  refine ⟨(x.addRep points).climbs s.prizes tier, ?_, ?_, ?_⟩
  · change (s.handOut points x).stock tier = s.stock tier - _
    omega
  · exact (x.addRep points).reaches_promote s.prizes tier
  · change (s.awarded points x).wins tier = x.wins tier + min (s.stock tier) _
    rw [← hgains]
    exact hwins

/-- The tally of a tier for two attendees. -/
def tallyTwo (s : Store) (tier : UInt8) (x y : Attendee) : Tally :=
  ⟨s.stock tier, x.reaches tier + y.reaches tier, x.wins tier + y.wins tier⟩

/-- What is dealt to the first of two is dealt to the two. -/
theorem tallyTwo_first {tier : UInt8} {x x' : Attendee}
    (h : (s.tally tier x).Deals (t.tally tier x')) (y : Attendee) :
    (s.tallyTwo tier x y).Deals (t.tallyTwo tier x' y) := by
  refine h.of_part ⟨rfl, rfl⟩ ?_ ?_
  · change x'.reaches tier + y.reaches tier + x.reaches tier =
      x.reaches tier + y.reaches tier + x'.reaches tier
    omega
  · change x'.wins tier + y.wins tier + x.wins tier = x.wins tier + y.wins tier + x'.wins tier
    omega

/-- It does not matter which of the two is the first. -/
theorem tallyTwo_comm (s : Store) (tier : UInt8) (x y : Attendee) :
    s.tallyTwo tier x y = s.tallyTwo tier y x := by
  rw [tallyTwo, tallyTwo, Nat.add_comm (x.reaches tier), Nat.add_comm (x.wins tier)]

/-- What is dealt to the second of two is dealt to the two. -/
theorem tallyTwo_second {tier : UInt8} {y y' : Attendee}
    (h : (s.tally tier y).Deals (t.tally tier y')) (x : Attendee) :
    (s.tallyTwo tier x y).Deals (t.tallyTwo tier x y') := by
  rw [s.tallyTwo_comm, t.tallyTwo_comm]
  exact tallyTwo_first h x

/-- The same prize is in the same stock. -/
theorem stock_of_prize {tier : UInt8} (h : t.prize tier = s.prize tier) :
    t.stock tier = s.stock tier := by
  rw [stock, h, stock]

/-- What is dealt to the attendee who is rewritten is dealt to all. -/
theorem Rewrites.deals {b : Address} {x y : Attendee} (h : s.Rewrites t b y) (hb : b ∈ members)
    (hx : s.attendeeOrBlank b = x) {tier : UInt8}
    (hdeals : (s.tally tier x).Deals (t.tally tier y)) :
    (s.tallyOf members tier).Deals (t.tallyOf members tier) := by
  have hreaches := h.total hb (·.reaches tier)
  have hwins := h.total hb (·.wins tier)
  rw [hx] at hreaches hwins
  exact hdeals.of_part ⟨rfl, rfl⟩ hreaches hwins

end Store

namespace Meeting

variable {members : List Address} {time : Int64} {s t : Store}

/-- Those who meet are dealt the units of the tiers that they climb to. -/
theorem meet_deals {sender : Address} {id : ScanId} {a b : Attendee} {p : Parties}
    (hs : s.Sound members) (h : (meet sender time id a b).run s = (.ok p, t)) (tier : UInt8) :
    (s.tallyTwo tier a b).Deals (t.tallyTwo tier p.sender p.scanned) := by
  rcases meet_run_ok h with ⟨scan, -, rfl, rfl⟩ | ⟨-, scan, -, rfl, rfl⟩
  · exact .refl _
  · have hfirst := hs.tally_award Award.scanPoints a tier
    have hnext : (s.handOut Award.scanPoints a).Sound members :=
      ((Store.Awarding.none s).award _ a).sound hs
    have hsecond := hnext.tally_award Award.scanPoints b tier
    exact (Store.tallyTwo_first hfirst b).trans (Store.tallyTwo_second hsecond _)

/-- Who shares is dealt the units of the tiers that are climbed to. -/
theorem share_deals {sender : Address} {data : Blob} {p q : Parties} (hs : s.Sound members)
    (h : (share sender data p).run s = (.ok q, t)) (tier : UInt8) :
    (s.tallyTwo tier p.sender p.scanned).Deals (t.tallyTwo tier q.sender q.scanned) := by
  rcases share_run_ok h with ⟨-, rfl, rfl⟩ | ⟨-, rfl, rfl⟩
  · exact Store.tallyTwo_first (hs.tally_award Award.sharePoints p.sender tier) p.scanned
  · exact .refl _

/-- Listing the meeting leaves the tally. -/
theorem tallyTwo_listed (s : Store) (tier : UInt8) (p : Parties) :
    s.tallyTwo tier p.listed.sender p.listed.scanned = s.tallyTwo tier p.sender p.scanned := by
  have hsame : ∀ (i : ScanId) (x : Attendee), (x.addScanId i).reaches tier = x.reaches tier ∧
      (x.addScanId i).wins tier = x.wins tier := by
    intro i x
    unfold Attendee.addScanId
    split_ifs <;> exact ⟨rfl, rfl⟩
  rw [Store.tallyTwo, Parties.listed]
  simp only [hsame]
  rfl

/-- A scan deals the two the units of the tiers that they climb to. -/
theorem Encounter.deals_two {m : BadgeScan} (e : Encounter members time m s t)
    (hs : s.Sound members) (tier : UInt8) : (s.tallyTwo tier e.sender e.scanned).Deals
      (e.last.tallyTwo tier e.shared.sender e.shared.scanned) := by
  have hmeet := meet_deals hs e.meets tier
  have hshare := share_deals e.between_sound e.shares tier
  rw [tallyTwo_listed] at hshare
  exact hmeet.trans hshare

/-- A scan deals the units of the tiers that the two climb to. -/
theorem Encounter.deals {m : BadgeScan} (e : Encounter members time m s t) (hs : s.Sound members)
    (tier : UInt8) : (s.tallyOf members tier).Deals (t.tallyOf members tier) := by
  have hstock : t.stock tier = e.last.stock tier := Store.stock_of_prize (e.prize tier)
  exact (e.deals_two hs tier).of_part ⟨rfl, hstock⟩ (e.total hs (·.reaches tier))
    (e.total hs (·.wins tier))

end Meeting

/-- Collecting wins leaves their number. -/
theorem Attendee.wins_collectWinnings (tier : UInt8) (x : Attendee) :
    x.collectWinnings.wins tier = x.wins tier := by
  change (x.winnings.map _).countP _ = _
  rw [List.countP_map]
  rfl

/-- Every operation deals the units of the tiers that attendees climb to by it. -/
theorem Operation.Effect.deals {members : List Address} {op : Operation} {time : Int64}
    {s t : Store} (h : op.Effect members time s t) (hs : s.Sound members) (tier : UInt8) :
    (s.tallyOf members tier).Deals (t.tallyOf members tier) := by
  cases h with
  | @keyed m hop hmaster haccount hkey hrecords hprizes =>
    obtain ⟨account, haccount⟩ := Option.isSome_iff_exists.mp haccount
    obtain ⟨hsound, haddress⟩ := hs.attendeeOrBlank haccount
    have hmember : m.attendee ∈ members := haddress ▸ hsound.member
    refine hrecords.deals hmember rfl ?_
    rw [Store.tally, Store.tally, Store.stock_of_prize (hprizes tier)]
    exact .refl _
  | @claimed m hop x y hx hclaimed hreveals hy hrecords hprizes =>
    obtain ⟨hsound, haddress⟩ := hs.attendee hx
    have hmember : m.attendee ∈ members := haddress ▸ hsound.member
    refine hrecords.deals hmember (Store.attendeeOrBlank_of_attendee hx) ?_
    have haward := hs.tally_award Award.claimPoints y tier
    have hsame : s.tally tier y = s.tally tier x := by
      rw [hy]
      rfl
    rw [hsame, Store.tally, Store.tally] at haward
    rw [Store.tally, Store.tally, Store.stock_of_prize (hprizes tier)]
    exact haward
  | met hop e => exact e.deals hs tier
  | @collected m hop hredeem x hx hrecords hprizes =>
    obtain ⟨hsound, haddress⟩ := hs.attendee hx
    have hmember : Address.ofTicket m.ticket ∈ members := haddress ▸ hsound.member
    refine hrecords.deals hmember (Store.attendeeOrBlank_of_attendee hx) ?_
    rw [Store.tally, Store.tally, Store.stock_of_prize (hprizes tier),
      Attendee.wins_collectWinnings]
    exact .refl _

namespace Store

variable {members : List Address} {s : Store}

/-- A store whose tally of a tier is exact, and which has the prize of the tier that it started
with but for the units left. -/
structure Stocked (members : List Address) (tier : UInt8) (p : Prize) (s : Store) : Prop where
  /-- The prize is the one it was. -/
  brand : s.brand tier = some { p with quantity := 0 }
  /-- The tally is exact. -/
  exact : (s.tallyOf members tier).Exact p.quantity.toNat

/-- A sum over the members is one over the attendees, if blank records count for nothing. -/
theorem Sound.total_eq (hs : s.Sound members) {f : Attendee → Nat} (hf : ∀ a, f (.blank a) = 0) :
    s.total members f = (s.attendees.map f).sum := by
  obtain ⟨-, hdistinct, hmem⟩ := hs.rows.attendees fun _ hx => hx.fits hs.countable
  have hblank : ∀ a, f (s.attendeeOrBlank a) = ((s.attendee a).map f).getD 0 := by
    intro a
    rw [Store.attendeeOrBlank]
    cases s.attendee a with
    | none => exact hf a
    | some x => rfl
  have hfound : (members.dedup.filterMap s.attendee).Nodup := by
    apply members.nodup_dedup.filterMap
    intro a b x ha hb
    exact (hs.attendee ha).2.symm.trans (hs.attendee hb).2
  have hnodup : s.attendees.Nodup := hdistinct.imp fun hne heq => hne (congrArg _ heq)
  have hperm : (members.dedup.filterMap s.attendee).Perm s.attendees := by
    rw [List.perm_ext_iff_of_nodup hfound hnodup]
    intro x
    rw [hmem, List.mem_filterMap]
    constructor
    · rintro ⟨a, -, ha⟩
      rw [(hs.attendee ha).2, ha]
    · intro hx
      exact ⟨x.address, List.mem_dedup.mpr (hs.attendee hx).1.member, hx⟩
  rw [total]
  simp only [hblank]
  rw [← sum_map_filterMap]
  exact (hperm.map f).sum_eq

end Store

namespace Chain

variable {chainId : String} {g : Genesis} {c : Chain} {tier : UInt8} {p : Prize}

/-- The store of a sized genesis has the last prize of every tier, and nobody has reached it. -/
theorem stocked_of_genesis (hg : g.Sized) (h : ofGenesis chainId g = .ok c) (htier : 0 < tier)
    (hp : (g.prizes.filter (·.tier = tier)).getLast? = some p) :
    c.store.Stocked g.members tier p := by
  have hprize : c.store.prize tier = some p := by
    rw [Genesis.prize_of_run hg.prizes (run_of_genesis h), hp]
  have hnobody : ∀ a, (c.store.attendeeOrBlank a).reaches tier = 0 ∧
      (c.store.attendeeOrBlank a).wins tier = 0 := by
    have hlow : ¬tier ≤ 0 := UInt8.not_le.mpr htier
    intro a
    rcases attendeeOrBlank_of_genesis hg h a with hblank | ⟨e, -, hticket⟩
    · rw [hblank]
      exact ⟨if_neg hlow, rfl⟩
    · rw [hticket]
      exact ⟨if_neg hlow, rfl⟩
  have hzero : ∀ f : Attendee → Nat, (∀ a, f (c.store.attendeeOrBlank a) = 0) →
      c.store.total g.members f = 0 := by
    intro f hf
    simp [Store.total, hf]
  have hreached := hzero (·.reaches tier) fun a => (hnobody a).1
  have hwon := hzero (·.wins tier) fun a => (hnobody a).2
  have hleft : c.store.stock tier = p.quantity.toNat := by
    rw [Store.stock, hprize]
    rfl
  constructor
  · rw [Store.brand, hprize, Option.map_some]
  · constructor
    · change c.store.stock tier = _ - c.store.total g.members (·.reaches tier)
      omega
    · change c.store.total g.members (·.wins tier) =
        min _ (c.store.total g.members (·.reaches tier))
      omega

/-- Every run of operations that fit from a sized genesis keeps the tally of every tier exact. -/
theorem after_stocked (hg : g.Sized) (h : ofGenesis chainId g = .ok c) {ds : List Delivery}
    (hds : ∀ d ∈ ds, Fits d.tx.op) (htier : 0 < tier)
    (hp : (g.prizes.filter (·.tier = tier)).getLast? = some p) :
    (c.after ds).store.Stocked g.members tier p := by
  apply after_of_effects hg h hds (stocked_of_genesis hg h htier hp)
  · intro s x hs
    constructor
    · rw [Store.brand_of_prize (Store.prize_counted s x tier)]
      exact hs.brand
    · have htally : (s.counted x).tallyOf g.members tier = s.tallyOf g.members tier := by
        simp only [Store.tallyOf, Store.total, Store.attendeeOrBlank_counted,
          Store.stock_of_prize (Store.prize_counted s x tier)]
      rw [htally]
      exact hs.exact
  · intro op time s t hsound hs heffect
    exact ⟨(heffect.brand hsound tier).trans hs.brand, hs.exact.deals (heffect.deals hsound tier)⟩

/-- The attendees of a chain, whose wins account for the prizes that left the stock of a genesis. -/
structure AccountsForPrizes (c : Chain) (g : Genesis) (xs : List Attendee) : Prop where
  /-- The ledger reads these attendees. -/
  read : Records.attendees.eval c.store = .ok xs
  /-- No attendee is read twice. -/
  distinct : xs.Pairwise (·.address ≠ ·.address)
  /-- Every entry under the key of an attendee is one of them. -/
  stored : ∀ k v, c.store.get? k = some v → StoreKey.isMember StoreKey.attendeeClass k = true →
    ∃ x ∈ xs, Binary.decode v = .ok x ∧ k = StoreKey.attendee x.address
  /-- For every tier but zero, the last prize of the tier in the table of the genesis is there, its
  units are left or were won, and it was won by as many as have reached the tier until none were
  left. -/
  tiers : ∀ tier p, 0 < tier → (g.prizes.filter (·.tier = tier)).getLast? = some p →
    ∃ q, (Records.prize tier).eval c.store = .ok (some q) ∧
      q.quantity.toNat + (xs.map fun x => x.winnings.countP (·.tier = tier)).sum =
        p.quantity.toNat ∧
      (xs.map fun x => x.winnings.countP (·.tier = tier)).sum =
        min p.quantity.toNat (xs.countP (tier ≤ ·.tier))
  /-- The wins of an attendee are in ascending order of tiers, and none is above the tier reached. -/
  ascending : ∀ x ∈ xs, x.winnings.Pairwise (·.tier < ·.tier) ∧ ∀ w ∈ x.winnings, w.tier ≤ x.tier
  /-- An attendee has at most one win of a tier. -/
  once : ∀ x ∈ xs, ∀ tier, x.winnings.countP (·.tier = tier) ≤ 1

/-- In every state that a run of operations that fit reaches from a sized genesis, the wins of the
attendees account for the prizes that left the stock. -/
theorem accountsForPrizes (hg : g.Sized) (h : ofGenesis chainId g = .ok c) {ds : List Delivery}
    (hds : ∀ d ∈ ds, Fits d.tx.op) : ∃ xs, (c.after ds).AccountsForPrizes g xs := by
  have hs := after_sound hg h hds
  obtain ⟨hread, hdistinct, hmem⟩ := hs.rows.attendees fun _ hx => hx.fits hs.countable
  have hsound : ∀ x ∈ (c.after ds).store.attendees, x.Sound g.members := fun x hx =>
    (hs.attendee ((hmem x).mp hx)).1
  refine ⟨(c.after ds).store.attendees, ?_, hdistinct, ?_, ?_, ?_, ?_⟩
  · rw [Access.eval, hread]
  · intro k v hget hk
    obtain ⟨x, hdecode, hkey, hx⟩ := hs.attendee_of_entry hget hk
    exact ⟨x, (hmem x).mpr hx, hdecode, hkey⟩
  · intro tier p htier hp
    obtain ⟨hbrand, hleft, hwon⟩ := after_stocked hg h hds htier hp
    obtain ⟨q, hq, -⟩ := Option.map_eq_some_iff.mp hbrand
    have hstock : (c.after ds).store.stock tier = q.quantity.toNat := by
      rw [Store.stock, hq]
      rfl
    have hreaches : (c.after ds).store.total g.members (·.reaches tier) =
        (c.after ds).store.attendees.countP (tier ≤ ·.tier) := by
      rw [hs.total_eq fun _ => if_neg (UInt8.not_le.mpr htier), Attendee.sum_reaches]
    have hwins : (c.after ds).store.total g.members (·.wins tier) =
        ((c.after ds).store.attendees.map fun x => x.winnings.countP (·.tier = tier)).sum :=
      hs.total_eq fun _ => rfl
    simp only [Store.tallyOf, hstock, hreaches, hwins] at hleft hwon
    refine ⟨q, ?_, ?_, hwon⟩
    · rw [Access.eval, hs.prize_run, hq]
    · omega
  · intro x hx
    exact ⟨(hsound x hx).wins_ascending, (hsound x hx).wins_le⟩
  · intro x hx tier
    exact Attendee.wins_le_one (hsound x hx).wins_ascending tier

/-- On the small ledger the attendee is keyed and claims the account, which wins a prize, and the
wins account for the prizes. -/
theorem accountsForPrizes_lifecycle :
    SmallLedger.genesis.Sized ∧ ofGenesis "test-chain" SmallLedger.genesis = .ok SmallLedger.chain ∧
      (∀ d ∈ SmallLedger.lifecycle, Fits d.tx.op) ∧
      (∃ xs, (SmallLedger.chain.after SmallLedger.lifecycle).AccountsForPrizes
        SmallLedger.genesis xs) ∧
      (SmallLedger.chain.after SmallLedger.lifecycle).store.stock 1 = 499 := by
  have hstock : (SmallLedger.chain.after SmallLedger.lifecycle).store.stock 1 = 499 := by
    decide +kernel
  have haccounts := accountsForPrizes SmallLedger.sized SmallLedger.ofGenesis_eq
    SmallLedger.fits_lifecycle
  exact ⟨SmallLedger.sized, SmallLedger.ofGenesis_eq, SmallLedger.fits_lifecycle, haccounts, hstock⟩

end Chain

end ConferenceLedger

import ConferenceLedger.Proofs.Ledger.Stock
import ConferenceLedger.Proofs.Ledger.Upkeep

/-!
# Awards and what is left of the prizes

All that an award asks of the stock is, for every tier that the attendee has not reached, whether a
unit of it is left. And all that an operation takes of a tier is a unit for each of at most two
attendees who climb to it. So with two units more than none an operation hands out the same prizes,
whatever the stock is.
-/

namespace ConferenceLedger

namespace Tally

/-- What is dealt of a tier is at most as much as has been reached when all is dealt. -/
theorem Deals.left_le {a b : Tally} (h : a.Deals b) {n : Nat} (hn : b.reached ≤ n) :
    b.left ≤ a.left ∧ a.left ≤ b.left + n := by
  obtain ⟨k, hleft, hreached, -⟩ := h
  omega

end Tally

/-- An attendee reaches a tier once at most. -/
theorem Attendee.reaches_le_one (tier : UInt8) (x : Attendee) : x.reaches tier ≤ 1 := by
  unfold reaches
  split_ifs <;> omega

/-- Who is below a tier has not reached it. -/
theorem Attendee.reaches_eq_zero {tier : UInt8} {x : Attendee} (h : x.tier < tier) :
    x.reaches tier = 0 :=
  if_neg (UInt8.not_le.mpr h)

namespace Store

variable {members : List Address} {s t : Store}

/-- Two stores in each of which a tier has run out, or in each of which so many units of it are
left. -/
def StockedAlike (n : Nat) (s t : Store) : Prop :=
  ∀ tier, s.stock tier = 0 ∧ t.stock tier = 0 ∨ n ≤ s.stock tier ∧ n ≤ t.stock tier

/-- The prizes of a store, without how many units of them are left. -/
def unstocked (s : Store) : List Prize := s.prizes.map fun p => { p with quantity := 0 }

/-- The prizes of a store that can be held are those of its table. -/
theorem Sound.mem_unstocked (hs : s.Sound members) {p : Prize} :
    p ∈ s.unstocked ↔ s.brand p.tier = some p := by
  rw [unstocked, List.mem_map, brand, Option.map_eq_some_iff]
  constructor
  · rintro ⟨q, hq, rfl⟩
    exact ⟨q, hs.mem_prizes.mp hq, rfl⟩
  · rintro ⟨q, hq, rfl⟩
    exact ⟨q, hs.mem_prizes.mpr hq, rfl⟩

/-- Two stores with the same table list the same prizes in the same order. -/
theorem Sound.unstocked_congr (hs : s.Sound members) (ht : t.Sound members)
    (hbrand : t.brand = s.brand) : t.unstocked = s.unstocked := by
  have hordered : ∀ {u : Store}, u.Sound members → u.unstocked.Pairwise (·.tier < ·.tier) := by
    intro u hu
    rw [unstocked, List.pairwise_map]
    exact hu.prizes.2
  have hnodup : ∀ {u : Store}, u.Sound members → u.unstocked.Nodup := by
    intro u hu
    apply (hordered hu).imp
    rintro p q hlt rfl
    exact UInt8.lt_irrefl _ hlt
  have hperm : t.unstocked.Perm s.unstocked := by
    rw [List.perm_ext_iff_of_nodup (hnodup ht) (hnodup hs)]
    intro p
    rw [ht.mem_unstocked, hs.mem_unstocked, hbrand]
  refine hperm.eq_of_pairwise ?_ (hordered ht) (hordered hs)
  intro p q _ _ hpq hqp
  exact absurd (UInt8.lt_trans hpq hqp) (UInt8.lt_irrefl _)

/-- The wins of an award are those of the prizes of the table that are passed and of which a unit is
left. -/
theorem Sound.won_gains (hs : s.Sound members) (x : Attendee) :
    (x.gains s.prizes).map (·.won) = (s.unstocked.filter fun p =>
      decide (x.tier < p.tier ∧ p.tier ≤ Prize.tierFor s.prizes x.rep ∧ s.stock p.tier ≠ 0)).map
        (·.won) := by
  have hstocked : ∀ p ∈ s.prizes, p.inStock = decide (s.stock p.tier ≠ 0) := by
    intro p hp
    rw [Bool.eq_iff_iff, Prize.inStock_iff, stock, hs.mem_prizes.mp hp, decide_eq_true_eq]
    rfl
  have hgains : x.gains s.prizes = s.prizes.filter fun p =>
      decide (x.tier < p.tier ∧ p.tier ≤ Prize.tierFor s.prizes x.rep ∧ s.stock p.tier ≠ 0) := by
    rw [Attendee.gains, Attendee.passes, List.filter_filter]
    apply List.filter_congr
    intro p hp
    rw [hstocked p hp, Bool.eq_iff_iff]
    simp only [Bool.and_eq_true, decide_eq_true_eq]
    tauto
  rw [hgains, unstocked, List.filter_map, List.map_map]
  rfl

/-- An award depends on the table and on whether units are left of the tiers above that of the
attendee. -/
theorem Sound.awarded_congr (hs : s.Sound members) (ht : t.Sound members)
    (hbrand : t.brand = s.brand) (points : UInt64) {x : Attendee}
    (hstock : ∀ tier, x.tier < tier → (t.stock tier = 0 ↔ s.stock tier = 0)) :
    t.awarded points x = s.awarded points x := by
  have hreach := hs.filesPrizes.tierFor_congr ht.filesPrizes hbrand (x.addRep points).rep
  have hwins : ((x.addRep points).gains t.prizes).map (·.won) =
      ((x.addRep points).gains s.prizes).map (·.won) := by
    rw [ht.won_gains, hs.won_gains, hs.unstocked_congr ht hbrand, hreach]
    congr 1
    apply List.filter_congr
    intro p _
    rw [decide_eq_decide]
    apply and_congr_right
    intro hlow
    rw [ne_eq, ne_eq, hstock p.tier hlow]
  rw [awarded, Attendee.promote, hreach, hwins, awarded, Attendee.promote]

/-- An award takes at most one unit of a tier. -/
theorem Sound.stock_award (hs : s.Sound members) (points : UInt64) (x : Attendee) (tier : UInt8) :
    (s.handOut points x).stock tier ≤ s.stock tier ∧
      s.stock tier ≤ (s.handOut points x).stock tier + 1 :=
  (hs.tally_award points x tier).left_le (Attendee.reaches_le_one tier _)

end Store

namespace Meeting

variable {members : List Address} {time : Int64} {s t : Store}

/-- A meeting takes at most one unit of a tier that the sender does not reach by it. -/
theorem meet_stock {sender : Address} {id : ScanId} {a b : Attendee} {p : Parties}
    (hs : s.Sound members) (h : (meet sender time id a b).run s = (.ok p, t)) {tier : UInt8}
    (htier : p.sender.tier < tier) :
    t.stock tier ≤ s.stock tier ∧ s.stock tier ≤ t.stock tier + 1 := by
  apply (meet_deals hs h tier).left_le
  have hscanned := Attendee.reaches_le_one tier p.scanned
  have hsender := Attendee.reaches_eq_zero htier
  change p.sender.reaches tier + p.scanned.reaches tier ≤ 1
  omega

/-- A scan takes at most two units of a tier. -/
theorem Encounter.stock {m : BadgeScan} (e : Encounter members time m s t) (hs : s.Sound members)
    (tier : UInt8) : t.stock tier ≤ s.stock tier ∧ s.stock tier ≤ t.stock tier + 2 := by
  have hsender := Attendee.reaches_le_one tier e.shared.sender
  have hscanned := Attendee.reaches_le_one tier e.shared.scanned
  rw [Store.stock_of_prize (e.prize tier)]
  apply (e.deals_two hs tier).left_le
  change e.shared.sender.reaches tier + e.shared.scanned.reaches tier ≤ 2
  omega

end Meeting

/-- An operation takes at most two units of a tier. -/
theorem Operation.Effect.stock {members : List Address} {op : Operation} {time : Int64}
    {s t : Store} (h : op.Effect members time s t) (hs : s.Sound members) (tier : UInt8) :
    t.stock tier ≤ s.stock tier ∧ s.stock tier ≤ t.stock tier + 2 := by
  cases h with
  | keyed hop hmaster haccount hkey hrecords hprizes =>
    rw [Store.stock_of_prize (hprizes tier)]
    omega
  | @claimed m hop x y hx hclaimed hreveals hy hrecords hprizes =>
    have haward := hs.stock_award Award.claimPoints y tier
    rw [Store.stock_of_prize (hprizes tier)]
    exact ⟨haward.1, Nat.le_succ_of_le haward.2⟩
  | met hop e => exact e.stock hs tier
  | collected hop hredeem hx hrecords hprizes =>
    rw [Store.stock_of_prize (hprizes tier)]
    omega

end ConferenceLedger

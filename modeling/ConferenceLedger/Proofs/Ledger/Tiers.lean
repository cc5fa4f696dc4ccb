import ConferenceLedger.Proofs.Ledger.Thresholds

/-!
# The tier of an attendee

The tier is stored beside the reputation and moves only when points are awarded. It is never out of
date all the same: all reputation comes from awards, every award asks for the highest tier that
reputation now reaches, and that tier does not fall as reputation rises, whatever the table. Only
who has no reputation has no tier even where the table has tiers that take none.
-/

namespace ConferenceLedger

/-- More reputation reaches no lower tier. -/
theorem Prize.tierFor_mono {prizes : List Prize} {rep more : UInt64} (h : rep ≤ more) :
    tierFor prizes rep ≤ tierFor prizes more := by
  apply le_tierFor.mpr
  rcases le_tierFor.mp (UInt8.le_refl (tierFor prizes rep)) with hzero | ⟨p, hp, hrep, htier⟩
  · exact Or.inl hzero
  · exact Or.inr ⟨p, hp, UInt64.le_trans hrep h, htier⟩

/-- Points added leave some reputation. -/
theorem Attendee.addRep_ne_zero {points : UInt64} (h : 0 < points) (x : Attendee) :
    (x.addRep points).rep ≠ 0 := by
  have hrep : (x.addRep points).rep.toNat = min (UInt64.size - 1) (x.rep.toNat + points.toNat) :=
    toNat_addCapped x.rep points
  have hsize : UInt64.size = 2 ^ 64 := rfl
  have hpoints : (0 : UInt64).toNat < points.toNat := UInt64.lt_iff_toNat_lt.mp h
  intro hzero
  rw [hzero] at hrep
  have hnone : (0 : UInt64).toNat = 0 := rfl
  omega

namespace Store

variable {members : List Address} {s t : Store}

/-- The tier of a reputation: the highest that it reaches, and none without any. -/
def tierAt (s : Store) (rep : UInt64) : UInt8 :=
  if rep = 0 then 0 else Prize.tierFor s.prizes rep

/-- The tier of a reputation does not depend on how many units are left. -/
theorem Sound.tierAt_congr (hs : s.Sound members) (ht : t.Sound members)
    (hbrand : t.brand = s.brand) (rep : UInt64) : t.tierAt rep = s.tierAt rep := by
  rw [tierAt, hs.filesPrizes.tierFor_congr ht.filesPrizes hbrand, tierAt]

/-- An award of points brings a tier that is up to date up to date again. -/
theorem tier_awarded {points : UInt64} (hpoints : 0 < points) {x : Attendee}
    (h : x.tier = s.tierAt x.rep) :
    (s.awarded points x).tier = s.tierAt (s.awarded points x).rep := by
  have hle : x.tier ≤ Prize.tierFor s.prizes (x.addRep points).rep := by
    rw [h, tierAt]
    split_ifs
    · exact UInt8.zero_le
    · exact Prize.tierFor_mono (x.rep_le_addRep points)
  have hnew : s.tierAt (s.awarded points x).rep = Prize.tierFor s.prizes (x.addRep points).rep :=
    if_neg (x.addRep_ne_zero hpoints)
  rw [hnew]
  exact if_pos hle

/-- Every change of a record keeps the tier up to date. -/
theorem Sound.tierAt_lasting (hs : s.Sound members) :
    Attendee.Lasting members s.brand fun x => x.tier = s.tierAt x.rep where
  keyed _ _ h := h
  claimed _ _ _ h := h
  addScanId i x h := by
    unfold Attendee.addScanId
    split_ifs <;> exact h
  awarded t points x ht hbrand hpoints h := by
    rw [← hs.tierAt_congr ht hbrand] at h ⊢
    exact tier_awarded hpoints h
  collectWinnings _ h := h

end Store

namespace Chain

variable {chainId : String} {g : Genesis} {c : Chain}

/-- In every state that a run of operations that fit reaches from a sized genesis, the tier of
everyone is that of the reputation. -/
theorem after_tierAt (hg : g.Sized) (h : ofGenesis chainId g = .ok c) {ds : List Delivery}
    (hds : ∀ d ∈ ds, Fits d.tx.op) (a : Address) :
    ((c.after ds).store.attendeeOrBlank a).tier =
      (c.after ds).store.tierAt ((c.after ds).store.attendeeOrBlank a).rep := by
  have hstart := sound_of_genesis hg h
  obtain ⟨hbrand, htier⟩ := after_lasting hg h hds hstart.tierAt_lasting (fun _ => rfl)
    (fun _ _ => rfl)
  rw [hstart.tierAt_congr (after_sound hg h hds) hbrand]
  exact htier a

/-- The tiers that reputation reaches in a run are those of the prizes that the genesis set. -/
theorem le_tierFor_after (hg : g.Sized) (h : ofGenesis chainId g = .ok c) {ds : List Delivery}
    (hds : ∀ d ∈ ds, Fits d.tx.op) {rep : UInt64} {tier : UInt8} :
    tier ≤ Prize.tierFor (c.after ds).store.prizes rep ↔
      tier ≤ 0 ∨ ∃ n p, g.prizeOf n = some p ∧ p.repNeeded ≤ rep ∧ tier ≤ n := by
  rw [(after_sound hg h hds).filesPrizes.le_tierFor]
  apply or_congr_right
  constructor
  · rintro ⟨n, b, hb, hrep, hn⟩
    rw [brand_after hg h hds] at hb
    obtain ⟨p, hp, rfl⟩ := Option.map_eq_some_iff.mp hb
    exact ⟨n, p, hp, hrep, hn⟩
  · rintro ⟨n, p, hp, hrep, hn⟩
    refine ⟨n, { p with quantity := 0 }, ?_, hrep, hn⟩
    rw [brand_after hg h hds, hp, Option.map_some]

/-- The highest tier that reputation reaches in a run is one of the genesis that takes no more, or
else zero if there is none. -/
theorem tierFor_after (hg : g.Sized) (h : ofGenesis chainId g = .ok c) {ds : List Delivery}
    (hds : ∀ d ∈ ds, Fits d.tx.op) (rep : UInt64) :
    (∃ p, g.prizeOf (Prize.tierFor (c.after ds).store.prizes rep) = some p ∧ p.repNeeded ≤ rep) ∨
      Prize.tierFor (c.after ds).store.prizes rep = 0 ∧
        ∀ tier p, g.prizeOf tier = some p → ¬p.repNeeded ≤ rep := by
  have habove : ∀ n p, g.prizeOf n = some p → p.repNeeded ≤ rep →
      n ≤ Prize.tierFor (c.after ds).store.prizes rep := fun n p hp hneeded =>
    (le_tierFor_after hg h hds).mpr (Or.inr ⟨n, p, hp, hneeded, UInt8.le_refl _⟩)
  rcases (le_tierFor_after hg h hds).mp (UInt8.le_refl _) with hzero | ⟨n, q, hq, hneeded, hn⟩
  · have hnone := UInt8.le_antisymm hzero UInt8.zero_le
    by_cases hany : ∃ n p, g.prizeOf n = some p ∧ p.repNeeded ≤ rep
    · obtain ⟨n, p, hp, hneeded⟩ := hany
      have heq := UInt8.le_antisymm (habove n p hp hneeded) (UInt8.le_trans hzero UInt8.zero_le)
      exact Or.inl ⟨p, heq ▸ hp, hneeded⟩
    · exact Or.inr ⟨hnone, fun n p hp hneeded => hany ⟨n, p, hp, hneeded⟩⟩
  · have heq := UInt8.le_antisymm (habove n q hq hneeded) hn
    exact Or.inl ⟨q, heq ▸ hq, hneeded⟩

/-- The attendees of a chain, whose tiers are those of their reputation. -/
structure KeepsTiers (c : Chain) (g : Genesis) (xs : List Attendee) : Prop where
  /-- The ledger reads these attendees. -/
  read : Records.attendees.eval c.store = .ok xs
  /-- Every entry under the key of an attendee is one of them. -/
  stored : ∀ k v, c.store.get? k = some v → StoreKey.isMember StoreKey.attendeeClass k = true →
    ∃ x ∈ xs, Binary.decode v = .ok x ∧ k = StoreKey.attendee x.address
  /-- Who has no reputation has tier zero. -/
  unranked : ∀ x ∈ xs, x.rep = 0 → x.tier = 0
  /-- Who has reputation is at or above every tier of the genesis that takes no more. -/
  above : ∀ x ∈ xs, 0 < x.rep → ∀ tier p, g.prizeOf tier = some p → p.repNeeded ≤ x.rep →
    tier ≤ x.tier
  /-- Who has reputation is at such a tier, or at tier zero if there is none. -/
  attained : ∀ x ∈ xs, 0 < x.rep →
    (∃ p, g.prizeOf x.tier = some p ∧ p.repNeeded ≤ x.rep) ∨
      x.tier = 0 ∧ ∀ tier p, g.prizeOf tier = some p → ¬p.repNeeded ≤ x.rep
  /-- It is the tier that the ledger looks up for the reputation in the prizes that it reads. -/
  lookup : ∃ ps, Records.prizes.eval c.store = .ok ps ∧
    ∀ x ∈ xs, 0 < x.rep → x.tier = Prize.tierFor ps x.rep

/-- In every state that a run of operations that fit reaches from a sized genesis, the tiers are
those of the reputation. -/
theorem keepsTiers (hg : g.Sized) (h : ofGenesis chainId g = .ok c) {ds : List Delivery}
    (hds : ∀ d ∈ ds, Fits d.tx.op) : ∃ xs, (c.after ds).KeepsTiers g xs := by
  have hs := after_sound hg h hds
  obtain ⟨hread, -, hmem⟩ := hs.rows.attendees fun _ hx => hx.fits hs.countable
  have htier : ∀ x ∈ (c.after ds).store.attendees,
      x.tier = (c.after ds).store.tierAt x.rep := by
    intro x hx
    have hfresh := after_tierAt hg h hds x.address
    rwa [Store.attendeeOrBlank_of_attendee ((hmem x).mp hx)] at hfresh
  have hranked : ∀ x ∈ (c.after ds).store.attendees, 0 < x.rep →
      x.tier = Prize.tierFor (c.after ds).store.prizes x.rep := by
    intro x hx hrep
    rw [htier x hx]
    exact if_neg (Ne.symm (UInt64.ne_of_lt hrep))
  refine ⟨(c.after ds).store.attendees, ?_, ?_, ?_, ?_, ?_, ?_⟩
  · rw [Access.eval, hread]
  · intro k v hget hk
    obtain ⟨x, hdecode, hkey, hx⟩ := hs.attendee_of_entry hget hk
    exact ⟨x, (hmem x).mpr hx, hdecode, hkey⟩
  · intro x hx hrep
    rw [htier x hx]
    exact if_pos hrep
  · intro x hx hrep tier p hp hneeded
    rw [hranked x hx hrep]
    exact (le_tierFor_after hg h hds).mpr (Or.inr ⟨tier, p, hp, hneeded, UInt8.le_refl _⟩)
  · intro x hx hrep
    rw [hranked x hx hrep]
    exact tierFor_after hg h hds x.rep
  · exact ⟨_, by rw [Access.eval, hs.prizes_run], hranked⟩

/-- On the small ledger with the uneven table the attendee claims the account for five points. That
reaches the second tier but not the first, and the second is stored. -/
theorem keepsTiers_uneven :
    SmallLedger.uneven.Sized ∧
      ofGenesis "test-chain" SmallLedger.uneven = .ok SmallLedger.unevenChain ∧
      (∀ d ∈ SmallLedger.lifecycle, Fits d.tx.op) ∧
      (∃ xs, (SmallLedger.unevenChain.after SmallLedger.lifecycle).KeepsTiers
        SmallLedger.uneven xs) ∧
      ((SmallLedger.unevenChain.after SmallLedger.lifecycle).store.attendee (.ofTicket "1")).map
        (fun x => (x.rep, x.tier)) = some (5, 2) := by
  have hsecond : ((SmallLedger.unevenChain.after SmallLedger.lifecycle).store.attendee
      (.ofTicket "1")).map (fun x => (x.rep, x.tier)) = some (5, 2) := by
    decide +kernel
  have htiers := keepsTiers SmallLedger.sized_uneven SmallLedger.ofGenesis_uneven
    SmallLedger.fits_lifecycle
  exact ⟨SmallLedger.sized_uneven, SmallLedger.ofGenesis_uneven, SmallLedger.fits_lifecycle, htiers,
    hsecond⟩

end Chain

end ConferenceLedger

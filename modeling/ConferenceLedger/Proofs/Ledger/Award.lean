import ConferenceLedger.Ledger.Award
import ConferenceLedger.Proofs.Ledger.Reading

/-!
# What an award does

An award raises the reputation and the tier, appends a win for every prize passed that is in
stock, and takes one unit of each of these prizes. Nothing else of the attendee changes, and
nothing else of the store. What an award does is a function of the prizes in the store.
-/

namespace ConferenceLedger

/-- A tier is at most the higher of two if it is at most one of them. -/
theorem le_max_tier {a b c : UInt8} : c ≤ max a b ↔ c ≤ a ∨ c ≤ b := by
  change c ≤ (if a ≤ b then b else a) ↔ _
  split_ifs with hle
  · constructor
    · exact Or.inr
    · rintro (h | h)
      · exact UInt8.le_trans h hle
      · exact h
  · constructor
    · exact Or.inl
    · rintro (h | h)
      · exact h
      · exact UInt8.le_trans h ((UInt8.le_total _ _).resolve_left hle)

namespace Prize

/-- Whether a unit is left. -/
def inStock (p : Prize) : Bool := p.quantity != 0

/-- The prize with one unit less. -/
def taken (p : Prize) : Prize := { p with quantity := p.quantity - 1 }

/-- The prize as it is won. -/
def won (p : Prize) : Win := ⟨p.tier, p.text, false⟩

end Prize

namespace Attendee

/-- The prizes of the tiers that reputation has reached and the attendee has not. -/
def passes (prizes : List Prize) (a : Attendee) : List Prize :=
  prizes.filter fun p => a.tier < p.tier && p.tier ≤ Prize.tierFor prizes a.rep

/-- The prizes passed that are in stock. -/
def gains (prizes : List Prize) (a : Attendee) : List Prize := (a.passes prizes).filter (·.inStock)

/-- The attendee with the tier that reputation has reached, and with the prizes gained. -/
def promote (prizes : List Prize) (a : Attendee) : Attendee :=
  { a with
    tier := max a.tier (Prize.tierFor prizes a.rep)
    winnings := a.winnings ++ (a.gains prizes).map (·.won) }

/-- The prizes gained are those in stock between the old tier and the tier reached. -/
theorem mem_gains {prizes : List Prize} {a : Attendee} {p : Prize} :
    p ∈ a.gains prizes ↔ p ∈ prizes ∧ a.tier < p.tier ∧ p.tier ≤ Prize.tierFor prizes a.rep ∧
      p.inStock = true := by
  rw [gains, passes, List.mem_filter, List.mem_filter, Bool.and_eq_true, decide_eq_true_eq,
    decide_eq_true_eq, and_assoc, and_assoc]

/-- A promotion reaches the tiers of before and those that reputation has reached. -/
theorem le_tier_promote {prizes : List Prize} {a : Attendee} {tier : UInt8} :
    tier ≤ (a.promote prizes).tier ↔ tier ≤ a.tier ∨ tier ≤ Prize.tierFor prizes a.rep :=
  le_max_tier

end Attendee

namespace Store

/-- The rows that an attendee's award changes: one unit less of every prize gained. -/
def stockRows (s : Store) (points : UInt64) (a : Attendee) : List Row :=
  ((a.addRep points).gains s.prizes).map fun p => .prize p.taken

/-- The attendee after an award. -/
def awarded (s : Store) (points : UInt64) (a : Attendee) : Attendee :=
  (a.addRep points).promote s.prizes

/-- The store after an award. -/
def handOut (s : Store) (points : UInt64) (a : Attendee) : Store := s.fileAll (s.stockRows points a)

end Store

/-- What an award writes are prizes. -/
theorem Store.mem_stockRows {s : Store} {points : UInt64} {a : Attendee} {r : Row}
    (h : r ∈ s.stockRows points a) : ∃ p ∈ s.prizes, r = .prize p.taken := by
  obtain ⟨p, hgained, rfl⟩ := List.mem_map.mp h
  exact ⟨p, (Attendee.mem_gains.mp hgained).1, rfl⟩

namespace Store

variable (s : Store) (points : UInt64) (a : Attendee)

/-- An award leaves all records but prizes. -/
theorem record?_handOut {α : Type} [Binary α] {k : Bytes} {c : UInt8} (hk : k.head? = some c)
    (hc : c ≠ StoreKey.prizeClass) : (s.handOut points a).record? α k = s.record? α k := by
  apply record?_fileAll_of_cls_ne hk
  intro r hr
  obtain ⟨p, -, rfl⟩ := mem_stockRows hr
  exact ⟨trivial, hc.symm⟩

/-- An award leaves all entries but those of prizes. -/
theorem get?_handOut {k : Bytes} (hk : ∀ tier, k ≠ StoreKey.prize tier) :
    (s.handOut points a).get? k = s.get? k := by
  apply get?_fileAll_of_ne
  intro r hr heq
  obtain ⟨p, -, rfl⟩ := mem_stockRows hr
  exact hk p.tier heq.symm

/-- A store that others became by awards alone. -/
inductive Awarding : Store → Store → Prop where
  /-- No award was made. -/
  | none (s : Store) : Awarding s s
  /-- One more award was made. -/
  | award {s t : Store} (h : Awarding s t) (points : UInt64) (a : Attendee) :
    Awarding s (t.handOut points a)

/-- An award writes rows of a kind that the prizes with one unit less are of. -/
theorem Holds.handOut {P : Row → Prop} {s : Store} (hs : s.Holds P)
    (h : ∀ p ∈ s.prizes, P (.prize p.taken)) (points : UInt64) (a : Attendee) :
    (s.handOut points a).Holds P := by
  apply hs.fileAll
  intro r hr
  obtain ⟨p, hp, rfl⟩ := mem_stockRows hr
  exact ⟨trivial, h p hp⟩

namespace FilesPrizes

variable {s : Store}

/-- The prizes gained are found under their tiers, and fit with one unit less. -/
theorem of_gains (hs : s.FilesPrizes) {a : Attendee} {p : Prize} (h : p ∈ a.gains s.prizes) :
    s.prize p.tier = some p ∧ Fits p.taken := by
  have hfound := hs.mem_prizes.mp (Attendee.mem_gains.mp h).1
  exact ⟨hfound, (hs.prize hfound).1⟩

/-- The rows of an award are prizes that fit. -/
theorem stockRows_eq (hs : s.FilesPrizes) (points : UInt64) (a : Attendee) :
    s.stockRows points a = (((a.addRep points).gains s.prizes).map Prize.taken).map .prize ∧
      ∀ q ∈ ((a.addRep points).gains s.prizes).map Prize.taken, Fits q := by
  constructor
  · rw [stockRows, List.map_map]
    rfl
  · intro q hq
    obtain ⟨p, hp, rfl⟩ := List.mem_map.mp hq
    exact (hs.of_gains hp).2

/-- After an award the prizes are still found under their tiers. -/
theorem handOut (hs : s.FilesPrizes) (points : UInt64) (a : Attendee) :
    (s.handOut points a).FilesPrizes := by
  obtain ⟨hrows, hfits⟩ := hs.stockRows_eq points a
  rw [Store.handOut, hrows]
  exact hs.fileAll hfits

/-- An award takes one unit of every prize gained and leaves the other prizes. -/
theorem prize_handOut (hs : s.FilesPrizes) (points : UInt64) (a : Attendee) (tier : UInt8) :
    (s.handOut points a).prize tier = (s.prize tier).map fun p =>
      if p ∈ (a.addRep points).gains s.prizes then p.taken else p := by
  obtain ⟨hrows, hfits⟩ := hs.stockRows_eq points a
  rw [Store.handOut, hrows, prize_fileAll hfits]
  generalize hgains : (a.addRep points).gains s.prizes = gains
  have hheld : ∀ p ∈ gains, s.prize p.tier = some p := by
    intro p hp
    rw [← hgains] at hp
    exact (hs.of_gains hp).1
  cases hlast : ((gains.map Prize.taken).filter (·.tier = tier)).getLast? with
  | none =>
    have hnone := List.filter_eq_nil_iff.mp (List.getLast?_eq_none_iff.mp hlast)
    rw [Option.none_or]
    cases hp : s.prize tier with
    | none => rfl
    | some p =>
      have hnot : p ∉ gains := by
        intro hmem
        have htier : p.taken.tier = tier := (hs.prize hp).2
        exact hnone p.taken (List.mem_map_of_mem hmem) (by simpa using htier)
      rw [Option.map_some, if_neg hnot]
  | some q =>
    have hq := List.mem_filter.mp (List.mem_of_getLast? hlast)
    obtain ⟨p, hp, rfl⟩ := List.mem_map.mp hq.1
    have htier : p.tier = tier := of_decide_eq_true hq.2
    have hfound := hheld p hp
    rw [htier] at hfound
    rw [hfound, Option.map_some, if_pos hp, Option.some_or]

end FilesPrizes

namespace Awarding

variable {s t u : Store}

/-- Awards after awards are awards. -/
theorem append (h : Awarding s t) (h' : Awarding t u) : Awarding s u := by
  induction h' with
  | none => exact h
  | award _ points a ih => exact ih.award points a

/-- Awards leave all records but prizes. -/
theorem record? {α : Type} [Binary α] (h : Awarding s t) {k : Bytes} {c : UInt8}
    (hk : k.head? = some c) (hc : c ≠ StoreKey.prizeClass) :
    t.record? α k = s.record? α k := by
  induction h with
  | none => rfl
  | award _ points a ih => rw [record?_handOut _ points a hk hc, ih]

/-- Awards leave all entries but those of prizes. -/
theorem get? (h : Awarding s t) {k : Bytes} (hk : ∀ tier, k ≠ StoreKey.prize tier) :
    t.get? k = s.get? k := by
  induction h with
  | none => rfl
  | award _ points a ih => rw [get?_handOut _ points a hk, ih]

/-- Awards leave the stored attendees. -/
theorem attendee (h : Awarding s t) (a : Address) : t.attendee a = s.attendee a :=
  h.record? rfl (by simp)

/-- Awards leave the stored accounts. -/
theorem account (h : Awarding s t) (a : Address) : t.account a = s.account a :=
  h.record? rfl (by simp)

end Awarding

end Store

namespace Award

/-- Giving one unit of a prize writes a win and the stock, if there is any. -/
theorem giveOne_run (a : Attendee) (p : Prize) (s : Store) :
    (giveOne a p).run s =
      if p.inStock then (.ok { a with winnings := a.winnings ++ [p.won] }, s.file (.prize p.taken))
      else (.ok a, s) := by
  unfold giveOne
  by_cases hq : p.quantity = 0
  · have hstock : ¬p.inStock = true := by simp [Prize.inStock, hq]
    rw [if_pos hq, if_neg hstock]
    rfl
  · have hstock : p.inStock = true := by simp [Prize.inStock, hq]
    rw [if_neg hq, if_pos hstock]
    rfl

/-- Giving prizes one after another gives those in stock. -/
theorem foldlM_giveOne_run (l : List Prize) (a : Attendee) (s : Store) :
    (l.foldlM giveOne a).run s =
      (.ok { a with winnings := a.winnings ++ (l.filter (·.inStock)).map (·.won) },
        s.fileAll ((l.filter (·.inStock)).map fun p => .prize p.taken)) := by
  induction l generalizing a s with
  | nil =>
    simp only [List.foldlM_nil, List.filter_nil, List.map_nil, List.append_nil]
    rfl
  | cons p l ih =>
    have hone := giveOne_run a p s
    rw [List.foldlM_cons]
    by_cases hstock : p.inStock = true
    · rw [if_pos hstock] at hone
      rw [Access.run_bind_of_ok hone, ih, List.filter_cons_of_pos hstock]
      simp only [List.map_cons, List.append_assoc, List.singleton_append]
      rfl
    · rw [if_neg hstock] at hone
      rw [Access.run_bind_of_ok hone, ih, List.filter_cons_of_neg hstock]

/-- Nobody passes a prize while reputation has not reached a higher tier. -/
theorem promote_of_le {prizes : List Prize} {a : Attendee}
    (h : Prize.tierFor prizes a.rep ≤ a.tier) : a.gains prizes = [] ∧ a.promote prizes = a := by
  have hgains : a.gains prizes = [] := by
    apply List.eq_nil_iff_forall_not_mem.mpr
    intro p hp
    obtain ⟨-, hlow, hhigh, -⟩ := Attendee.mem_gains.mp hp
    exact UInt8.lt_irrefl _ (UInt8.lt_of_lt_of_le hlow (UInt8.le_trans hhigh h))
  have htier : max a.tier (Prize.tierFor prizes a.rep) = a.tier := by
    change (if a.tier ≤ Prize.tierFor prizes a.rep then Prize.tierFor prizes a.rep else a.tier) = _
    split_ifs with hle
    · exact UInt8.le_antisymm h hle
    · rfl
  refine ⟨hgains, ?_⟩
  rw [Attendee.promote, hgains, htier, List.map_nil, List.append_nil]

/-- An award that can read the prizes promotes the attendee and hands out the prizes gained. -/
theorem awardPoints_run {s : Store} (h : Records.prizes.run s = (.ok s.prizes, s))
    (points : UInt64) (a : Attendee) :
    (awardPoints points a).run s = (.ok (s.awarded points a), s.handOut points a) := by
  rw [awardPoints, updateTier, Access.run_bind_of_ok h, Store.awarded, Store.handOut,
    Store.stockRows]
  generalize a.addRep points = b
  by_cases hle : Prize.tierFor s.prizes b.rep ≤ b.tier
  · obtain ⟨hgains, hsame⟩ := promote_of_le hle
    dsimp only
    rw [if_pos hle, hgains, hsame]
    rfl
  · have htier : max b.tier (Prize.tierFor s.prizes b.rep) = Prize.tierFor s.prizes b.rep :=
      if_pos ((UInt8.le_total _ _).resolve_right hle)
    dsimp only
    rw [if_neg hle, Access.run_bind_of_ok (foldlM_giveOne_run _ _ _), Attendee.promote, htier]
    rfl

/-- An award that succeeds promotes the attendee and hands out the prizes gained. -/
theorem awardPoints_run_ok {s t : Store} {points : UInt64} {a b : Attendee}
    (h : (awardPoints points a).run s = (.ok b, t)) :
    b = s.awarded points a ∧ t = s.handOut points a := by
  obtain ⟨prizes, u, hprizes, -⟩ := Access.run_bind_ok.mp h
  obtain ⟨rfl, rfl⟩ := Records.prizes_run_ok hprizes
  rw [awardPoints_run hprizes] at h
  cases h
  exact ⟨rfl, rfl⟩

end Award

end ConferenceLedger

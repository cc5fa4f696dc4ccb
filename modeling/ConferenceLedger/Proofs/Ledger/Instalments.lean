import ConferenceLedger.Proofs.Ledger.Tiers
import Mathlib.Data.List.Sort

/-!
# Points in instalments

Points may be awarded at once or in two instalments. The first instalment leaves the attendee at a
tier in between and takes units of the prizes up to it, and the second starts from there with the
prizes that are left. Between them they hand out what one award of all the points does, since the
second passes none of the prizes that the first has changed, and the tiers that reputation reaches
do not depend on how many units are left.
-/

namespace ConferenceLedger

/-- It does not matter how a capped sum of three numbers is grouped. -/
theorem addCapped_assoc (a b c : UInt64) :
    addCapped (addCapped a b) c = addCapped a (addCapped b c) := by
  apply UInt64.toNat_inj.mp
  simp only [toNat_addCapped]
  omega

/-- Prizes in ascending order of tiers are determined by which prizes they are. -/
theorem Prize.eq_of_ascending {l l' : List Prize} (h : l.Pairwise (·.tier < ·.tier))
    (h' : l'.Pairwise (·.tier < ·.tier)) (hmem : ∀ p, p ∈ l ↔ p ∈ l') : l = l' := by
  have hirrefl : Std.Irrefl fun p q : Prize => p.tier < q.tier :=
    ⟨fun p => UInt8.lt_irrefl p.tier⟩
  have hantisymm : Std.Antisymm fun p q : Prize => p.tier < q.tier :=
    ⟨fun p q hpq hqp => absurd hqp (UInt8.lt_asymm hpq)⟩
  exact h.eq_of_mem_iff h' hmem

namespace Store

variable {s : Store}

/-- Rows may be filed in two parts. -/
theorem fileAll_append (s : Store) (rows more : List Row) :
    s.fileAll (rows ++ more) = (s.fileAll rows).fileAll more :=
  List.foldl_append

/-- The prizes gained are in ascending order of tiers. -/
theorem FilesPrizes.ascending_gains (hs : s.FilesPrizes) (a : Attendee) :
    (a.gains s.prizes).Pairwise (·.tier < ·.tier) :=
  (hs.prizes.2.1.filter _).filter _

/-- The tiers that reputation reaches are the same after an award. -/
theorem FilesPrizes.tierFor_handOut (hs : s.FilesPrizes) (points : UInt64) (a : Attendee)
    (rep : UInt64) :
    Prize.tierFor (s.handOut points a).prizes rep = Prize.tierFor s.prizes rep :=
  hs.tierFor_congr (hs.handOut points a) (funext (hs.brand_handOut points a)) rep

/-- Above the tiers that an award has reached the prizes are those of before. -/
theorem FilesPrizes.mem_prizes_handOut (hs : s.FilesPrizes) {points : UInt64} {a : Attendee}
    {p : Prize} (h : Prize.tierFor s.prizes (a.addRep points).rep < p.tier) :
    p ∈ (s.handOut points a).prizes ↔ p ∈ s.prizes := by
  have hnot : ∀ q : Prize, q.tier = p.tier → q ∉ (a.addRep points).gains s.prizes := by
    intro q hq hgained
    have hle := (Attendee.mem_gains.mp hgained).2.2.1
    rw [hq] at hle
    exact UInt8.lt_irrefl _ (UInt8.lt_of_lt_of_le h hle)
  rw [(hs.handOut points a).mem_prizes, hs.mem_prizes, hs.prize_handOut]
  cases hq : s.prize p.tier with
  | none => rfl
  | some q => rw [Option.map_some, if_neg (hnot q (hs.prize hq).2)]

/-- Two instalments bring the reputation that all the points bring. -/
theorem rep_awarded (s : Store) (first second : UInt64) (a : Attendee) :
    ((s.awarded first a).addRep second).rep = (a.addRep (addCapped first second)).rep :=
  addCapped_assoc a.rep first second

/-- The first instalment reaches no tier that all the points do not. -/
theorem tierFor_addRep_le (s : Store) (first second : UInt64) (a : Attendee) :
    Prize.tierFor s.prizes (a.addRep first).rep ≤
      Prize.tierFor s.prizes (a.addRep (addCapped first second)).rep := by
  rw [← s.rep_awarded]
  exact Prize.tierFor_mono ((s.awarded first a).rep_le_addRep second)

/-- What is gained by two instalments, the second from the tier and the prizes that the first
leaves, is what is gained by all the points. -/
theorem FilesPrizes.gains_append (hs : s.FilesPrizes) (first second : UInt64) (a : Attendee) :
    (a.addRep first).gains s.prizes ++
        ((s.awarded first a).addRep second).gains (s.handOut first a).prizes =
      (a.addRep (addCapped first second)).gains s.prizes := by
  -- the second instalment starts from the higher of the old tier and the one that the first reaches
  have hstart : ∀ tier, ((s.awarded first a).addRep second).tier < tier ↔
      a.tier < tier ∧ Prize.tierFor s.prizes (a.addRep first).rep < tier := by
    intro tier
    have hle : tier ≤ (s.awarded first a).tier ↔
        tier ≤ a.tier ∨ tier ≤ Prize.tierFor s.prizes (a.addRep first).rep :=
      Attendee.le_tier_promote
    change (s.awarded first a).tier < tier ↔ _
    rw [← UInt8.not_le, hle, not_or, UInt8.not_le, UInt8.not_le]
  have hsecond : ∀ p, p ∈ ((s.awarded first a).addRep second).gains (s.handOut first a).prizes ↔
      p ∈ s.prizes ∧ (a.tier < p.tier ∧ Prize.tierFor s.prizes (a.addRep first).rep < p.tier) ∧
        p.tier ≤ Prize.tierFor s.prizes (a.addRep (addCapped first second)).rep ∧
        p.inStock = true := by
    intro p
    rw [Attendee.mem_gains, hs.tierFor_handOut, s.rep_awarded, hstart]
    constructor
    · rintro ⟨hp, habove, hrest⟩
      exact ⟨(hs.mem_prizes_handOut habove.2).mp hp, habove, hrest⟩
    · rintro ⟨hp, habove, hrest⟩
      exact ⟨(hs.mem_prizes_handOut habove.2).mpr hp, habove, hrest⟩
  apply Prize.eq_of_ascending _ (hs.ascending_gains _)
  · intro p
    rw [List.mem_append, hsecond, Attendee.mem_gains, Attendee.mem_gains]
    change p ∈ s.prizes ∧ a.tier < p.tier ∧ _ ∨ _ ↔ p ∈ s.prizes ∧ a.tier < p.tier ∧ _
    constructor
    · rintro (⟨hp, hlow, hhigh, hstock⟩ | ⟨hp, ⟨hlow, -⟩, hhigh, hstock⟩)
      · exact ⟨hp, hlow, UInt8.le_trans hhigh (s.tierFor_addRep_le first second a), hstock⟩
      · exact ⟨hp, hlow, hhigh, hstock⟩
    · rintro ⟨hp, hlow, hhigh, hstock⟩
      by_cases hreached : p.tier ≤ Prize.tierFor s.prizes (a.addRep first).rep
      · exact Or.inl ⟨hp, hlow, hreached, hstock⟩
      · exact Or.inr ⟨hp, ⟨hlow, UInt8.not_le.mp hreached⟩, hhigh, hstock⟩
  · refine List.pairwise_append.mpr
      ⟨hs.ascending_gains _, (hs.handOut first a).ascending_gains _, ?_⟩
    intro p hp q hq
    have hlow := (Attendee.mem_gains.mp hp).2.2.1
    exact UInt8.lt_of_le_of_lt hlow ((hsecond q).mp hq).2.1.2

/-- Two instalments leave the store that one award of all the points leaves. -/
theorem FilesPrizes.handOut_handOut (hs : s.FilesPrizes) (first second : UInt64) (a : Attendee) :
    (s.handOut first a).handOut second (s.awarded first a) =
      s.handOut (addCapped first second) a := by
  have hrows : s.stockRows first a ++ (s.handOut first a).stockRows second (s.awarded first a) =
      s.stockRows (addCapped first second) a := by
    rw [stockRows, stockRows, stockRows, ← hs.gains_append, List.map_append]
  calc (s.handOut first a).handOut second (s.awarded first a)
    _ = s.fileAll (s.stockRows first a ++
          (s.handOut first a).stockRows second (s.awarded first a)) := (fileAll_append s _ _).symm
    _ = s.handOut (addCapped first second) a := by rw [hrows, Store.handOut]

/-- Two instalments make the attendee that one award of all the points makes. -/
theorem FilesPrizes.awarded_awarded (hs : s.FilesPrizes) (first second : UInt64) (a : Attendee) :
    (s.handOut first a).awarded second (s.awarded first a) =
      s.awarded (addCapped first second) a := by
  have htier : ((s.handOut first a).awarded second (s.awarded first a)).tier =
      (s.awarded (addCapped first second) a).tier := by
    apply tier_eq_of_le_iff
    intro tier
    have hfirst : tier ≤ ((s.awarded first a).addRep second).tier ↔
        tier ≤ a.tier ∨ tier ≤ Prize.tierFor s.prizes (a.addRep first).rep :=
      Attendee.le_tier_promote
    have hall : tier ≤ (s.awarded (addCapped first second) a).tier ↔
        tier ≤ a.tier ∨ tier ≤ Prize.tierFor s.prizes (a.addRep (addCapped first second)).rep :=
      Attendee.le_tier_promote
    rw [Store.awarded, Attendee.le_tier_promote, hfirst, hs.tierFor_handOut, s.rep_awarded, hall,
      or_assoc]
    refine or_congr_right (or_iff_right_of_imp fun hle => ?_)
    exact UInt8.le_trans hle (s.tierFor_addRep_le first second a)
  have hwinnings : ((s.handOut first a).awarded second (s.awarded first a)).winnings =
      (s.awarded (addCapped first second) a).winnings := by
    change (a.winnings ++ _) ++ _ = a.winnings ++ _
    rw [← hs.gains_append, List.map_append, List.append_assoc]
  calc (s.handOut first a).awarded second (s.awarded first a)
    _ = { a with
          rep := addCapped (addCapped a.rep first) second
          tier := ((s.handOut first a).awarded second (s.awarded first a)).tier
          winnings := ((s.handOut first a).awarded second (s.awarded first a)).winnings } := rfl
    _ = s.awarded (addCapped first second) a := by
        rw [addCapped_assoc, htier, hwinnings]
        rfl

end Store

namespace Award

/-- On every store whose prizes are found under their tiers, points that are awarded in two
instalments succeed and leave the same attendee and the same store as their capped sum does that is
awarded at once. -/
theorem addsInstalments {s : Store} (hs : s.FilesPrizes) (first second : UInt64) (a : Attendee) :
    ∃ b t, (awardPoints first a >>= awardPoints second).run s = (.ok b, t) ∧
      (awardPoints (addCapped first second) a).run s = (.ok b, t) := by
  have hfirst := awardPoints_run hs.prizes.1 first a
  have hsecond := awardPoints_run (hs.handOut first a).prizes.1 second (s.awarded first a)
  rw [hs.awarded_awarded, hs.handOut_handOut] at hsecond
  refine ⟨_, _, ?_, awardPoints_run hs.prizes.1 _ a⟩
  rw [Access.run_bind_of_ok hfirst, hsecond]

/-- A table with a gap, a prize without units and a threshold below that of a lower tier. -/
def patchyTable : List Prize := [⟨1, 5, "Pin", 1⟩, ⟨2, 100, "Hoodie", 0⟩, ⟨4, 8, "Cap", 3⟩]

/-- Nothing of an empty store is misplaced. -/
theorem filesPrizes_empty : Store.empty.FilesPrizes := by
  intro k v hget
  cases hget

/-- With the patchy table, an attendee with four points gets two and then three. The two bring the
first tier and its prize, the three the fourth tier and its prize, as all five do at once. -/
theorem addsInstalments_patchy :
    (Store.empty.fileAll (patchyTable.map .prize)).FilesPrizes ∧
      (∃ b t, (awardPoints 2 { Attendee.blank (.ofTicket "1") with rep := 4 } >>=
          awardPoints 3).run (Store.empty.fileAll (patchyTable.map .prize)) = (.ok b, t) ∧
        (awardPoints (addCapped 2 3) { Attendee.blank (.ofTicket "1") with rep := 4 }).run
          (Store.empty.fileAll (patchyTable.map .prize)) = (.ok b, t) ∧
        b.rep = 9 ∧ b.tier = 4 ∧ b.winnings.map (·.tier) = [1, 4] ∧
        t.prizes.map (·.quantity) = [0, 0, 2]) := by
  have hfits : ∀ p ∈ patchyTable, (Bytes.ofText p.text).length < UInt64.size := by decide
  have hfiles := filesPrizes_empty.fileAll hfits
  obtain ⟨b, t, htwice, honce⟩ :=
    addsInstalments hfiles 2 3 { Attendee.blank (.ofTicket "1") with rep := 4 }
  have hdecided : ((awardPoints (addCapped 2 3)
      { Attendee.blank (.ofTicket "1") with rep := 4 }).run
        (Store.empty.fileAll (patchyTable.map .prize))).1.toOption.map (fun b =>
          (b.rep, b.tier, b.winnings.map (·.tier))) = some (9, 4, [1, 4]) ∧
      ((awardPoints (addCapped 2 3) { Attendee.blank (.ofTicket "1") with rep := 4 }).run
        (Store.empty.fileAll (patchyTable.map .prize))).2.prizes.map (·.quantity) =
          [0, 0, 2] := by
    decide +kernel
  rw [honce] at hdecided
  obtain ⟨hattendee, hstock⟩ := hdecided
  have hparts := Option.some.inj hattendee
  simp only [Prod.mk.injEq] at hparts
  exact ⟨hfiles, b, t, htwice, honce, hparts.1, hparts.2.1, hparts.2.2, hstock⟩

end Award

end ConferenceLedger

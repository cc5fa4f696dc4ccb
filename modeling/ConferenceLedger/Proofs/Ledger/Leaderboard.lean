import ConferenceLedger.Proofs.Ledger.Listing
import Mathlib.Data.List.Sort

/-!
# The leaderboard is the top of one order

Attendees are ranked by reputation, and by the bytes of their addresses where that is equal. Since
no two attendees have the same address, either of two ranks above the other. So a leaderboard is the
beginning of one list, in which everybody has a place: a longer one goes on where a shorter one ends,
and whoever is left out ranks below all who are shown.
-/

namespace ConferenceLedger

namespace LeaderboardEntry

/-- A row ranks above another by more reputation or, where that is the same, by an address whose
bytes come first. -/
def Outranks (a b : LeaderboardEntry) : Prop :=
  b.rep < a.rep ∨ a.rep = b.rep ∧ a.address.octets.bytes < b.address.octets.bytes

variable {a b c : LeaderboardEntry}

/-- The rows that stand above a row are those that rank above it. -/
theorem ranksAbove_iff : a.ranksAbove b = true ↔ a.Outranks b := by
  rw [ranksAbove, Bool.or_eq_true, Bool.and_eq_true, decide_eq_true_iff, decide_eq_true_iff,
    decide_eq_true_iff]
  exact Iff.rfl

/-- What ranks above a row ranks above all that the row ranks above. -/
theorem Outranks.trans (h : a.Outranks b) (h' : b.Outranks c) : a.Outranks c := by
  rcases h with hab | ⟨hab, hbytes⟩ <;> rcases h' with hbc | ⟨hbc, hbytes'⟩
  · exact Or.inl (UInt64.lt_trans hbc hab)
  · exact Or.inl (hbc ▸ hab)
  · exact Or.inl (hab ▸ hbc)
  · exact Or.inr ⟨hab.trans hbc, List.lt_trans hbytes hbytes'⟩

/-- No row ranks above itself. -/
theorem not_outranks_self (a : LeaderboardEntry) : ¬a.Outranks a := by
  rintro (hrep | ⟨-, hbytes⟩)
  · exact UInt64.lt_irrefl _ hrep
  · exact List.lt_irrefl _ hbytes

/-- Either of two rows ranks above the other, unless they are of one address. -/
theorem outranks_or_outranks (a b : LeaderboardEntry) :
    a.Outranks b ∨ (a.rep = b.rep ∧ a.address = b.address) ∨ b.Outranks a := by
  by_cases hrep : a.rep = b.rep
  · rcases key_trichotomy a.address.octets.bytes b.address.octets.bytes with hlt | heq | hgt
    · exact Or.inl (Or.inr ⟨hrep, hlt⟩)
    · exact Or.inr (Or.inl ⟨hrep, Address.bytes_inj.mp heq⟩)
    · exact Or.inr (Or.inr (Or.inr ⟨hrep.symm, hgt⟩))
  · rcases UInt64.lt_or_lt_of_ne hrep with hlt | hgt
    · exact Or.inr (Or.inr (Or.inl hlt))
    · exact Or.inl (Or.inl hgt)

/-- A row may stand before another that does not stand above it. -/
def MayPrecede (a b : LeaderboardEntry) : Prop := ¬b.ranksAbove a = true

instance : DecidableRel MayPrecede := fun a b => inferInstanceAs (Decidable ¬b.ranksAbove a = true)

instance : Std.Total MayPrecede where
  total a b := by
    rw [MayPrecede, MayPrecede, ranksAbove_iff, ranksAbove_iff, ← not_and_or]
    rintro ⟨hba, hab⟩
    exact not_outranks_self a (hab.trans hba)

instance : IsTrans LeaderboardEntry MayPrecede where
  trans a b c hab hbc := by
    rw [MayPrecede, ranksAbove_iff] at hab hbc ⊢
    intro hca
    -- the row in the middle would have to rank above one of the others
    rcases outranks_or_outranks a b with hlt | ⟨hrep, haddress⟩ | hgt
    · exact hbc (hca.trans hlt)
    · have hcb : c.Outranks b := by
        rw [Outranks, ← hrep, ← haddress]
        exact hca
      exact hbc hcb
    · exact hab hgt

/-- Rows are put in order by insertion. -/
theorem ranked_eq_insertionSort (rows : List LeaderboardEntry) :
    ranked rows = rows.insertionSort MayPrecede := by
  have hinsert : ∀ (r : LeaderboardEntry) (rest : List LeaderboardEntry),
      insertRow r rest = rest.orderedInsert MayPrecede r := by
    intro r rest
    induction rest with
    | nil => rfl
    | cons other rest ih =>
      rw [insertRow, List.orderedInsert_cons, ih]
      by_cases hother : other.ranksAbove r = true
      · have hafter : ¬r.MayPrecede other := not_not_intro hother
        rw [if_pos hother, if_neg hafter]
      · have hbefore : r.MayPrecede other := hother
        rw [if_neg hother, if_pos hbefore]
  induction rows with
  | nil => rfl
  | cons r rows ih =>
    have hstep : ranked (r :: rows) = insertRow r (ranked rows) := rfl
    rw [hstep, ih, hinsert]
    rfl

/-- Ranking rows only puts them in order. -/
theorem ranked_perm (rows : List LeaderboardEntry) : (ranked rows).Perm rows := by
  rw [ranked_eq_insertionSort]
  exact List.perm_insertionSort _ rows

/-- Ranked rows of different addresses rank above those that follow them. -/
theorem ranked_pairwise {rows : List LeaderboardEntry} (h : (rows.map (·.address)).Nodup) :
    (ranked rows).Pairwise Outranks := by
  have hsorted : (ranked rows).Pairwise MayPrecede := by
    rw [ranked_eq_insertionSort]
    exact List.pairwise_insertionSort _ rows
  have hnodup : ((ranked rows).map (·.address)).Nodup :=
    ((ranked_perm rows).map _).nodup_iff.mpr h
  have hdistinct : (ranked rows).Pairwise (·.address ≠ ·.address) := List.pairwise_map.mp hnodup
  refine (hsorted.and hdistinct).imp ?_
  rintro a b ⟨hprecedes, hne⟩
  rw [MayPrecede, ranksAbove_iff] at hprecedes
  rcases outranks_or_outranks a b with hlt | ⟨-, heq⟩ | hgt
  · exact hlt
  · exact absurd heq hne
  · exact absurd hgt hprecedes

end LeaderboardEntry

namespace Store

/-- How many attendees a store has: its entries under keys of attendees. -/
def attendeeCount (s : Store) : Nat :=
  s.entries.countP fun e => StoreKey.isMember StoreKey.attendeeClass e.1

variable {members : List Address} {s : Store}

/-- Every attendee of a store that can be held is listed. -/
theorem Sound.length_attendees (hs : s.Sound members) : s.attendees.length = s.attendeeCount := by
  have hread : ∀ e ∈ s.scan (StoreKey.collection StoreKey.attendeeClass),
      (Binary.decode e.2 : Except CodecError Attendee).toOption.isSome = true := by
    intro e he
    obtain ⟨hget, hkey⟩ := mem_scan_iff.mp he
    obtain ⟨x, hx, -, -⟩ := hs.attendee_of_entry hget hkey
    rw [hx]
    rfl
  rw [attendees, List.length_filterMap_eq_countP, List.countP_eq_length.mpr hread, scan_eq_filter,
    ← List.countP_eq_length_filter]
  rfl

/-- The rows of all attendees, in order of rank. -/
def ranking (s : Store) : List LeaderboardEntry :=
  LeaderboardEntry.ranked (s.attendees.map .ofAttendee)

/-- The rows of the ranking are those of the attendees who are found under their addresses. -/
theorem Sound.mem_ranking (hs : s.Sound members) {r : LeaderboardEntry} :
    r ∈ s.ranking ↔ ∃ x, s.attendee r.address = some x ∧ r = .ofAttendee x := by
  obtain ⟨-, -, hmem⟩ := hs.rows.attendees fun _ hx => hx.fits hs.countable
  rw [ranking, (LeaderboardEntry.ranked_perm _).mem_iff, List.mem_map]
  constructor
  · rintro ⟨x, hx, rfl⟩
    exact ⟨x, (hmem x).mp hx, rfl⟩
  · rintro ⟨x, hx, rfl⟩
    exact ⟨x, (hmem x).mpr hx, rfl⟩

/-- Every row of the ranking ranks above those that follow it, and no address has two. -/
theorem Sound.ranking_pairwise (hs : s.Sound members) :
    s.ranking.Pairwise LeaderboardEntry.Outranks ∧ (s.ranking.map (·.address)).Nodup := by
  obtain ⟨-, hdistinct, -⟩ := hs.rows.attendees fun _ hx => hx.fits hs.countable
  have hnodup : ((s.attendees.map LeaderboardEntry.ofAttendee).map (·.address)).Nodup := by
    rw [List.map_map]
    exact List.pairwise_map.mpr hdistinct
  exact ⟨LeaderboardEntry.ranked_pairwise hnodup,
    ((LeaderboardEntry.ranked_perm _).map _).nodup_iff.mpr hnodup⟩

/-- A leaderboard is the beginning of the ranking. -/
theorem Sound.leaderboard_run (hs : s.Sound members) (limit : Nat) :
    (leaderboard limit).run s = (.ok (s.ranking.take limit), s) := by
  obtain ⟨hread, -, -⟩ := hs.rows.attendees fun _ hx => hx.fits hs.countable
  rw [leaderboard, Access.run_bind_of_ok hread]
  rfl

end Store

namespace Chain

variable {chainId : String} {g : Genesis} {c : Chain}

/-- Rows that are the top of the attendees of a chain, at most so many. -/
structure Leaders (c : Chain) (limit : Nat) (rows : List LeaderboardEntry) : Prop where
  /-- The ledger answers with them. -/
  answered : (leaderboard limit).eval c.store = .ok rows
  /-- There are as many as were asked for, or one of every attendee if these are fewer. -/
  length : rows.length = min limit c.store.attendeeCount
  /-- Every row has the address, the name, the reputation and the tier of an attendee whom the ledger
  finds. -/
  stored : ∀ r ∈ rows, ∃ x, (Records.attendee r.address).eval c.store = .ok (some x) ∧
    r = ⟨x.address, x.name, x.rep, x.tier⟩
  /-- No address has two rows. -/
  nodup : (rows.map (·.address)).Nodup
  /-- Every row ranks above those that follow it. -/
  ordered : rows.Pairwise LeaderboardEntry.Outranks
  /-- Every attendee who is left out ranks below every row. -/
  leftOut : ∀ a x, (Records.attendee a).eval c.store = .ok (some x) → (∀ r ∈ rows, r.address ≠ a) →
    ∀ r ∈ rows, r.Outranks (.ofAttendee x)

/-- The beginning of the ranking is the top of the attendees, when every record can be held. -/
theorem leaders_ranking {members : List Address} (hs : c.store.Sound members) (limit : Nat) :
    c.Leaders limit (c.store.ranking.take limit) := by
  obtain ⟨hordered, hnodup⟩ := hs.ranking_pairwise
  have hlength : c.store.ranking.length = c.store.attendeeCount := by
    rw [Store.ranking, (LeaderboardEntry.ranked_perm _).length_eq, List.length_map,
      hs.length_attendees]
  constructor
  · rw [Access.eval, hs.leaderboard_run]
  · rw [List.length_take, hlength]
  · intro r hr
    obtain ⟨x, hx, hrow⟩ := hs.mem_ranking.mp (List.mem_of_mem_take hr)
    exact ⟨x, by rw [attendee_eval hs, hx], hrow⟩
  · rw [List.map_take]
    exact hnodup.sublist (List.take_sublist _ _)
  · exact hordered.sublist (List.take_sublist _ _)
  · intro a x hx hnone r hr
    rw [attendee_eval hs, Except.ok.injEq] at hx
    obtain ⟨-, rfl⟩ := hs.attendee hx
    have hmem : LeaderboardEntry.ofAttendee x ∈ c.store.ranking := hs.mem_ranking.mpr ⟨x, hx, rfl⟩
    -- the row of who is left out stands in the rest of the ranking
    rw [← List.take_append_drop limit c.store.ranking] at hmem hordered
    rcases List.mem_append.mp hmem with hshown | hrest
    · exact absurd rfl (hnone _ hshown)
    · exact (List.pairwise_append.mp hordered).2.2 r hr _ hrest

/-- In every state that a run of operations that fit reaches from a sized genesis, a leaderboard of
whatever length is the top of the attendees, a shorter one is the beginning of a longer one, and the
query for it is answered with its rows. -/
theorem leadsByRank (hg : g.Sized) (h : ofGenesis chainId g = .ok c) {ds : List Delivery}
    (hds : ∀ d ∈ ds, Fits d.tx.op) :
    (∀ limit, ∃ rows, (c.after ds).Leaders limit rows ∧
      ∀ fewer ≤ limit, ∃ top, (c.after ds).Leaders fewer top ∧ top <+: rows) ∧
    ∀ limit : UInt64, ∃ rows, (c.after ds).query (.leaderboard limit) = .ok (.leaderboard rows) ∧
      (c.after ds).Leaders limit.toNat rows := by
  have hs := after_sound hg h hds
  constructor
  · intro limit
    refine ⟨_, leaders_ranking hs limit, fun fewer hfewer => ?_⟩
    exact ⟨_, leaders_ranking hs fewer, List.take_prefix_take_left hfewer⟩
  · intro limit
    refine ⟨_, ?_, leaders_ranking hs limit.toNat⟩
    rw [query, Query.answer, Access.eval, Access.run_bind_of_ok (hs.leaderboard_run _)]
    rfl

/-- On the ledger of two attendees one of them is keyed, claims the account and scans the other, and
then stands first. -/
theorem leadsByRank_encounter :
    SmallLedger.pair.Sized ∧ ofGenesis "test-chain" SmallLedger.pair = .ok SmallLedger.pairChain ∧
      (∀ d ∈ SmallLedger.encounter, Fits d.tx.op) ∧
      ∃ rows, (SmallLedger.pairChain.after SmallLedger.encounter).Leaders 1 rows ∧
        rows.map (·.rep) = [9] := by
  obtain ⟨hleads, -⟩ := leadsByRank SmallLedger.sized_pair SmallLedger.ofGenesis_pair
    SmallLedger.fits_encounter
  obtain ⟨rows, hrows, -⟩ := hleads 1
  refine ⟨SmallLedger.sized_pair, SmallLedger.ofGenesis_pair, SmallLedger.fits_encounter, rows,
    hrows, ?_⟩
  have hreps :
      ((leaderboard 1).eval (SmallLedger.pairChain.after SmallLedger.encounter).store).toOption.map
        (fun rows => rows.map (·.rep)) = some [9] := by
    decide +kernel
  rw [hrows.answered] at hreps
  exact Option.some.inj hreps

end Chain

end ConferenceLedger

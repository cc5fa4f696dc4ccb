import ConferenceLedger.Proofs.Ledger.Delivery
import Mathlib.Data.List.Nodup

/-!
# No transaction is executed twice

The sequence of an account counts the transactions that were executed for its signer. A
delivery that executes a transaction of the signer finds the sequence that the transaction
carries and leaves the next one; any other delivery leaves the sequence, even one that rewrites
the account to install a key.
-/

namespace ConferenceLedger

/-- A sequence that is not the last is counted up without starting again. -/
theorem toNat_add_one {n : UInt64} (h : n.toNat + 1 < UInt64.size) :
    (n + 1).toNat = n.toNat + 1 := by
  have hone : (1 : UInt64).toNat = 1 := rfl
  have hsize : UInt64.size = 2 ^ 64 := rfl
  rw [UInt64.toNat_add]
  omega

/-- The sequence of an address: that of its account, or zero. -/
def Store.sequence (s : Store) (a : Address) : UInt64 :=
  (s.account a).elim 0 (·.sequence)

namespace Chain

/-- The transactions that a run executes, in the order in which they are delivered. -/
def executed (c : Chain) (ds : List Delivery) : List SignedTx :=
  ((c.answers ds).filter (·.2.executed)).map (·.1)

/-- The transactions of a signer that a run executes. -/
def executedFor (c : Chain) (ds : List Delivery) (a : Address) : List SignedTx :=
  (c.executed ds).filter (·.op.signer = a)

/-- What a delivery does to the sequence of an address: an executed transaction of the address
carries it and counts it up, and any other delivery leaves it. -/
theorem sequence_deliver {c : Chain} (hs : c.store.Placed) (tx : SignedTx) (time : Int64)
    (a : Address) :
    if (c.deliver tx time).1.executed ∧ tx.op.signer = a then
      tx.sequence = c.store.sequence a ∧
        (c.deliver tx time).2.store.sequence a = c.store.sequence a + 1
    else (c.deliver tx time).2.store.sequence a = c.store.sequence a := by
  have hafter : (c.deliver tx time).2.store.sequence a = ((c.store.account a).map fun x =>
      if (c.deliver tx time).1.executed ∧ tx.op.signer = a then x.sequence + 1
      else x.sequence).getD 0 := by
    rw [Store.sequence, account_deliver hs]
    cases c.store.account a with
    | none => rfl
    | some x => exact SignedTx.sequence_rewrite
  by_cases hcounts : (c.deliver tx time).1.executed ∧ tx.op.signer = a
  · obtain ⟨x, hadmits⟩ := admits_of_executed hcounts.1
    have hx := hadmits.account
    rw [hcounts.2] at hx
    simp only [if_pos hcounts, hx, Option.map_some, Option.getD_some] at hafter ⊢
    have hsequence : c.store.sequence a = x.sequence := by
      rw [Store.sequence, hx]
      rfl
    rw [hsequence]
    exact ⟨hadmits.sequence, hafter⟩
  · simp only [if_neg hcounts] at hafter ⊢
    rw [hafter, Store.sequence]
    cases c.store.account a <;> rfl

/-- A run executes its first transaction, if that is executed, and then the others. -/
theorem executed_cons (c : Chain) (d : Delivery) (ds : List Delivery) :
    c.executed (d :: ds) =
      if (c.deliver d.tx d.time).1.executed then
        d.tx :: (c.deliver d.tx d.time).2.executed ds
      else (c.deliver d.tx d.time).2.executed ds := by
  unfold executed
  rw [answers]
  by_cases h : (c.deliver d.tx d.time).1.executed = true
  · rw [if_pos h]
    simp only [List.filter_cons, if_pos h, List.map_cons]
  · rw [if_neg h]
    simp only [List.filter_cons, if_neg h]

/-- A run executes its first transaction for an address, if that is executed and signed by it,
and then the others. -/
theorem executedFor_cons (c : Chain) (d : Delivery) (ds : List Delivery) (a : Address) :
    c.executedFor (d :: ds) a =
      if (c.deliver d.tx d.time).1.executed ∧ d.tx.op.signer = a then
        d.tx :: (c.deliver d.tx d.time).2.executedFor ds a
      else (c.deliver d.tx d.time).2.executedFor ds a := by
  unfold executedFor
  rw [executed_cons]
  by_cases hexecuted : (c.deliver d.tx d.time).1.executed = true
  · rw [if_pos hexecuted]
    by_cases ha : d.tx.op.signer = a
    · rw [if_pos ⟨hexecuted, ha⟩]
      simp only [List.filter_cons, ha, decide_true, if_true]
    · rw [if_neg fun h => ha h.2]
      simp only [List.filter_cons, ha, decide_false, Bool.false_eq_true, if_false]
  · rw [if_neg hexecuted, if_neg fun h => hexecuted h.1]

/-- The executed transactions of an address carry consecutive sequences from that of the address
on, and the sequence of the address goes up by their number. -/
theorem executedFor_sequences {c : Chain} (hs : c.store.Placed) (ds : List Delivery)
    {a : Address} (hlt : (c.store.sequence a).toNat + ds.length < UInt64.size) :
    (c.executedFor ds a).map (·.sequence.toNat) =
        List.range' (c.store.sequence a).toNat (c.executedFor ds a).length ∧
      ((c.after ds).store.sequence a).toNat =
        (c.store.sequence a).toNat + (c.executedFor ds a).length := by
  induction ds generalizing c with
  | nil => exact ⟨rfl, rfl⟩
  | cons d ds ih =>
    have hstep := sequence_deliver hs d.tx d.time a
    have hafter : c.after (d :: ds) = (c.deliver d.tx d.time).2.after ds := rfl
    have ih := ih (deliver_placed hs d.tx d.time)
    rw [List.length_cons] at hlt
    rw [executedFor_cons, hafter]
    by_cases hcounts : (c.deliver d.tx d.time).1.executed = true ∧ d.tx.op.signer = a
    · rw [if_pos hcounts] at hstep ⊢
      obtain ⟨htx, hnext⟩ := hstep
      have hsucc := toNat_add_one (n := c.store.sequence a) (by omega)
      rw [hnext, hsucc] at ih
      obtain ⟨hmap, hcount⟩ := ih (by omega)
      refine ⟨?_, ?_⟩
      · rw [List.map_cons, List.length_cons, List.range'_succ, hmap, htx]
      · rw [hcount, List.length_cons]
        omega
    · rw [if_neg hcounts] at hstep ⊢
      rw [hstep] at ih
      exact ih (by omega)

/-- No more transactions are executed for an address than are delivered. -/
theorem length_executedFor_le (c : Chain) (ds : List Delivery) (a : Address) :
    (c.executedFor ds a).length ≤ ds.length := by
  induction ds generalizing c with
  | nil => exact Nat.le_refl 0
  | cons d ds ih =>
    have hrest := ih (c.deliver d.tx d.time).2
    rw [executedFor_cons, List.length_cons]
    split_ifs
    · rw [List.length_cons]
      omega
    · omega

/-- The accounts of a genesis have executed nothing. -/
theorem sequence_of_genesis {chainId : String} {g : Genesis} {c : Chain}
    (h : ofGenesis chainId g = .ok c) (a : Address) : c.store.sequence a = 0 := by
  rw [Store.sequence]
  cases hx : c.store.account a with
  | none => rfl
  | some x => exact ((holds_of_genesis h).of_account hx).1.sequence

/-- The sequence of an address after a run from a genesis is at most the length of the run. -/
theorem sequence_after_le {chainId : String} {g : Genesis} {c : Chain}
    (h : ofGenesis chainId g = .ok c) (ds : List Delivery) (hds : ds.length < UInt64.size)
    (a : Address) : ((c.after ds).store.sequence a).toNat ≤ ds.length := by
  have hzero : (c.store.sequence a).toNat = 0 := congrArg UInt64.toNat (sequence_of_genesis h a)
  have hcount := (executedFor_sequences (holds_of_genesis h).placed ds (a := a) (by omega)).2
  have hle := c.length_executedFor_le ds a
  omega

/-- A list has no repetition if, among the elements of every kind, no value repeats. -/
theorem nodup_of_kinds {α β γ : Type} [DecidableEq α] [DecidableEq β] (kind : α → β) (f : α → γ)
    {l : List α} (h : ∀ b, ((l.filter (kind · = b)).map f).Nodup) : l.Nodup := by
  rw [List.nodup_iff_count_le_one]
  intro x
  have hx := List.nodup_iff_count_le_one.mp (h (kind x)).of_map x
  rwa [List.count_filter (by simp)] at hx

/-- A run in which every signer's transactions are executed in sequence and none twice. -/
structure ExecutesInSequence (c : Chain) (ds : List Delivery) : Prop where
  /-- The executed transactions of an address carry the sequences from zero on, in the order of
  delivery, without gap or repetition. -/
  sequences : ∀ a, (c.executedFor ds a).map (·.sequence.toNat) =
    List.range (c.executedFor ds a).length
  /-- The sequence of the stored account is the number of transactions executed for it. -/
  counted : ∀ a, ∃ found, (c.after ds).account a = .ok found ∧
    found.elim 0 (·.sequence.toNat) = (c.executedFor ds a).length
  /-- No transaction is executed twice. -/
  nodup : (c.executed ds).Nodup

/-- In every run from a genesis that is shorter than a sequence can count, all transactions are
executed in sequence and none twice. -/
theorem executesInSequence {chainId : String} {g : Genesis} {c : Chain}
    (h : ofGenesis chainId g = .ok c) {ds : List Delivery} (hds : ds.length < UInt64.size) :
    c.ExecutesInSequence ds := by
  have hplaced : c.store.Placed := (holds_of_genesis h).placed
  have hrun : ∀ a, (c.executedFor ds a).map (·.sequence.toNat) =
        List.range (c.executedFor ds a).length ∧
      ((c.after ds).store.sequence a).toNat = (c.executedFor ds a).length := by
    intro a
    have hzero : (c.store.sequence a).toNat = 0 := congrArg UInt64.toNat (sequence_of_genesis h a)
    have hrun := executedFor_sequences hplaced ds (a := a) (by omega)
    rwa [hzero, Nat.zero_add, ← List.range_eq_range'] at hrun
  constructor
  · exact fun a => (hrun a).1
  · intro a
    refine ⟨(c.after ds).store.account a, account_eq (after_placed h ds) a, ?_⟩
    rw [← (hrun a).2, Store.sequence]
    cases (c.after ds).store.account a <;> rfl
  · apply nodup_of_kinds (fun tx : SignedTx => tx.op.signer) (·.sequence.toNat)
    intro a
    have hrange := (hrun a).1
    unfold executedFor at hrange
    rw [hrange]
    exact List.nodup_range

/-- On the small ledger a keying that is sent twice is executed at most once. -/
theorem executesInSequence_replay :
    ofGenesis "test-chain" SmallLedger.genesis = .ok SmallLedger.chain ∧
      SmallLedger.replay.length < UInt64.size ∧
      SmallLedger.chain.ExecutesInSequence SmallLedger.replay :=
  ⟨SmallLedger.ofGenesis_eq, by decide, executesInSequence SmallLedger.ofGenesis_eq (by decide)⟩

end Chain

end ConferenceLedger

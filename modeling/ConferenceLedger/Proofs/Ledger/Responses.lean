import ConferenceLedger.Proofs.Ledger.Replay

/-!
# What a response tells

The response to a transaction tells what became of the store. A transaction that was not
executed left it as it was, one that was executed and failed used up the sequence of its signer
and did nothing else, and one that succeeded did what its operation does.
-/

namespace ConferenceLedger.Chain

/-- What the response to a delivery tells about the chain that it leaves. -/
structure TellsOutcome (c : Chain) (tx : SignedTx) (time : Int64) (r : TxResponse) (c' : Chain) :
    Prop where
  /-- A transaction that was not executed left the store. -/
  notExecuted : r.executed = false → c'.store = c.store
  /-- A transaction that was executed and failed counted up the sequence of its signer, and left
  every other field of the account and every other entry. -/
  failed : r.executed = true → r.code ≠ 0 →
    ∃ x, c.account tx.op.signer = .ok (some x) ∧
      c'.account tx.op.signer = .ok (some { x with sequence := x.sequence + 1 }) ∧
      ∀ k, k ≠ StoreKey.account tx.op.signer → c'.store.get? k = c.store.get? k
  /-- A transaction that succeeded was executed, and its operation was carried out on the store
  with the sequence of the signer counted up. -/
  succeeded : r.code = 0 → r.executed = true ∧
    ∃ x, c.account tx.op.signer = .ok (some x) ∧
      let counted := c.store.set (StoreKey.account tx.op.signer)
        (put { x with sequence := x.sequence + 1 })
      tx.op.execute time counted = (.ok (), c'.store) ∧
        (tx.op.program time).run counted = (.ok (), c'.store)
  /-- A transaction was executed if and only if it used up the sequence of its signer. -/
  executed_iff : r.executed = true ↔
    ∃ x y, c.account tx.op.signer = .ok (some x) ∧ c'.account tx.op.signer = .ok (some y) ∧
      y.sequence = x.sequence + 1

/-- The store with the sequence of the signer counted up. -/
theorem counted_eq {c : Chain} (hs : c.store.Placed) {tx : SignedTx} {x : Account}
    (h : c.Admits tx x) : c.store.counted x = c.store.set (StoreKey.account tx.op.signer)
      (put { x with sequence := x.sequence + 1 }) := by
  have haddress : x.address = tx.op.signer := (hs.of_account h.account).2.1
  rw [← haddress]
  rfl

/-- The signer's account in the store with its sequence counted up. -/
theorem account_counted {c : Chain} (hs : c.store.Placed) {tx : SignedTx} {x : Account}
    (h : c.Admits tx x) :
    (c.store.counted x).account tx.op.signer = some { x with sequence := x.sequence + 1 } := by
  rw [account_of_admits hs h, h.account, Option.map_some, if_pos rfl]

/-- The response to every delivery tells what became of the store. -/
theorem tellsOutcome_of_placed {c : Chain} (hs : c.store.Placed) (tx : SignedTx) (time : Int64) :
    c.TellsOutcome tx time (c.deliver tx time).1 (c.deliver tx time).2 := by
  have hafter := deliver_placed hs tx time
  have hdelivered := c.delivered tx time
  generalize c.deliver tx time = r at hdelivered hafter ⊢
  cases hdelivered with
  | notAdmitted e =>
    constructor
    · intro _
      rfl
    · intro hexecuted
      cases hexecuted
    · intro hcode
      exact absurd hcode e.code_ne_zero
    · constructor
      · intro hexecuted
        cases hexecuted
      · rintro ⟨x, y, hx, hy, hsequence⟩
        have hxy : x = y := by
          have hsame := hx.symm.trans hy
          cases hsame
          rfl
        subst hxy
        have hne : x.sequence ≠ x.sequence + 1 := by
          intro h
          have hsize := congrArg UInt64.toNat h
          rw [UInt64.toNat_add] at hsize
          have hlt := x.sequence.toNat_lt
          have hone : (1 : UInt64).toNat = 1 := rfl
          omega
        exact absurd hsequence hne
  | @failed x hadmits e hrun =>
    have hx : c.account tx.op.signer = .ok (some x) := by
      rw [account_eq hs, hadmits.account]
    have hy : account { c with height := c.height + 1, store := c.store.counted x }
        tx.op.signer = .ok (some { x with sequence := x.sequence + 1 }) := by
      rw [account_eq hafter]
      exact congrArg Except.ok (account_counted hs hadmits)
    constructor
    · intro hexecuted
      cases hexecuted
    · intro _ _
      refine ⟨x, hx, hy, ?_⟩
      intro k hk
      dsimp only
      rw [counted_eq hs hadmits, Store.get?_set_ne _ _ hk.symm]
    · intro hcode
      exact absurd hcode e.code_ne_zero
    · constructor
      · intro _
        exact ⟨x, _, hx, hy, rfl⟩
      · intro _
        rfl
  | @done x hadmits t hrun =>
    have hx : c.account tx.op.signer = .ok (some x) := by
      rw [account_eq hs, hadmits.account]
    constructor
    · intro hexecuted
      cases hexecuted
    · intro _ hcode
      exact absurd rfl hcode
    · intro _
      refine ⟨rfl, x, hx, ?_⟩
      dsimp only
      rw [← counted_eq hs hadmits, Operation.execute, Access.atomically_eq, hrun]
      exact ⟨rfl, rfl⟩
    · constructor
      · intro _
        refine ⟨x, _, hx, ?_, tx.op.sequence_rekey tx.op.signer { x with sequence := x.sequence + 1 }⟩
        rw [account_eq hafter]
        dsimp only
        rw [Operation.account_of_run_ok (hs.counted x) hrun, account_counted hs hadmits, Option.map_some]
      · intro _
        rfl

/-- In every state that a run from a genesis reaches, the response to every delivery tells what
became of the store. A sequence that is counted up is one greater as a number, as long as no more
transactions were delivered than a sequence can count. -/
theorem tellsOutcome {chainId : String} {g : Genesis} {c : Chain}
    (h : ofGenesis chainId g = .ok c) (ds : List Delivery) (tx : SignedTx) (time : Int64) :
    (c.after ds).TellsOutcome tx time ((c.after ds).deliver tx time).1
        ((c.after ds).deliver tx time).2 ∧
      (ds.length + 1 < UInt64.size → ∀ x, (c.after ds).account tx.op.signer = .ok (some x) →
        (x.sequence + 1).toNat = x.sequence.toNat + 1) := by
  have hplaced := after_placed h ds
  refine ⟨tellsOutcome_of_placed hplaced tx time, ?_⟩
  intro hds x hx
  rw [account_eq hplaced] at hx
  have hsequence : (c.after ds).store.sequence tx.op.signer = x.sequence := by
    rw [Store.sequence, Except.ok.inj hx]
    rfl
  have hle := sequence_after_le h ds (by omega) tx.op.signer
  rw [hsequence] at hle
  exact toNat_add_one (by omega)

/-- On the small ledger the response to a keying that was sent before tells what became of the
store. -/
theorem tellsOutcome_replay :
    ofGenesis "test-chain" SmallLedger.genesis = .ok SmallLedger.chain ∧
      (SmallLedger.chain.after SmallLedger.replay).TellsOutcome SmallLedger.keyGrant.tx 0
        ((SmallLedger.chain.after SmallLedger.replay).deliver SmallLedger.keyGrant.tx 0).1
        ((SmallLedger.chain.after SmallLedger.replay).deliver SmallLedger.keyGrant.tx 0).2 :=
  ⟨SmallLedger.ofGenesis_eq,
    (tellsOutcome SmallLedger.ofGenesis_eq SmallLedger.replay SmallLedger.keyGrant.tx 0).1⟩

end ConferenceLedger.Chain

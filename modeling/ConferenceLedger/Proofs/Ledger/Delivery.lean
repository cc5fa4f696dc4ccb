import ConferenceLedger.Ledger.Chain
import ConferenceLedger.Proofs.Ledger.Founding
import ConferenceLedger.Proofs.Ledger.Placement

/-!
# What a delivery does

A delivery has one of three outcomes. A transaction that is not admitted changes nothing but
the height. An admitted one counts up the sequence of its signer, and if its operation succeeds
the operation is carried out on the counted store. A run is a list of deliveries, and what every
delivery keeps holds after every run.
-/

namespace ConferenceLedger

/-- A transaction and the time of its block. -/
structure Delivery where
  /-- The transaction. -/
  tx : SignedTx
  /-- The time of the block. -/
  time : Int64

/-- The store with the sequence of an account counted up. -/
def Store.counted (s : Store) (x : Account) : Store :=
  s.file (.account { x with sequence := x.sequence + 1 })

/-- Counting up a sequence keeps every record at its place. -/
theorem Store.Placed.counted {s : Store} (hs : s.Placed) (x : Account) : (s.counted x).Placed :=
  hs.file (r := .account _) trivial trivial

namespace Store

variable (s : Store) (x : Account)

/-- Counting up a sequence leaves the attendees. -/
@[simp] theorem attendee_counted (a : Address) : (s.counted x).attendee a = s.attendee a :=
  attendee_file_account _ a

/-- Counting up a sequence leaves the records of addresses that may have none. -/
@[simp] theorem attendeeOrBlank_counted (a : Address) :
    (s.counted x).attendeeOrBlank a = s.attendeeOrBlank a := by
  rw [attendeeOrBlank, attendee_counted, attendeeOrBlank]

/-- Counting up a sequence leaves the address of the keying service. -/
@[simp] theorem master_counted : (s.counted x).master = s.master :=
  record?_file_of_cls_ne (r := .account _) trivial rfl (by simp)

/-- Counting up a sequence leaves the address of the redeeming service. -/
@[simp] theorem redeem_counted : (s.counted x).redeem = s.redeem :=
  record?_file_of_cls_ne (r := .account _) trivial rfl (by simp)

end Store

namespace SignedTx

variable {tx : SignedTx} {r : TxResponse} {a : Address} {x : Account}

/-- What a transaction with a response makes of the account of an address. -/
def rewrite (tx : SignedTx) (r : TxResponse) (a : Address) (x : Account) : Account :=
  let counted :=
    if r.executed ∧ tx.op.signer = a then { x with sequence := x.sequence + 1 } else x
  if r.code = 0 then tx.op.rekey a counted else counted

/-- The sequence of an account is counted up if a transaction of the address was executed. -/
theorem sequence_rewrite : (tx.rewrite r a x).sequence =
    if r.executed ∧ tx.op.signer = a then x.sequence + 1 else x.sequence := by
  unfold rewrite
  split_ifs <;> simp

/-- The number of an account stays. -/
theorem number_rewrite : (tx.rewrite r a x).number = x.number := by
  unfold rewrite
  split_ifs <;> simp

end SignedTx

namespace Chain

/-- The chain after a list of deliveries. -/
def after (c : Chain) (ds : List Delivery) : Chain :=
  ds.foldl (fun c d => (c.deliver d.tx d.time).2) c

/-- The transactions of a list of deliveries, each with its answer. -/
def answers (c : Chain) : List Delivery → List (SignedTx × TxResponse)
  | [] => []
  | d :: ds => (d.tx, (c.deliver d.tx d.time).1) :: (c.deliver d.tx d.time).2.answers ds

/-- The last answer of a run is that of the chain after the others. -/
theorem answers_concat (c : Chain) (ds : List Delivery) (d : Delivery) :
    c.answers (ds ++ [d]) =
      c.answers ds ++ [(d.tx, ((c.after ds).deliver d.tx d.time).1)] := by
  induction ds generalizing c with
  | nil => rfl
  | cons e ds ih =>
    rw [List.cons_append, answers, ih, answers]
    rfl

/-- The last code of a run is that of the last transaction on the chain after the others. -/
theorem code_of_answers {c : Chain} {ds : List Delivery} {d : Delivery} (codes : List UInt32)
    {n : UInt32} (h : (c.answers (ds ++ [d])).map (·.2.code) = codes ++ [n]) :
    ((c.after ds).deliver d.tx d.time).1.code = n := by
  rw [answers_concat, List.map_append, List.map_singleton] at h
  exact (List.append_singleton_inj.mp h).2

/-- A run without deliveries stays where it is. -/
theorem after_nil (c : Chain) : c.after [] = c := rfl

/-- A run in two parts is the second after the first. -/
theorem after_append (c : Chain) (ds es : List Delivery) :
    c.after (ds ++ es) = (c.after ds).after es :=
  List.foldl_append

/-- What every delivery of a run keeps holds after the run. -/
theorem after_induction {P : Chain → Prop} {c : Chain} {ds : List Delivery} (h : P c)
    (hstep : ∀ d ∈ ds, ∀ c, P c → P (c.deliver d.tx d.time).2) : P (c.after ds) := by
  induction ds generalizing c with
  | nil => exact h
  | cons d ds ih =>
    have hd := hstep d List.mem_cons_self c h
    exact ih hd fun e he => hstep e (List.mem_cons_of_mem d he)

/-- An admitted transaction is right in itself, signed with the key of the signer's account, and
carries the number and the sequence of the account. -/
structure Admits (c : Chain) (tx : SignedTx) (x : Account) : Prop where
  /-- The operation is right in itself. -/
  check : tx.op.check = .ok ()
  /-- The signer has this account. -/
  account : c.store.account tx.op.signer = some x
  /-- The key is that of the account. -/
  pubKey : x.pubKey = some tx.pubKey
  /-- The signature is one of these bytes on this chain. -/
  signature : tx.checkSignature c.chainId = .ok ()
  /-- The account number is that of the account. -/
  number : tx.accountNumber = x.number
  /-- The sequence is that of the account. -/
  sequence : tx.sequence = x.sequence

/-- Admission gives the signer's account only if the transaction is admitted. -/
theorem admits_of_admission {c : Chain} {tx : SignedTx} {x : Account}
    (h : (admission c.chainId tx).eval c.store = .ok x) : c.Admits tx x := by
  obtain ⟨t, hrun⟩ : ∃ t, (admission c.chainId tx).run c.store = (.ok x, t) :=
    ⟨_, Prod.ext h rfl⟩
  obtain ⟨⟨⟩, s, hcheck, hrun⟩ := Access.run_bind_ok.mp hrun
  rw [Access.run_ofExcept] at hcheck
  obtain ⟨hright, rfl⟩ := Prod.mk.inj hcheck
  obtain ⟨found, s, hread, hrun⟩ := Access.run_bind_ok.mp hrun
  obtain ⟨rfl, rfl⟩ := Records.read_run_ok hread
  cases haccount : c.store.record? Account (StoreKey.account tx.op.signer) with
  | none =>
    rw [haccount] at hrun
    cases hrun
  | some y =>
    rw [haccount] at hrun
    obtain ⟨hkey, hrun⟩ := Access.run_guard_ok.mp hrun
    obtain ⟨⟨⟩, s, hsignature, hrun⟩ := Access.run_bind_ok.mp hrun
    rw [Access.run_ofExcept] at hsignature
    obtain ⟨hsigned, rfl⟩ := Prod.mk.inj hsignature
    obtain ⟨hnumber, hrun⟩ := Access.run_guard_ok.mp hrun
    obtain ⟨hsequence, hrun⟩ := Access.run_guard_ok.mp hrun
    cases hrun
    exact ⟨hright, haccount, Decidable.not_not.mp hkey, hsigned,
      Decidable.not_not.mp hnumber, Decidable.not_not.mp hsequence⟩

/-- The outcomes of a delivery: not admitted, failed, or carried out. -/
inductive Delivered (c : Chain) (tx : SignedTx) (time : Int64) : TxResponse × Chain → Prop where
  /-- The transaction was not admitted. -/
  | notAdmitted (e : LedgerError) :
    Delivered c tx time (.notAdmitted e (c.height + 1), { c with height := c.height + 1 })
  /-- The operation failed. -/
  | failed {x : Account} (hadmits : c.Admits tx x) (e : LedgerError)
    (hrun : ((tx.op.program time).run (c.store.counted x)).1 = .error e) :
    Delivered c tx time (.failed e (c.height + 1),
      { c with height := c.height + 1, store := c.store.counted x })
  /-- The operation was carried out. -/
  | done {x : Account} (hadmits : c.Admits tx x) {t : Store}
    (hrun : (tx.op.program time).run (c.store.counted x) = (.ok (), t)) :
    Delivered c tx time (.ok (c.height + 1), { c with height := c.height + 1, store := t })

/-- Every delivery has one of the three outcomes. -/
theorem delivered (c : Chain) (tx : SignedTx) (time : Int64) :
    Delivered c tx time (c.deliver tx time) := by
  unfold deliver
  dsimp only
  cases hadmission : (admission c.chainId tx).eval c.store with
  | error e => exact .notAdmitted e
  | ok x =>
    have hcounted : ((Records.setAccount { x with sequence := x.sequence + 1 }).run c.store).2 =
        c.store.counted x := rfl
    dsimp only
    rw [hcounted, Operation.execute, Access.atomically_eq]
    have hadmits := admits_of_admission hadmission
    rcases hrun : (tx.op.program time).run (c.store.counted x) with ⟨⟨e⟩ | ⟨⟨⟩⟩, t⟩
    · exact .failed hadmits e (congrArg Prod.fst hrun)
    · exact .done hadmits hrun

/-- A transaction that is executed was admitted. -/
theorem admits_of_executed {c : Chain} {tx : SignedTx} {time : Int64}
    (h : (c.deliver tx time).1.executed = true) : ∃ x, c.Admits tx x := by
  have hdelivered := c.delivered tx time
  generalize c.deliver tx time = r at hdelivered h
  cases hdelivered with
  | notAdmitted e => cases h
  | failed hadmits e hrun => exact ⟨_, hadmits⟩
  | done hadmits hrun => exact ⟨_, hadmits⟩

/-- A transaction that succeeds was admitted, and its operation was carried out. -/
theorem done_of_code {c : Chain} {tx : SignedTx} {time : Int64}
    (h : (c.deliver tx time).1.code = 0) :
    ∃ x, c.Admits tx x ∧
      (tx.op.program time).run (c.store.counted x) = (.ok (), (c.deliver tx time).2.store) := by
  have hdelivered := c.delivered tx time
  generalize c.deliver tx time = r at hdelivered h ⊢
  cases hdelivered with
  | notAdmitted e => exact absurd h e.code_ne_zero
  | failed hadmits e hrun => exact absurd h e.code_ne_zero
  | done hadmits hrun => exact ⟨_, hadmits, hrun⟩

/-- A transaction that succeeds is executed. -/
theorem executed_of_code {c : Chain} {tx : SignedTx} {time : Int64}
    (h : (c.deliver tx time).1.code = 0) : (c.deliver tx time).1.executed = true := by
  have hdelivered := c.delivered tx time
  generalize c.deliver tx time = r at hdelivered h ⊢
  cases hdelivered with
  | notAdmitted e => exact absurd h e.code_ne_zero
  | failed hadmits e hrun => rfl
  | done hadmits hrun => rfl

/-- Counting up the sequence of the signer is all that becomes of an account on admission. -/
theorem account_of_admits {c : Chain} (hs : c.store.Placed) {tx : SignedTx} {x : Account}
    (h : c.Admits tx x) (a : Address) :
    (c.store.counted x).account a = (c.store.account a).map fun y =>
      if tx.op.signer = a then { y with sequence := y.sequence + 1 } else y := by
  have haddress : x.address = tx.op.signer := (hs.of_account h.account).2.1
  rw [Store.counted, Store.account_file_account]
  by_cases ha : tx.op.signer = a
  · subst ha
    simp only [if_pos haddress, h.account, if_true, Option.map_some]
  · have hne : x.address ≠ a := fun hx => ha (haddress.symm.trans hx)
    simp only [if_neg hne, if_neg ha, Option.map_id']

/-- What a delivery makes of the account of an address: it is counted up if a transaction of the
address was executed, and rekeyed if the operation succeeded. -/
theorem account_deliver {c : Chain} (hs : c.store.Placed) (tx : SignedTx) (time : Int64)
    (a : Address) :
    (c.deliver tx time).2.store.account a =
      (c.store.account a).map (tx.rewrite (c.deliver tx time).1 a) := by
  have hdelivered := c.delivered tx time
  generalize c.deliver tx time = r at hdelivered ⊢
  cases hdelivered with
  | notAdmitted e =>
    have hkept : tx.rewrite (.notAdmitted e (c.height + 1)) a = id :=
      funext fun x => if_neg e.code_ne_zero
    rw [hkept, Option.map_id, id]
  | failed hadmits e hrun =>
    have hcounted : tx.rewrite (.failed e (c.height + 1)) a = fun y =>
        if tx.op.signer = a then { y with sequence := y.sequence + 1 } else y := by
      funext x
      simp [SignedTx.rewrite, TxResponse.failed, e.code_ne_zero]
    rw [hcounted]
    exact account_of_admits hs hadmits a
  | @done x hadmits t hrun =>
    have hrewritten : tx.rewrite (.ok (c.height + 1)) a = fun y =>
        tx.op.rekey a (if tx.op.signer = a then { y with sequence := y.sequence + 1 } else y) := by
      funext x
      simp [SignedTx.rewrite, TxResponse.ok]
    rw [hrewritten]
    dsimp only
    rw [Operation.account_of_run_ok (hs.counted x) hrun, account_of_admits hs hadmits,
      Option.map_map]
    rfl

/-- A run leaves the name of the chain. -/
theorem chainId_after (c : Chain) (ds : List Delivery) : (c.after ds).chainId = c.chainId := by
  refine after_induction (P := fun d => d.chainId = c.chainId) rfl ?_
  rintro d - b hb
  have hdelivered := b.delivered d.tx d.time
  generalize b.deliver d.tx d.time = r at hdelivered ⊢
  cases hdelivered <;> exact hb

/-- A delivery keeps every record at its place. -/
theorem deliver_placed {c : Chain} (hs : c.store.Placed) (tx : SignedTx) (time : Int64) :
    (c.deliver tx time).2.store.Placed := by
  have hdelivered := c.delivered tx time
  generalize c.deliver tx time = r at hdelivered ⊢
  cases hdelivered with
  | notAdmitted e => exact hs
  | failed hadmits e hrun => exact hs.counted _
  | done hadmits hrun => exact Operation.placed_of_run_ok (hs.counted _) hrun

/-- A chain starts from the store that its genesis leaves. -/
theorem run_of_genesis {chainId : String} {g : Genesis} {c : Chain}
    (h : ofGenesis chainId g = .ok c) : g.program.run .empty = (.ok (), c.store) := by
  unfold ofGenesis at h
  split at h
  · next hrun =>
    cases h
    exact hrun
  · cases h

/-- The store of a genesis holds rows of the genesis. -/
theorem holds_of_genesis {chainId : String} {g : Genesis} {c : Chain}
    (h : ofGenesis chainId g = .ok c) : c.store.Holds (Row.OfGenesis g) :=
  Genesis.holds_of_run (run_of_genesis h)

/-- A run keeps every record at its place. -/
theorem placed_after {c : Chain} (hs : c.store.Placed) (ds : List Delivery) :
    (c.after ds).store.Placed :=
  after_induction (P := fun c => c.store.Placed) hs fun d _ _ hs => deliver_placed hs d.tx d.time

/-- Every run from a genesis keeps every record at its place. -/
theorem after_placed {chainId : String} {g : Genesis} {c : Chain}
    (h : ofGenesis chainId g = .ok c) (ds : List Delivery) : (c.after ds).store.Placed :=
  placed_after (holds_of_genesis h).placed ds

/-- The chain of a genesis has the name that it was given. -/
theorem chainId_of_genesis {chainId : String} {g : Genesis} {c : Chain}
    (h : ofGenesis chainId g = .ok c) : c.chainId = chainId := by
  unfold ofGenesis at h
  split at h <;> cases h
  rfl

/-- The account of an address, when every record is at its place. -/
theorem account_eq {c : Chain} (hs : c.store.Placed) (a : Address) :
    c.account a = .ok (c.store.account a) := by
  rw [account, Access.eval, hs.account_run]

end Chain

/-! ## A small ledger

The keys are those of the seeds of ones, twos and threes. -/

namespace SmallLedger

/-- The key of the service that keys attendees. -/
def masterKey : PublicKey :=
  ⟨⟨Bytes.ofNatBE 32 0x8a88e3dd7409f195fd52db2d3cba5d72ca6709bf1d94121bf3748801b40f6f5c,
    Bytes.length_ofNatBE ..⟩⟩

/-- The key of the service that redeems prizes. -/
def redeemKey : PublicKey :=
  ⟨⟨Bytes.ofNatBE 32 0x8139770ea87d175f56a35466c34c7ecccb8d8a91b4ee37a25df60f5b8fc9b394,
    Bytes.length_ofNatBE ..⟩⟩

/-- A key that an attendee controls. -/
def attendeeKey : PublicKey :=
  ⟨⟨Bytes.ofNatBE 32 0xed4928c628d1c2c6eae90338905995612959273a5c63f93636c14614ac8737d1,
    Bytes.length_ofNatBE ..⟩⟩

/-- One attendee and the default prizes. -/
def genesis : Genesis := (Genesis.new masterKey redeemKey).withAttendee "1" "GA"

/-- The chain that starts from this genesis. -/
def chain : Chain :=
  match Chain.ofGenesis "test-chain" genesis with
  | .ok c => c
  | .error _ => ⟨"test-chain", 0, .empty⟩

/-- The keying of the attendee, signed with the key of the keying service. -/
def keyGrant : Delivery where
  tx :=
    { op := .key ⟨.ofTicket "1", .ofPublicKey masterKey, attendeeKey, .ofSecret (Bytes.ofText "s")⟩
      accountNumber := 0
      sequence := 0
      pubKey := masterKey
      signature := ⟨Bytes.ofNatBE 64
        0x2ede6e5494463200ae79c966fbc59526c92ab7dc52248a6fdbe40c4d566cce18fed3e568aa2ff337d0847e26594b92e4ac0250fc93e953df32b33c2d18eedd0e⟩ }
  time := 0

/-- The keying sent twice. -/
def replay : List Delivery := [keyGrant, keyGrant]

/-- A genesis that is accepted starts a chain. -/
theorem ofGenesis_of_isOk {g : Genesis} (h : (Chain.ofGenesis "test-chain" g).isOk = true) :
    ∃ c, Chain.ofGenesis "test-chain" g = .ok c := by
  cases hc : Chain.ofGenesis "test-chain" g with
  | ok c => exact ⟨c, rfl⟩
  | error e =>
    rw [hc] at h
    cases h

/-- The genesis is accepted. -/
theorem ofGenesis_eq : Chain.ofGenesis "test-chain" genesis = .ok chain := by
  have hok : (Chain.ofGenesis "test-chain" genesis).isOk = true := by decide +kernel
  obtain ⟨c, hc⟩ := ofGenesis_of_isOk hok
  unfold chain
  rw [hc]

end SmallLedger

end ConferenceLedger

import ConferenceLedger.Proofs.Ledger.Lifecycle
import ConferenceLedger.Proofs.Ledger.Verdicts

/-!
# Who has a signing key

A genesis gives a key to the accounts of its two services, and a keying gives one to the account
of an attendee. A keying asks the record of the attendee, and not the account, whether the address
has a key. So an account keeps the key that it has, with one exception: a keying of a service that
has no record of an attendee, or one without a key, replaces the key of the service.
-/

namespace ConferenceLedger

/-- The addresses of the two services of a genesis. -/
def Genesis.IsService (g : Genesis) (a : Address) : Prop :=
  a = .ofPublicKey g.keyService ∨ a = .ofPublicKey g.redeemService

/-- A store in which keys are where the genesis and keyings put them. -/
structure Store.KeysPlaced (g : Genesis) (s : Store) : Prop where
  /-- The keying service is that of the genesis. -/
  master : s.master = some (.ofPublicKey g.keyService)
  /-- An account with a key is that of a service, or its attendee was keyed. -/
  keyed : ∀ a x, s.account a = some x → x.pubKey ≠ none →
    g.IsService a ∨ ¬(s.attendeeOrBlank a).custody.InPhase .unkeyed

namespace Custody

/-- The keying service can key an address that has an account and no keyed attendee. -/
theorem grantKey_run {members : List Address} {m : KeyGrant} {s : Store} {x : Account}
    (hs : s.Sound members) (hmaster : s.master = some m.master)
    (hx : s.account m.attendee = some x) (hkey : (s.attendeeOrBlank m.attendee).isKeyed = false) :
    ((grantKey m).run s).1 = .ok () := by
  rw [grantKey_verdict hs, Operation.verdict, if_neg (not_not_intro hmaster), hx,
    if_neg (Option.some_ne_none x), if_neg (Bool.eq_false_iff.mp hkey)]

end Custody

namespace Operation

/-- The key that an operation installs on the account of an address, if it does. -/
def installs (a : Address) : Operation → Option PublicKey
  | key m => if m.attendee = a then some m.newKey else none
  | _ => none

/-- An account that an operation rekeys has the key that is installed, or else its own. -/
theorem pubKey_rekey (op : Operation) (a : Address) (x : Account) :
    (op.rekey a x).pubKey = (op.installs a).or x.pubKey := by
  cases op with
  | key m =>
    rw [rekey, installs]
    by_cases ha : m.attendee = a
    · rw [if_pos ha, if_pos ha]
      rfl
    · rw [if_neg ha, if_neg ha]
      rfl
  | _ => rfl

/-- An operation installs a key only where it leads to the phase of a key. -/
theorem installs_of_leadsTo {op : Operation} {a : Address} (h : op.leadsTo a = none) :
    op.installs a = none := by
  cases op with
  | key m =>
    rw [leadsTo] at h
    split_ifs at h with ha
    exact if_neg ha
  | _ => rfl

end Operation

/-- The keying service keys itself, with the key of the attendee. -/
def SmallLedger.keySelf : Delivery where
  tx :=
    { op := .key ⟨.ofPublicKey masterKey, .ofPublicKey masterKey, attendeeKey,
        .ofSecret (Bytes.ofText "s")⟩
      accountNumber := 0
      sequence := 0
      pubKey := masterKey
      signature := ⟨Bytes.ofNatBE 64
        0xf380e70fd0af63f8ffc8d525e2eb321f7c7589a32b1c609961d45c79e8f2882f98aed7decb237023e260f0589ff1938bde2b70eb3289889ef0567d663f5d1f02⟩ }
  time := 0

namespace Chain

variable {chainId : String} {g : Genesis} {c : Chain} {members : List Address}

/-- Counting up the sequence of the signer leaves the keys of all accounts. -/
theorem pubKey_counted (hs : c.store.Placed) {tx : SignedTx} {x : Account} (h : c.Admits tx x)
    (a : Address) :
    ((c.store.counted x).account a).map (·.pubKey) = (c.store.account a).map (·.pubKey) := by
  rw [account_of_admits hs h, Option.map_map]
  congr 1
  funext y
  rw [Function.comp_apply]
  split_ifs <;> rfl

/-- A delivery leaves the key of every account, unless it succeeds and installs another. -/
theorem pubKey_deliver (hs : c.store.Placed) (tx : SignedTx) (time : Int64) (a : Address) :
    ((c.deliver tx time).2.store.account a).map (·.pubKey) = (c.store.account a).map fun x =>
      if (c.deliver tx time).1.code = 0 then (tx.op.installs a).or x.pubKey else x.pubKey := by
  rw [account_deliver hs, Option.map_map]
  congr 1
  funext x
  rw [Function.comp_apply, SignedTx.rewrite]
  split_ifs <;> simp only [Operation.pubKey_rekey]

/-- A delivery leaves the address of the keying service. -/
theorem master_deliver (hs : c.store.Placed) (tx : SignedTx) (time : Int64) :
    (c.deliver tx time).2.store.master = c.store.master := by
  have hdelivered := c.delivered tx time
  generalize c.deliver tx time = r at hdelivered ⊢
  cases hdelivered with
  | notAdmitted e => rfl
  | failed hadmits e hrun => exact Store.master_counted ..
  | @done x hadmits t hrun =>
    have hkept : t.master = (c.store.counted x).master := Operation.master_of_run_ok (hs.counted x) hrun
    exact hkept.trans (Store.master_counted ..)

/-- In the store of a genesis keys are where the genesis puts them. -/
theorem keysPlaced_of_genesis (h : ofGenesis chainId g = .ok c) : c.store.KeysPlaced g := by
  constructor
  · exact (Genesis.services_of_run (run_of_genesis h)).1
  · intro a x hx hne
    obtain ⟨hopens, haddress, -⟩ := (holds_of_genesis h).of_account hx
    obtain ⟨k, hk⟩ := Option.ne_none_iff_exists'.mp hne
    obtain ⟨hown, hservice⟩ := hopens.key k hk
    left
    rw [haddress] at hown
    rcases hservice with rfl | rfl
    · exact Or.inl hown
    · exact Or.inr hown

/-- A delivery keeps keys where the genesis and keyings put them. -/
theorem deliver_keysPlaced (hs : c.store.Sound members) (hcustody : c.store.InCustody)
    (hkeys : c.store.KeysPlaced g) {tx : SignedTx} (htx : Fits tx.op) (time : Int64) :
    (c.deliver tx time).2.store.KeysPlaced g := by
  constructor
  · rw [master_deliver hs.rows.placed]
    exact hkeys.master
  · intro a y hy hne
    have hpubKey := pubKey_deliver hs.rows.placed tx time a
    rw [hy, Option.map_some] at hpubKey
    obtain ⟨x, hx, hinstalled⟩ := Option.map_eq_some_iff.mp hpubKey.symm
    by_cases hservice : g.IsService a
    · exact Or.inl hservice
    · right
      intro hunkeyed
      -- an address that is still unkeyed was led nowhere, so its account had the key before
      obtain ⟨p, hp⟩ := hcustody.phase a
      obtain ⟨q, hq, hhistory⟩ := (deliver_inCustody hs hcustody htx time).2 a p hp
      have hqu := hq.unique hunkeyed
      subst hqu
      obtain ⟨hbefore, hled⟩ := List.append_eq_nil_iff.mp hhistory.symm
      have hpu : p = .unkeyed := Phase.history_inj hbefore
      subst hpu
      have hsame : y.pubKey = x.pubKey := by
        rw [← hinstalled]
        split_ifs with hcode
        · rw [ledTo, if_pos hcode, Option.toList_eq_nil_iff] at hled
          rw [Operation.installs_of_leadsTo hled, Option.none_or]
        · rfl
      have hkeyed := hkeys.keyed a x hx (hsame ▸ hne)
      exact hkeyed.elim hservice (absurd hp)

/-- In every state that a run of operations that fit reaches from a sized genesis, keys are where
the genesis and keyings put them. -/
theorem after_keysPlaced (hg : g.Sized) (h : ofGenesis chainId g = .ok c) {ds : List Delivery}
    (hds : ∀ d ∈ ds, Fits d.tx.op) : (c.after ds).store.KeysPlaced g := by
  have hrun : (c.after ds).store.Sound g.members ∧ (c.after ds).store.InCustody ∧
      (c.after ds).store.KeysPlaced g := by
    refine after_induction
      (P := fun c => c.store.Sound g.members ∧ c.store.InCustody ∧ c.store.KeysPlaced g)
      ⟨sound_of_genesis hg h, inCustody_of_genesis hg h, keysPlaced_of_genesis h⟩ ?_
    rintro d hd c ⟨hs, hcustody, hkeys⟩
    exact ⟨deliver_sound hs (hds d hd) d.time, (deliver_inCustody hs hcustody (hds d hd) d.time).1,
      deliver_keysPlaced hs hcustody hkeys (hds d hd) d.time⟩
  exact hrun.2.2

/-- A keying of an address that has an account succeeds if and only if it is executed, comes from
the keying service, and finds the address unkeyed. -/
theorem keying_succeeds_iff (hs : c.store.Sound members) (hcustody : c.store.InCustody)
    {tx : SignedTx} {m : KeyGrant} (hop : tx.op = .key m) (time : Int64) {x : Account}
    (hx : c.store.account m.attendee = some x) :
    (c.deliver tx time).1.code = 0 ↔ (c.deliver tx time).1.executed = true ∧
      c.store.master = some m.master ∧
      (c.store.attendeeOrBlank m.attendee).custody.InPhase .unkeyed := by
  have hdelivered := c.delivered tx time
  generalize c.deliver tx time = r at hdelivered ⊢
  cases hdelivered with
  | notAdmitted e =>
    constructor
    · intro hcode
      exact absurd hcode e.code_ne_zero
    · rintro ⟨hexecuted, -⟩
      cases hexecuted
  | @failed y hadmits e hrun =>
    constructor
    · intro hcode
      exact absurd hcode e.code_ne_zero
    · rintro ⟨-, hmaster, hunkeyed⟩
      have hsame := pubKey_counted hs.rows.placed hadmits m.attendee
      rw [hx, Option.map_some] at hsame
      obtain ⟨z, hz, -⟩ := Option.map_eq_some_iff.mp hsame
      have hkey : ((c.store.counted y).attendeeOrBlank m.attendee).isKeyed = false := by
        rw [Store.attendeeOrBlank_counted]
        exact congrArg Option.isSome hunkeyed.1
      rw [← Store.master_counted] at hmaster
      rw [hop] at hrun
      have hok := Custody.grantKey_run (counted_sound hs hadmits) hmaster hz hkey
      exact absurd (hok.symm.trans hrun) (by nofun)
  | @done y hadmits t hrun =>
    rw [hop] at hrun
    obtain ⟨hmaster, hkey, -⟩ := Custody.grantKey_run_ok hrun
    rw [Store.master_counted] at hmaster
    rw [Store.attendeeOrBlank_counted] at hkey
    have hunkeyed : (c.store.attendeeOrBlank m.attendee).custody.InPhase .unkeyed := by
      obtain ⟨p, hp⟩ := hcustody.phase m.attendee
      have hnone : (c.store.attendeeOrBlank m.attendee).pubKey = none :=
        Option.not_isSome_iff_eq_none.mp (Bool.eq_false_iff.mp hkey)
      rw [hp.eq_unkeyed hnone] at hp
      exact hp
    constructor
    · intro _
      exact ⟨rfl, hmaster, hunkeyed⟩
    · intro _
      rfl

/-- What a delivery with a response does about the key of an account. -/
structure GuardsKey (g : Genesis) (c : Chain) (tx : SignedTx) (r : TxResponse) (c' : Chain)
    (a : Address) (k : PublicKey) : Prop where
  /-- The account keeps its key, unless the transaction is a keying of it and succeeds. -/
  kept : (∀ m, tx.op = .key m → m.attendee = a → r.code ≠ 0) →
    ∃ y, c'.account a = .ok (some y) ∧ y.pubKey = some k
  /-- A keying of the account that succeeds replaces the key. -/
  replaced : ∀ m, tx.op = .key m → m.attendee = a → r.code = 0 →
    ∃ y, c'.account a = .ok (some y) ∧ y.pubKey = some m.newKey
  /-- A keying of the account succeeds if and only if it is executed, comes from the keying
  service of the genesis, and finds no key in the record of the attendee. -/
  succeeds_iff : ∀ m, tx.op = .key m → m.attendee = a → (r.code = 0 ↔
    r.executed = true ∧ m.master = .ofPublicKey g.keyService ∧ c.Shows a .unkeyed)
  /-- Only a service has a key on its account and none in the record of an attendee. -/
  service : c.Shows a .unkeyed → g.IsService a

/-- In every state that a run of operations that fit reaches from a sized genesis, an account
with a key keeps it, unless it is that of a service that was not keyed, and the keying service
keys it. -/
theorem guardsKey (hg : g.Sized) (h : ofGenesis chainId g = .ok c) {ds : List Delivery}
    (hds : ∀ d ∈ ds, Fits d.tx.op) {a : Address} {x : Account}
    (hx : (c.after ds).account a = .ok (some x)) {k : PublicKey} (hk : x.pubKey = some k)
    (tx : SignedTx) (time : Int64) :
    GuardsKey g (c.after ds) tx ((c.after ds).deliver tx time).1 ((c.after ds).deliver tx time).2
      a k := by
  have hs := after_sound hg h hds
  have hcustody := after_inCustody hg h hds
  have hkeys := after_keysPlaced hg h hds
  have hplaced := hs.rows.placed
  have hfound : (c.after ds).store.account a = some x := by
    rw [account_eq hplaced] at hx
    exact Except.ok.inj hx
  have hafter := account_eq (deliver_placed hplaced tx time) a
  have hpubKey := pubKey_deliver hplaced tx time a
  rw [hfound, Option.map_some, hk] at hpubKey
  obtain ⟨y, hy, hinstalled⟩ := Option.map_eq_some_iff.mp hpubKey
  rw [hy] at hafter
  constructor
  · intro hrejected
    refine ⟨y, hafter, ?_⟩
    rw [hinstalled]
    split_ifs with hcode
    · have hnone : tx.op.installs a = none := by
        unfold Operation.installs
        split
        · next m hop => exact if_neg fun ha => hrejected m hop ha hcode
        · rfl
      rw [hnone, Option.none_or]
    · rfl
  · intro m hop ha hcode
    refine ⟨y, hafter, ?_⟩
    rw [hinstalled, if_pos hcode, hop, Operation.installs, if_pos ha, Option.some_or]
  · intro m hop ha
    subst ha
    have hmaster : (c.after ds).store.master = some m.master ↔
        m.master = .ofPublicKey g.keyService := by
      rw [hkeys.master, Option.some_inj]
      exact eq_comm
    rw [keying_succeeds_iff hs hcustody hop time hfound, hmaster, shows_iff hs]
  · intro hunkeyed
    have hkeyed := hkeys.keyed a x hfound (by rw [hk]; exact Option.some_ne_none k)
    exact hkeyed.resolve_right (not_not_intro ((shows_iff hs).mp hunkeyed))

/-- On the small ledger the keying service keys itself, and the account of the service, which had
a key, gets another. -/
theorem guardsKey_keySelf :
    ∃ x, (SmallLedger.chain.after []).account (.ofPublicKey SmallLedger.masterKey) = .ok (some x) ∧
      x.pubKey = some SmallLedger.masterKey ∧
      ((SmallLedger.chain.after []).deliver SmallLedger.keySelf.tx 0).1.code = 0 ∧
      ∃ y, ((SmallLedger.chain.after []).deliver SmallLedger.keySelf.tx 0).2.account
        (.ofPublicKey SmallLedger.masterKey) = .ok (some y) ∧
          y.pubKey = some SmallLedger.attendeeKey := by
  have hfits : ∀ d ∈ ([] : List Delivery), Fits d.tx.op := fun d hd => absurd hd List.not_mem_nil
  have hx := account_eq (after_placed SmallLedger.ofGenesis_eq [])
    (.ofPublicKey SmallLedger.masterKey)
  have hfound : (SmallLedger.chain.after []).store.account (.ofPublicKey SmallLedger.masterKey) =
      some ⟨.ofPublicKey SmallLedger.masterKey, 0, 0, some SmallLedger.masterKey⟩ := by
    decide +kernel
  have hcode : ((SmallLedger.chain.after []).deliver SmallLedger.keySelf.tx 0).1.code = 0 := by
    decide +kernel
  rw [hfound] at hx
  have hguards := guardsKey SmallLedger.sized SmallLedger.ofGenesis_eq hfits hx rfl
    SmallLedger.keySelf.tx 0
  exact ⟨_, hx, rfl, hcode, hguards.replaced _ rfl rfl hcode⟩

end Chain

end ConferenceLedger

import ConferenceLedger.Proofs.Ledger.Footprint
import ConferenceLedger.Proofs.Ledger.Listing

/-!
# Independent transactions

Two transactions that name no address in common share nothing but the prizes. Neither changes what
the other reads, as long as no prize runs out in between, so each does in either order what it does
alone. How many units are left in the end depends only on who has reached which tier.
-/

namespace ConferenceLedger

/-- Two answers that differ in the height of the block at most. -/
structure TxResponse.SameOutcome (r r' : TxResponse) : Prop where
  /-- The code is the same. -/
  code : r'.code = r.code
  /-- The log is the same. -/
  log : r'.log = r.log
  /-- Both were executed or neither. -/
  executed : r'.executed = r.executed

namespace Store

variable {members : List Address} {s t : Store}

/-- Counting up a sequence leaves the tally. -/
theorem tallyOf_counted (x : Account) (tier : UInt8) :
    (s.counted x).tallyOf members tier = s.tallyOf members tier := by
  rw [tallyOf, tallyOf, stock_of_prize (prize_counted s x tier)]
  simp only [total, attendeeOrBlank_counted]

/-- Two stores that agree still do when the same sequence is counted up. -/
theorem AgreesOn.counted {l : List Address} (h : s.AgreesOn l t) (x : Account) :
    (s.counted x).AgreesOn l (t.counted x) where
  entries k hk := get?_fileAll_congr [_] (h.entries k hk)
  services cls := get?_fileAll_congr [_] (h.services cls)
  brand := by
    funext tier
    rw [brand_of_prize (prize_counted t x tier), brand_of_prize (prize_counted s x tier), h.brand]
  supply tier := by
    rw [stock_of_prize (prize_counted s x tier), stock_of_prize (prize_counted t x tier)]
    exact h.supply tier

/-- An entry under the key of a prize is the prize of the tier. -/
theorem Sound.get?_prize (hs : s.Sound members) (tier : UInt8) :
    s.get? (StoreKey.prize tier) = (s.prize tier).map put := by
  cases hget : s.get? (StoreKey.prize tier) with
  | none =>
    have hnone : s.prize tier = none := by
      rw [Store.prize, record?, hget, Option.bind_none]
    rw [hnone, Option.map_none]
  | some v =>
    obtain ⟨r, hcls, -, hr, hkey, rfl⟩ := hs.rows.get?_of_head? hget rfl
    cases r with
    | prize p =>
      have htier : p.tier = tier := StoreKey.prize_inj.mp hkey
      have hp : s.prize tier = some p := record?_of_get? hr hget
      rw [hp, Option.map_some]
      rfl
    | _ => cases hcls

/-- Two stores have the same prize of a tier if it is the same but for the units left and as many
are left. -/
theorem prize_congr {tier : UInt8} (hbrand : t.brand tier = s.brand tier)
    (hstock : t.stock tier = s.stock tier) : t.prize tier = s.prize tier := by
  unfold brand at hbrand
  unfold stock at hstock
  cases hp : s.prize tier with
  | none =>
    rw [hp] at hbrand
    exact Option.map_eq_none_iff.mp hbrand
  | some p =>
    rw [hp, Option.map_some] at hbrand
    obtain ⟨q, hq, heq⟩ := Option.map_eq_some_iff.mp hbrand
    rw [hp, hq] at hstock
    have hquantity : q.quantity = p.quantity := UInt32.toNat_inj.mp hstock
    rw [hq]
    cases p
    cases q
    cases hquantity
    cases heq
    rfl

/-- Two stores that others became by dealing out units have the same prizes, if the prizes are the
same but for the units left and the same attendees have reached every tier. -/
theorem prize_of_deals {u : Store} (hbrand : t.brand = u.brand)
    (hattendee : ∀ a, t.attendee a = u.attendee a)
    (ht : ∀ tier, (s.tallyOf members tier).Deals (t.tallyOf members tier))
    (hu : ∀ tier, (s.tallyOf members tier).Deals (u.tallyOf members tier)) (tier : UInt8) :
    t.prize tier = u.prize tier := by
  have hreached : t.total members (·.reaches tier) = u.total members (·.reaches tier) := by
    simp only [total, attendeeOrBlank, hattendee]
  obtain ⟨j, hleft, hreachedt, -⟩ := ht tier
  obtain ⟨k, hleft', hreachedu, -⟩ := hu tier
  have hsame : j = k := by
    change t.total members (·.reaches tier) = _ + j at hreachedt
    change u.total members (·.reaches tier) = _ + k at hreachedu
    omega
  have hstock : t.stock tier = u.stock tier := by
    change t.stock tier = _ - j at hleft
    change u.stock tier = _ - k at hleft'
    rw [hleft, hleft', hsame]
  exact prize_congr (congrFun hbrand tier) hstock

end Store

namespace SmallLedger

/-- The keying service keys the second attendee. -/
def keyOther : Delivery where
  tx :=
    { op := .key ⟨.ofTicket "2", .ofPublicKey masterKey, attendeeKey, .ofSecret (Bytes.ofText "s")⟩
      accountNumber := 0
      sequence := 1
      pubKey := masterKey
      signature := ⟨Bytes.ofNatBE 64
        0xf66ceee9d4966bed4c1328601584e79179c5adb0555d40f5b48f79a6e1d5e584177e3d6095182d837ff8ae8b0b136fdbd7b94aa570516f324a0464b47b229206⟩ }
  time := 3

/-- The redeeming service hands the first attendee what was won. -/
def collection : Delivery where
  tx :=
    { op := .redeem ⟨.ofPublicKey redeemKey, "1"⟩
      accountNumber := 1
      sequence := 0
      pubKey := redeemKey
      signature := ⟨Bytes.ofNatBE 64
        0xd85d449f86da2502fc26584febb70b38a6e3d11e202a894006a374b4b51f6b865539087bc1266f0d47b82d4b9fc7e1402081b196e19a3bfb0502df6951905708⟩ }
  time := 5

/-- The default prizes when the first attendee has won the one of the first tier. -/
def onePackGone : List Prize := [
  ⟨1, 5, "Sticker pack", 499⟩,
  ⟨2, 20, "T-shirt", 200⟩,
  ⟨3, 50, "Hoodie", 100⟩,
  ⟨4, 100, "Hardware wallet", 25⟩,
  ⟨5, 200, "Conference pass", 5⟩]

/-- The keying fits. -/
theorem fits_keyOther : Fits keyOther.tx.op := trivial

/-- The redemption fits. -/
theorem fits_collection : Fits collection.tx.op := by
  have hticket : (Bytes.ofText "1").length < UInt64.size := by decide
  exact hticket

end SmallLedger

namespace Chain

variable {members : List Address} {c c' : Chain}

/-- Whether a transaction is admitted depends on the account of its signer. -/
theorem admission_congr {s t : Store} (hs : s.Placed) (ht : t.Placed) {chainId : String}
    {tx : SignedTx} (h : t.account tx.op.signer = s.account tx.op.signer) :
    (admission chainId tx).eval t = (admission chainId tx).eval s := by
  have hread := hs.account_run tx.op.signer
  have hread' := ht.account_run tx.op.signer
  rw [h] at hread'
  rw [Access.eval, Access.eval, admission]
  cases hcheck : tx.op.check with
  | error e => rfl
  | ok =>
    have hok : ∀ u : Store, (Access.ofExcept (.ok () : Except LedgerError Unit)).run u =
        (.ok (), u) := fun _ => rfl
    rw [Access.run_bind_of_ok (hok t), Access.run_bind_of_ok (hok s), Access.run_bind_of_ok hread,
      Access.run_bind_of_ok hread']
    cases s.account tx.op.signer with
    | none => rfl
    | some x =>
      dsimp only
      cases tx.checkSignature chainId <;> split_ifs <;> rfl

/-- A transaction that is not admitted counts as a block and no more. -/
theorem deliver_notAdmitted {tx : SignedTx} {time : Int64} {e : LedgerError}
    (h : (admission c.chainId tx).eval c.store = .error e) : c.deliver tx time =
      (.notAdmitted e (c.height + 1), { c with height := c.height + 1 }) := by
  rw [deliver, h]

/-- A transaction that is admitted and whose operation does not go through is counted. -/
theorem deliver_failed {tx : SignedTx} {time : Int64} {x : Account} {e : LedgerError}
    (hs : (c.store.counted x).Sound members) (h : (admission c.chainId tx).eval c.store = .ok x)
    (hverdict : tx.op.verdict (c.store.counted x) = .error e) : c.deliver tx time =
      (.failed e (c.height + 1), { c with height := c.height + 1, store := c.store.counted x }) := by
  have hexecute : tx.op.execute time
      ((Records.setAccount { x with sequence := x.sequence + 1 }).run c.store).2 =
        (.error e, c.store.counted x) := Operation.execute_of_verdict_error hs hverdict
  rw [deliver, h]
  dsimp only
  rw [hexecute]

/-- A transaction that is admitted and whose operation goes through is counted and carried out. -/
theorem deliver_done {tx : SignedTx} {x : Account} (hs : (c.store.counted x).Sound members)
    (h : (admission c.chainId tx).eval c.store = .ok x)
    (hverdict : tx.op.verdict (c.store.counted x) = .ok ()) (time : Int64) :
    ∃ t, (tx.op.program time).run (c.store.counted x) = (.ok (), t) ∧ c.deliver tx time =
      (.ok (c.height + 1), { c with height := c.height + 1, store := t }) := by
  obtain ⟨t, hrun, hexecuted⟩ := Operation.execute_of_verdict_ok hs time hverdict
  have hexecute : tx.op.execute time
      ((Records.setAccount { x with sequence := x.sequence + 1 }).run c.store).2 = (.ok (), t) :=
    hexecuted
  refine ⟨t, hrun, ?_⟩
  rw [deliver, h]
  dsimp only
  rw [hexecute]

/-- A transaction leaves the store, or counts up the sequence of its signer and carries out its
operation or not. -/
theorem store_deliver (c : Chain) (tx : SignedTx) (time : Int64) :
    (c.deliver tx time).2.store = c.store ∨ ∃ x, c.Admits tx x ∧
      ((c.deliver tx time).2.store = c.store.counted x ∨
        (tx.op.program time).run (c.store.counted x) =
          (.ok (), (c.deliver tx time).2.store)) := by
  have hdelivered := c.delivered tx time
  generalize c.deliver tx time = r at hdelivered ⊢
  cases hdelivered with
  | notAdmitted e => exact Or.inl rfl
  | failed hadmits e hrun => exact Or.inr ⟨_, hadmits, Or.inl rfl⟩
  | done hadmits hrun => exact Or.inr ⟨_, hadmits, Or.inr hrun⟩

/-- A transaction leaves every entry that concerns none of the addresses that it names, apart from
prizes. -/
theorem get?_deliver (hs : c.store.Sound members) {tx : SignedTx} (htx : Fits tx.op)
    (time : Int64) {k : Bytes} (hk : ¬StoreKey.Concerns tx.op.parties k)
    (hprize : ∀ tier, k ≠ StoreKey.prize tier) :
    (c.deliver tx time).2.store.get? k = c.store.get? k := by
  have hcounted : ∀ x, c.Admits tx x → (c.store.counted x).get? k = c.store.get? k := by
    intro x hadmits
    have haddress := (hs.rows.of_account hadmits.account).2.1
    apply Store.get?_set_ne
    intro heq
    have hconcerns : StoreKey.Concerns tx.op.parties (StoreKey.account x.address) := by
      rw [haddress]
      exact .account tx.op.signer_mem_parties
    exact hk (heq ▸ hconcerns)
  rcases c.store_deliver tx time with hkept | ⟨x, hadmits, hstore | hrun⟩
  · rw [hkept]
  · rw [hstore, hcounted x hadmits]
  · have hnames : ¬tx.op.Names k := fun h => hk (Operation.concerns_of_names h)
    rw [Operation.get?_of_run_ok (counted_sound hs hadmits) htx hrun hnames hprize,
      hcounted x hadmits]

/-- What a delivery makes of the prizes: the table stays, at most two units of a tier are taken, and
they are dealt to those who climb to it. -/
structure DealsPrizes (members : List Address) (s t : Store) : Prop where
  /-- The table stays. -/
  brand : t.brand = s.brand
  /-- At most two units of a tier are taken. -/
  stock : ∀ tier, t.stock tier ≤ s.stock tier ∧ s.stock tier ≤ t.stock tier + 2
  /-- The units are dealt to those who climb to the tier. -/
  deals : ∀ tier, (s.tallyOf members tier).Deals (t.tallyOf members tier)

/-- Every delivery deals the prizes so. -/
theorem deliver_dealsPrizes (hs : c.store.Sound members) {tx : SignedTx} (htx : Fits tx.op)
    (time : Int64) : DealsPrizes members c.store (c.deliver tx time).2.store := by
  have hcounted : ∀ x, DealsPrizes members c.store (c.store.counted x) := by
    intro x
    refine ⟨funext fun tier => Store.brand_of_prize (Store.prize_counted _ x tier), ?_, ?_⟩
    · intro tier
      rw [Store.stock_of_prize (Store.prize_counted _ x tier)]
      omega
    · intro tier
      rw [Store.tallyOf_counted]
      exact .refl _
  rcases c.store_deliver tx time with hkept | ⟨x, hadmits, hstore | hrun⟩
  · rw [hkept]
    exact ⟨rfl, fun tier => by omega, fun tier => .refl _⟩
  · rw [hstore]
    exact hcounted x
  · have hsound := counted_sound hs hadmits
    have heffect := Operation.effect_of_run_ok hsound htx hrun
    obtain ⟨hbrand, hstock, hdeals⟩ := hcounted x
    refine ⟨?_, ?_, ?_⟩
    · rw [← hbrand]
      exact funext fun tier => heffect.brand hsound tier
    · intro tier
      have hbefore := heffect.stock hsound tier
      rw [Store.stock_of_prize (Store.prize_counted _ x tier)] at hbefore
      exact hbefore
    · exact fun tier => (hdeals tier).trans (heffect.deals hsound tier)

/-- A transaction does the same on two chains that agree on the addresses that it names. -/
theorem deliver_congr (hid : c'.chainId = c.chainId) (hs : c.store.Sound members)
    (hs' : c'.store.Sound members) {tx : SignedTx} (time : Int64)
    (h : c.store.AgreesOn tx.op.parties c'.store) :
    (c.deliver tx time).1.SameOutcome (c'.deliver tx time).1 ∧
      ∀ k, StoreKey.Concerns tx.op.parties k →
        (c'.deliver tx time).2.store.get? k = (c.deliver tx time).2.store.get? k := by
  have hadmission : (admission c'.chainId tx).eval c'.store =
      (admission c.chainId tx).eval c.store := by
    rw [hid]
    exact admission_congr hs.rows.placed hs'.rows.placed (h.account tx.op.signer_mem_parties)
  cases hadmitted : (admission c.chainId tx).eval c.store with
  | error e =>
    rw [deliver_notAdmitted hadmitted, deliver_notAdmitted (hadmission.trans hadmitted)]
    exact ⟨⟨rfl, rfl, rfl⟩, h.entries⟩
  | ok x =>
    have hadmitted' := hadmission.trans hadmitted
    have hcounted := h.counted x
    have hsound := counted_sound hs (admits_of_admission hadmitted)
    have hsound' := counted_sound hs' (admits_of_admission hadmitted')
    have hsame := hcounted.verdict
    cases hverdict : tx.op.verdict (c.store.counted x) with
    | error e =>
      rw [deliver_failed hsound hadmitted hverdict,
        deliver_failed hsound' hadmitted' (hsame.trans hverdict)]
      exact ⟨⟨rfl, rfl, rfl⟩, hcounted.entries⟩
    | ok =>
      obtain ⟨t, hrun, hdone⟩ := deliver_done hsound hadmitted hverdict time
      obtain ⟨t', hrun', hdone'⟩ := deliver_done hsound' hadmitted' (hsame.trans hverdict) time
      rw [hdone, hdone']
      exact ⟨⟨rfl, rfl, rfl⟩, fun k hk =>
        Operation.get?_run_congr hcounted hsound hsound' hrun hrun' hk⟩

/-- A transaction leaves what concerns other addresses, and two units of every prize of which there
were four. -/
theorem agreesOn_deliver (hs : c.store.Sound members) {tx : SignedTx} (htx : Fits tx.op)
    (time : Int64) {l : List Address} (hdisjoint : l.Disjoint tx.op.parties)
    (hsupply : ∀ tier, c.store.stock tier = 0 ∨ 4 ≤ c.store.stock tier) :
    c.store.AgreesOn l (c.deliver tx time).2.store := by
  obtain ⟨hbrand, hstock, -⟩ := deliver_dealsPrizes hs htx time
  refine ⟨fun k hk => ?_, fun cls => ?_, hbrand, fun tier => ?_⟩
  · exact get?_deliver hs htx time (fun hk' => hk.not_disjoint hk' hdisjoint) hk.ne_prize
  · apply get?_deliver hs htx time (StoreKey.Concerns.not_single cls)
    intro tier heq
    simp [StoreKey.prize, StoreKey.member, StoreKey.collection] at heq
  · have hbefore := hsupply tier
    have htaken := hstock tier
    omega

/-- Two deliveries that have the same effect in either order. -/
structure Commute (c : Chain) (d e : Delivery) : Prop where
  /-- They leave the same store. -/
  stores : (c.after [d, e]).store = (c.after [e, d]).store
  /-- The store has the same fingerprint. -/
  fingerprints : (c.after [d, e]).store.fingerprint = (c.after [e, d]).store.fingerprint
  /-- The one has the same code and log before and after the other, and is executed in both cases
  or in neither. -/
  first : (c.deliver d.tx d.time).1.SameOutcome ((c.after [e]).deliver d.tx d.time).1
  /-- So has the other. -/
  second : (c.deliver e.tx e.time).1.SameOutcome ((c.after [d]).deliver e.tx e.time).1

/-- After a delivery of a transaction that names none of its addresses, a transaction does what it
does without it. -/
theorem deliver_after (hs : c.store.Sound members) {d e : Delivery} (he : Fits e.tx.op)
    (hdisjoint : d.tx.op.parties.Disjoint e.tx.op.parties)
    (hsupply : ∀ tier, c.store.stock tier = 0 ∨ 4 ≤ c.store.stock tier) :
    (c.deliver d.tx d.time).1.SameOutcome ((c.after [e]).deliver d.tx d.time).1 ∧
      ∀ k, StoreKey.Concerns d.tx.op.parties k →
        (c.after [e, d]).store.get? k = (c.after [d]).store.get? k :=
  deliver_congr (chainId_after c [e]) hs (deliver_sound hs he e.time) d.time
    (agreesOn_deliver hs he e.time hdisjoint hsupply)

/-- Two deliveries of transactions that name no address in common leave the same entries in either
order, apart from prizes. -/
theorem get?_swap (hs : c.store.Sound members) {d e : Delivery} (hd : Fits d.tx.op)
    (he : Fits e.tx.op) (hdisjoint : d.tx.op.parties.Disjoint e.tx.op.parties)
    (hsupply : ∀ tier, c.store.stock tier = 0 ∨ 4 ≤ c.store.stock tier) {k : Bytes}
    (hk : ∀ tier, k ≠ StoreKey.prize tier) :
    (c.after [d, e]).store.get? k = (c.after [e, d]).store.get? k := by
  have hsd : (c.after [d]).store.Sound members := deliver_sound hs hd d.time
  have hse : (c.after [e]).store.Sound members := deliver_sound hs he e.time
  by_cases hkd : StoreKey.Concerns d.tx.op.parties k
  · have hke : ¬StoreKey.Concerns e.tx.op.parties k := fun hke => hkd.not_disjoint hke hdisjoint
    have hkept : (c.after [d, e]).store.get? k = (c.after [d]).store.get? k :=
      get?_deliver hsd he e.time hke hk
    rw [hkept, (deliver_after hs he hdisjoint hsupply).2 k hkd]
  · have hkept : (c.after [e, d]).store.get? k = (c.after [e]).store.get? k :=
      get?_deliver hse hd d.time hkd hk
    rw [hkept]
    by_cases hke : StoreKey.Concerns e.tx.op.parties k
    · exact (deliver_after hs hd hdisjoint.symm hsupply).2 k hke
    · -- an entry that concerns neither stays as it is throughout
      have hkeptBoth : (c.after [d, e]).store.get? k = (c.after [d]).store.get? k :=
        get?_deliver hsd he e.time hke hk
      have hkeptFirst : (c.after [d]).store.get? k = c.store.get? k :=
        get?_deliver hs hd d.time hkd hk
      have hkeptSecond : (c.after [e]).store.get? k = c.store.get? k :=
        get?_deliver hs he e.time hke hk
      rw [hkeptBoth, hkeptFirst, hkeptSecond]

/-- Deliveries of transactions that name no address in common commute where every prize has run out
or has four units left. -/
theorem commute_of_disjoint (hs : c.store.Sound members) {d e : Delivery} (hd : Fits d.tx.op)
    (he : Fits e.tx.op) (hdisjoint : d.tx.op.parties.Disjoint e.tx.op.parties)
    (hsupply : ∀ tier, c.store.stock tier = 0 ∨ 4 ≤ c.store.stock tier) : c.Commute d e := by
  have hsd : (c.after [d]).store.Sound members := deliver_sound hs hd d.time
  have hse : (c.after [e]).store.Sound members := deliver_sound hs he e.time
  have hsde : (c.after [d, e]).store.Sound members := deliver_sound hsd he e.time
  have hsed : (c.after [e, d]).store.Sound members := deliver_sound hse hd d.time
  have hrecords : ∀ k, (∀ tier, k ≠ StoreKey.prize tier) →
      (c.after [d, e]).store.get? k = (c.after [e, d]).store.get? k := fun _ hk =>
    get?_swap hs hd he hdisjoint hsupply hk
  have hattendee : ∀ a, (c.after [d, e]).store.attendee a = (c.after [e, d]).store.attendee a := by
    intro a
    apply Store.record?_congr
    exact hrecords _ (StoreKey.Concerns.attendee List.mem_cons_self : StoreKey.Concerns [a] _).ne_prize
  have hd₁ := deliver_dealsPrizes hs hd d.time
  have he₁ := deliver_dealsPrizes hs he e.time
  have he₂ := deliver_dealsPrizes hsd he e.time
  have hd₂ := deliver_dealsPrizes hse hd d.time
  have hbrand : (c.after [d, e]).store.brand = (c.after [e, d]).store.brand :=
    (he₂.brand.trans hd₁.brand).trans (hd₂.brand.trans he₁.brand).symm
  have hprize : ∀ tier, (c.after [d, e]).store.prize tier = (c.after [e, d]).store.prize tier :=
    Store.prize_of_deals hbrand hattendee (fun tier => (hd₁.deals tier).trans (he₂.deals tier))
      fun tier => (he₁.deals tier).trans (hd₂.deals tier)
  have hstores : (c.after [d, e]).store = (c.after [e, d]).store := by
    apply Store.ext_get?
    intro k
    by_cases hk : ∃ tier, k = StoreKey.prize tier
    · obtain ⟨tier, rfl⟩ := hk
      rw [hsde.get?_prize, hsed.get?_prize, hprize]
    · exact hrecords k fun tier heq => hk ⟨tier, heq⟩
  exact ⟨hstores, by rw [hstores], (deliver_after hs he hdisjoint hsupply).1,
    (deliver_after hs hd hdisjoint.symm hsupply).1⟩

variable {chainId : String} {g : Genesis}

/-- In every state that a run of operations that fit reaches from a sized genesis, if every prize
has run out or has four units left, transactions that name no address in common commute. -/
theorem independentCommute (hg : g.Sized) (h : ofGenesis chainId g = .ok c) {ds : List Delivery}
    (hds : ∀ d ∈ ds, Fits d.tx.op) {ps : List Prize}
    (hps : Records.prizes.eval (c.after ds).store = .ok ps)
    (hsupply : ∀ p ∈ ps, p.quantity = 0 ∨ 4 ≤ p.quantity) {d e : Delivery} (hd : Fits d.tx.op)
    (he : Fits e.tx.op) (hdisjoint : ∀ a ∈ d.tx.op.parties, a ∉ e.tx.op.parties) :
    (c.after ds).Commute d e := by
  have hs := after_sound hg h hds
  have hprizes : (c.after ds).store.prizes = ps := by
    rw [Access.eval, hs.prizes_run] at hps
    exact Except.ok.inj hps
  refine commute_of_disjoint hs hd he (fun a ha ha' => hdisjoint a ha ha') fun tier => ?_
  unfold Store.stock
  cases hp : (c.after ds).store.prize tier with
  | none => exact Or.inl rfl
  | some p =>
    have htier : p.tier = tier := (hs.prize hp).2
    have hlisted : p ∈ ps := by
      rw [← hprizes, hs.mem_prizes, htier]
      exact hp
    rw [Option.map_some, Option.getD_some]
    rcases hsupply p hlisted with hnone | hfour
    · left
      rw [hnone]
      rfl
    · exact Or.inr (UInt32.le_iff_toNat_le.mp hfour)

/-- On the ledger of two attendees, where one is keyed and has claimed, the other is keyed and the
one collects what the claim won, in either order. -/
theorem independentCommute_booth :
    SmallLedger.pair.Sized ∧ ofGenesis "test-chain" SmallLedger.pair = .ok SmallLedger.pairChain ∧
      (∀ d ∈ SmallLedger.lifecycle, Fits d.tx.op) ∧
      Records.prizes.eval (SmallLedger.pairChain.after SmallLedger.lifecycle).store =
        .ok SmallLedger.onePackGone ∧
      (∀ p ∈ SmallLedger.onePackGone, p.quantity = 0 ∨ 4 ≤ p.quantity) ∧
      Fits SmallLedger.keyOther.tx.op ∧ Fits SmallLedger.collection.tx.op ∧
      (∀ a ∈ SmallLedger.keyOther.tx.op.parties, a ∉ SmallLedger.collection.tx.op.parties) ∧
      (SmallLedger.pairChain.after SmallLedger.lifecycle).Commute SmallLedger.keyOther
        SmallLedger.collection ∧
      ((SmallLedger.pairChain.after SmallLedger.lifecycle).answers
        [SmallLedger.keyOther, SmallLedger.collection]).map (·.2.code) = [0, 0] := by
  have heval : Records.prizes.eval (SmallLedger.pairChain.after SmallLedger.lifecycle).store =
      .ok SmallLedger.onePackGone ∧
      ((SmallLedger.pairChain.after SmallLedger.lifecycle).answers
        [SmallLedger.keyOther, SmallLedger.collection]).map (·.2.code) = [0, 0] := by
    decide +kernel
  have hsupply : ∀ p ∈ SmallLedger.onePackGone, p.quantity = 0 ∨ 4 ≤ p.quantity := by decide
  have hdisjoint : ∀ a ∈ SmallLedger.keyOther.tx.op.parties,
      a ∉ SmallLedger.collection.tx.op.parties := by decide +kernel
  exact ⟨SmallLedger.sized_pair, SmallLedger.ofGenesis_pair, SmallLedger.fits_lifecycle, heval.1,
    hsupply, SmallLedger.fits_keyOther, SmallLedger.fits_collection, hdisjoint,
    independentCommute SmallLedger.sized_pair SmallLedger.ofGenesis_pair SmallLedger.fits_lifecycle
      heval.1 hsupply SmallLedger.fits_keyOther SmallLedger.fits_collection hdisjoint, heval.2⟩

end Chain

end ConferenceLedger

import ConferenceLedger.Proofs.Ledger.Listing
import ConferenceLedger.Proofs.Ledger.Responses
import ConferenceLedger.Proofs.Ledger.SigningKeys

/-!
# Who may change what

A transaction that succeeds changes the records that it names and no others, and what it may change
of a record depends on who has signed it. The keying service sets keys and commitments, an attendee
claims with the installed key and the secret of the commitment, the redeeming service marks wins
collected, and reputation is earned by a claim of one's own and by the scans that one is part of.
-/

namespace ConferenceLedger

/-- What a transaction that succeeds may make of the record of an address. -/
structure MayBecome (c : Chain) (tx : SignedTx) (a : Address) (x y : Attendee) : Prop where
  /-- A key or a commitment is set by a keying of the address from the keying service. -/
  keyed : y.pubKey ≠ x.pubKey ∨ y.commitment ≠ x.commitment ∧ y.commitment ≠ none →
    ∃ m, tx.op = .key m ∧ m.attendee = a ∧
      Records.master.eval c.store = .ok (some tx.op.signer)
  /-- The profile is filled in and the commitment is taken away by a claim that the address has
  signed with the key in its record, and with the secret of the commitment in its record. -/
  claimed : y.claimed ≠ x.claimed ∨ y.name ≠ x.name ∨ y.rsaPublicKey ≠ x.rsaPublicKey ∨
      y.encryptedInfo ≠ x.encryptedInfo ∨ x.commitment ≠ none ∧ y.commitment = none →
    ∃ m, tx.op = .claimKey m ∧ tx.op.signer = a ∧ x.pubKey = some tx.pubKey ∧
      tx.checkSignature c.chainId = .ok () ∧
      ∃ k, x.commitment = some k ∧ sha256 (Bytes.ofText m.secret) = k.octets
  /-- A win is marked collected by a redemption from the redeeming service, for the ticket of the
  address. -/
  collected : (∃ (i : Nat) (v w : Win), x.winnings[i]? = some v ∧ y.winnings[i]? = some w ∧
      w.claimed ≠ v.claimed) →
    ∃ m, tx.op = .redeem m ∧ .ofTicket m.ticket = a ∧
      Records.redeem.eval c.store = .ok (some tx.op.signer)
  /-- Reputation, tier, wins and meetings are earned by a claim of the address or by a scan that the
  address is part of. -/
  earned : y.rep ≠ x.rep ∨ y.tier ≠ x.tier ∨ y.winnings.length ≠ x.winnings.length ∨
      y.scanIds ≠ x.scanIds →
    (∃ m, tx.op = .claimKey m ∧ tx.op.signer = a) ∨
      ∃ m, tx.op = .scanQr m ∧ (m.sender = a ∨ .ofTicket m.ticket = a)

namespace MayBecome

variable {c : Chain} {tx : SignedTx} {a : Address} {x y : Attendee}

/-- Wins that begin with the old ones have none of these marked otherwise. -/
theorem claimed_eq_of_extends {v w : List Win} (h : v <+: w) {i : Nat} {p q : Win}
    (hp : v[i]? = some p) (hq : w[i]? = some q) : q.claimed = p.claimed := by
  obtain ⟨rest, rfl⟩ := h
  have hlt : i < v.length := (List.getElem?_eq_some_iff.mp hp).1
  rw [List.getElem?_append_left hlt, hp] at hq
  cases hq
  rfl

/-- A record may stay as it is. -/
theorem refl (c : Chain) (tx : SignedTx) (a : Address) (x : Attendee) : MayBecome c tx a x x := by
  constructor
  · rintro (h | ⟨h, -⟩)
    all_goals exact absurd rfl h
  · rintro (h | h | h | h | ⟨hsome, hnone⟩)
    · exact absurd rfl h
    · exact absurd rfl h
    · exact absurd rfl h
    · exact absurd rfl h
    · exact absurd hnone hsome
  · rintro ⟨i, v, w, hv, hw, hne⟩
    exact absurd (claimed_eq_of_extends List.prefix_rfl hv hw) hne
  · rintro (h | h | h | h)
    all_goals exact absurd rfl h

/-- The keying service may key the record. -/
theorem of_key {m : KeyGrant} (hop : tx.op = .key m)
    (hmaster : Records.master.eval c.store = .ok (some m.master)) (x : Attendee) :
    MayBecome c tx m.attendee x (Custody.keyed m x) := by
  have hrefl := refl c tx m.attendee x
  constructor
  · intro _
    rw [hop]
    exact ⟨m, rfl, rfl, hmaster⟩
  · rintro (h | h | h | h | ⟨-, h⟩)
    · exact hrefl.claimed (Or.inl h)
    · exact hrefl.claimed (Or.inr (Or.inl h))
    · exact hrefl.claimed (Or.inr (Or.inr (Or.inl h)))
    · exact hrefl.claimed (Or.inr (Or.inr (Or.inr (Or.inl h))))
    · cases h
  · exact hrefl.collected
  · exact hrefl.earned

/-- Who has signed with the key in the record and knows the secret may claim. -/
theorem of_claim {m : KeyClaim} (hop : tx.op = .claimKey m) (hkey : x.pubKey = some tx.pubKey)
    (hsignature : tx.checkSignature c.chainId = .ok ())
    (hreveals : Custody.reveals x m.secret = true) {z : Attendee} (hz : z.pubKey = x.pubKey)
    (hcommitment : z.commitment = none) (hwinnings : z.winnings = x.winnings) (h : z.Earns y) :
    MayBecome c tx m.attendee x y := by
  have hsigner : tx.op.signer = m.attendee := by
    rw [hop]
    rfl
  have hpubKey : y.pubKey = x.pubKey := (h.same (·.pubKey) fun _ _ _ _ => rfl).trans hz
  have hnone : y.commitment = none :=
    (h.same (·.commitment) fun _ _ _ _ => rfl).trans hcommitment
  constructor
  · rintro (hne | ⟨-, hne⟩)
    · exact absurd hpubKey hne
    · exact absurd hnone hne
  · intro _
    exact ⟨m, hop, hsigner, hkey, hsignature, Custody.commitment_of_reveals hreveals⟩
  · rintro ⟨i, v, w, hv, hw, hne⟩
    rw [← hwinnings] at hv
    exact absurd (claimed_eq_of_extends h.winnings hv hw) hne
  · intro _
    exact Or.inl ⟨m, hop, hsigner⟩

/-- Who is part of a scan may earn. -/
theorem of_scan {m : BadgeScan} (hop : tx.op = .scanQr m)
    (hparty : m.sender = a ∨ .ofTicket m.ticket = a) (h : x.Earns y) : MayBecome c tx a x y := by
  have hrefl := refl c tx a x
  constructor
  · rw [h.rest]
    exact hrefl.keyed
  · rw [h.rest]
    exact hrefl.claimed
  · rintro ⟨i, v, w, hv, hw, hne⟩
    exact absurd (claimed_eq_of_extends h.winnings hv hw) hne
  · intro _
    exact Or.inr ⟨m, hop, hparty⟩

/-- The redeeming service may mark the wins collected. -/
theorem of_redeem {m : Redemption} (hop : tx.op = .redeem m)
    (hredeem : Records.redeem.eval c.store = .ok (some m.sender)) (x : Attendee) :
    MayBecome c tx (.ofTicket m.ticket) x x.collectWinnings := by
  have hrefl := refl c tx (.ofTicket m.ticket) x
  constructor
  · exact hrefl.keyed
  · exact hrefl.claimed
  · intro _
    rw [hop]
    exact ⟨m, rfl, rfl, hredeem⟩
  · rintro (h | h | h | h)
    · exact hrefl.earned (Or.inl h)
    · exact hrefl.earned (Or.inr (Or.inl h))
    · exact absurd (List.length_map _) h
    · exact hrefl.earned (Or.inr (Or.inr (Or.inr h)))

end MayBecome

/-- No operation names an entry under a bare class. -/
theorem Operation.not_names_single (op : Operation) (cls : UInt8) : ¬op.Names [cls] := by
  have hattendee : ∀ a : Address, [cls] ≠ StoreKey.attendee a := by
    intro a
    simp [StoreKey.attendee, StoreKey.member, StoreKey.collection]
  have haccount : ∀ a : Address, [cls] ≠ StoreKey.account a := by
    intro a
    simp [StoreKey.account, StoreKey.member, StoreKey.collection]
  cases op with
  | key m =>
    rintro (h | h)
    · exact hattendee _ h
    · exact haccount _ h
  | claimKey m => exact hattendee _
  | scanQr m =>
    rintro (h | h | h)
    · exact hattendee _ h
    · exact hattendee _ h
    · cases ScanId.length_ofPair h
  | redeem m => exact hattendee _

/-- Who can claim has a key, and so has the account. -/
theorem Store.InCustody.key_of_reveals {s : Store} (hs : s.InCustody) {a : Address} {x : Attendee}
    {secret : String} (hx : s.attendee a = some x) (h : Custody.reveals x secret = true) :
    ∃ y, s.account a = some y ∧ y.pubKey = x.pubKey := by
  obtain ⟨k, hk, -⟩ := Custody.commitment_of_reveals h
  obtain ⟨p, hp⟩ := hs.phase a
  rw [attendeeOrBlank_of_attendee hx] at hp
  have hkeyed : p = .keyed := hp.eq_keyed (Option.isSome_of_eq_some hk)
  subst hkeyed
  obtain ⟨y, hy, hsame⟩ := hs.account a x hx
  exact ⟨y, hy, hsame (Option.isSome_iff_ne_none.mp hp.1)⟩

/-- What an operation makes of an account is a matter of the key alone. -/
theorem Operation.rekey_eq (op : Operation) (a : Address) (x : Account) :
    op.rekey a x = { x with pubKey := (op.installs a).or x.pubKey } := by
  cases op with
  | key m =>
    rw [rekey, installs]
    split_ifs <;> rfl
  | _ => rfl

namespace Chain

variable {chainId : String} {g : Genesis} {c : Chain} {members : List Address}

/-- Who is admitted with a claim that opens the commitment has signed with the key of the attendee,
which is that of the account. -/
theorem Admits.pubKey_of_reveals (hs : c.store.Sound members) (hcustody : c.store.InCustody)
    {tx : SignedTx} {account : Account} (hadmits : c.Admits tx account) {m : KeyClaim}
    (hop : tx.op = .claimKey m) {x : Attendee}
    (hx : (c.store.counted account).attendee m.attendee = some x)
    (hreveals : Custody.reveals x m.secret = true) :
    x.pubKey = some tx.pubKey ∧
      ((c.store.counted account).account m.attendee).bind (·.pubKey) = x.pubKey := by
  -- admission asks the account for the key, and custody keeps that of the attendee equal to it
  obtain ⟨z, hz, hkey⟩ := (counted_inCustody hs hcustody hadmits).key_of_reveals hx hreveals
  have hsigner : tx.op.signer = m.attendee := by
    rw [hop]
    rfl
  have hsigned : z.pubKey = some tx.pubKey := by
    have haccount := account_counted hs.rows.placed hadmits
    rw [hsigner, hz] at haccount
    cases haccount
    exact hadmits.pubKey
  refine ⟨hkey.symm.trans hsigned, ?_⟩
  rw [hz]
  exact hkey

/-- A transaction that succeeds makes of every record what it may. -/
theorem mayBecome_of_code (hs : c.store.Sound members) (hcustody : c.store.InCustody)
    {tx : SignedTx} (htx : Fits tx.op) {time : Int64} (hcode : (c.deliver tx time).1.code = 0)
    (a : Address) : MayBecome c tx a (c.store.attendeeOrBlank a)
      ((c.deliver tx time).2.store.attendeeOrBlank a) := by
  obtain ⟨account, hadmits, hrun⟩ := done_of_code hcode
  generalize (c.deliver tx time).2.store = t at hrun ⊢
  have hcounted := counted_sound hs hadmits
  have hblank : (c.store.counted account).attendeeOrBlank a = c.store.attendeeOrBlank a :=
    Store.attendeeOrBlank_counted ..
  cases Operation.effect_of_run_ok hcounted htx hrun with
  | @keyed m hop hmaster haccount hkey hrecords hprizes =>
    rw [hrecords.attendeeOrBlank, hblank]
    split_ifs with ha
    · subst ha
      have hread : Records.master.eval c.store = .ok (some m.master) := by
        rw [Access.eval, hs.master_run, ← Store.master_counted c.store account, hmaster]
      rw [hblank]
      exact .of_key hop hread _
    · exact .refl ..
  | @claimed m hop x y hx hclaimed hreveals hy hrecords hprizes =>
    rw [hrecords.attendeeOrBlank, hblank]
    split_ifs with ha
    · subst ha
      rw [← hblank, Store.attendeeOrBlank_of_attendee hx]
      obtain ⟨hsigned, hinstalled⟩ := hadmits.pubKey_of_reveals hs hcustody hop hx hreveals
      refine .of_claim hop hsigned hadmits.signature hreveals ?_ ?_ ?_
        (.awarded _ _ y)
      · rw [hy, Custody.claimed, hinstalled, Option.or_self]
      · rw [hy]
        rfl
      · rw [hy]
        rfl
    · exact .refl ..
  | @met m hop e =>
    rw [e.attendeeOrBlank, hblank]
    split_ifs with hscanned hsender
    · rw [← hblank, ← hscanned, Store.attendeeOrBlank_of_attendee e.found_scanned]
      exact .of_scan hop (Or.inr rfl) e.earns_scanned
    · rw [← hblank, ← hsender, Store.attendeeOrBlank_of_attendee e.found_sender]
      exact .of_scan hop (Or.inl rfl) e.earns_sender
    · exact .refl ..
  | @collected m hop hredeem x hx hrecords hprizes =>
    rw [hrecords.attendeeOrBlank, hblank]
    split_ifs with ha
    · have hread : Records.redeem.eval c.store = .ok (some m.sender) := by
        rw [Access.eval, hs.redeem_run, ← Store.redeem_counted c.store account, hredeem]
      rw [← hblank, ← ha, Store.attendeeOrBlank_of_attendee hx]
      exact .of_redeem hop hread x
    · exact .refl ..

/-- A transaction that succeeds leaves every entry but the account of its signer, those that the
operation names and prizes. -/
theorem get?_of_code (hs : c.store.Sound members) {tx : SignedTx} (htx : Fits tx.op)
    {time : Int64} (hcode : (c.deliver tx time).1.code = 0) {k : Bytes}
    (hnames : ¬tx.op.Names k) (hsigner : k ≠ StoreKey.account tx.op.signer)
    (hprize : ∀ tier, k ≠ StoreKey.prize tier) :
    (c.deliver tx time).2.store.get? k = c.store.get? k := by
  obtain ⟨x, hadmits, hrun⟩ := done_of_code hcode
  have haddress := (hs.rows.of_account hadmits.account).2.1
  have hne : StoreKey.account x.address ≠ k := by
    rw [haddress]
    exact hsigner.symm
  rw [Operation.get?_of_run_ok (counted_sound hs hadmits) htx hrun hnames hprize]
  exact Store.get?_set_ne _ _ hne

/-- A transaction that succeeds counts up the sequence of its signer, and what else it makes of an
account is to install a key. -/
theorem account_of_code (hs : c.store.Sound members) {tx : SignedTx} {time : Int64}
    (hcode : (c.deliver tx time).1.code = 0) (a : Address) :
    (c.deliver tx time).2.store.account a = (c.store.account a).map fun x =>
      { x with
        sequence := if tx.op.signer = a then x.sequence + 1 else x.sequence
        pubKey := (tx.op.installs a).or x.pubKey } := by
  have hexecuted := executed_of_code hcode
  rw [account_deliver hs.rows.placed]
  congr 1
  funext x
  rw [SignedTx.rewrite, if_pos hcode, Operation.rekey_eq]
  simp only [hexecuted, true_and]
  split_ifs <;> rfl

/-- All that a transaction that succeeds changes of a prize is how many units are left. -/
theorem prize_of_code (hs : c.store.Sound members) {tx : SignedTx} (htx : Fits tx.op)
    {time : Int64} (hcode : (c.deliver tx time).1.code = 0) (tier : UInt8) :
    ∃ n, (c.deliver tx time).2.store.prize tier =
      (c.store.prize tier).map fun p => { p with quantity := n } := by
  obtain ⟨x, hadmits, hrun⟩ := done_of_code hcode
  have hsound := counted_sound hs hadmits
  have hbrand := (Operation.effect_of_run_ok hsound htx hrun).brand hsound tier
  rw [Store.brand_of_prize (Store.prize_counted c.store x tier), Store.brand, Store.brand] at hbrand
  cases hq : (c.deliver tx time).2.store.prize tier with
  | none =>
    rw [hq] at hbrand
    have hp : c.store.prize tier = none := Option.map_eq_none_iff.mp hbrand.symm
    exact ⟨0, by rw [hp]; rfl⟩
  | some q =>
    rw [hq, Option.map_some] at hbrand
    obtain ⟨p, hp, hsame⟩ := Option.map_eq_some_iff.mp hbrand.symm
    refine ⟨q.quantity, ?_⟩
    rw [hp, Option.map_some]
    obtain ⟨tier, repNeeded, text, quantity⟩ := p
    cases hsame
    rfl

/-- What a transaction that succeeds has changed of a chain. -/
structure ChangesByAuthority (c : Chain) (tx : SignedTx) (c' : Chain) : Prop where
  /-- The record of every address, or the blank one if it has none, became what it may. -/
  attendees : ∀ a, ∃ x y, (Records.attendee a).eval c.store = .ok x ∧
    (Records.attendee a).eval c'.store = .ok y ∧
    MayBecome c tx a (x.getD (.blank a)) (y.getD (.blank a))
  /-- Every entry that is neither named by the operation nor the signer's account nor a prize is as
  it was. -/
  others : ∀ k, ¬tx.op.Names k → k ≠ StoreKey.account tx.op.signer →
    (∀ tier, k ≠ StoreKey.prize tier) → c'.store.get? k = c.store.get? k
  /-- The two services and the number of the next account are as they were. -/
  services : c'.store.get? StoreKey.master = c.store.get? StoreKey.master ∧
    c'.store.get? StoreKey.redeem = c.store.get? StoreKey.redeem ∧
    c'.store.get? StoreKey.accountNumber = c.store.get? StoreKey.accountNumber
  /-- The sequence of the signer was counted up, and a key was installed where the operation does
  so. All else of every account is as it was. -/
  accounts : ∀ a, ∃ x, c.account a = .ok x ∧ c'.account a = .ok (x.map fun y =>
    { y with
      sequence := if tx.op.signer = a then y.sequence + 1 else y.sequence
      pubKey := (tx.op.installs a).or y.pubKey })
  /-- All that changed of a prize is how many units are left. -/
  prizes : ∀ tier, ∃ p n, (Records.prize tier).eval c.store = .ok p ∧
    (Records.prize tier).eval c'.store = .ok (p.map fun q => { q with quantity := n })

/-- In every state that a run of operations that fit reaches from a sized genesis, a transaction
that succeeds changes what it has the authority to change, and nothing else. -/
theorem changesByAuthority (hg : g.Sized) (h : ofGenesis chainId g = .ok c) {ds : List Delivery}
    (hds : ∀ d ∈ ds, Fits d.tx.op) {tx : SignedTx} (htx : Fits tx.op) {time : Int64}
    (hcode : ((c.after ds).deliver tx time).1.code = 0) :
    (c.after ds).ChangesByAuthority tx ((c.after ds).deliver tx time).2 := by
  have hs := after_sound hg h hds
  have hcustody := after_inCustody hg h hds
  have hafter := deliver_sound hs htx time
  constructor
  · intro a
    exact ⟨_, _, attendee_eval hs a, attendee_eval hafter a,
      mayBecome_of_code hs hcustody htx hcode a⟩
  · intro k hnames hsigner hprize
    exact get?_of_code hs htx hcode hnames hsigner hprize
  · have hsingle : ∀ cls : UInt8, ((c.after ds).deliver tx time).2.store.get? [cls] =
        (c.after ds).store.get? [cls] := by
      intro cls
      have hsigner : [cls] ≠ StoreKey.account tx.op.signer := by
        simp [StoreKey.account, StoreKey.member, StoreKey.collection]
      have hprize : ∀ tier, [cls] ≠ StoreKey.prize tier := by
        intro tier
        simp [StoreKey.prize, StoreKey.member, StoreKey.collection]
      exact get?_of_code hs htx hcode (tx.op.not_names_single cls) hsigner hprize
    exact ⟨hsingle _, hsingle _, hsingle _⟩
  · intro a
    refine ⟨_, account_eq hs.rows.placed a, ?_⟩
    rw [account_eq hafter.rows.placed, account_of_code hs hcode]
  · intro tier
    obtain ⟨n, hprize⟩ := prize_of_code hs htx hcode tier
    refine ⟨(c.after ds).store.prize tier, n, ?_, ?_⟩
    · rw [Access.eval, hs.prize_run]
    · rw [Access.eval, hafter.prize_run, hprize]

/-- On the ledger of two attendees one of them is keyed and claims the account, and then scans the
other, which changes what it has the authority to change. -/
theorem changesByAuthority_scan :
    SmallLedger.pair.Sized ∧ ofGenesis "test-chain" SmallLedger.pair = .ok SmallLedger.pairChain ∧
      (∀ d ∈ SmallLedger.lifecycle, Fits d.tx.op) ∧ Fits SmallLedger.scan.tx.op ∧
      ((SmallLedger.pairChain.after SmallLedger.lifecycle).deliver SmallLedger.scan.tx
        SmallLedger.scan.time).1.code = 0 ∧
      (SmallLedger.pairChain.after SmallLedger.lifecycle).ChangesByAuthority SmallLedger.scan.tx
        ((SmallLedger.pairChain.after SmallLedger.lifecycle).deliver SmallLedger.scan.tx
          SmallLedger.scan.time).2 := by
  have hscan : Fits SmallLedger.scan.tx.op :=
    SmallLedger.fits_encounter SmallLedger.scan (List.mem_append_right _ List.mem_cons_self)
  have hcode : ((SmallLedger.pairChain.after SmallLedger.lifecycle).deliver SmallLedger.scan.tx
      SmallLedger.scan.time).1.code = 0 := by
    apply code_of_answers [0, 0]
    exact SmallLedger.codes_encounter
  exact ⟨SmallLedger.sized_pair, SmallLedger.ofGenesis_pair, SmallLedger.fits_lifecycle, hscan,
    hcode, changesByAuthority SmallLedger.sized_pair SmallLedger.ofGenesis_pair
      SmallLedger.fits_lifecycle hscan hcode⟩

end Chain

end ConferenceLedger

import ConferenceLedger.Proofs.Ledger.Custody

/-!
# The lifecycle of custody

Every attendee is in one of three phases, and has an account with the same key once a key was
installed. An operation that succeeds leads an attendee from one phase to the next, in order:
the phases that the operations of a run lead to are the history of the phase at its end.
-/

namespace ConferenceLedger

namespace Operation.Touches

variable {op : Operation} {s t : Store} {a : Address} {o : Option Attendee}

/-- An operation that is right in itself leads an attendee on by the phase it names, if any. -/
theorem phase (h : op.Touches s a o) (hcheck : op.check = .ok ()) {p : Phase}
    (hp : (s.attendeeOrBlank a).custody.InPhase p) :
    ∃ q, (o.getD (.blank a)).custody.InPhase q ∧
      q.history = p.history ++ (op.leadsTo a).toList := by
  cases h with
  | left hop =>
    refine ⟨p, hp, ?_⟩
    rw [hop, Option.toList_none, List.append_nil]
  | kept hop hx hkeeps =>
    refine ⟨p, ?_, ?_⟩
    · rw [Store.attendeeOrBlank, hx, Option.getD_some] at hp
      rw [Option.getD_some, hkeeps.custody]
      exact hp
    · rw [hop, Option.toList_none, List.append_nil]
  | @keyed m hop ha haccount hkey =>
    have hnone : (s.attendeeOrBlank a).custody.pubKey = none := by
      simpa [Attendee.isKeyed, Attendee.custody] using hkey
    have hunkeyed := hp.eq_unkeyed hnone
    subst hunkeyed
    obtain ⟨-, -, hclaimed, hname, hrsa, hinfo⟩ := hp
    have hlead : op.leadsTo a = some .keyed := by
      rw [hop]
      exact if_pos ha
    refine ⟨.keyed, ⟨rfl, rfl, hclaimed, hname, hrsa, hinfo⟩, ?_⟩
    rw [hlead]
    rfl
  | @claimed m hop ha x y hx hclaimed hreveals hkeeps =>
    rw [Store.attendeeOrBlank, hx, Option.getD_some] at hp
    obtain ⟨k, hk, -⟩ := Custody.commitment_of_reveals hreveals
    have hcommitment : x.custody.commitment.isSome = true := Option.isSome_of_eq_some hk
    have hkeyed := hp.eq_keyed hcommitment
    subst hkeyed
    have hkey : x.pubKey.isSome = true := hp.1
    rw [hop] at hcheck
    obtain ⟨hname, hrsa, hinfo⟩ := KeyClaim.of_check hcheck
    have hlead : op.leadsTo a = some .claimed := by
      rw [hop]
      exact if_pos ha
    refine ⟨.claimed, ?_, ?_⟩
    · rw [Option.getD_some, hkeeps.custody]
      refine ⟨?_, rfl, rfl, hname, hrsa, hinfo⟩
      change (((s.account a).bind (·.pubKey)).or x.pubKey).isSome = true
      rw [Option.isSome_or, hkey, Bool.or_true]
    · rw [hlead]
      rfl

end Operation.Touches

/-- A store in which custody is in order. -/
structure Store.InCustody (s : Store) : Prop where
  /-- Every attendee is in a phase. -/
  phase : ∀ a, ∃ p, (s.attendeeOrBlank a).custody.InPhase p
  /-- Every attendee has an account, with the attendee's key once there is one. -/
  account : ∀ a x, s.attendee a = some x →
    ∃ y, s.account a = some y ∧ (x.pubKey ≠ none → y.pubKey = x.pubKey)

namespace Operation

variable {members : List Address} {op : Operation} {time : Int64} {s t : Store}

/-- An operation that leads an address nowhere leaves its account. -/
theorem rekey_of_leadsTo {a : Address} (h : op.leadsTo a = none) (x : Account) :
    op.rekey a x = x := by
  cases op with
  | key m =>
    by_cases ha : m.attendee = a
    · rw [leadsTo, if_pos ha] at h
      cases h
    · exact if_neg ha
  | _ => rfl

/-- The account of an attendee, as an operation leaves both, has the key of the attendee. -/
theorem Touches.account {a : Address} {y : Attendee} (h : op.Touches s a (some y))
    (hcustody : s.InCustody) :
    ∃ z, (s.account a).map (op.rekey a) = some z ∧ (y.pubKey ≠ none → z.pubKey = y.pubKey) := by
  generalize ho : some y = o at h
  cases h with
  | left hop =>
    obtain ⟨z, hz, hkey⟩ := hcustody.account a y ho.symm
    refine ⟨z, ?_, hkey⟩
    rw [hz, Option.map_some, rekey_of_leadsTo hop]
  | kept hop hx hkeeps =>
    cases ho
    obtain ⟨z, hz, hkey⟩ := hcustody.account a _ hx
    have hsame := congrArg CustodyState.pubKey hkeeps.custody
    refine ⟨z, ?_, ?_⟩
    · rw [hz, Option.map_some, rekey_of_leadsTo hop]
    · intro hne
      exact (hkey fun hnone => hne (hsame.trans hnone)).trans hsame.symm
  | @keyed m hop ha haccount hkey =>
    cases ho
    obtain ⟨z, hz⟩ := Option.isSome_iff_exists.mp haccount
    refine ⟨{ z with pubKey := some m.newKey }, ?_, fun _ => rfl⟩
    rw [hz, Option.map_some, hop, rekey, if_pos ha]
  | @claimed m hop ha x y hx hclaimed hreveals hkeeps =>
    cases ho
    obtain ⟨z, hz, hkey⟩ := hcustody.account a x hx
    have hpubKey : y.pubKey = z.pubKey.or x.pubKey := by
      have hsame := congrArg CustodyState.pubKey hkeeps.custody
      rw [hz] at hsame
      exact hsame
    refine ⟨z, ?_, ?_⟩
    · rw [hz, Option.map_some, hop]
      rfl
    · intro _
      rw [hpubKey]
      cases hx' : x.pubKey with
      | none => rw [Option.or_none]
      | some k =>
        rw [hkey (by rw [hx']; exact Option.some_ne_none k), hx']
        rfl

/-- An operation that succeeds and is right in itself keeps custody in order. -/
theorem inCustody_of_run_ok (hs : s.Sound members) (hcustody : s.InCustody) (hop : Fits op)
    (hcheck : op.check = .ok ()) (h : (op.program time).run s = (.ok (), t)) : t.InCustody := by
  constructor
  · intro a
    obtain ⟨p, hp⟩ := hcustody.phase a
    obtain ⟨q, hq, -⟩ := (touches_of_run_ok hs hop h a).phase hcheck hp
    exact ⟨q, hq⟩
  · intro a y hy
    have htouches := touches_of_run_ok hs hop h a
    rw [hy] at htouches
    rw [account_of_run_ok hs.rows.placed h a]
    exact htouches.account hcustody

end Operation

/-- A store in which every attendee has an account. -/
def Store.Enrolled (s : Store) : Prop :=
  ∀ a, (s.attendee a).isSome = true → (s.account a).isSome = true

/-- Every attendee still has an account when a row is filed that is neither. -/
theorem Store.Enrolled.file {s : Store} (hs : s.Enrolled) {r : Row} (h : r.WellPlaced)
    (hattendee : r.cls ≠ StoreKey.attendeeClass) (haccount : r.cls ≠ StoreKey.accountClass) :
    (s.file r).Enrolled := by
  intro a ha
  have hsame : (s.file r).attendee a = s.attendee a :=
    record?_file_of_cls_ne h rfl hattendee
  have hsame' : (s.file r).account a = s.account a :=
    record?_file_of_cls_ne h rfl haccount
  rw [hsame] at ha
  rw [hsame']
  exact hs a ha

namespace Genesis

/-- Founding keeps it so that every attendee has an account. -/
theorem Founding.enrolled {g : Genesis} (hg : g.Sized) {s t : Store} (h : Founding g s t)
    (hs : s.Enrolled) : t.Enrolled := by
  induction h with
  | none => exact hs
  | @account t h x hx hnew ih =>
    have hcounter : (t.file (.counter (t.nextNumber + 1))).Enrolled :=
      ih.file (r := .counter _) trivial (by simp) (by simp)
    intro a ha
    rw [Store.fileAll_cons, Store.fileAll_cons, Store.fileAll_nil] at ha ⊢
    rw [Store.attendee_file_account] at ha
    rw [Store.account_file_account]
    split_ifs
    · rfl
    · exact hcounter a ha
  | @attendee t h e he haccount ih =>
    intro a ha
    have hrow : (Row.attendee (.ofTicket e.id e.ticketClass)).OfGenesis g := ⟨e, he, rfl⟩
    have hsound : (Attendee.ofTicket e.id e.ticketClass).Sound g.members :=
      hg.sound_of_ofGenesis hrow
    have hfits := hsound.fits (by rw [g.length_members]; exact hg.countable)
    rw [Store.attendee_file_attendee hfits] at ha
    rw [Store.account_file_attendee]
    by_cases hnamed : (Attendee.ofTicket e.id e.ticketClass).address = a
    · rw [← hnamed]
      exact haccount
    · rw [if_neg hnamed] at ha
      exact ih a ha
  | @prize t h p hp ih => exact ih.file (r := .prize p) trivial (by simp) (by simp)

end Genesis

namespace SmallLedger

/-- The claim of the attendee, signed with the key that the keying installs. -/
def claim : Delivery where
  tx :=
    { op := .claimKey ⟨.ofTicket "1", "Ada", "s", "rsa", ⟨[1]⟩⟩
      accountNumber := 2
      sequence := 0
      pubKey := attendeeKey
      signature := ⟨Bytes.ofNatBE 64
        0x35a5e71e374bb2ad03a593c74c674ef4ef875bd90263c59f443b3e6cfc15487734a5766fa8b4ffb12b132fc64ec45977ab8408e0f7a04c08a92764544c011d00⟩ }
  time := 0

/-- The keying and the claim. -/
def lifecycle : List Delivery := [keyGrant, claim]

/-- The keying and the claim fit. -/
theorem fits_lifecycle : ∀ d ∈ lifecycle, Fits d.tx.op := by
  intro d hd
  simp only [lifecycle, List.mem_cons, List.not_mem_nil, or_false] at hd
  rcases hd with rfl | rfl
  · trivial
  · have hname : (Bytes.ofText "Ada").length < UInt64.size := by decide
    have hsecret : (Bytes.ofText "s").length < UInt64.size := by decide
    have hrsa : (Bytes.ofText "rsa").length < UInt64.size := by decide
    have hinfo : 2 * ([1] : Bytes).length < UInt64.size := by decide
    exact ⟨hname, hsecret, hrsa, hinfo⟩

end SmallLedger

namespace Chain

variable {chainId : String} {g : Genesis} {c : Chain} {members : List Address}

/-- In the store of a sized genesis every attendee has an account. -/
theorem enrolled_of_genesis (hg : g.Sized) (h : ofGenesis chainId g = .ok c) :
    c.store.Enrolled := by
  obtain ⟨t, u, ht, hu, hs⟩ := Genesis.program_founding (run_of_genesis h)
  have hfirst : t.Enrolled := ht.enrolled hg fun a ha => by cases ha
  have hmaster := hfirst.file (r := .master (.ofPublicKey g.keyService)) trivial (by simp) (by simp)
  have hsecond : u.Enrolled := hu.enrolled hg hmaster
  have hredeem := hsecond.file (r := .redeem (.ofPublicKey g.redeemService)) trivial (by simp)
    (by simp)
  exact hs.enrolled hg hredeem

/-- In the store of a sized genesis every attendee is unkeyed. -/
theorem unkeyed_of_genesis (hg : g.Sized) (h : ofGenesis chainId g = .ok c) (a : Address) :
    (c.store.attendeeOrBlank a).custody.InPhase .unkeyed := by
  rcases attendeeOrBlank_of_genesis hg h a with hblank | ⟨e, -, hticket⟩
  · rw [hblank]
    exact ⟨rfl, rfl, rfl, rfl, rfl, rfl⟩
  · rw [hticket]
    exact ⟨rfl, rfl, rfl, rfl, rfl, rfl⟩

/-- In the store of a sized genesis custody is in order. -/
theorem inCustody_of_genesis (hg : g.Sized) (h : ofGenesis chainId g = .ok c) :
    c.store.InCustody := by
  constructor
  · intro a
    exact ⟨.unkeyed, unkeyed_of_genesis hg h a⟩
  · intro a x hx
    have haccount := enrolled_of_genesis hg h a (by rw [hx]; rfl)
    obtain ⟨y, hy⟩ := Option.isSome_iff_exists.mp haccount
    refine ⟨y, hy, ?_⟩
    intro hne
    have hunkeyed := unkeyed_of_genesis hg h a
    rw [Store.attendeeOrBlank, hx, Option.getD_some] at hunkeyed
    exact absurd hunkeyed.1 hne

/-- Counting up a sequence keeps custody in order. -/
theorem counted_inCustody (hs : c.store.Sound members) (hcustody : c.store.InCustody)
    {tx : SignedTx} {x : Account} (h : c.Admits tx x) : (c.store.counted x).InCustody := by
  constructor
  · intro a
    rw [Store.attendeeOrBlank_counted]
    exact hcustody.phase a
  · intro a y hy
    rw [Store.attendee_counted] at hy
    obtain ⟨z, hz, hkey⟩ := hcustody.account a y hy
    rw [Store.counted, Store.account_file_account]
    by_cases ha : x.address = a
    · have haddress : x.address = tx.op.signer := (hs.rows.of_account h.account).2.1
      have hxz : x = z := by
        rw [← ha, haddress, h.account] at hz
        exact Option.some.inj hz
      rw [if_pos ha]
      exact ⟨_, rfl, hxz ▸ hkey⟩
    · rw [if_neg ha]
      exact ⟨z, hz, hkey⟩

/-- The phase that a response shows an address to be led to, if it does. -/
def ledTo (tx : SignedTx) (r : TxResponse) (a : Address) : Option Phase :=
  if r.code = 0 then tx.op.leadsTo a else none

/-- A delivery keeps custody in order, and leads an address on by the phase that its response
shows, if any. -/
theorem deliver_inCustody (hs : c.store.Sound members) (hcustody : c.store.InCustody)
    {tx : SignedTx} (htx : Fits tx.op) (time : Int64) :
    (c.deliver tx time).2.store.InCustody ∧
      ∀ a p, (c.store.attendeeOrBlank a).custody.InPhase p →
        ∃ q, ((c.deliver tx time).2.store.attendeeOrBlank a).custody.InPhase q ∧
          q.history = p.history ++ (ledTo tx (c.deliver tx time).1 a).toList := by
  have hdelivered := c.delivered tx time
  generalize c.deliver tx time = r at hdelivered ⊢
  cases hdelivered with
  | notAdmitted e =>
    have hled : ∀ a, ledTo tx (.notAdmitted e (c.height + 1)) a = none := fun a =>
      if_neg e.code_ne_zero
    refine ⟨hcustody, fun a p hp => ⟨p, hp, ?_⟩⟩
    rw [hled, Option.toList_none, List.append_nil]
  | failed hadmits e hrun =>
    have hled : ∀ a, ledTo tx (.failed e (c.height + 1)) a = none := fun a =>
      if_neg e.code_ne_zero
    refine ⟨counted_inCustody hs hcustody hadmits, fun a p hp => ⟨p, ?_, ?_⟩⟩
    · rw [Store.attendeeOrBlank_counted]
      exact hp
    · rw [hled, Option.toList_none, List.append_nil]
  | @done x hadmits t hrun =>
    have hcounted := counted_inCustody hs hcustody hadmits
    have hsound := counted_sound hs hadmits
    refine ⟨Operation.inCustody_of_run_ok hsound hcounted htx hadmits.check hrun, ?_⟩
    intro a p hp
    rw [← Store.attendeeOrBlank_counted] at hp
    exact (Operation.touches_of_run_ok hsound htx hrun a).phase hadmits.check hp

/-- Every run of operations that fit from a sized genesis keeps custody in order. -/
theorem after_inCustody (hg : g.Sized) (h : ofGenesis chainId g = .ok c) {ds : List Delivery}
    (hds : ∀ d ∈ ds, Fits d.tx.op) : (c.after ds).store.InCustody := by
  have hrun : (c.after ds).store.Sound g.members ∧ (c.after ds).store.InCustody := by
    refine after_induction (P := fun c => c.store.Sound g.members ∧ c.store.InCustody)
      ⟨sound_of_genesis hg h, inCustody_of_genesis hg h⟩ ?_
    rintro d hd c ⟨hs, hcustody⟩
    exact ⟨deliver_sound hs (hds d hd) d.time, (deliver_inCustody hs hcustody (hds d hd) d.time).1⟩
  exact hrun.2

/-- The phases that the successful operations of a run led an address to, in order. -/
def ledPhases (c : Chain) (ds : List Delivery) (a : Address) : List Phase :=
  (c.answers ds).flatMap fun d => (ledTo d.1 d.2 a).toList

/-- The history of the phase of an address grows by the phases that a run led the address to. -/
theorem history_after (hs : c.store.Sound members) (hcustody : c.store.InCustody)
    {ds : List Delivery} (hds : ∀ d ∈ ds, Fits d.tx.op) {a : Address} {p : Phase}
    (hp : (c.store.attendeeOrBlank a).custody.InPhase p) :
    ∃ q, ((c.after ds).store.attendeeOrBlank a).custody.InPhase q ∧
      q.history = p.history ++ c.ledPhases ds a := by
  induction ds generalizing c p with
  | nil => exact ⟨p, hp, (List.append_nil _).symm⟩
  | cons d ds ih =>
    have hd := hds d List.mem_cons_self
    obtain ⟨hnext, hstep⟩ := deliver_inCustody hs hcustody hd d.time
    obtain ⟨q, hq, hhistory⟩ := hstep a p hp
    obtain ⟨u, hu, hrest⟩ := ih (deliver_sound hs hd d.time) hnext
      (fun e he => hds e (List.mem_cons_of_mem d he)) hq
    refine ⟨u, hu, ?_⟩
    rw [hrest, hhistory, List.append_assoc]
    rfl

/-- An attendee that a chain has in custody. -/
structure HasInCustody (c : Chain) (x : Attendee) : Prop where
  /-- The ledger finds the attendee under its address. -/
  found : (Records.attendee x.address).eval c.store = .ok (some x)
  /-- The attendee is in exactly one phase. -/
  phase : ∃! p, x.custody.InPhase p
  /-- There is an account at the address, with the attendee's key in every phase but the first. -/
  account : ∃ y, c.account x.address = .ok (some y) ∧
    ∀ p, x.custody.InPhase p → p ≠ .unkeyed → y.pubKey = x.pubKey

/-- The phase in which the ledger finds an address. Nobody keyed an address without a record. -/
def Shows (c : Chain) (a : Address) (p : Phase) : Prop :=
  ∃ x, (Records.attendee a).eval c.store = .ok x ∧ (x.getD (.blank a)).custody.InPhase p

/-- What a delivery with a response may make of the phase of an address. -/
inductive Moves (tx : SignedTx) (r : TxResponse) (a : Address) : Phase → Phase → Prop where
  /-- The phase stays, unless the transaction succeeds and is a keying or a claim of the
  address. -/
  | stays (p : Phase) (h : r.code = 0 → tx.op.leadsTo a = none) : Moves tx r a p p
  /-- A keying of the address succeeds. -/
  | keys {m : KeyGrant} (hop : tx.op = .key m) (ha : m.attendee = a) (hcode : r.code = 0) :
    Moves tx r a .unkeyed .keyed
  /-- A claim of the address succeeds. -/
  | claims {m : KeyClaim} (hop : tx.op = .claimKey m) (ha : m.attendee = a) (hcode : r.code = 0) :
    Moves tx r a .keyed .claimed

/-- A run that moves every attendee through the phases of custody in order. -/
structure KeepsCustody (c : Chain) (ds : List Delivery) : Prop where
  /-- After the run every entry under the key of an attendee is an attendee in custody. -/
  stored : ∀ k v, (c.after ds).store.get? k = some v →
    StoreKey.isMember StoreKey.attendeeClass k = true →
      ∃ x : Attendee, Binary.decode v = .ok x ∧ k = StoreKey.attendee x.address ∧
        (c.after ds).HasInCustody x
  /-- A further delivery moves every address from a phase to the next or leaves it there. -/
  moves : ∀ tx time, Fits tx.op → ∀ a, ∃ p q, (c.after ds).Shows a p ∧
    ((c.after ds).deliver tx time).2.Shows a q ∧
      Moves tx ((c.after ds).deliver tx time).1 a p q
  /-- What the run led an address to is the history of its phase: at most one keying succeeded,
  and after it at most one claim. -/
  history : ∀ a, ∃ p, (c.after ds).Shows a p ∧ c.ledPhases ds a = p.history

/-- What the ledger reads of an address, when every record can be held. -/
theorem attendee_eval (hs : c.store.Sound members) (a : Address) :
    (Records.attendee a).eval c.store = .ok (c.store.attendee a) := by
  rw [Access.eval, hs.attendee_run]

/-- The ledger finds an address in the phase of its record, or of a blank one. -/
theorem shows_iff (hs : c.store.Sound members) {a : Address} {p : Phase} :
    c.Shows a p ↔ (c.store.attendeeOrBlank a).custody.InPhase p := by
  rw [Shows, attendee_eval hs]
  constructor
  · rintro ⟨x, hx, hp⟩
    cases hx
    exact hp
  · intro hp
    exact ⟨_, rfl, hp⟩

/-- The entries of attendees are attendees in custody, when every record can be held and custody
is in order. -/
theorem hasInCustody (hs : c.store.Sound members) (hcustody : c.store.InCustody) {k v : Bytes}
    (hget : c.store.get? k = some v) (hk : StoreKey.isMember StoreKey.attendeeClass k = true) :
    ∃ x : Attendee, Binary.decode v = .ok x ∧ k = StoreKey.attendee x.address ∧
      c.HasInCustody x := by
  obtain ⟨x, hdecode, hkey, hfound⟩ := hs.attendee_of_entry hget hk
  obtain ⟨p, hp⟩ := hcustody.phase x.address
  rw [Store.attendeeOrBlank, hfound, Option.getD_some] at hp
  obtain ⟨y, hy, hpubKey⟩ := hcustody.account x.address x hfound
  refine ⟨x, hdecode, hkey, ?_, ?_, ?_⟩
  · rw [attendee_eval hs, hfound]
  · exact ⟨p, hp, fun q hq => hq.unique hp⟩
  · refine ⟨y, by rw [account_eq hs.rows.placed, hy], ?_⟩
    intro q hq hne
    apply hpubKey
    intro hnone
    exact hne (hq.eq_unkeyed hnone)

/-- A phase whose history grows by what a response shows is one that the delivery may make. -/
theorem moves_of_history {tx : SignedTx} {r : TxResponse} {a : Address} {p q : Phase}
    (h : q.history = p.history ++ (ledTo tx r a).toList) : Moves tx r a p q := by
  cases hled : ledTo tx r a with
  | none =>
    rw [hled, Option.toList_none, List.append_nil] at h
    have hqp : q = p := Phase.history_inj h
    subst hqp
    refine .stays q ?_
    intro hcode
    rwa [ledTo, if_pos hcode] at hled
  | some u =>
    rw [hled, Option.toList_some] at h
    unfold ledTo at hled
    split_ifs at hled with hcode
    unfold Operation.leadsTo at hled
    split at hled
    · next m hop =>
      split_ifs at hled with ha
      cases hled
      obtain ⟨rfl, rfl⟩ : p = .unkeyed ∧ q = .keyed := by
        cases p <;> cases q <;> simp [Phase.history] at h ⊢
      exact .keys hop ha hcode
    · next m hop =>
      split_ifs at hled with ha
      cases hled
      obtain ⟨rfl, rfl⟩ : p = .keyed ∧ q = .claimed := by
        cases p <;> cases q <;> simp [Phase.history] at h ⊢
      exact .claims hop ha hcode
    · cases hled

/-- Every run of operations that fit from a sized genesis moves every attendee through the phases
of custody in order. -/
theorem keepsCustody (hg : g.Sized) (h : ofGenesis chainId g = .ok c) {ds : List Delivery}
    (hds : ∀ d ∈ ds, Fits d.tx.op) : c.KeepsCustody ds := by
  have hs := after_sound hg h hds
  have hcustody := after_inCustody hg h hds
  constructor
  · intro k v hget hk
    exact hasInCustody hs hcustody hget hk
  · intro tx time htx a
    obtain ⟨p, hp⟩ := hcustody.phase a
    obtain ⟨q, hq, hhistory⟩ := (deliver_inCustody hs hcustody htx time).2 a p hp
    refine ⟨p, q, (shows_iff hs).mpr hp, ?_, moves_of_history hhistory⟩
    exact (shows_iff (deliver_sound hs htx time)).mpr hq
  · intro a
    obtain ⟨p, hp, hhistory⟩ := history_after (sound_of_genesis hg h) (inCustody_of_genesis hg h)
      hds (unkeyed_of_genesis hg h a)
    exact ⟨p, (shows_iff hs).mpr hp, hhistory.symm⟩

/-- On the small ledger the attendee is keyed and claims the account, and custody is kept. -/
theorem keepsCustody_lifecycle :
    SmallLedger.genesis.Sized ∧ ofGenesis "test-chain" SmallLedger.genesis = .ok SmallLedger.chain ∧
      (∀ d ∈ SmallLedger.lifecycle, Fits d.tx.op) ∧
      SmallLedger.chain.KeepsCustody SmallLedger.lifecycle ∧
      SmallLedger.chain.ledPhases SmallLedger.lifecycle (.ofTicket "1") = [.keyed, .claimed] := by
  have hled : SmallLedger.chain.ledPhases SmallLedger.lifecycle (.ofTicket "1") =
      [.keyed, .claimed] := by decide +kernel
  have hkeeps := keepsCustody SmallLedger.sized SmallLedger.ofGenesis_eq SmallLedger.fits_lifecycle
  exact ⟨SmallLedger.sized, SmallLedger.ofGenesis_eq, SmallLedger.fits_lifecycle, hkeeps, hled⟩

end Chain

end ConferenceLedger

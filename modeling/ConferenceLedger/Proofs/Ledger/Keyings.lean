import ConferenceLedger.Proofs.Ledger.Responses
import ConferenceLedger.Proofs.Ledger.SigningKeys

/-!
# Keyings in a run

A keying that is executed is never told that its sequence is wrong, whatever else it may be told.
One that succeeds installs its key on the account and the record of the attendee, and it is the only
one of the attendee that ever does.
-/

namespace ConferenceLedger

namespace Chain

variable {chainId : String} {g : Genesis} {c : Chain} {members : List Address}

/-- A keying that is executed is not told that its sequence is wrong. -/
theorem code_ne_of_executed {tx : SignedTx} {m : KeyGrant} (hop : tx.op = .key m) {time : Int64}
    (h : (c.deliver tx time).1.executed = true) :
    (c.deliver tx time).1.code ≠ LedgerError.invalidSequenceCode := by
  have hdelivered := c.delivered tx time
  generalize c.deliver tx time = r at hdelivered h ⊢
  cases hdelivered with
  | notAdmitted e => cases h
  | failed hadmits e hrun =>
    rw [hop] at hrun
    have herror := Custody.grantKey_run_error (Prod.ext hrun rfl)
    change e.code ≠ _
    rcases herror with ⟨d, rfl⟩ | rfl | rfl | rfl <;>
      simp [LedgerError.code, LedgerError.invalidSequenceCode, LedgerError.attendeeKeyedCode]
  | done hadmits hrun =>
    have hne : (0 : UInt32) ≠ LedgerError.invalidSequenceCode := by decide
    exact hne

/-- A delivery leaves the number of every account. -/
theorem number_deliver (hs : c.store.Placed) (tx : SignedTx) (time : Int64) (a : Address) :
    ((c.deliver tx time).2.store.account a).map (·.number) =
      (c.store.account a).map (·.number) := by
  rw [account_deliver hs, Option.map_map]
  congr 1
  funext x
  exact SignedTx.number_rewrite

/-- A run leaves the number of every account. -/
theorem number_after (hs : c.store.Placed) (ds : List Delivery) (a : Address) :
    ((c.after ds).store.account a).map (·.number) = (c.store.account a).map (·.number) := by
  have hrun : (c.after ds).store.Placed ∧
      ((c.after ds).store.account a).map (·.number) = (c.store.account a).map (·.number) := by
    refine after_induction (P := fun d => d.store.Placed ∧
      (d.store.account a).map (·.number) = (c.store.account a).map (·.number)) ⟨hs, rfl⟩ ?_
    rintro d - b ⟨hb, hnumber⟩
    exact ⟨deliver_placed hb d.tx d.time, (number_deliver hb d.tx d.time a).trans hnumber⟩
  exact hrun.2

/-- A transaction that is right but for the sequence is executed if the sequence is right too, and
otherwise told that it is wrong. -/
theorem deliver_of_signed (hs : c.store.Placed) {tx : SignedTx} (time : Int64) {x : Account}
    (hcheck : tx.op.check = .ok ()) (hx : c.store.account tx.op.signer = some x)
    (hkey : x.pubKey = some tx.pubKey) (hsignature : tx.checkSignature c.chainId = .ok ())
    (hnumber : tx.accountNumber = x.number) :
    if tx.sequence = x.sequence then (c.deliver tx time).1.executed = true
    else (c.deliver tx time).1.executed = false ∧
      (c.deliver tx time).1.code = LedgerError.invalidSequenceCode := by
  have haccount := hs.account_run tx.op.signer
  rw [hx] at haccount
  have hadmission : (admission c.chainId tx).eval c.store =
      if tx.sequence = x.sequence then .ok x
      else .error (.invalidSequence x.sequence tx.sequence) := by
    rw [admission, hcheck, Access.eval]
    change ((Records.account tx.op.signer >>= _).run c.store).1 = _
    rw [Access.run_bind_of_ok haccount]
    dsimp only
    rw [if_neg (not_not_intro hkey), hsignature]
    change ((if _ then _ else _ : LedgerAccess Account).run c.store).1 = _
    rw [if_neg (not_not_intro hnumber)]
    by_cases hsequence : tx.sequence = x.sequence
    · rw [if_neg (not_not_intro hsequence), if_pos hsequence]
      rfl
    · rw [if_pos hsequence, if_neg hsequence]
      rfl
  rw [deliver, hadmission]
  by_cases hsequence : tx.sequence = x.sequence
  · rw [if_pos hsequence, if_pos hsequence]
    dsimp only
    split <;> rfl
  · rw [if_neg hsequence, if_neg hsequence]
    exact ⟨rfl, rfl⟩

/-- What a successful keying leaves at the address that it keys. -/
structure HasKeyed (c : Chain) (m : KeyGrant) : Prop where
  /-- The attendee has the key and the commitment. -/
  attendee : ∃ y, (Records.attendee m.attendee).eval c.store = .ok (some y) ∧
    y.pubKey = some m.newKey ∧ y.commitment = some m.commitment
  /-- The account has the key. -/
  account : ∃ x, c.account m.attendee = .ok (some x) ∧ x.pubKey = some m.newKey

/-- A keying that succeeds installs its key and its commitment. -/
theorem hasKeyed_of_code (hs : c.store.Sound members) {tx : SignedTx} {m : KeyGrant}
    (hop : tx.op = .key m) {time : Int64} (h : (c.deliver tx time).1.code = 0) :
    (c.deliver tx time).2.HasKeyed m := by
  obtain ⟨x, hadmits, hrun⟩ := done_of_code h
  have hcounted := counted_sound hs hadmits
  have hfits : Fits tx.op := by
    rw [hop]
    trivial
  have hafter := deliver_sound hs hfits time
  have heffect := Operation.effect_of_run_ok hcounted hfits hrun
  have haccount := Operation.account_of_run_ok hcounted.rows.placed hrun m.attendee
  rw [hop] at heffect haccount
  cases heffect with
  | keyed hop' _ hfound _ hrecords _ =>
    cases hop'
    constructor
    · refine ⟨Custody.keyed m ((c.store.counted x).attendeeOrBlank m.attendee), ?_, rfl, rfl⟩
      rw [attendee_eval hafter, hrecords.attendee, if_pos rfl]
    · obtain ⟨y, hy⟩ := Option.isSome_iff_exists.mp hfound
      refine ⟨{ y with pubKey := some m.newKey }, ?_, rfl⟩
      rw [account_eq hafter.rows.placed, haccount, hy, Option.map_some, Operation.rekey, if_pos rfl]
  | claimed hop' => cases hop'
  | met hop' => cases hop'
  | collected hop' => cases hop'

/-- A keying that succeeds found no key in the record of the attendee. -/
theorem unkeyed_of_code {tx : SignedTx} {m : KeyGrant} (hop : tx.op = .key m) {time : Int64}
    (h : (c.deliver tx time).1.code = 0) : (c.store.attendeeOrBlank m.attendee).isKeyed = false := by
  obtain ⟨x, -, hrun⟩ := done_of_code h
  rw [hop] at hrun
  obtain ⟨-, hkey, -⟩ := Custody.grantKey_run_ok hrun
  rw [Store.attendeeOrBlank_counted] at hkey
  exact hkey

/-- A transaction that does not succeed leaves every entry but the account of its signer. -/
theorem get?_of_code_ne (hs : c.store.Placed) {tx : SignedTx} {time : Int64}
    (h : (c.deliver tx time).1.code ≠ 0) {k : Bytes} (hk : k ≠ StoreKey.account tx.op.signer) :
    (c.deliver tx time).2.store.get? k = c.store.get? k := by
  have htells := tellsOutcome_of_placed hs tx time
  by_cases hexecuted : (c.deliver tx time).1.executed = true
  · obtain ⟨x, -, -, hkept⟩ := htells.failed hexecuted h
    exact hkept k hk
  · rw [htells.notExecuted (Bool.eq_false_iff.mpr hexecuted)]

/-- A keying leaves every entry but the record and the account of the attendee and the account of
its signer. -/
theorem get?_of_keying (hs : c.store.Sound members) {tx : SignedTx} {m : KeyGrant}
    (hop : tx.op = .key m) {time : Int64} {k : Bytes}
    (hattendee : k ≠ StoreKey.attendee m.attendee) (haccount : k ≠ StoreKey.account m.attendee)
    (hsigner : k ≠ StoreKey.account tx.op.signer) :
    (c.deliver tx time).2.store.get? k = c.store.get? k := by
  by_cases hcode : (c.deliver tx time).1.code = 0
  · obtain ⟨x, hadmits, hrun⟩ := done_of_code hcode
    have haddress := (hs.rows.of_account hadmits.account).2.1
    rw [← haddress] at hsigner
    rw [hop] at hrun
    rw [Custody.get?_of_grantKey (counted_sound hs hadmits) hrun hattendee haccount]
    exact Store.get?_set_ne _ _ hsigner.symm
  · exact get?_of_code_ne hs.rows.placed hcode hsigner

/-- The successful keyings of an address in a run. -/
def keyings (c : Chain) (ds : List Delivery) (a : Address) : List SignedTx :=
  ((c.answers ds).filter fun d => ledTo d.1 d.2 a = some .keyed).map (·.1)

/-- The phases that a run leads an address to tell how often it was keyed. -/
theorem length_keyings (c : Chain) (ds : List Delivery) (a : Address) :
    (c.keyings ds a).length = (c.ledPhases ds a).count .keyed := by
  rw [keyings, ledPhases, List.length_map, ← List.countP_eq_length_filter]
  generalize c.answers ds = answers
  induction answers with
  | nil => rfl
  | cons d answers ih =>
    rw [List.countP_cons, List.flatMap_cons, List.count_append, ih, Nat.add_comm]
    congr 1
    rcases ledTo d.1 d.2 a with _ | _ | _ | _ <;> rfl

/-- An address is keyed at most once in a run of operations that fit from a sized genesis. -/
theorem length_keyings_le (hg : g.Sized) (h : ofGenesis chainId g = .ok c) {ds : List Delivery}
    (hds : ∀ d ∈ ds, Fits d.tx.op) (a : Address) : (c.keyings ds a).length ≤ 1 := by
  obtain ⟨p, -, hhistory⟩ := history_after (sound_of_genesis hg h) (inCustody_of_genesis hg h) hds
    (unkeyed_of_genesis hg h a)
  have hled : c.ledPhases ds a = p.history := hhistory.symm
  rw [length_keyings, hled]
  cases p <;> decide

/-- The answers of a run are those of its parts. -/
theorem answers_append (c : Chain) (ds es : List Delivery) :
    c.answers (ds ++ es) = c.answers ds ++ (c.after ds).answers es := by
  induction ds generalizing c with
  | nil => rfl
  | cons d ds ih =>
    rw [List.cons_append, answers, ih, answers]
    rfl

/-- A keying that succeeds is the only one of its address in the whole run. -/
theorem keyings_eq_singleton (hg : g.Sized) (h : ofGenesis chainId g = .ok c)
    {ds es : List Delivery} {d : Delivery} (hds : ∀ e ∈ ds ++ d :: es, Fits e.tx.op) {m : KeyGrant}
    (hop : d.tx.op = .key m) (hcode : ((c.after ds).deliver d.tx d.time).1.code = 0) :
    c.keyings (ds ++ d :: es) m.attendee = [d.tx] := by
  have hle := length_keyings_le hg h hds m.attendee
  have hmem : d.tx ∈ c.keyings (ds ++ d :: es) m.attendee := by
    have hled : ledTo d.tx ((c.after ds).deliver d.tx d.time).1 m.attendee = some .keyed := by
      rw [ledTo, if_pos hcode, hop]
      exact if_pos rfl
    have hanswer : (d.tx, ((c.after ds).deliver d.tx d.time).1) ∈ c.answers (ds ++ d :: es) := by
      rw [answers_append, answers]
      exact List.mem_append_right _ List.mem_cons_self
    exact List.mem_map.mpr ⟨_, List.mem_filter.mpr ⟨hanswer, decide_eq_true hled⟩, rfl⟩
  obtain ⟨tx, htx⟩ := List.length_eq_one_iff.mp (Nat.le_antisymm hle (List.length_pos_of_mem hmem))
  rw [htx] at hmem ⊢
  rw [List.mem_singleton.mp hmem]

end Chain

end ConferenceLedger

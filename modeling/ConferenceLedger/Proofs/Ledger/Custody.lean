import ConferenceLedger.Proofs.Ledger.Effects

/-!
# What an operation makes of an attendee

What custody knows of an attendee is changed by two operations only, and only for the attendee
that they name. A keying finds no key and installs one with a commitment. A claim finds the
commitment, takes it away and fills in the profile. Any other operation leaves all of this.
-/

namespace ConferenceLedger

/-- What custody knows of an attendee. -/
structure CustodyState where
  /-- The key that the custodian installed. -/
  pubKey : Option PublicKey
  /-- The commitment to the secret of the claim. -/
  commitment : Option Commitment
  /-- Whether the account was claimed. -/
  claimed : Bool
  /-- The display name. -/
  name : String
  /-- The key for encryption. -/
  rsaPublicKey : String
  /-- The profile. -/
  encryptedInfo : Blob
  deriving DecidableEq

/-- The phases of custody. -/
inductive Phase where
  /-- No key was installed. -/
  | unkeyed
  /-- A key was installed, and the attendee has not claimed the account. -/
  | keyed
  /-- The attendee has claimed the account. -/
  | claimed
  deriving DecidableEq

namespace Phase

/-- The phases that were entered on the way to a phase. -/
def history : Phase → List Phase
  | unkeyed => []
  | keyed => [keyed]
  | claimed => [keyed, claimed]

end Phase

/-- What custody knows of an attendee in a phase. -/
def CustodyState.InPhase (k : CustodyState) : Phase → Prop
  | .unkeyed => k.pubKey = none ∧ k.commitment = none ∧ k.claimed = false ∧ k.name = "" ∧
    k.rsaPublicKey = "" ∧ k.encryptedInfo.isEmpty = true
  | .keyed => k.pubKey.isSome = true ∧ k.commitment.isSome = true ∧ k.claimed = false ∧
    k.name = "" ∧ k.rsaPublicKey = "" ∧ k.encryptedInfo.isEmpty = true
  | .claimed => k.pubKey.isSome = true ∧ k.commitment = none ∧ k.claimed = true ∧ k.name ≠ "" ∧
    k.rsaPublicKey ≠ "" ∧ k.encryptedInfo.isEmpty = false

/-- A phase is told by its history. -/
theorem Phase.history_inj {p q : Phase} (h : p.history = q.history) : p = q := by
  cases p <;> cases q <;> simp [history] at h ⊢

namespace CustodyState.InPhase

variable {k : CustodyState} {p q : Phase}

/-- Nobody is in two phases. -/
theorem unique (hp : k.InPhase p) (hq : k.InPhase q) : p = q := by
  have hkey : ∀ {o : Option PublicKey}, o = none → ¬o.isSome = true := by
    rintro o rfl h
    cases h
  cases p <;> cases q
  case unkeyed.unkeyed => rfl
  case keyed.keyed => rfl
  case claimed.claimed => rfl
  case unkeyed.keyed => exact absurd hq.1 (hkey hp.1)
  case unkeyed.claimed => exact absurd hq.1 (hkey hp.1)
  case keyed.unkeyed => exact absurd hp.1 (hkey hq.1)
  case claimed.unkeyed => exact absurd hp.1 (hkey hq.1)
  case keyed.claimed => exact absurd (hp.2.2.1.symm.trans hq.2.2.1) (by decide)
  case claimed.keyed => exact absurd (hq.2.2.1.symm.trans hp.2.2.1) (by decide)

/-- Who has no key is unkeyed. -/
theorem eq_unkeyed (hp : k.InPhase p) (h : k.pubKey = none) : p = .unkeyed := by
  cases p with
  | unkeyed => rfl
  | keyed =>
    have hsome := hp.1
    rw [h] at hsome
    cases hsome
  | claimed =>
    have hsome := hp.1
    rw [h] at hsome
    cases hsome

/-- Who has a commitment is keyed. -/
theorem eq_keyed (hp : k.InPhase p) (h : k.commitment.isSome = true) : p = .keyed := by
  cases p with
  | unkeyed =>
    rw [hp.2.1] at h
    cases h
  | keyed => rfl
  | claimed =>
    rw [hp.2.1] at h
    cases h

end CustodyState.InPhase

/-- A claim that is right in itself leaves nothing of the profile empty. -/
theorem KeyClaim.of_check {m : KeyClaim} (h : m.check = .ok ()) :
    m.name ≠ "" ∧ m.rsaPublicKey ≠ "" ∧ m.encryptedInfo.isEmpty = false := by
  unfold check at h
  split_ifs at h with haddress hname hsecret hrsa hinfo
  exact ⟨hname, hrsa, Bool.eq_false_iff.mpr hinfo⟩

/-- A secret opens the commitment of an attendee only if its digest is the commitment. -/
theorem Custody.commitment_of_reveals {x : Attendee} {secret : String}
    (h : reveals x secret = true) :
    ∃ k, x.commitment = some k ∧ sha256 (Bytes.ofText secret) = k.octets := by
  unfold reveals at h
  cases hk : x.commitment with
  | none =>
    rw [hk] at h
    cases h
  | some k =>
    rw [hk] at h
    exact ⟨k, rfl, of_decide_eq_true h⟩

namespace Attendee

/-- What custody knows of the attendee. -/
def custody (x : Attendee) : CustodyState :=
  ⟨x.pubKey, x.commitment, x.claimed, x.name, x.rsaPublicKey, x.encryptedInfo⟩

/-- The same attendee in the eyes of custody. -/
structure Keeps (x y : Attendee) : Prop where
  /-- The address is the same. -/
  address : y.address = x.address
  /-- What custody knows is the same. -/
  custody : y.custody = x.custody

/-- An attendee who earns is the same. -/
theorem Earns.keeps {x y : Attendee} (h : x.Earns y) : x.Keeps y :=
  ⟨h.address, h.same custody fun _ _ _ _ => rfl⟩

end Attendee

namespace Operation

/-- The phase of custody that an operation leads an address to, if it does. -/
def leadsTo (a : Address) : Operation → Option Phase
  | key m => if m.attendee = a then some .keyed else none
  | claimKey m => if m.attendee = a then some .claimed else none
  | _ => none

/-- What an operation that succeeds on a store makes of the attendee of an address. -/
inductive Touches (op : Operation) (s : Store) (a : Address) : Option Attendee → Prop where
  /-- The record is left. -/
  | left (hop : op.leadsTo a = none) : Touches op s a (s.attendee a)
  /-- The record is written with the same custody. -/
  | kept (hop : op.leadsTo a = none) {x y : Attendee} (hx : s.attendee a = some x)
    (h : x.Keeps y) : Touches op s a (some y)
  /-- The attendee, who has an account and no key, is keyed. -/
  | keyed {m : KeyGrant} (hop : op = .key m) (ha : m.attendee = a)
    (haccount : (s.account a).isSome = true) (hkey : (s.attendeeOrBlank a).isKeyed = false) :
    Touches op s a (some (Custody.keyed m (s.attendeeOrBlank a)))
  /-- The attendee, who has not claimed and whose commitment the secret opens, claims. -/
  | claimed {m : KeyClaim} (hop : op = .claimKey m) (ha : m.attendee = a) {x y : Attendee}
    (hx : s.attendee a = some x) (hclaimed : x.claimed = false)
    (hreveals : Custody.reveals x m.secret = true)
    (h : (Custody.claimed m ((s.account a).bind (·.pubKey)) x).Keeps y) :
    Touches op s a (some y)

variable {members : List Address} {op : Operation} {time : Int64} {s t : Store} {a : Address}

/-- An operation that succeeds leaves an attendee, writes it with the same custody, keys it or
has it claimed. -/
theorem touches_of_run_ok (hs : s.Sound members) (hop : Fits op)
    (h : (op.program time).run s = (.ok (), t)) (a : Address) : Touches op s a (t.attendee a) := by
  cases effect_of_run_ok hs hop h with
  | @keyed m hop hmaster haccount hkey hrecords hprizes =>
    rw [hrecords.attendee]
    split_ifs with ha
    · subst ha
      exact .keyed hop rfl haccount hkey
    · have hleft : op.leadsTo a = none := by
        rw [hop]
        exact if_neg ha
      exact .left hleft
  | @claimed m hop x y hx hclaimed hreveals hy hrecords hprizes =>
    rw [hrecords.attendee]
    split_ifs with ha
    · subst ha
      have hkeeps := (Attendee.Earns.awarded s Award.claimPoints y).keeps
      rw [hy] at hkeeps ⊢
      exact .claimed hop rfl hx hclaimed hreveals hkeeps
    · have hleft : op.leadsTo a = none := by
        rw [hop]
        exact if_neg ha
      exact .left hleft
  | @met m hop e =>
    have hleft : op.leadsTo a = none := by
      rw [hop]
      rfl
    rw [e.attendee]
    split_ifs with hscanned hsender
    · subst hscanned
      exact .kept hleft e.found_scanned e.earns_scanned.keeps
    · subst hsender
      exact .kept hleft e.found_sender e.earns_sender.keeps
    · exact .left hleft
  | @collected m hop hredeem x hx hrecords hprizes =>
    have hleft : op.leadsTo a = none := by
      rw [hop]
      rfl
    rw [hrecords.attendee]
    split_ifs with ha
    · subst ha
      exact .kept hleft hx ⟨rfl, rfl⟩
    · exact .left hleft

end Operation

end ConferenceLedger

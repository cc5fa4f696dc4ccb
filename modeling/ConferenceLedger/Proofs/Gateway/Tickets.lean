import ConferenceLedger.Proofs.Gateway.Desk
import ConferenceLedger.Proofs.Ledger.Listing
import ConferenceLedger.Proofs.Text.Utf8
import ConferenceLedger.Proofs.Token.Acceptance
import Mathlib.Data.Set.Function

/-!
# Ticket ids are canonical

Every positive number has one ticket id, its decimal text, and every ticket id is that of one
number. A text gets to the ledger as a ticket id in a scan or in a redemption, as the subject of a
token or in a request for a key, and in all of them it is looked at first.
-/

namespace ConferenceLedger

/-- The text is the decimal text of a positive number. -/
def IsNumeral (s : String) : Prop := ∃ n : Nat, 0 < n ∧ s = toString n

/-- The number that the digits of a text stand for. -/
def numberOf (s : String) : Nat := Nat.ofDigitChars 10 s.toList 0

/-- Bytes that are decimal digits, the first of which is not zero. -/
structure Bytes.AreNumeral (b : Bytes) : Prop where
  /-- There are some. -/
  nonempty : b ≠ []
  /-- All are digits. -/
  digits : ∀ x ∈ b, 48 ≤ x.toNat ∧ x.toNat ≤ 57
  /-- The first is not zero. -/
  first : b.head? ≠ some 48

section Numerals

variable {s : String}

/-- A ticket id passes the check of one. -/
theorem checkTicketId_eq_ok : checkTicketId s = .ok () ↔ isTicketId s = true := by
  unfold checkTicketId
  split
  · next h => exact ⟨fun _ => h, fun _ => rfl⟩
  · next h => exact ⟨fun hok => (by cases hok), fun hticket => absurd hticket h⟩

/-- What passes the check of a ticket id are the decimal texts of positive numbers. -/
theorem checkTicketId_iff : checkTicketId s = .ok () ↔ IsNumeral s :=
  checkTicketId_eq_ok.trans isTicketId_iff

/-- The digits of a number stand for it. -/
theorem numberOf_toString (n : Nat) : numberOf (toString n) = n := by
  rw [numberOf, Nat.toString_eq_repr, Nat.toList_repr, Nat.ofDigitChars_ten_toDigits]

/-- Ticket ids stand for the positive numbers, every one of them for another. -/
theorem bijOn_numberOf : Set.BijOn numberOf {s | checkTicketId s = .ok ()} {n | 0 < n} := by
  refine ⟨?_, ?_, ?_⟩
  · intro s hs
    obtain ⟨n, hn, rfl⟩ := checkTicketId_iff.mp hs
    rw [numberOf_toString]
    exact hn
  · intro s hs t ht h
    obtain ⟨n, -, rfl⟩ := checkTicketId_iff.mp hs
    obtain ⟨m, -, rfl⟩ := checkTicketId_iff.mp ht
    rw [numberOf_toString, numberOf_toString] at h
    rw [h]
  · intro n hn
    exact ⟨toString n, checkTicketId_iff.mpr ⟨n, hn, rfl⟩, numberOf_toString n⟩

/-- A character is a digit if its bytes are. -/
theorem isDecimalDigit_iff_bytes {c : Char} : isDecimalDigit c = true ↔
    ∀ x ∈ String.utf8EncodeChar c, 48 ≤ x.toNat ∧ x.toNat ≤ 57 := by
  rw [isDecimalDigit_iff]
  rcases Utf8.encodeChar_cases c with ⟨-, x, hbyte, hnumber⟩ | ⟨hc, x, rest, hbytes, hx⟩
  · rw [hbyte, List.forall_mem_singleton, hnumber]
  · rw [hbytes, List.forall_mem_cons]
    constructor <;> intro h <;> omega

/-- A character is a zero if the first of its bytes is. -/
theorem head?_encodeChar_iff {c : Char} :
    (String.utf8EncodeChar c).head? = some 48 ↔ c = '0' := by
  constructor
  · intro h
    rcases Utf8.encodeChar_cases c with ⟨-, x, hbyte, hnumber⟩ | ⟨-, x, rest, hbytes, hx⟩
    · rw [hbyte, List.head?_cons, Option.some.injEq] at h
      subst h
      exact Char.toNat_inj.mp hnumber.symm
    · rw [hbytes, List.head?_cons, Option.some.injEq] at h
      subst h
      exact absurd hx (by decide)
  · rintro rfl
    rfl

/-- Whether a text is a ticket id is decided by its bytes. -/
theorem isTicketId_iff_bytes : isTicketId s = true ↔ (Bytes.ofText s).AreNumeral := by
  have hempty : s.toList.flatMap String.utf8EncodeChar = [] ↔ s.toList = [] := by
    rw [← Bytes.ofText_eq, ← List.length_eq_zero_iff, Bytes.length_ofText]
    simp
  have hfirst : (s.toList.flatMap String.utf8EncodeChar).head? = some 48 ↔
      s.toList.head? = some '0' := by
    cases s.toList with
    | nil => simp
    | cons c cs =>
      rw [List.flatMap_cons, List.head?_append_of_ne_nil _ (by simp), head?_encodeChar_iff,
        List.head?_cons, Option.some.injEq]
  rw [isTicketId_iff_chars, List.all_eq_true]
  constructor
  · rintro ⟨hne, hall, hzero⟩
    constructor
    · rw [Bytes.ofText_eq]
      exact mt hempty.mp hne
    · intro x hx
      rw [Bytes.ofText_eq] at hx
      obtain ⟨c, hc, hx⟩ := List.mem_flatMap.mp hx
      exact isDecimalDigit_iff_bytes.mp (hall c hc) x hx
    · rw [Bytes.ofText_eq]
      exact mt hfirst.mp hzero
  · rintro ⟨hne, hdigits, hzero⟩
    rw [Bytes.ofText_eq] at hne hdigits hzero
    refine ⟨mt hempty.mpr hne, ?_, mt hfirst.mpr hzero⟩
    intro c hc
    apply isDecimalDigit_iff_bytes.mpr
    intro x hx
    exact hdigits x (List.mem_flatMap.mpr ⟨c, hc, hx⟩)

end Numerals

/-- The ticket id in an operation. -/
def Operation.ticket? : Operation → Option String
  | scanQr m => some m.ticket
  | redeem m => some m.ticket
  | _ => none

/-- The ticket id in an operation that is right in itself passes the check of one. -/
theorem Operation.checkTicketId_of_check {op : Operation} {s : String} (h : op.check = .ok ())
    (hs : op.ticket? = some s) : checkTicketId s = .ok () := by
  cases op with
  | key m => cases hs
  | claimKey m => cases hs
  | scanQr m =>
    cases hs
    change BadgeScan.check m = .ok () at h
    unfold BadgeScan.check at h
    split_ifs at h
    exact h
  | redeem m =>
    cases hs
    change Redemption.check m = .ok () at h
    unfold Redemption.check at h
    split_ifs at h
    exact h

namespace ServiceError

/-- The ticket id that an error says is none. -/
def refusedId? : ServiceError → Option String
  | invalidAttendeeId id => some id
  | _ => none

/-- An error says of a ticket id that it is none if it is the error of this. -/
theorem refusedId?_eq_some {e : ServiceError} {id : String} :
    e.refusedId? = some id ↔ e = .invalidAttendeeId id := by
  cases e <;> simp [refusedId?]

/-- An error of the relay does not say so of any ticket id. -/
@[simp] theorem refusedId?_ofRelayError (e : RelayError) : (ofRelayError e).refusedId? = none := by
  cases e <;> rfl

/-- An error of the ledger does not say so of any ticket id. -/
@[simp] theorem refusedId?_ofClientError (e : ClientError) :
    (ofClientError e).refusedId? = none := by
  unfold ofClientError
  split <;> rfl

end ServiceError

/-- The ticket id that a request has been refused for. -/
def Progress.refusedId? : Progress → Option String
  | ended (.error e) => e.refusedId?
  | _ => none

/-- A request has been refused for a ticket id if it has ended with the error of this. -/
theorem Progress.refusedId?_eq_some {p : Progress} {id : String} :
    p.refusedId? = some id ↔ p = .ended (.error (.invalidAttendeeId id)) := by
  cases p with
  | ended result =>
    cases result with
    | ok a => simp [refusedId?]
    | error e => simp [refusedId?, ServiceError.refusedId?_eq_some]
  | _ => simp [refusedId?]

namespace KeyService

/-- A request that has begun, and that was refused for its ticket id if this is none and not
otherwise. -/
structure Screened (q : KeyRequest) (p : Progress) : Prop where
  /-- It has begun. -/
  begun : p ≠ .asked
  /-- It was refused for its ticket id if this is none. -/
  refused : p.refusedId? = if isTicketId q.ticket then none else some q.ticket

variable {σ : Type} [LedgerClient σ] {q : KeyRequest} {p : Progress}

/-- What the ledger answers does not refuse a ticket id. -/
theorem refusedId?_afterQuery {answer : Except ClientError QueryResponse} :
    (afterQuery (answer.mapError .ofClientError)).refusedId? = none := by
  cases answer with
  | error e => exact ServiceError.refusedId?_ofClientError e
  | ok r =>
    change (afterQuery (.ok r)).refusedId? = none
    unfold afterQuery
    split
    · next h => cases h
    · split <;> rfl
    · rfl

/-- What the ledger answers takes a request on. -/
theorem afterQuery_ne_asked (answer : Except ServiceError QueryResponse) :
    afterQuery answer ≠ .asked := by
  unfold afterQuery
  split
  · nofun
  · split <;> nofun
  · nofun

/-- The first step of a request looks at its ticket id. -/
theorem screened_resolve (s : KeyService σ) (q : KeyRequest) : Screened q (s.resolve q).1 := by
  unfold resolve
  by_cases hticket : isTicketId q.ticket = true
  · rw [if_pos hticket]
    refine ⟨afterQuery_ne_asked _, ?_⟩
    rw [if_pos hticket]
    exact refusedId?_afterQuery
  · rw [if_neg hticket]
    refine ⟨nofun, ?_⟩
    rw [if_neg hticket]
    rfl

/-- Having the relay grant the key does not refuse a ticket id, and takes a request on. -/
theorem refusedId?_grant (s : KeyService σ) (q : KeyRequest) (a : Attendee) :
    (s.grant q a).1.refusedId? = none ∧ (s.grant q a).1 ≠ .asked := by
  unfold grant
  dsimp only
  split
  · exact ⟨rfl, nofun⟩
  · exact ⟨ServiceError.refusedId?_ofRelayError _, nofun⟩

omit [LedgerClient σ] in
/-- Sending the link does not refuse a ticket id, and takes a request on. -/
theorem refusedId?_deliver (s : KeyService σ) (q : KeyRequest) (a : Attendee) :
    (s.deliver q a).1.refusedId? = none ∧ (s.deliver q a).1 ≠ .asked := by
  unfold deliver
  split
  · exact ⟨rfl, nofun⟩
  · exact ⟨rfl, nofun⟩

/-- Every step leaves a request screened. -/
theorem Screened.advance (s : KeyService σ) (h : p = .asked ∨ Screened q p) :
    Screened q (s.advance q p).1 := by
  cases p with
  | asked => exact screened_resolve s q
  | resolved a =>
    have hp := h.resolve_left nofun
    obtain ⟨hrefused, hbegun⟩ := refusedId?_grant s q a
    exact ⟨hbegun, hrefused.trans hp.refused⟩
  | granted a =>
    have hp := h.resolve_left nofun
    obtain ⟨hrefused, hbegun⟩ := refusedId?_deliver s q a
    exact ⟨hbegun, hrefused.trans hp.refused⟩
  | ended result => exact h.resolve_left nofun

/-- How far a request comes in steps between which anything may happen to the service. -/
def progressAmid (q : KeyRequest) (p : Progress) (services : List (KeyService σ)) : Progress :=
  services.foldl (fun p s => (s.advance q p).1) p

/-- Steps leave a request screened, whatever happens between them. -/
theorem Screened.progressAmid (h : Screened q p) (services : List (KeyService σ)) :
    Screened q (progressAmid q p services) := by
  induction services generalizing p with
  | nil => exact h
  | cons s services ih => exact ih (.advance s (Or.inr h))

/-- Steps with nothing between them leave a request screened. -/
theorem Screened.advanceTimes (h : Screened q p) (steps : Nat) (s : KeyService σ) :
    Screened q (advanceTimes q steps p s).1 := by
  induction steps generalizing p s with
  | zero => exact h
  | succ steps ih => exact ih (.advance s (Or.inr h)) _

/-- A screened request has ended with the error of a ticket id if this is its own and is none. -/
theorem Screened.eq_iff (h : Screened q p) (id : String) :
    p = .ended (.error (.invalidAttendeeId id)) ↔ id = q.ticket ∧ ¬IsNumeral q.ticket := by
  rw [← Progress.refusedId?_eq_some, h.refused, IsNumeral, ← isTicketId_iff]
  by_cases hticket : isTicketId q.ticket = true
  · simp [hticket]
  · simp [hticket, eq_comm]

/-- A request that is answered at once is answered with the error of a ticket id if this is its own
and is none. -/
theorem keyAttendee_eq_iff (s : KeyService σ) (q : KeyRequest) (id : String) :
    (s.keyAttendee q).1 = .error (.invalidAttendeeId id) ↔
      id = q.ticket ∧ ¬IsNumeral q.ticket := by
  have hscreened : Screened q (KeyService.advanceTimes q 3 .asked s).1 :=
    (screened_resolve s q).advanceTimes 2 _
  rw [← hscreened.eq_iff id, keyAttendee]
  generalize KeyService.advanceTimes q 3 .asked s = r
  obtain ⟨progress, t⟩ := r
  cases progress with
  | ended result => exact ⟨fun h => congrArg _ h, fun h => Progress.ended.inj h⟩
  | asked | resolved | granted => exact ⟨nofun, nofun⟩

end KeyService

/-- A text that is taken for a ticket id, wherever one is asked for, only if it is the decimal text
of a positive number. -/
structure TakenAsNumeral (s : String) : Prop where
  /-- The check of a ticket id passes it if it is. -/
  checked : checkTicketId s = .ok () ↔ IsNumeral s
  /-- So the check is one of its bytes. -/
  bytes : checkTicketId s = .ok () ↔ (Bytes.ofText s).AreNumeral
  /-- A scan or a redemption in which it stands is executed only if it is. -/
  executed : ∀ (c : Chain) (tx : SignedTx) (time : Int64), tx.op.ticket? = some s →
    (c.deliver tx time).1.executed = true → IsNumeral s
  /-- A token whose subject it is is accepted only if it is. -/
  vouched : ∀ token config now claims, Token.validate token config now = .ok claims →
    claims.subject = s → IsNumeral s
  /-- A request for a key that is answered at once is refused for it if it is not, and no request is
  refused for another text than its own. -/
  keyed : ∀ (σ : Type) [LedgerClient σ] (service : KeyService σ) (q : KeyRequest) (id : String),
    q.ticket = s → ((service.keyAttendee q).1 = .error (.invalidAttendeeId id) ↔
      id = s ∧ ¬IsNumeral s)
  /-- So is a request between whose steps anything may happen. -/
  keyedAmid : ∀ (σ : Type) [LedgerClient σ] (service : KeyService σ) (later : List (KeyService σ))
    (q : KeyRequest) (id : String), q.ticket = s →
      (KeyService.progressAmid q .asked (service :: later) =
        .ended (.error (.invalidAttendeeId id)) ↔ id = s ∧ ¬IsNumeral s)

/-- Every text is taken for a ticket id only if it is the decimal text of a positive number, and the
ticket ids stand for the positive numbers, every one of them for another. -/
theorem ticketIds_canonical : (∀ s, TakenAsNumeral s) ∧
    Set.BijOn numberOf {s | checkTicketId s = .ok ()} {n | 0 < n} ∧
    ∀ n, numberOf (toString n) = n := by
  refine ⟨fun s => ?_, bijOn_numberOf, numberOf_toString⟩
  constructor
  · exact checkTicketId_iff
  · exact checkTicketId_eq_ok.trans isTicketId_iff_bytes
  · intro c tx time hticket hexecuted
    obtain ⟨x, hx⟩ := Chain.admits_of_executed hexecuted
    exact checkTicketId_iff.mp (Operation.checkTicketId_of_check hx.check hticket)
  · rintro token config now claims h rfl
    obtain ⟨v, payload, -, -, -, -, -, -, hchecked⟩ := Token.validate_eq_ok.mp h
    exact isTicketId_iff.mp (Token.checkClaims_eq_ok hchecked).1
  · rintro σ _ service q id rfl
    exact service.keyAttendee_eq_iff q id
  · rintro σ _ service later q id rfl
    exact ((KeyService.screened_resolve service q).progressAmid later).eq_iff id

/-- The ticket id in a scan that is executed and the subject of a token that is accepted are decimal
texts, and a request for a key is refused for zeros in front of the digits. -/
theorem ticketIds_canonical_scan :
    ((SmallLedger.pairChain.after SmallLedger.lifecycle).deliver SmallLedger.scan.tx
      SmallLedger.scan.time).1.executed = true ∧ IsNumeral "2" ∧
    (∃ claims, Token.validate Token.bareToken Token.namedConfig.indifferent 0 = .ok claims ∧
      IsNumeral claims.subject) ∧
    (SmallLedger.service.keyAttendee ⟨"007", SmallLedger.attendeeKey, "s"⟩).1 =
      .error (.invalidAttendeeId "007") := by
  obtain ⟨htaken, -, -⟩ := ticketIds_canonical
  have hcode : ((SmallLedger.pairChain.after SmallLedger.lifecycle).deliver SmallLedger.scan.tx
      SmallLedger.scan.time).1.code = 0 :=
    Chain.code_of_answers [0, 0] SmallLedger.codes_encounter
  have hexecuted := Chain.executed_of_code hcode
  obtain ⟨claims, hvalid, -, -⟩ := Token.validate_bareToken
  have hzeros : ¬IsNumeral "007" := by
    rw [← (htaken "007").checked]
    decide
  refine ⟨hexecuted, (htaken "2").executed _ _ _ rfl hexecuted, ⟨claims, hvalid, ?_⟩, ?_⟩
  · exact (htaken claims.subject).vouched _ _ _ _ hvalid rfl
  · exact ((htaken "007").keyed LocalLedger SmallLedger.service _ "007" rfl).mpr ⟨rfl, hzeros⟩

end ConferenceLedger

import ConferenceLedger.Proofs.Ledger.TicketIds
import ConferenceLedger.Proofs.Token.Settings
import Mathlib.Data.List.TakeWhile

/-!
# What an accepted token is

A token that is accepted is cut at its last two dots into a header, claims and a signature. The
configuration decides alone how the signature is checked: under the RSA key if there is one, and
under the secret only if there is no key. The claims that are answered are those of the token, they
are of an attendee, and they have not expired to the second.
-/

namespace ConferenceLedger.Token

/-- Characters are cut at their last dot. -/
theorem splitLast?_eq_some {cs before after : List Char} :
    splitLast? cs = some (before, after) ↔ cs = before ++ '.' :: after ∧ '.' ∉ after := by
  unfold splitLast?
  constructor
  · intro h
    have hspan := List.takeWhile_append_dropWhile (p := fun c => decide (c ≠ '.')) (l := cs.reverse)
    cases hdrop : cs.reverse.dropWhile (fun c => decide (c ≠ '.')) with
    | nil =>
      simp only [hdrop] at h
      cases h
    | cons c rest =>
      simp only [hdrop, Option.some.injEq, Prod.mk.injEq] at h
      obtain ⟨rfl, rfl⟩ := h
      have hdot : c = '.' := by
        have hfirst := List.head?_dropWhile_not (fun c => decide (c ≠ '.')) cs.reverse
        rw [hdrop] at hfirst
        simpa using hfirst
      rw [hdrop, hdot] at hspan
      constructor
      · apply List.reverse_injective
        rw [List.reverse_append, List.reverse_cons, List.reverse_reverse, List.reverse_reverse,
          List.append_assoc, List.singleton_append]
        exact hspan.symm
      · intro hmem
        have hother := List.mem_takeWhile_imp (List.mem_reverse.mp hmem)
        exact of_decide_eq_true hother rfl
  · rintro ⟨rfl, hafter⟩
    have hpassed : ∀ c ∈ after.reverse, decide (c ≠ '.') = true := by
      intro c hc
      apply decide_eq_true
      rintro rfl
      exact hafter (List.mem_reverse.mp hc)
    have hreversed : (before ++ '.' :: after).reverse =
        after.reverse ++ '.' :: before.reverse := by
      rw [List.reverse_append, List.reverse_cons, List.append_assoc, List.singleton_append]
    have hdrop : (after.reverse ++ '.' :: before.reverse).dropWhile (fun c => decide (c ≠ '.')) =
        '.' :: before.reverse := by
      rw [List.dropWhile_append_of_pos hpassed]
      rfl
    have htake : (after.reverse ++ '.' :: before.reverse).takeWhile (fun c => decide (c ≠ '.')) =
        after.reverse := by
      rw [List.takeWhile_append_of_pos hpassed]
      exact List.append_nil _
    simp only [hreversed, hdrop, htake, List.reverse_reverse]

/-- The parts of a token: the token is the three between dots, and only the header may have dots
of its own. -/
structure Parts.Of (token : String) (p : Parts) : Prop where
  /-- What is signed stands before the signature, up to a dot. -/
  text : token = p.message ++ "." ++ p.signature
  /-- There is no dot in the claims. -/
  payload : '.' ∉ p.payload.toList
  /-- There is no dot in the signature. -/
  signature : '.' ∉ p.signature.toList

/-- What a token is cut into are its parts. -/
theorem Parts.ofText?_eq_some {token : String} {p : Parts} :
    ofText? token = some p ↔ p.Of token := by
  constructor
  · intro h
    obtain ⟨⟨message, signature⟩, hlast, h⟩ := Option.bind_eq_some_iff.mp h
    obtain ⟨⟨header, payload⟩, hfirst, h⟩ := Option.bind_eq_some_iff.mp h
    cases h
    obtain ⟨htoken, hsignature⟩ := splitLast?_eq_some.mp hlast
    obtain ⟨hmessage, hpayload⟩ := splitLast?_eq_some.mp hfirst
    refine ⟨?_, ?_, ?_⟩
    · apply String.toList_injective
      rw [htoken, hmessage]
      simp [Parts.message]
    · simpa using hpayload
    · simpa using hsignature
  · intro h
    have htoken : token.toList = p.message.toList ++ '.' :: p.signature.toList := by
      rw [h.text]
      simp
    have hmessage : p.message.toList = p.header.toList ++ '.' :: p.payload.toList := by
      simp [Parts.message]
    have hlast := splitLast?_eq_some.mpr ⟨htoken, h.signature⟩
    have hfirst := splitLast?_eq_some.mpr ⟨hmessage, h.payload⟩
    simp [ofText?, hlast, hfirst]

/-- A signature as a configuration asks for it, under the algorithm that a header names. -/
structure Signed (config : AuthConfig) (algorithm : Algorithm) (p : Parts) : Prop where
  /-- Where there is an RSA key, the header names RSA and the signature is one under this key,
  whatever the secret is. -/
  rsa : ∀ pem, config.publicKeyPem = some pem → algorithm = .rs256 ∧
    ∃ key signature, Rsa.keyBytes pem = .ok key ∧
      Base64.decodeUrl? p.signature = some signature ∧
      Rsa.verify key (Bytes.ofText p.message) signature = true
  /-- Where there is none, there is a secret, the header names HMAC and the signature is the one
  under this secret. -/
  shared : config.publicKeyPem = none → algorithm = .hs256 ∧
    ∃ secret, config.secret = some secret ∧
      p.signature = sharedSignature (Bytes.ofText secret) p.message

/-- A signature that the verifier of a configuration accepts is as the configuration asks for it. -/
theorem Signed.of_accepts {config : AuthConfig} {v : Verifier} {p : Parts}
    (hv : verifierOf config = .ok v) (h : v.accepts p.message p.signature = .ok true) :
    Signed config v.algorithm p := by
  unfold verifierOf at hv
  constructor
  · intro pem hpem
    rw [hpem] at hv
    cases hkey : Rsa.keyBytes pem with
    | error e =>
      simp only [hkey] at hv
      cases hv
    | ok key =>
      simp only [hkey, Except.ok.injEq] at hv
      subst hv
      cases hsignature : Base64.decodeUrl? p.signature with
      | none =>
        simp only [Verifier.accepts, hsignature] at h
        cases h
      | some signature =>
        simp only [Verifier.accepts, hsignature, Except.ok.injEq] at h
        exact ⟨rfl, key, signature, rfl, rfl, h⟩
  · intro hpem
    rw [hpem] at hv
    cases hsecret : config.secret with
    | none =>
      rw [hsecret] at hv
      cases hv
    | some secret =>
      rw [hsecret] at hv
      cases hv
      simp only [Verifier.accepts, Except.ok.injEq, decide_eq_true_iff] at h
      exact ⟨rfl, secret, rfl, h.symm⟩

/-- Nothing is checked without a key or a secret. -/
theorem isConfigured_of_verifierOf {config : AuthConfig} {v : Verifier}
    (h : verifierOf config = .ok v) : config.isConfigured = true := by
  unfold verifierOf at h
  rw [AuthConfig.isConfigured, Bool.or_eq_true, Option.isSome_iff_ne_none,
    Option.isSome_iff_ne_none, ← not_and_or]
  rintro ⟨hpem, hsecret⟩
  rw [hpem, hsecret] at h
  cases h

/-- The payload of a token is opened if the token has three parts, the header names the algorithm of
the verifier, and the signature is accepted. -/
theorem openPayload_eq_ok {v : Verifier} {token : String} {payload : Json}
    (h : openPayload v token = .ok payload) :
    ∃ p header, Parts.ofText? token = some p ∧ decodePart p.header = .ok header ∧
      headerAlgorithm? header = some v.algorithm ∧
      v.accepts p.message p.signature = .ok true ∧ decodePart p.payload = .ok payload := by
  unfold openPayload at h
  cases hparts : Parts.ofText? token with
  | none =>
    rw [hparts] at h
    cases h
  | some p =>
    rw [hparts] at h
    obtain ⟨header, hheader, h⟩ := Except.bind_eq_ok.mp h
    cases halgorithm : headerAlgorithm? header with
    | none =>
      rw [halgorithm] at h
      cases h
    | some algorithm =>
      rw [halgorithm] at h
      dsimp only at h
      split_ifs at h with hother
      · cases h
      · obtain ⟨accepted, haccepts, h⟩ := Except.bind_eq_ok.mp h
        cases accepted with
        | false => cases h
        | true =>
          rw [Decidable.not_not.mp hother] at halgorithm
          exact ⟨p, header, rfl, hheader, halgorithm, haccepts, h⟩

/-- Claims that are right in themselves are of a ticket, and have not expired if this is looked
at. -/
theorem checkClaims_eq_ok {claims : Claims} {config : AuthConfig} {now : Nat}
    (h : checkClaims claims config now = .ok ()) : isTicketId claims.subject = true ∧
      (config.skipExpiry = true ∨ claims.expiry = 0 ∨ now ≤ claims.expiry.toNat) := by
  unfold checkClaims at h
  split_ifs at h with hempty hticket hexpired
  refine ⟨by simpa using hticket, ?_⟩
  cases hskip : config.skipExpiry with
  | true => exact Or.inl rfl
  | false =>
    right
    by_cases hzero : claims.expiry = 0
    · exact Or.inl hzero
    · right
      have hpositive : 0 < claims.expiry.toNat := by
        apply Nat.pos_of_ne_zero
        intro hnone
        exact hzero (UInt64.toNat_inj.mp hnone)
      simpa [hskip, hpositive] using hexpired

/-- A token that a configuration answers with claims at a time. -/
structure Vouches (config : AuthConfig) (now : Nat) (token : String) (claims : Claims) : Prop where
  /-- There is a key or a secret. -/
  configured : config.isConfigured = true
  /-- The parts are those of the token, the header names an algorithm under which the token is
  signed as configured, and the claims are what the second part says. -/
  signed : ∃ p header payload algorithm, Parts.Of token p ∧ decodePart p.header = .ok header ∧
    headerAlgorithm? header = some algorithm ∧ Signed config algorithm p ∧
    decodePart p.payload = .ok payload ∧ (ofJson? payload : Option Claims) = some claims
  /-- The subject is the decimal text of a positive number. -/
  subject : ∃ n : Nat, 0 < n ∧ claims.subject = toString n
  /-- The claims have not expired, to the second, unless this is not looked at or they do not say
  when they do. -/
  expiry : config.skipExpiry = true ∨ claims.expiry = 0 ∨ now ≤ claims.expiry.toNat

/-- Every token that is accepted, under whatever configuration and at whatever time, is signed as
configured and vouches for the claims that are answered. -/
theorem vouches_of_validate {token : String} {config : AuthConfig} {now : Nat} {claims : Claims}
    (h : validate token config now = .ok claims) : Vouches config now token claims := by
  obtain ⟨v, payload, -, hv, hopened, hclaims, -, -, hchecked⟩ := validate_eq_ok.mp h
  obtain ⟨p, header, hparts, hheader, halgorithm, haccepts, hpayload⟩ := openPayload_eq_ok hopened
  obtain ⟨hticket, hexpiry⟩ := checkClaims_eq_ok hchecked
  have hsigned := Signed.of_accepts hv haccepts
  constructor
  · exact isConfigured_of_verifierOf hv
  · exact ⟨p, header, payload, v.algorithm, Parts.ofText?_eq_some.mp hparts, hheader, halgorithm, hsigned,
      hpayload, hclaims⟩
  · exact isTicketId_iff.mp hticket
  · exact hexpiry

/-- The token that names a ticket and nothing else is accepted under its secret, and vouches for
what it claims. -/
theorem vouches_of_validate_bare :
    ∃ claims, validate bareToken namedConfig.indifferent 0 = .ok claims ∧
      Vouches namedConfig.indifferent 0 bareToken claims := by
  obtain ⟨claims, hok, -, -⟩ := validate_bareToken
  exact ⟨claims, hok, vouches_of_validate hok⟩

end ConferenceLedger.Token

import ConferenceLedger.Proofs.Codec.RoundTrip
import ConferenceLedger.Store.Key

/-!
# Which texts spell a byte string

A text is read leniently: without one marker in front, and with a zero digit in front if its bytes
are odd in number then. What is left spells a byte string if every byte of it is a digit, in
either case. The first byte that is none is reported, and a wrong length only if there is no such
byte. Every byte string has a spelling in lowercase, which may also carry a marker.
-/

namespace ConferenceLedger

/-- The first byte of a text, when it is below 0x80, is its first character. -/
theorem Bytes.ofText_eq_cons {s : String} {b : UInt8} {rest : Bytes} (h : ofText s = b :: rest)
    (hb : b.toNat < 0x80) :
    ∃ t, s = String.singleton (Char.ofNat b.toNat) ++ t ∧ ofText t = rest := by
  rw [ofText_eq] at h
  cases hs : s.toList with
  | nil =>
    rw [hs] at h
    cases h
  | cons c cs =>
    rw [hs, List.flatMap_cons] at h
    rcases Utf8.encodeChar_cases c with ⟨-, x, hbyte, hnumber⟩ | ⟨-, x, xs, hbytes, hx⟩
    · rw [hbyte, List.singleton_append] at h
      obtain ⟨rfl, hrest⟩ := List.cons.inj h
      refine ⟨String.ofList cs, ?_, ?_⟩
      · rw [hnumber, Char.ofNat_toNat, ← String.toList_inj, hs]
        simp
      · rw [ofText_eq, String.toList_ofList, hrest]
    · rw [hbytes, List.cons_append] at h
      obtain ⟨rfl, -⟩ := List.cons.inj h
      omega

namespace Hex

/-- A byte that is the digit of a value, in lower or in upper case. -/
def Digit (c : UInt8) (n : Nat) : Prop :=
  (Bytes.ofText "0123456789abcdef")[n]? = some c ∨ (Bytes.ofText "0123456789ABCDEF")[n]? = some c

/-- A byte that is a digit. -/
def IsDigit (c : UInt8) : Prop := ∃ n, Digit c n

/-- Digits that write a byte string: two a byte, the one of the high half first. -/
inductive Spells : Bytes → Bytes → Prop where
  /-- No digits write no bytes. -/
  | nil : Spells [] []
  /-- Two digits write a byte in front of the others. -/
  | cons {h l : UInt8} {x y : Nat} {u b : Bytes} (hx : Digit h x) (hy : Digit l y)
    (hrest : Spells u b) : Spells (h :: l :: u) (UInt8.ofNat (16 * x + y) :: b)

/-- The first byte that is no digit. -/
structure BadDigit.IsFirst (e : BadDigit) (u : Bytes) : Prop where
  /-- The byte stands at the index. -/
  found : u[e.index]? = some e.byte
  /-- It is no digit. -/
  bad : ¬IsDigit e.byte
  /-- All bytes in front of it are. -/
  before : ∀ c ∈ u.take e.index, IsDigit c

/-- What is left of a text without one marker in front. -/
def Unmarked (s rest : String) : Prop :=
  s = "0x" ++ rest ∨ s = "0X" ++ rest ∨ rest = s ∧ ∀ t, s ≠ "0x" ++ t ∧ s ≠ "0X" ++ t

/-- A text with a zero digit in front if its bytes are odd in number. -/
def padded (s : String) : String := if s.utf8ByteSize % 2 = 0 then s else "0" ++ s

/-- A byte has a value if it is the digit of it. -/
theorem value?_eq_some_iff {c : UInt8} {n : Nat} : value? c = some n ↔ Digit c n := by
  constructor
  · have hall : ∀ k < 256, ∀ m ∈ value? (UInt8.ofNat k), Digit (UInt8.ofNat k) m := by
      unfold Digit
      decide +kernel
    intro h
    have hc := hall c.toNat c.toNat_lt n
    rw [UInt8.ofNat_toNat] at hc
    exact hc h
  · have hall : ∀ m < 16, ((Bytes.ofText "0123456789abcdef")[m]?.bind value?) = some m ∧
        ((Bytes.ofText "0123456789ABCDEF")[m]?.bind value?) = some m := by
      decide +kernel
    rintro (h | h)
    all_goals
      obtain ⟨hn, -⟩ := List.getElem?_eq_some_iff.mp h
      obtain ⟨hlower, hupper⟩ := hall n hn
    · rwa [h] at hlower
    · rwa [h] at hupper

/-- A byte without a value is no digit. -/
theorem not_isDigit_of_value? {c : UInt8} (h : value? c = none) : ¬IsDigit c := by
  rintro ⟨n, hn⟩
  rw [value?_eq_some_iff.mpr hn] at h
  cases h

namespace Spells

variable {u b : Bytes}

/-- There are two digits a byte. -/
theorem length (h : Spells u b) : u.length = 2 * b.length := by
  induction h with
  | nil => rfl
  | cons hx hy hrest ih =>
    rw [List.length_cons, List.length_cons, List.length_cons, ih]
    omega

/-- What spells a byte string are digits. -/
theorem isDigit (h : Spells u b) : ∀ c ∈ u, IsDigit c := by
  induction h with
  | nil =>
    intro c hc
    exact absurd hc List.not_mem_nil
  | cons hx hy hrest ih =>
    intro c hc
    rcases List.mem_cons.mp hc with rfl | hc
    · exact ⟨_, hx⟩
    · rcases List.mem_cons.mp hc with rfl | hc
      · exact ⟨_, hy⟩
      · exact ih c hc

/-- What spells a byte string is read as it. -/
theorem pairs (h : Spells u b) (index : Nat) : Hex.pairs index u = .ok b := by
  induction h generalizing index with
  | nil => rfl
  | cons hx hy hrest ih =>
    simp only [Hex.pairs, value?_eq_some_iff.mpr hx, value?_eq_some_iff.mpr hy, ih]

end Spells

namespace BadDigit

/-- There is one first byte that is no digit. -/
theorem IsFirst.unique {e f : BadDigit} {u : Bytes} (he : e.IsFirst u) (hf : f.IsFirst u) :
    e = f := by
  have hle : ∀ {e f : BadDigit}, e.IsFirst u → f.IsFirst u → e.index ≤ f.index := by
    intro e f he hf
    apply Nat.le_of_not_lt
    intro hlt
    refine hf.bad (he.before _ ?_)
    obtain ⟨hindex, hbyte⟩ := List.getElem?_eq_some_iff.mp hf.found
    exact List.mem_take_iff_getElem.mpr ⟨f.index, by omega, hbyte⟩
  have hindex : e.index = f.index := Nat.le_antisymm (hle he hf) (hle hf he)
  have hbyte := he.found
  rw [hindex, hf.found] at hbyte
  obtain ⟨byte, index⟩ := e
  obtain ⟨byte', index'⟩ := f
  cases hindex
  cases hbyte
  rfl

/-- The first byte that is no digit is one of the bytes. -/
theorem IsFirst.mem {e : BadDigit} {u : Bytes} (h : e.IsFirst u) : e.byte ∈ u :=
  List.mem_of_getElem? h.found

/-- Two digits in front do not change which byte is the first that is none. -/
theorem IsFirst.cons {byte h l : UInt8} {index : Nat} {u : Bytes} (hh : IsDigit h) (hl : IsDigit l)
    (hfirst : (⟨byte, index⟩ : BadDigit).IsFirst u) :
    (⟨byte, index + 2⟩ : BadDigit).IsFirst (h :: l :: u) := by
  refine ⟨hfirst.found, hfirst.bad, ?_⟩
  intro c hc
  rcases List.mem_cons.mp hc with rfl | hc
  · exact hh
  · rcases List.mem_cons.mp hc with rfl | hc
    · exact hl
    · exact hfirst.before c hc

end BadDigit

/-- What is read is spelled by the digits. -/
theorem spells_of_pairs {index : Nat} {u b : Bytes} (heven : u.length % 2 = 0)
    (h : pairs index u = .ok b) : Spells u b := by
  fun_induction pairs index u generalizing b with
  | case1 =>
    cases h
    exact .nil
  | case2 => cases heven
  | case3 => cases h
  | case4 => cases h
  | case5 => cases h
  | case6 index high low rest x y hy hx bytes hrest ih =>
    cases h
    rw [List.length_cons, List.length_cons] at heven
    exact .cons (value?_eq_some_iff.mp hx) (value?_eq_some_iff.mp hy) (ih (by omega) hrest)

/-- What is reported is the first byte that is no digit, its place counted from the index. -/
theorem isFirst_of_pairs {index : Nat} {u : Bytes} {e : BadDigit} (h : pairs index u = .error e) :
    ∃ k, e.index = index + k ∧ (⟨e.byte, k⟩ : BadDigit).IsFirst u := by
  fun_induction pairs index u with
  | case1 => cases h
  | case2 => cases h
  | case3 index high low rest hhigh =>
    cases h
    refine ⟨0, rfl, rfl, not_isDigit_of_value? hhigh, ?_⟩
    intro c hc
    exact absurd hc List.not_mem_nil
  | case4 index high low rest hlow hhigh =>
    cases h
    have hdigit : IsDigit high := by
      obtain ⟨x, hx⟩ := Option.ne_none_iff_exists'.mp hhigh
      exact ⟨x, value?_eq_some_iff.mp hx⟩
    refine ⟨1, rfl, rfl, not_isDigit_of_value? hlow, ?_⟩
    intro c hc
    rw [List.mem_singleton.mp hc]
    exact hdigit
  | case5 index high low rest x y hy hx f hrest ih =>
    cases h
    obtain ⟨k, hindex, hfirst⟩ := ih hrest
    have hpair := hfirst.cons ⟨x, value?_eq_some_iff.mp hx⟩ ⟨y, value?_eq_some_iff.mp hy⟩
    exact ⟨k + 2, by omega, hpair⟩
  | case6 => cases h

/-- What is left of a text without a marker, padded, is the trimmed text. -/
theorem trim_eq_padded (s : String) : ∃ rest, Unmarked s rest ∧ trim s = padded rest := by
  have hzero : ∀ cs : List Char, String.ofList ('0' :: cs) = "0" ++ String.ofList cs := by
    intro cs
    rw [← String.toList_inj]
    simp
  unfold trim
  dsimp only
  split
  · next cs hs =>
    refine ⟨String.ofList cs, Or.inl ?_, ?_⟩
    · rw [← String.toList_inj, hs]
      simp
    · rw [padded, hzero]
  · next cs hs =>
    refine ⟨String.ofList cs, Or.inr (Or.inl ?_), ?_⟩
    · rw [← String.toList_inj, hs]
      simp
    · rw [padded, hzero]
  · next hlower hupper =>
    refine ⟨s, Or.inr (Or.inr ⟨rfl, fun t => ⟨?_, ?_⟩⟩), ?_⟩
    · rintro rfl
      exact hlower t.toList (by simp)
    · rintro rfl
      exact hupper t.toList (by simp)
    · rw [padded, hzero, String.ofList_toList]

/-- The bytes of a text without a marker are those of what is left of it. -/
theorem dropMarker_ofText {s rest : String} (h : Unmarked s rest) :
    dropMarker (Bytes.ofText s) = Bytes.ofText rest := by
  rcases h with rfl | rfl | ⟨rfl, hnone⟩
  · rw [Bytes.ofText_append]
    rfl
  · rw [Bytes.ofText_append]
    rfl
  · -- bytes that begin as a marker does are those of a text that begins with it
    have hstarts : ∀ (b : UInt8) (bytes : Bytes), b.toNat < 0x80 →
        Bytes.ofText rest = 48 :: b :: bytes →
          ∃ t, rest = "0" ++ (String.singleton (Char.ofNat b.toNat) ++ t) := by
      intro b bytes hb hbytes
      obtain ⟨t, rfl, ht⟩ := Bytes.ofText_eq_cons hbytes (by decide)
      obtain ⟨t', rfl, -⟩ := Bytes.ofText_eq_cons ht hb
      exact ⟨t', rfl⟩
    unfold dropMarker
    split
    · next bytes hbytes =>
      obtain ⟨t, ht⟩ := hstarts 120 bytes (by decide) hbytes
      rw [← String.append_assoc] at ht
      exact absurd ht (hnone t).1
    · next bytes hbytes =>
      obtain ⟨t, ht⟩ := hstarts 88 bytes (by decide) hbytes
      rw [← String.append_assoc] at ht
      exact absurd ht (hnone t).2
    · rfl

/-- The bytes that are read are those of the trimmed text. -/
theorem ofText_trim (s : String) : Bytes.ofText (trim s) = normalize (Bytes.ofText s) := by
  obtain ⟨rest, hrest, htrim⟩ := trim_eq_padded s
  rw [htrim, normalize, dropMarker_ofText hrest, Bytes.length_ofText, padded]
  split
  · rfl
  · rw [Bytes.ofText_append]
    rfl

/-- The bytes of the trimmed text are even in number. -/
theorem length_ofText_trim (s : String) : (Bytes.ofText (trim s)).length % 2 = 0 := by
  rw [ofText_trim]
  exact length_normalize _

/-- A text is read as the byte string that the trimmed text spells. -/
theorem decode_eq_ok_iff {s : String} {b : Bytes} :
    decode s = .ok b ↔ Spells (Bytes.ofText (trim s)) b := by
  rw [decode, ← ofText_trim]
  exact ⟨spells_of_pairs (length_ofText_trim s), fun h => h.pairs 0⟩

/-- What is reported of a text is the first byte of the trimmed text that is no digit. -/
theorem decode_eq_error_iff {s : String} {e : BadDigit} :
    decode s = .error e ↔ e.IsFirst (Bytes.ofText (trim s)) := by
  have hfirst : ∀ f, decode s = .error f → f.IsFirst (Bytes.ofText (trim s)) := by
    intro f hf
    rw [decode, ← ofText_trim] at hf
    obtain ⟨k, hindex, hk⟩ := isFirst_of_pairs hf
    rw [Nat.zero_add] at hindex
    subst hindex
    exact hk
  constructor
  · exact hfirst e
  · intro he
    cases hs : decode s with
    | ok b => exact absurd ((decode_eq_ok_iff.mp hs).isDigit _ he.mem) he.bad
    | error f => rw [(hfirst f hs).unique he]

/-- A text is read if all bytes of the trimmed text are digits. -/
theorem exists_decode_eq_ok_iff {s : String} :
    (∃ b, decode s = .ok b) ↔ ∀ c ∈ Bytes.ofText (trim s), IsDigit c := by
  constructor
  · rintro ⟨b, hb⟩
    exact (decode_eq_ok_iff.mp hb).isDigit
  · intro hall
    cases hs : decode s with
    | ok b => exact ⟨b, rfl⟩
    | error e =>
      have he := decode_eq_error_iff.mp hs
      exact absurd (hall _ he.mem) he.bad

/-- A reading of digits as a byte string of whatever length. -/
structure ReadsDigits {ε α : Type} (u : Bytes) (bytes : α → Bytes) (refusal : BadDigit → ε)
    (result : Except ε α) : Prop where
  /-- The result is what the digits spell. -/
  value : ∀ a, result = .ok a ↔ Spells u (bytes a)
  /-- There is one if all are digits. -/
  accepted : (∃ a, result = .ok a) ↔ ∀ c ∈ u, IsDigit c
  /-- The first byte that is no digit is reported. -/
  refused : ∀ f, result = .error f ↔ ∃ e, f = refusal e ∧ e.IsFirst u

/-- A reading of digits as a byte string of a given length. -/
structure ReadsExactly (n : Nat) (u : Bytes) (result : Except FormError (Octets n)) : Prop where
  /-- The result is what two digits a byte spell. -/
  value : ∀ o, result = .ok o ↔ u.length = 2 * n ∧ Spells u o.bytes
  /-- There is one if there are two bytes for each of the result and all are digits. -/
  accepted : (∃ o, result = .ok o) ↔ u.length = 2 * n ∧ ∀ c ∈ u, IsDigit c
  /-- The byte that is reported is the first that is no digit. -/
  refused : ∀ e, result = .error (.badDigit e) ↔ e.IsFirst u
  /-- One is reported whenever there is one, whatever the length. -/
  reported : (∃ e, result = .error (.badDigit e)) ↔ ∃ c ∈ u, ¬IsDigit c
  /-- Otherwise a wrong length is reported, with that of the bytes that the digits spell. -/
  length : ∀ expected got, result = .error (.wrongLength expected got) ↔
    (∀ c ∈ u, IsDigit c) ∧ u.length ≠ 2 * n ∧ expected = n ∧ got = u.length / 2

/-- What is read as a text is, and refused where it is, reads the digits of the trimmed text. -/
theorem readsDigits_of_decode {ε α : Type} {s : String} {bytes : α → Bytes} (make : Bytes → α)
    {refusal : BadDigit → ε} {result : Except ε α} (hbytes : ∀ b, bytes (make b) = b)
    (hmake : ∀ a, make (bytes a) = a) (hok : ∀ b, decode s = .ok b → result = .ok (make b))
    (herror : ∀ e, decode s = .error e → result = .error (refusal e)) :
    ReadsDigits (Bytes.ofText (trim s)) bytes refusal result := by
  cases hs : decode s with
  | ok b =>
    have hspells := decode_eq_ok_iff.mp hs
    rw [hok b hs]
    refine ⟨fun a => ?_, ?_, fun f => ?_⟩
    · rw [← decode_eq_ok_iff, hs, Except.ok.injEq, Except.ok.injEq]
      constructor
      · rintro rfl
        exact (hbytes b).symm
      · rintro rfl
        exact hmake a
    · exact ⟨fun _ => hspells.isDigit, fun _ => ⟨_, rfl⟩⟩
    · constructor
      · intro h
        cases h
      · rintro ⟨e, -, he⟩
        exact absurd (hspells.isDigit _ he.mem) he.bad
  | error e =>
    have he := decode_eq_error_iff.mp hs
    rw [herror e hs]
    refine ⟨fun a => ?_, ?_, fun f => ?_⟩
    · constructor
      · intro h
        cases h
      · intro h
        exact absurd (h.isDigit _ he.mem) he.bad
    · constructor
      · rintro ⟨a, ha⟩
        cases ha
      · intro hall
        exact absurd (hall _ he.mem) he.bad
    · rw [Except.error.injEq]
      constructor
      · rintro rfl
        exact ⟨e, rfl, he⟩
      · rintro ⟨e', rfl, he'⟩
        rw [he.unique he']

end Hex

namespace Octets

variable {n : Nat} {s : String}

/-- So many bytes are read where the byte string is. -/
theorem ofHex_eq_ok_iff {o : Octets n} : ofHex n s = .ok o ↔ Hex.decode s = .ok o.bytes := by
  rw [ofHex]
  cases Hex.decode s with
  | error e => simp
  | ok b =>
    dsimp only
    by_cases hb : b.length = n
    · rw [dif_pos hb, Except.ok.injEq, Except.ok.injEq]
      constructor
      · rintro rfl
        rfl
      · rintro rfl
        rfl
    · rw [dif_neg hb]
      constructor
      · intro h
        cases h
      · intro h
        cases h
        exact absurd o.length_bytes hb

/-- A bad digit is reported where it is of the byte string. -/
theorem ofHex_eq_badDigit_iff {e : Hex.BadDigit} :
    ofHex n s = .error (.badDigit e) ↔ Hex.decode s = .error e := by
  rw [ofHex]
  cases Hex.decode s with
  | error f => simp
  | ok b =>
    dsimp only
    by_cases hb : b.length = n
    · simp [hb]
    · simp [hb]

/-- A wrong length is reported of a byte string that is read and has another length. -/
theorem ofHex_eq_wrongLength_iff {expected got : Nat} :
    ofHex n s = .error (.wrongLength expected got) ↔
      ∃ b, Hex.decode s = .ok b ∧ b.length ≠ n ∧ expected = n ∧ got = b.length := by
  rw [ofHex]
  cases Hex.decode s with
  | error f => simp
  | ok b =>
    dsimp only
    by_cases hb : b.length = n
    · simp [hb]
    · rw [dif_neg hb, Except.error.injEq, FormError.wrongLength.injEq]
      constructor
      · rintro ⟨rfl, rfl⟩
        exact ⟨b, rfl, hb, rfl, rfl⟩
      · rintro ⟨b', hb', -, rfl, rfl⟩
        cases hb'
        exact ⟨rfl, rfl⟩

end Octets

namespace Hex

/-- Texts are read as exactly so many bytes by the digits of the trimmed text. -/
theorem readsExactly_ofHex (n : Nat) (s : String) :
    ReadsExactly n (Bytes.ofText (trim s)) (Octets.ofHex n s) := by
  constructor
  · intro o
    rw [Octets.ofHex_eq_ok_iff, decode_eq_ok_iff]
    constructor
    · intro h
      exact ⟨by rw [h.length, o.length_bytes], h⟩
    · exact And.right
  · constructor
    · rintro ⟨o, ho⟩
      have hspells := decode_eq_ok_iff.mp (Octets.ofHex_eq_ok_iff.mp ho)
      exact ⟨by rw [hspells.length, o.length_bytes], hspells.isDigit⟩
    · rintro ⟨hlength, hall⟩
      obtain ⟨b, hb⟩ := exists_decode_eq_ok_iff.mpr hall
      have htwo := (decode_eq_ok_iff.mp hb).length
      exact ⟨⟨b, by omega⟩, Octets.ofHex_eq_ok_iff.mpr hb⟩
  · intro e
    rw [Octets.ofHex_eq_badDigit_iff, decode_eq_error_iff]
  · constructor
    · rintro ⟨e, he⟩
      have hfirst := decode_eq_error_iff.mp (Octets.ofHex_eq_badDigit_iff.mp he)
      exact ⟨e.byte, hfirst.mem, hfirst.bad⟩
    · rintro ⟨c, hc, hbad⟩
      cases hs : decode s with
      | ok b => exact absurd (exists_decode_eq_ok_iff.mp ⟨b, hs⟩ c hc) hbad
      | error e => exact ⟨e, Octets.ofHex_eq_badDigit_iff.mpr hs⟩
  · intro expected got
    rw [Octets.ofHex_eq_wrongLength_iff]
    constructor
    · rintro ⟨b, hb, hne, rfl, rfl⟩
      have htwo := (decode_eq_ok_iff.mp hb).length
      exact ⟨exists_decode_eq_ok_iff.mp ⟨b, hb⟩, by omega, rfl, by omega⟩
    · rintro ⟨hall, hne, rfl, rfl⟩
      obtain ⟨b, hb⟩ := exists_decode_eq_ok_iff.mpr hall
      have htwo := (decode_eq_ok_iff.mp hb).length
      exact ⟨b, hb, by omega, rfl, by omega⟩

/-- What may stand in front of the digits of a text. -/
def markers : List String := ["", "0x", "0X"]

/-- Every byte string is read back from its text, with or without a marker. -/
theorem decode_marked {marker : String} (h : marker ∈ markers) (b : Bytes) :
    decode (marker ++ encode b) = .ok b := by
  have hmarked : ∀ s, Unmarked s (encode b) → decode s = .ok b := by
    intro s hs
    have heven : (Bytes.ofText (encode b)).length % 2 = 0 := by
      rw [length_ofText_encode]
      omega
    rw [decode, normalize, dropMarker_ofText hs, if_pos heven, ofText_encode, pairs_digits]
  simp only [markers, List.mem_cons, List.not_mem_nil, or_false] at h
  rcases h with rfl | rfl | rfl
  · rw [String.empty_append]
    exact decode_encode b
  · exact hmarked _ (Or.inl rfl)
  · exact hmarked _ (Or.inr (Or.inl rfl))

/-- The text of a byte string has digits in lowercase only. -/
theorem lowercase_encode (b : Bytes) :
    ∀ c ∈ Bytes.ofText (encode b), c ∈ Bytes.ofText "0123456789abcdef" := by
  have hdigit : ∀ n < 16, digitByte n ∈ Bytes.ofText "0123456789abcdef" := by decide +kernel
  rw [ofText_encode]
  intro c hc
  obtain ⟨x, -, hx⟩ := List.mem_flatMap.mp hc
  simp only [digitPair, List.mem_cons, List.not_mem_nil, or_false] at hx
  rcases hx with rfl | rfl
  · exact hdigit _ (halves_lt x).1
  · exact hdigit _ (halves_lt x).2

/-- A byte string is read back as one of its length, with or without a marker. -/
theorem ofHex_marked {marker : String} (h : marker ∈ markers) {n : Nat} (o : Octets n) :
    Octets.ofHex n (marker ++ encode o.bytes) = .ok o :=
  Octets.ofHex_eq_ok_iff.mpr (decode_marked h o.bytes)

/-- The identifier of a meeting is read from digits as many as there are. -/
theorem readsDigits_scanId (s : String) :
    ReadsDigits (Bytes.ofText (trim s)) ScanId.bytes FormError.badDigit (ScanId.ofHex s) := by
  apply readsDigits_of_decode ScanId.mk (fun _ => rfl) (fun _ => rfl)
  · intro b hb
    rw [ScanId.ofHex, hb]
  · intro e he
    rw [ScanId.ofHex, he]

/-- A blob is read from the text that stands where it is expected. -/
theorem get_blob {b rest : Bytes} {s : String}
    (h : (Binary.get : Reader String) b = .ok (s, rest)) :
    (Binary.get : Reader Blob) b = (match decode s with
      | .ok x => pure ⟨x⟩
      | .error error => throw (.badDigit error) : Reader Blob) rest :=
  Reader.bind_ok h

/-- The text that stands in a byte string is read there as a blob from its digits. -/
theorem readsDigits_blob {b : Bytes} {s : String}
    (h : (Binary.decode b : Except CodecError String) = .ok s) :
    ReadsDigits (Bytes.ofText (trim s)) Blob.bytes CodecError.badDigit (Binary.decode b) := by
  obtain ⟨rest, hread⟩ := Reader.value_eq_ok h
  apply readsDigits_of_decode Blob.mk (fun _ => rfl) (fun _ => rfl)
  · intro x hx
    rw [Binary.decode, Reader.value, get_blob hread, hx]
    rfl
  · intro e he
    rw [Binary.decode, Reader.value, get_blob hread, he]
    rfl

/-- The identifier of a meeting is read where its blob is. -/
theorem decode_scanId (b : Bytes) : (Binary.decode b : Except CodecError ScanId) =
    (Binary.decode b : Except CodecError Blob).map fun x => ⟨x.bytes⟩ := by
  change ((Binary.get : Reader Blob) b >>= fun p => (Except.ok (⟨p.1.bytes⟩, p.2) :
    Except CodecError (ScanId × Bytes))).map (·.1) =
      (((Binary.get : Reader Blob) b).map (·.1)).map fun x => ⟨x.bytes⟩
  cases (Binary.get : Reader Blob) b <;> rfl

/-- The text that stands in a byte string is read there as the identifier of a meeting from its
digits. -/
theorem readsDigits_storedScanId {b : Bytes} {s : String}
    (h : (Binary.decode b : Except CodecError String) = .ok s) :
    ReadsDigits (Bytes.ofText (trim s)) ScanId.bytes CodecError.badDigit (Binary.decode b) := by
  have hblob := readsDigits_blob h
  apply readsDigits_of_decode ScanId.mk (fun _ => rfl) (fun _ => rfl)
  · intro x hx
    rw [decode_scanId, (hblob.value ⟨x⟩).mpr (decode_eq_ok_iff.mp hx)]
    rfl
  · intro e he
    rw [decode_scanId, (hblob.refused _).mpr ⟨e, rfl, decode_eq_error_iff.mp he⟩]
    rfl

/-- The text that stands in a byte string is read there as so many bytes. -/
theorem decode_octets {b : Bytes} {s : String} (n : Nat)
    (h : (Binary.decode b : Except CodecError String) = .ok s) :
    (Binary.decode b : Except CodecError (Octets n)) =
      (Octets.ofHex n s).mapError .badIdentifier := by
  obtain ⟨rest, hread⟩ := Reader.value_eq_ok h
  have hget : (Binary.get : Reader (Octets n)) b = _ := Reader.bind_ok hread
  rw [Binary.decode, Reader.value, hget]
  cases Octets.ofHex n s <;> rfl

/-- The text of a JSON string is read as so many bytes where they are. -/
theorem ofJson?_octets_iff {s : String} {n : Nat} {o : Octets n} :
    ofJson? (.str s) = some o ↔ Octets.ofHex n s = .ok o := by
  have hjson : (ofJson? (.str s) : Option (Octets n)) = (Octets.ofHex n s).toOption := rfl
  rw [hjson]
  cases Octets.ofHex n s <;> simp [Except.toOption]

/-- The text of a JSON string is read as a blob from its digits. -/
theorem ofJson?_blob_iff {s : String} {x : Blob} :
    ofJson? (.str s) = some x ↔ Spells (Bytes.ofText (trim s)) x.bytes := by
  have hjson : (ofJson? (.str s) : Option Blob) = (decode s).toOption.map Blob.mk := rfl
  rw [hjson, ← decode_eq_ok_iff]
  cases decode s with
  | error e => simp [Except.toOption]
  | ok b =>
    rw [Except.ok.injEq]
    constructor
    · intro h
      cases h
      rfl
    · rintro rfl
      rfl

/-- The text of a JSON string is read as the identifier of a meeting from its digits. -/
theorem ofJson?_scanId_iff {s : String} {i : ScanId} :
    ofJson? (.str s) = some i ↔ Spells (Bytes.ofText (trim s)) i.bytes := by
  have hjson : (ofJson? (.str s) : Option ScanId) =
    (ofJson? (.str s) : Option Blob).map fun x => ⟨x.bytes⟩ := rfl
  have hblob := ofJson?_blob_iff (s := s) (x := ⟨i.bytes⟩)
  rw [hjson, ← hblob, Option.map_eq_some_iff]
  constructor
  · rintro ⟨x, hx, rfl⟩
    exact hx
  · intro h
    exact ⟨_, h, rfl⟩

/-- A text that is read leniently wherever a byte string is expected. -/
structure ReadLeniently (s : String) : Prop where
  /-- What is read is the text without one marker, padded to an even number of bytes. -/
  trimmed : ∃ rest, Unmarked s rest ∧ trim s = padded rest
  /-- So many bytes are read from exactly their digits. -/
  octets : ∀ n, ReadsExactly n (Bytes.ofText (trim s)) (Octets.ofHex n s)
  /-- An identifier of a meeting is read from as many digits as there are. -/
  scanId : ReadsDigits (Bytes.ofText (trim s)) ScanId.bytes FormError.badDigit (ScanId.ofHex s)
  /-- So are the fields of JSON records that hold blobs. -/
  jsonBlob : ∀ x : Blob, ofJson? (.str s) = some x ↔ Spells (Bytes.ofText (trim s)) x.bytes
  /-- So are those that hold identifiers of meetings. -/
  jsonScanId : ∀ i : ScanId, ofJson? (.str s) = some i ↔ Spells (Bytes.ofText (trim s)) i.bytes
  /-- So are the blobs of binary records, wherever the text stands. -/
  binaryBlob : ∀ b, (Binary.decode b : Except CodecError String) = .ok s →
    ReadsDigits (Bytes.ofText (trim s)) Blob.bytes CodecError.badDigit (Binary.decode b)
  /-- So are the identifiers of meetings in them. -/
  binaryScanId : ∀ b, (Binary.decode b : Except CodecError String) = .ok s →
    ReadsDigits (Bytes.ofText (trim s)) ScanId.bytes CodecError.badDigit (Binary.decode b)
  /-- Fields of JSON records that hold so many bytes are read as these are. -/
  jsonOctets : ∀ n (o : Octets n), ofJson? (.str s) = some o ↔ Octets.ofHex n s = .ok o
  /-- So are those of binary records. -/
  binaryOctets : ∀ b, (Binary.decode b : Except CodecError String) = .ok s → ∀ n,
    (Binary.decode b : Except CodecError (Octets n)) = (Octets.ofHex n s).mapError .badIdentifier

/-- A byte string that is read back from its text wherever it may be read, with or without a
marker. -/
structure ReadBack (b : Bytes) : Prop where
  /-- The text spells the byte string. -/
  spelled : Spells (Bytes.ofText (encode b)) b
  /-- It does so in lowercase. -/
  lowercase : ∀ c ∈ Bytes.ofText (encode b), c ∈ Bytes.ofText "0123456789abcdef"
  /-- So many bytes are read back. -/
  octets : ∀ marker ∈ markers, ∀ n (o : Octets n), o.bytes = b →
    Octets.ofHex n (marker ++ encode b) = .ok o
  /-- An identifier of a meeting is read back. -/
  scanId : ∀ marker ∈ markers, ScanId.ofHex (marker ++ encode b) = .ok ⟨b⟩
  /-- A blob is read back. -/
  jsonBlob : ∀ marker ∈ markers, ofJson? (.str (marker ++ encode b)) = some (Blob.mk b)

/-- Every text is read leniently, and every byte string is read back from its text. -/
theorem reads_as_spelled : (∀ s, ReadLeniently s) ∧ ∀ b, ReadBack b := by
  constructor
  · intro s
    exact
      { trimmed := trim_eq_padded s
        octets := fun n => readsExactly_ofHex n s
        scanId := readsDigits_scanId s
        jsonBlob := fun _ => ofJson?_blob_iff
        jsonScanId := fun _ => ofJson?_scanId_iff
        binaryBlob := fun _ h => readsDigits_blob h
        binaryScanId := fun _ h => readsDigits_storedScanId h
        jsonOctets := fun _ _ => ofJson?_octets_iff
        binaryOctets := fun _ h n => decode_octets n h }
  · intro b
    have hspelled : Spells (Bytes.ofText (encode b)) b := by
      rw [ofText_encode]
      exact spells_of_pairs (by rw [← ofText_encode, length_ofText_encode]; omega) (pairs_digits b 0)
    refine ⟨hspelled, lowercase_encode b, ?_, ?_, ?_⟩
    · rintro marker hmarker n o rfl
      exact ofHex_marked hmarker o
    · intro marker hmarker
      rw [ScanId.ofHex, decode_marked hmarker]
    · intro marker hmarker
      rw [ofJson?_blob_iff, ← decode_eq_ok_iff]
      exact decode_marked hmarker b

/-- A single digit behind a marker is read as one byte, a character of two bytes is reported by its
first one although the length is wrong too, and the length of digits in mixed case is counted in
the bytes that they spell. -/
theorem reads_as_spelled_marked :
    Octets.ofHex 1 "0Xa" = .ok ⟨[10], rfl⟩ ∧
    Octets.ofHex 20 "é1" = .error (.badDigit ⟨0xc3, 1⟩) ∧
    Octets.ofHex 1 "0xa1B" = .error (.wrongLength 1 2) ∧
    ScanId.ofHex ("0X" ++ encode [7, 255]) = .ok ⟨[7, 255]⟩ := by
  obtain ⟨hread, hback⟩ := reads_as_spelled
  have hone : Bytes.ofText (trim "0Xa") = [48, 97] := by decide +kernel
  have haccent : Bytes.ofText (trim "é1") = [48, 0xc3, 0xa9, 49] := by decide +kernel
  have hmixed : Bytes.ofText (trim "0xa1B") = [48, 97, 49, 66] := by decide +kernel
  refine ⟨?_, ?_, ?_, (hback [7, 255]).scanId "0X" (by decide)⟩
  · rw [((hread "0Xa").octets 1).value, hone]
    exact ⟨rfl, .cons (x := 0) (y := 10) (Or.inl rfl) (Or.inl rfl) .nil⟩
  · rw [((hread "é1").octets 20).refused, haccent]
    refine ⟨rfl, not_isDigit_of_value? (by decide +kernel), ?_⟩
    intro c hc
    rw [List.mem_singleton.mp hc]
    exact ⟨0, Or.inl rfl⟩
  · rw [((hread "0xa1B").octets 1).length, hmixed]
    refine ⟨?_, by decide, rfl, rfl⟩
    intro c hc
    simp only [List.mem_cons, List.not_mem_nil, or_false] at hc
    rcases hc with rfl | rfl | rfl | rfl
    · exact ⟨0, Or.inl rfl⟩
    · exact ⟨10, Or.inl rfl⟩
    · exact ⟨1, Or.inl rfl⟩
    · exact ⟨11, Or.inr rfl⟩

end Hex

end ConferenceLedger

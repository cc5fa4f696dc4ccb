import ConferenceLedger.Text.Utf8
import Mathlib.Algebra.Group.Nat.Defs
import Mathlib.Tactic.SplitIfs

/-!
# Reading back UTF-8 text

The bytes of a text are the bytes of its characters one after another. Decoding reads each
character from its one to four bytes, so every text is read back from its own bytes. A text that is
read from any bytes is no longer than these.
-/

namespace ConferenceLedger

/-- The bytes of a text are those of its characters. -/
theorem Bytes.ofText_eq (s : String) :
    Bytes.ofText s = s.toList.flatMap String.utf8EncodeChar := by
  have hs : s.toByteArray = s.toList.utf8Encode := String.utf8Encode_toList.symm
  rw [Bytes.ofText, String.toUTF8_eq_toByteArray, hs, List.utf8Encode, List.data_toByteArray]

/-- The bytes of two texts in one are those of the first and then those of the second. -/
theorem Bytes.ofText_append (s t : String) :
    Bytes.ofText (s ++ t) = Bytes.ofText s ++ Bytes.ofText t := by
  rw [ofText_eq, ofText_eq, ofText_eq, String.toList_append, List.flatMap_append]

/-- A text has as many bytes as its size says. -/
theorem Bytes.length_ofText (s : String) : (Bytes.ofText s).length = s.utf8ByteSize := by
  rw [Bytes.ofText, String.toUTF8_eq_toByteArray, Array.length_toList, ByteArray.size_data,
    String.size_toByteArray]

namespace Utf8

/-- A character below 0x80 is one byte, which is its number, and the first byte of any other
character is not below 0x80. -/
theorem encodeChar_cases (c : Char) :
    (c.toNat < 0x80 ∧ ∃ b, String.utf8EncodeChar c = [b] ∧ b.toNat = c.toNat) ∨
      (0x80 ≤ c.toNat ∧ ∃ b rest, String.utf8EncodeChar c = b :: rest ∧ 0x80 ≤ b.toNat) := by
  change (c.val.toNat < 0x80 ∧ ∃ b, String.utf8EncodeChar c = [b] ∧ b.toNat = c.val.toNat) ∨
    (0x80 ≤ c.val.toNat ∧ _)
  unfold String.utf8EncodeChar
  generalize c.val.toNat = v
  dsimp only
  split_ifs with h1 h2 h3
  · refine Or.inl ⟨by omega, _, rfl, ?_⟩
    rw [UInt8.toNat_ofNat']
    omega
  · refine Or.inr ⟨by omega, _, _, rfl, ?_⟩
    rw [UInt8.toNat_ofNat']
    omega
  · refine Or.inr ⟨by omega, _, _, rfl, ?_⟩
    rw [UInt8.toNat_ofNat']
    omega
  · refine Or.inr ⟨by omega, _, _, rfl, ?_⟩
    rw [UInt8.toNat_ofNat']
    omega

/-- A byte below 0x80 is a character of its own. -/
theorem lead?_one (start : Nat) {b : UInt8} (h : b.toNat < 0x80) :
    lead? start b = some ⟨start, 0, 0, 0, b.toNat⟩ := by
  simp only [lead?, if_pos h]

/-- The first byte of a character of two bytes. -/
theorem lead?_two (start : Nat) {b : UInt8} (hlo : 0xC2 ≤ b.toNat) (hhi : b.toNat < 0xE0) :
    lead? start b = some ⟨start, 1, 0x80, 0xBF, b.toNat % 32⟩ := by
  have h0 : ¬b.toNat < 0x80 := by omega
  have h1 : ¬b.toNat < 0xC2 := by omega
  simp only [lead?, if_neg h0, if_neg h1, if_pos hhi]

/-- The first byte of a character of three bytes. Overlong forms and surrogates are excluded
by the bounds of the second byte. -/
theorem lead?_three (start : Nat) {b : UInt8} (hlo : 0xE0 ≤ b.toNat) (hhi : b.toNat < 0xF0) :
    lead? start b = some ⟨start, 2, if b.toNat = 0xE0 then 0xA0 else 0x80,
      if b.toNat = 0xED then 0x9F else 0xBF, b.toNat % 16⟩ := by
  have h0 : ¬b.toNat < 0x80 := by omega
  have h1 : ¬b.toNat < 0xC2 := by omega
  have h2 : ¬b.toNat < 0xE0 := by omega
  simp only [lead?, if_neg h0, if_neg h1, if_neg h2, if_pos hhi]
  by_cases hE0 : b.toNat = 0xE0
  · simp [hE0]
  · by_cases hED : b.toNat = 0xED
    · simp [hED]
    · simp [hE0, hED]

/-- The first byte of a character of four bytes. Overlong forms and values past the last
character are excluded by the bounds of the second byte. -/
theorem lead?_four (start : Nat) {b : UInt8} (hlo : 0xF0 ≤ b.toNat) (hhi : b.toNat ≤ 0xF4) :
    lead? start b = some ⟨start, 3, if b.toNat = 0xF0 then 0x90 else 0x80,
      if b.toNat = 0xF4 then 0x8F else 0xBF, b.toNat % 8⟩ := by
  have h0 : ¬b.toNat < 0x80 := by omega
  have h1 : ¬b.toNat < 0xC2 := by omega
  have h2 : ¬b.toNat < 0xE0 := by omega
  have h3 : ¬b.toNat < 0xF0 := by omega
  have h4 : b.toNat ≠ 0xE0 := by omega
  have h5 : b.toNat ≠ 0xED := by omega
  simp only [lead?, if_neg h0, if_neg h1, if_neg h2, if_neg h3, if_neg h4, if_neg h5]
  by_cases hF0 : b.toNat = 0xF0
  · simp [hF0]
  · by_cases hF4 : b.toNat = 0xF4
    · simp [hF4]
    · have hlt : b.toNat < 0xF4 := by omega
      simp [hF0, hF4, hlt]

/-- A byte that begins a character of several bytes leaves it being read. -/
theorem scan_lead {index : Nat} {b : UInt8} {p : Partial} (rest : Bytes)
    (hp : lead? index b = some p) (hm : p.missing ≠ 0) :
    scan none index (b :: rest) = scan (some p) (index + 1) rest := by
  simp only [scan, hp, if_neg hm]

/-- A continuation byte carries six bits. -/
theorem toNat_tail (n : Nat) : (UInt8.ofNat (n % 64 + 128)).toNat = n % 64 + 128 := by
  rw [UInt8.toNat_ofNat']
  omega

/-- A continuation byte within its bounds adds its six bits to the character being read. -/
theorem extend?_tail {p : Partial} {n : Nat} (hlo : p.low ≤ n % 64 + 128)
    (hhi : n % 64 + 128 ≤ p.high) :
    p.extend? (UInt8.ofNat (n % 64 + 128)) =
      some ⟨p.start, p.missing - 1, 0x80, 0xBF, 64 * p.bits + n % 64⟩ := by
  have hbits : (n % 64 + 128) % 64 = n % 64 := by omega
  simp only [Partial.extend?, toNat_tail, hbits]
  exact if_pos ⟨hlo, hhi⟩

/-- A continuation byte that is not the last leaves the character being read. -/
theorem scan_tail {start missing low high bits n : Nat} (index : Nat) (rest : Bytes)
    (hlo : low ≤ n % 64 + 128) (hhi : n % 64 + 128 ≤ high) :
    scan (some ⟨start, missing + 2, low, high, bits⟩) index (UInt8.ofNat (n % 64 + 128) :: rest) =
      scan (some ⟨start, missing + 1, 0x80, 0xBF, 64 * bits + n % 64⟩) (index + 1) rest := by
  simp only [scan, extend?_tail (p := ⟨start, missing + 2, low, high, bits⟩) hlo hhi,
    Nat.add_succ_sub_one, Nat.add_one_ne_zero, if_false]

/-- The last continuation byte ends the character. -/
theorem scan_lastTail {start low high bits n : Nat} (index : Nat) (rest : Bytes)
    (hlo : low ≤ n % 64 + 128) (hhi : n % 64 + 128 ≤ high) :
    scan (some ⟨start, 1, low, high, bits⟩) index (UInt8.ofNat (n % 64 + 128) :: rest) =
      (scan none (index + 1) rest).map (Char.ofNat (64 * bits + n % 64) :: ·) := by
  simp only [scan, extend?_tail (p := ⟨start, 1, low, high, bits⟩) hlo hhi, Nat.sub_self, if_true]

/-- The bytes of a character are read as that character. The cases are the four widths. -/
theorem scan_char (c : Char) (index : Nat) (rest : Bytes) :
    scan none index (String.utf8EncodeChar c ++ rest) =
      (scan none (index + (String.utf8EncodeChar c).length) rest).map (c :: ·) := by
  have hvalid : c.val.toNat < 0xD800 ∨ 0xDFFF < c.val.toNat ∧ c.val.toNat < 0x110000 := c.valid
  have hc : Char.ofNat c.val.toNat = c := Char.ofNat_toNat c
  unfold String.utf8EncodeChar
  generalize c.val.toNat = v at hvalid hc ⊢
  dsimp only
  split_ifs with h1 h2 h3
  · have hb : (UInt8.ofNat v).toNat = v := by rw [UInt8.toNat_ofNat']; omega
    have hlead := lead?_one index (b := UInt8.ofNat v) (by omega)
    simp only [List.cons_append, List.nil_append, scan, hlead, hb, hc, if_true, List.length_cons,
      List.length_nil]
  · have hb : (UInt8.ofNat (v / 64 % 32 + 192)).toNat = v / 64 + 192 := by
      rw [UInt8.toNat_ofNat']; omega
    have hlead := lead?_two index (b := UInt8.ofNat (v / 64 % 32 + 192)) (by omega) (by omega)
    have hbits : 64 * ((v / 64 + 192) % 32) + v % 64 = v := by omega
    simp only [List.cons_append, List.nil_append, List.length_cons, List.length_nil]
    rw [scan_lead _ hlead (by simp), scan_lastTail _ _ (by omega) (by omega), hb, hbits, hc]
  · have hb : (UInt8.ofNat (v / 4096 % 16 + 224)).toNat = v / 4096 + 224 := by
      rw [UInt8.toNat_ofNat']; omega
    have hlead := lead?_three index (b := UInt8.ofNat (v / 4096 % 16 + 224)) (by omega) (by omega)
    rw [hb] at hlead
    have hbits : 64 * (64 * ((v / 4096 + 224) % 16) + v / 64 % 64) + v % 64 = v := by omega
    simp only [List.cons_append, List.nil_append, List.length_cons, List.length_nil]
    rw [scan_lead _ hlead (by simp), scan_tail _ _ (by split <;> omega) (by split <;> omega),
      scan_lastTail _ _ (by omega) (by omega), hbits, hc]
  · have hb : (UInt8.ofNat (v / 262144 % 8 + 240)).toNat = v / 262144 + 240 := by
      rw [UInt8.toNat_ofNat']; omega
    have hlead := lead?_four index (b := UInt8.ofNat (v / 262144 % 8 + 240)) (by omega) (by omega)
    rw [hb] at hlead
    have hbits : 64 * (64 * (64 * ((v / 262144 + 240) % 8) + v / 4096 % 64) + v / 64 % 64) +
        v % 64 = v := by omega
    simp only [List.cons_append, List.nil_append, List.length_cons, List.length_nil]
    rw [scan_lead _ hlead (by simp), scan_tail _ _ (by split <;> omega) (by split <;> omega),
      scan_tail _ _ (by omega) (by omega), scan_lastTail _ _ (by omega) (by omega), hbits, hc]

/-- The bytes of characters are read as those characters. -/
theorem scan_chars (cs : List Char) (index : Nat) :
    scan none index (cs.flatMap String.utf8EncodeChar) = .ok cs := by
  induction cs generalizing index with
  | nil => rfl
  | cons c cs ih => rw [List.flatMap_cons, scan_char, ih]; rfl

/-- Every text is read back from its bytes. -/
theorem decode_ofText (s : String) : decode (Bytes.ofText s) = .ok s := by
  rw [decode, Bytes.ofText_eq, scan_chars]
  exact congrArg Except.ok String.ofList_toList

/-- The numbers below it are characters of at most `width` bytes. -/
def limit : (width : Nat) → Nat
  | 1 => 0x80
  | 2 => 0x800
  | 3 => 0x10000
  | 4 => 0x200000
  | _ => 0

/-- A character below a limit has no more bytes than the limit allows. -/
theorem length_char_le {n width : Nat} (h : n < limit width) :
    (String.utf8EncodeChar (Char.ofNat n)).length ≤ width := by
  have hval : (Char.ofNat n).val.toNat ≤ n := by
    by_cases hvalid : n.isValidChar
    · rw [Char.ofNat, dif_pos hvalid]
      exact Nat.le_refl n
    · rw [Char.ofNat, dif_neg hvalid]
      exact Nat.zero_le n
  unfold limit at h
  unfold String.utf8EncodeChar
  generalize (Char.ofNat n).val.toNat = v at hval
  dsimp only
  split at h <;> split_ifs <;> simp only [List.length_cons, List.length_nil] <;> omega

/-- A character of which some bytes have been read stays below the limit for all its bytes. -/
def Partial.Within (p : Partial) (bytes : Nat) : Prop :=
  (p.bits + 1) * 64 ^ p.missing ≤ limit (bytes + p.missing)

/-- The first byte of a character keeps it below the limit. -/
theorem within_lead {start : Nat} {b : UInt8} {p : Partial} (h : lead? start b = some p) :
    p.Within 1 := by
  unfold lead? at h
  dsimp only at h
  split_ifs at h
  all_goals
    cases h
    simp only [Partial.Within, limit]
    omega

/-- A further byte of a character keeps it below the limit. -/
theorem within_extend {p q : Partial} {b : UInt8} {bytes : Nat} (hp : p.Within bytes)
    (hmissing : p.missing ≠ 0) (h : p.extend? b = some q) : q.Within (bytes + 1) := by
  unfold Partial.extend? at h
  split_ifs at h
  cases h
  obtain ⟨m, hm⟩ := Nat.exists_eq_succ_of_ne_zero hmissing
  have hlt : b.toNat % 64 < 64 := Nat.mod_lt _ (by decide)
  have hwidth : bytes + 1 + m = bytes + (m + 1) := by omega
  simp only [Partial.Within, hm, Nat.succ_eq_add_one, Nat.add_sub_cancel, Nat.pow_succ] at hp ⊢
  rw [hwidth]
  refine Nat.le_trans ?_ hp
  rw [Nat.mul_comm (64 ^ m) 64, ← Nat.mul_assoc]
  exact Nat.mul_le_mul_right _ (by omega)

/-- How many bytes have been read of the character that is being read, if one is. -/
def HasRead : Option Partial → (bytes : Nat) → Prop
  | none, bytes => bytes = 0
  | some p, bytes => p.Within bytes ∧ p.missing ≠ 0

/-- A character that ends is as long as the bytes that were read of it. -/
theorem length_char_of_within {p : Partial} {bytes : Nat} (h : p.Within bytes)
    (hmissing : p.missing = 0) : (String.utf8EncodeChar (Char.ofNat p.bits)).length ≤ bytes := by
  rw [Partial.Within, hmissing, Nat.pow_zero, Nat.mul_one, Nat.add_zero] at h
  exact length_char_le h

/-- Characters are no longer than the bytes that they are read from. -/
theorem length_scan_le {p : Option Partial} {index bytes : Nat} {b : Bytes} {cs : List Char}
    (hp : HasRead p bytes) (h : scan p index b = .ok cs) :
    (cs.flatMap String.utf8EncodeChar).length ≤ bytes + b.length := by
  induction b generalizing p index bytes cs with
  | nil =>
    cases p with
    | none =>
      cases h
      exact Nat.zero_le _
    | some p => cases h
  | cons x rest ih =>
    -- one more byte either ends a character or is added to the one that is being read
    have hstep : ∀ q : Partial, q.Within (bytes + 1) →
        (if q.missing = 0 then (scan none (index + 1) rest).map (Char.ofNat q.bits :: ·)
          else scan (some q) (index + 1) rest) = .ok cs →
        (cs.flatMap String.utf8EncodeChar).length ≤ bytes + (x :: rest).length := by
      intro q hq hread
      rw [List.length_cons]
      by_cases hmissing : q.missing = 0
      · rw [if_pos hmissing] at hread
        cases hrest : scan none (index + 1) rest with
        | error e =>
          rw [hrest] at hread
          cases hread
        | ok ds =>
          rw [hrest] at hread
          cases hread
          have hchar := length_char_of_within hq hmissing
          have htail := ih (p := none) rfl hrest
          rw [List.flatMap_cons, List.length_append]
          omega
      · rw [if_neg hmissing] at hread
        have htail := ih (p := some q) ⟨hq, hmissing⟩ hread
        omega
    cases p with
    | none =>
      have hnone : bytes = 0 := hp
      subst hnone
      rw [scan] at h
      split at h
      · cases h
      · next q hq => exact hstep q (within_lead hq) h
    | some p =>
      rw [scan] at h
      split at h
      · cases h
      · next q hq => exact hstep q (within_extend hp.1 hp.2 hq) h

/-- A text is no longer than the bytes that it is read from. -/
theorem length_ofText_le {b : Bytes} {s : String} (h : decode b = .ok s) :
    (Bytes.ofText s).length ≤ b.length := by
  unfold decode at h
  cases hscan : scan none 0 b with
  | error e =>
    rw [hscan] at h
    cases h
  | ok cs =>
    rw [hscan] at h
    cases h
    have hle := length_scan_le (p := none) rfl hscan
    rw [Nat.zero_add] at hle
    rwa [Bytes.ofText_eq, String.toList_ofList]

end Utf8

end ConferenceLedger

import ConferenceLedger.Identity.Form
import ConferenceLedger.Proofs.Text.Utf8

/-!
# Reading back hexadecimal text

The text of a byte string has two digits a byte and no marker, so it is read as it stands,
and every byte string is read back from its text.
-/

namespace ConferenceLedger.Hex

/-- The byte of the digit of a value below sixteen. -/
def digitByte (n : Nat) : UInt8 := UInt8.ofNat (if n < 10 then 48 + n else 87 + n)

/-- A digit is one byte, is read as its value, and is no part of a marker. -/
theorem digitByte_spec {n : Nat} (h : n < 16) :
    String.utf8EncodeChar (digit n) = [digitByte n] ∧ value? (digitByte n) = some n ∧
      digitByte n ≠ 120 ∧ digitByte n ≠ 88 := by
  revert n
  decide

/-- The two digits of a byte, high half first. -/
def digitPair (b : UInt8) : Bytes := [digitByte (b.toNat / 16), digitByte (b.toNat % 16)]

/-- Each half of a byte is below sixteen. -/
theorem halves_lt (b : UInt8) : b.toNat / 16 < 16 ∧ b.toNat % 16 < 16 := by
  have hb := b.toNat_lt
  omega

/-- The bytes of a hexadecimal text are the digits of each byte. -/
theorem ofText_encode (b : Bytes) : Bytes.ofText (encode b) = b.flatMap digitPair := by
  rw [Bytes.ofText_eq, encode, String.toList_ofList]
  induction b with
  | nil => rfl
  | cons x b ih =>
    obtain ⟨hhi, hlo⟩ := halves_lt x
    rw [digits, List.flatMap_cons, List.flatMap_cons, ih, (digitByte_spec hhi).1,
      (digitByte_spec hlo).1, List.flatMap_cons]
    rfl

/-- The text of a byte string has two bytes a byte. -/
@[simp] theorem length_ofText_encode (b : Bytes) :
    (Bytes.ofText (encode b)).length = 2 * b.length := by
  rw [ofText_encode]
  induction b with
  | nil => rfl
  | cons x b ih =>
    rw [List.flatMap_cons, List.length_append, ih, List.length_cons]
    simp only [digitPair, List.length_cons, List.length_nil]
    omega

/-- No digits begin with a marker. -/
theorem dropMarker_digits (b : Bytes) : dropMarker (b.flatMap digitPair) = b.flatMap digitPair := by
  cases b with
  | nil => rfl
  | cons x b =>
    obtain ⟨-, -, hx, hX⟩ := digitByte_spec (halves_lt x).2
    rw [List.flatMap_cons]
    simp only [digitPair, List.cons_append, List.nil_append]
    unfold dropMarker
    split
    · next heq => exact absurd (List.cons.inj (List.cons.inj heq).2).1 hx
    · next heq => exact absurd (List.cons.inj (List.cons.inj heq).2).1 hX
    · rfl

/-- Digits are read as the bytes they write. -/
theorem pairs_digits (b : Bytes) (index : Nat) : pairs index (b.flatMap digitPair) = .ok b := by
  induction b generalizing index with
  | nil => rfl
  | cons x b ih =>
    obtain ⟨hhi, hlo⟩ := halves_lt x
    have hx : UInt8.ofNat (16 * (x.toNat / 16) + x.toNat % 16) = x := by
      rw [Nat.div_add_mod, UInt8.ofNat_toNat]
    rw [List.flatMap_cons]
    simp only [digitPair, List.cons_append, List.nil_append, pairs, (digitByte_spec hhi).2.1,
      (digitByte_spec hlo).2.1, ih, hx]

/-- Every byte string is read back from its hexadecimal text. -/
theorem decode_encode (b : Bytes) : decode (encode b) = .ok b := by
  have heven : (b.flatMap digitPair).length % 2 = 0 := by
    rw [← ofText_encode, length_ofText_encode]
    omega
  rw [decode, ofText_encode, normalize, dropMarker_digits, if_pos heven, pairs_digits]

end ConferenceLedger.Hex

namespace ConferenceLedger

/-- Every fixed-length byte string is read back from its hexadecimal text. -/
theorem Octets.ofHex_encode {n : Nat} (o : Octets n) : Octets.ofHex n (Hex.encode o.bytes) = .ok o := by
  rw [Octets.ofHex, Hex.decode_encode]
  exact dif_pos o.length_bytes

end ConferenceLedger

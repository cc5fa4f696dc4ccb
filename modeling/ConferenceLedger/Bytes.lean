/-!
# Byte strings

Keys, values, digests and signatures are byte strings. A byte string is a list of
octets, and a byte string of fixed length carries the proof of its length.
Numbers are written in fixed width, least or most significant byte first.
-/

namespace ConferenceLedger

/-- A byte string. -/
abbrev Bytes := List UInt8

/-- A byte string of exactly `n` bytes. -/
structure Octets (n : Nat) where
  /-- The bytes themselves. -/
  bytes : Bytes
  /-- There are exactly `n` of them. -/
  length_bytes : bytes.length = n
  deriving DecidableEq

namespace Octets

/-- The byte string `b`, when it has `n` bytes. -/
def ofBytes? (n : Nat) (b : Bytes) : Option (Octets n) :=
  if h : b.length = n then some ⟨b, h⟩ else none

/-- Every fixed-length byte string is read back from its bytes. -/
theorem ofBytes?_bytes {n : Nat} (o : Octets n) : ofBytes? n o.bytes = some o := by
  simp [ofBytes?, o.length_bytes]

/-- The byte string of `n` zero bytes. -/
def zero (n : Nat) : Octets n := ⟨List.replicate n 0, List.length_replicate⟩

/-- The first `m` bytes of a longer byte string. -/
def leading {n : Nat} (m : Nat) (h : m ≤ n) (o : Octets n) : Octets m :=
  ⟨o.bytes.take m, by rw [List.length_take, o.length_bytes]; omega⟩

instance {n : Nat} : LT (Octets n) := ⟨fun a b => a.bytes < b.bytes⟩

instance {n : Nat} (a b : Octets n) : Decidable (a < b) :=
  inferInstanceAs (Decidable (a.bytes < b.bytes))

end Octets

namespace Bytes

/-- The UTF-8 bytes of a text. -/
def ofText (s : String) : Bytes := s.toUTF8.data.toList

/-- The number whose base-256 digits are `b`, least significant digit first. -/
def toNatLE : Bytes → Nat
  | [] => 0
  | b :: rest => b.toNat + 256 * toNatLE rest

/-- The low `width` base-256 digits of `n`, least significant digit first. -/
def ofNatLE : (width : Nat) → (n : Nat) → Bytes
  | 0, _ => []
  | width + 1, n => UInt8.ofNat n :: ofNatLE width (n / 256)

/-- The number whose base-256 digits are `b`, most significant digit first. -/
def toNatBE (b : Bytes) : Nat := b.foldl (fun n d => 256 * n + d.toNat) 0

/-- The low `width` base-256 digits of `n`, most significant digit first. -/
def ofNatBE (width n : Nat) : Bytes := (ofNatLE width n).reverse

/-- A fixed width is a fixed length. -/
@[simp] theorem length_ofNatLE (width n : Nat) : (ofNatLE width n).length = width := by
  induction width generalizing n with
  | zero => rfl
  | succ width ih => simp [ofNatLE, ih]

/-- Writing most significant digit first keeps the width. -/
@[simp] theorem length_ofNatBE (width n : Nat) : (ofNatBE width n).length = width := by
  simp [ofNatBE]

/-- A number that fits the width is read back. -/
theorem toNatLE_ofNatLE (width n : Nat) (h : n < Nat.pow 256 width) :
    toNatLE (ofNatLE width n) = n := by
  induction width generalizing n with
  | zero => simp at h; simp [ofNatLE, toNatLE, h]
  | succ width ih =>
    have hq : n / 256 < Nat.pow 256 width := by
      rw [Nat.div_lt_iff_lt_mul (by decide)]
      exact h
    have hd : (UInt8.ofNat n).toNat = n % 256 := by simp
    simp only [ofNatLE, toNatLE, ih _ hq, hd]
    omega

/-- Whether the first bytes of `b` are `start`. -/
def startsWith (start b : Bytes) : Bool := start.isPrefixOf b

end Bytes

end ConferenceLedger

import ConferenceLedger.Text.Hex

/-!
# The written form of identifiers

An identifier is a byte string of fixed length in hexadecimal. A text can fail to be one by
a wrong digit or, when all digits are right, by a wrong length; a public key can also fail
to be a point of the curve.
-/

namespace ConferenceLedger

/-- Why a text is not an identifier. -/
inductive FormError where
  /-- A byte of the text is no hexadecimal digit. -/
  | badDigit (e : Hex.BadDigit)
  /-- The digits write the wrong number of bytes. -/
  | wrongLength (expected got : Nat)
  /-- The bytes are no point of the curve. -/
  | notAPoint
  deriving DecidableEq

/-- The text that reports why a text is not an identifier. -/
def FormError.message : FormError → String
  | badDigit e => "invalid hex: " ++ e.message
  | wrongLength expected got =>
    "expected " ++ toString expected ++ " bytes, got " ++ toString got
  | notAPoint => "invalid ed25519 public key"

/-- Exactly `n` bytes, read from a text. -/
def Octets.ofHex (n : Nat) (s : String) : Except FormError (Octets n) :=
  match Hex.decode s with
  | .error e => .error (.badDigit e)
  | .ok b =>
    if h : b.length = n then .ok ⟨b, h⟩ else .error (.wrongLength n b.length)

/-- A byte string of any length whose written form is hexadecimal. -/
structure Blob where
  /-- The bytes. -/
  bytes : Bytes
  deriving DecidableEq

/-- The blob of no bytes. -/
def Blob.empty : Blob := ⟨[]⟩

/-- Whether a blob has no bytes. -/
def Blob.isEmpty (b : Blob) : Bool := b.bytes.isEmpty

end ConferenceLedger

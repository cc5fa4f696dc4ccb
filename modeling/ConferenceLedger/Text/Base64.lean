import ConferenceLedger.Bytes

/-!
# Base 64

Three bytes are written as four digits of six bits each. The last digits of a text that is
no multiple of three bytes long have low bits to spare, which must be zero. The URL alphabet
is used without padding and the standard alphabet with it.
-/

namespace ConferenceLedger.Base64

/-- The two alphabets, which differ in their last two digits. -/
inductive Alphabet where
  /-- The alphabet with `+` and `/`. -/
  | standard
  /-- The alphabet with `-` and `_`. -/
  | url
  deriving DecidableEq

/-- The digits of values 62 and 63. -/
def Alphabet.lastDigits : Alphabet → UInt8 × UInt8
  | standard => (43, 47)
  | url => (45, 95)

/-- The digit of a value below 64. -/
def digit (a : Alphabet) (n : Nat) : UInt8 :=
  if n < 26 then UInt8.ofNat (65 + n)
  else if n < 52 then UInt8.ofNat (71 + n)
  else if n < 62 then UInt8.ofNat (n - 4)
  else if n = 62 then a.lastDigits.1
  else a.lastDigits.2

/-- The value of a digit. -/
def value? (a : Alphabet) (b : UInt8) : Option Nat :=
  let n := b.toNat
  if 65 ≤ n ∧ n ≤ 90 then some (n - 65)
  else if 97 ≤ n ∧ n ≤ 122 then some (n - 71)
  else if 48 ≤ n ∧ n ≤ 57 then some (n + 4)
  else if b = a.lastDigits.1 then some 62
  else if b = a.lastDigits.2 then some 63
  else none

/-- The digits of a byte string, without padding. -/
def digits (a : Alphabet) : Bytes → Bytes
  | [] => []
  | [x] =>
    let n := x.toNat * 16
    [digit a (n / 64), digit a (n % 64)]
  | [x, y] =>
    let n := (x.toNat * 256 + y.toNat) * 4
    [digit a (n / 4096), digit a (n / 64 % 64), digit a (n % 64)]
  | x :: y :: z :: rest =>
    let n := (x.toNat * 256 + y.toNat) * 256 + z.toNat
    digit a (n / 262144) :: digit a (n / 4096 % 64) :: digit a (n / 64 % 64) ::
      digit a (n % 64) :: digits a rest

/-- The byte string that digits without padding write. -/
def ofDigits? (a : Alphabet) : Bytes → Option Bytes
  | [] => some []
  | [_] => none
  | [p, q] => do
    let n := (← value? a p) * 64 + (← value? a q)
    if n % 16 = 0 then some [UInt8.ofNat (n / 16)] else none
  | [p, q, r] => do
    let n := ((← value? a p) * 64 + (← value? a q)) * 64 + (← value? a r)
    if n % 4 = 0 then some [UInt8.ofNat (n / 1024), UInt8.ofNat (n / 4)] else none
  | p :: q :: r :: s :: rest => do
    let n := (((← value? a p) * 64 + (← value? a q)) * 64 + (← value? a r)) * 64 + (← value? a s)
    let tail ← ofDigits? a rest
    return UInt8.ofNat (n / 65536) :: UInt8.ofNat (n / 256) :: UInt8.ofNat n :: tail

/-- The text of a byte string in the URL alphabet. -/
def encodeUrl (b : Bytes) : String :=
  String.ofList ((digits .url b).map fun d => Char.ofNat d.toNat)

/-- The byte string that a text in the URL alphabet writes. -/
def decodeUrl? (s : String) : Option Bytes := ofDigits? .url (Bytes.ofText s)

/-- The digits before the padding, when the padding fills up the last group of four. -/
def unpadded? (b : Bytes) : Option Bytes :=
  if b.length % 4 ≠ 0 then none
  else
    match b.reverse with
    | 61 :: 61 :: rest => some rest.reverse
    | 61 :: rest => some rest.reverse
    | _ => some b

/-- The byte string that padded digits in the standard alphabet write. -/
def decodePadded? (b : Bytes) : Option Bytes := (unpadded? b).bind (ofDigits? .standard)

end ConferenceLedger.Base64

import ConferenceLedger.Bytes

/-!
# Hexadecimal text of byte strings

Every identifier and byte string is written as lowercase hexadecimal digits. Reading is
lenient about form and strict about digits: one leading `0x` or `0X` is dropped, an odd
number of bytes is padded with a leading `0`, and then every byte must be a digit. A wrong
digit is reported before a wrong length.
-/

namespace ConferenceLedger.Hex

/-- The lowercase digit of a value below sixteen. -/
def digit (n : Nat) : Char :=
  if n < 10 then Char.ofNat (48 + n) else Char.ofNat (87 + n)

/-- The value of a digit of either case. -/
def value? (b : UInt8) : Option Nat :=
  let n := b.toNat
  if 48 ≤ n ∧ n ≤ 57 then some (n - 48)
  else if 97 ≤ n ∧ n ≤ 102 then some (n - 87)
  else if 65 ≤ n ∧ n ≤ 70 then some (n - 55)
  else none

/-- The two digits of each byte, high half first. -/
def digits : Bytes → List Char
  | [] => []
  | b :: rest => digit (b.toNat / 16) :: digit (b.toNat % 16) :: digits rest

/-- The hexadecimal text of a byte string. -/
def encode (b : Bytes) : String := String.ofList (digits b)

/-- A byte that is no digit, and where it stands. -/
structure BadDigit where
  /-- The offending byte. -/
  byte : UInt8
  /-- Its index among the bytes of the digits. -/
  index : Nat
  deriving DecidableEq

/-- The pairs of digits from `index` on, read as bytes; a last single digit is dropped. -/
def pairs (index : Nat) : Bytes → Except BadDigit Bytes
  | [] => .ok []
  | [_] => .ok []
  | h :: l :: rest =>
    match value? h, value? l with
    | none, _ => .error ⟨h, index⟩
    | _, none => .error ⟨l, index + 1⟩
    | some x, some y =>
      match pairs (index + 2) rest with
      | .error e => .error e
      | .ok b => .ok (UInt8.ofNat (16 * x + y) :: b)

/-- The bytes without one leading `0x` or `0X`. -/
def dropMarker : Bytes → Bytes
  | 48 :: 120 :: rest => rest
  | 48 :: 88 :: rest => rest
  | b => b

/-- The marker dropped, and an odd number of bytes padded with a leading zero digit. -/
def normalize (b : Bytes) : Bytes :=
  let rest := dropMarker b
  if rest.length % 2 = 0 then rest else 48 :: rest

/-- The lenient reading of a text as a byte string of any length. -/
def decode (s : String) : Except BadDigit Bytes := pairs 0 (normalize (Bytes.ofText s))

/-- The text whose bytes are read after normalization. -/
def trim (s : String) : String :=
  let cs := s.toList
  let rest := match cs with
    | '0' :: 'x' :: rest => rest
    | '0' :: 'X' :: rest => rest
    | _ => cs
  let t := String.ofList rest
  if t.utf8ByteSize % 2 = 0 then t else String.ofList ('0' :: rest)

/-- Normalization keeps an even number of bytes. -/
theorem length_normalize (b : Bytes) : (normalize b).length % 2 = 0 := by
  simp only [normalize]
  split
  · assumption
  · simp only [List.length_cons]
    omega

/-- Two hexadecimal digits without leading zero, as an escape names a character. -/
def short (n : Nat) : String :=
  String.ofList ((if n < 16 then [] else [digit (n / 16)]) ++ [digit (n % 16)])

/-- How a message quotes the character of a byte: printable ones stand for themselves. -/
def quote (b : UInt8) : String :=
  let n := b.toNat
  let body :=
    if n = 0 then "\\0"
    else if n = 9 then "\\t"
    else if n = 10 then "\\n"
    else if n = 13 then "\\r"
    else if n = 39 then "\\'"
    else if n = 92 then "\\\\"
    else if n < 32 ∨ (127 ≤ n ∧ n ≤ 160) ∨ n = 173 then "\\u\x7b" ++ short n ++ "\x7d"
    else String.singleton (Char.ofNat n)
  "'" ++ body ++ "'"

/-- The text that reports a wrong digit. -/
def BadDigit.message (e : BadDigit) : String :=
  "Invalid character " ++ quote e.byte ++ " at position " ++ toString e.index

end ConferenceLedger.Hex

import ConferenceLedger.Bytes

/-!
# UTF-8 text in byte strings

Decoding reads one character at a time and reports the first fault: either bytes that
cannot begin or continue a character, with how many of them are rejected together, or a
character cut off by the end of the bytes.
-/

namespace ConferenceLedger.Utf8

/-- The first fault of bytes that are not UTF-8. -/
inductive Fault where
  /-- From `index` on, `length` bytes belong to no character. -/
  | invalid (length index : Nat)
  /-- The bytes end inside the character that begins at `index`. -/
  | incomplete (index : Nat)
  deriving DecidableEq, Repr

/-- The text that reports a fault. -/
def Fault.message : Fault → String
  | .invalid length index =>
    "invalid utf-8 sequence of " ++ toString length ++ " bytes from index " ++ toString index
  | .incomplete index => "incomplete utf-8 byte sequence from index " ++ toString index

/-- A character whose first bytes have been read. -/
structure Partial where
  /-- Where the character begins. -/
  start : Nat
  /-- How many continuation bytes it still needs. -/
  missing : Nat
  /-- Least value of the next byte. -/
  low : Nat
  /-- Greatest value of the next byte. -/
  high : Nat
  /-- The value bits read so far. -/
  bits : Nat

/-- The character begun at `start` by a first byte: one byte below 0x80, and else two to four
bytes, where the bounds exclude overlong forms, surrogates and values past the last character. -/
def lead? (start : Nat) (b : UInt8) : Option Partial :=
  let n := b.toNat
  if n < 0x80 then some ⟨start, 0, 0, 0, n⟩
  else if n < 0xC2 then none
  else if n < 0xE0 then some ⟨start, 1, 0x80, 0xBF, n % 32⟩
  else if n = 0xE0 then some ⟨start, 2, 0xA0, 0xBF, n % 16⟩
  else if n = 0xED then some ⟨start, 2, 0x80, 0x9F, n % 16⟩
  else if n < 0xF0 then some ⟨start, 2, 0x80, 0xBF, n % 16⟩
  else if n = 0xF0 then some ⟨start, 3, 0x90, 0xBF, n % 8⟩
  else if n < 0xF4 then some ⟨start, 3, 0x80, 0xBF, n % 8⟩
  else if n = 0xF4 then some ⟨start, 3, 0x80, 0x8F, n % 8⟩
  else none

/-- The character after one more continuation byte, when that byte may stand there. -/
def Partial.extend? (p : Partial) (b : UInt8) : Option Partial :=
  if p.low ≤ b.toNat ∧ b.toNat ≤ p.high then
    some ⟨p.start, p.missing - 1, 0x80, 0xBF, 64 * p.bits + b.toNat % 64⟩
  else none

/-- The characters of the bytes from `index` on, where `p` is the character being read. -/
def scan : (p : Option Partial) → (index : Nat) → Bytes → Except Fault (List Char)
  | none, _, [] => .ok []
  | some p, _, [] => .error (.incomplete p.start)
  | none, index, b :: rest =>
    match lead? index b with
    | none => .error (.invalid 1 index)
    | some p =>
      if p.missing = 0 then (scan none (index + 1) rest).map (Char.ofNat p.bits :: ·)
      else scan (some p) (index + 1) rest
  | some p, index, b :: rest =>
    match p.extend? b with
    | none => .error (.invalid (index - p.start) p.start)
    | some p =>
      if p.missing = 0 then (scan none (index + 1) rest).map (Char.ofNat p.bits :: ·)
      else scan (some p) (index + 1) rest

/-- The text written by UTF-8 bytes. -/
def decode (b : Bytes) : Except Fault String := (scan none 0 b).map String.ofList

end ConferenceLedger.Utf8

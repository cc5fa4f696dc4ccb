import ConferenceLedger.Pattern.Mode
import ConferenceLedger.Text.Hex

/-!
# Escapes of patterns

A backslash makes a letter a sign and makes a sign stand for itself. Escapes with digits name a
character by its number. Sets of characters that need tables of all characters are not known.
-/

namespace ConferenceLedger.Pattern

/-- What an escape means. -/
inductive Escape where
  /-- A character. -/
  | literal (c : Char)
  /-- A set of characters. -/
  | shorthand
  /-- A place in the text. -/
  | place

namespace Escape

/-- How many digits of a number follow a letter. -/
def digitCount? : Char → Option Nat
  | 'x' => some 2
  | 'u' => some 4
  | 'U' => some 8
  | _ => none

/-- The character that a letter stands for. -/
def control? : Char → Option Char
  | 'a' => some '\x07'
  | 't' => some '\t'
  | 'n' => some '\n'
  | 'v' => some '\x0b'
  | 'f' => some '\x0c'
  | 'r' => some '\r'
  | _ => none

/-- The value of a hexadecimal digit. -/
def hexValue? (c : Char) : Option Nat :=
  if c.toNat < 0x80 then Hex.value? (UInt8.ofNat c.toNat) else none

/-- The number of so many hexadecimal digits after the digits of `value`. -/
def number? (m : Mode) : (digits value : Nat) → List Char → Option (Nat × List Char)
  | 0, value, cs => some (value, cs)
  | digits + 1, value, cs =>
    match m.skip cs with
    | [] => none
    | c :: rest => do number? m digits (16 * value + (← hexValue? c)) rest

/-- The character with a number; two digits name an octet where octets are described, and one
of a longer character is no text. -/
def numbered? (m : Mode) (digits : Nat) (cs : List Char) : Option (Char × List Char) := do
  let (n, rest) ← number? m digits 0 cs
  if h : n.isValidChar then
    if digits = 2 && !m.unicode && 0x80 ≤ n then none else some (Char.ofNatAux n h, rest)
  else none

/-- Whether a character stands for itself after a backslash. -/
def isQuoted (c : Char) : Bool := c.toNat < 0x80 && !c.isAlphanum && c ≠ '<' && c ≠ '>'

/-- The escape after a backslash and what follows it. -/
def read? (m : Mode) : List Char → Option (Escape × List Char)
  | [] => none
  | c :: rest =>
    match digitCount? c, control? c with
    | some digits, _ => (numbered? m digits rest).map fun (c, rest) => (.literal c, rest)
    | none, some c => some (.literal c, rest)
    | none, none =>
      if isQuoted c then some (.literal c, rest)
      else if ['A', 'z'].contains c then some (.place, rest)
      else if ['b', 'B', '<', '>'].contains c && m.allowsEdge then some (.place, rest)
      else if ['d', 's', 'w', 'D', 'S', 'W'].contains c && m.allowsShorthand c.isUpper then
        some (.shorthand, rest)
      else none

end Escape

end ConferenceLedger.Pattern

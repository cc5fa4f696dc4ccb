import ConferenceLedger.Json.Basic
import ConferenceLedger.Text.Utf8

/-!
# Reading JSON text

The reader is strict: no comments, no trailing comma, no leading zero, no raw control
character in a string, nothing after the value but spaces. Text that is well formed but
denotes no value is kept as unreadable, because a field that nobody reads may hold it.
-/

namespace ConferenceLedger.Json

/-- Whether a byte is a space between tokens. -/
def isSpace (b : UInt8) : Bool := b == 32 || b == 9 || b == 10 || b == 13

/-- Whether a byte is a decimal digit. -/
def isDigit (b : UInt8) : Bool := 48 ≤ b && b ≤ 57

/-- The value of a hexadecimal digit. -/
def hexValue? (b : UInt8) : Option Nat :=
  let n := b.toNat
  if 48 ≤ n ∧ n ≤ 57 then some (n - 48)
  else if 97 ≤ n ∧ n ≤ 102 then some (n - 87)
  else if 65 ≤ n ∧ n ≤ 70 then some (n - 55)
  else none

/-- The number of four hexadecimal digits at the front. -/
def unit? : Bytes → Option (Nat × Bytes)
  | a :: b :: c :: d :: rest => do
    let a ← hexValue? a
    let b ← hexValue? b
    let c ← hexValue? c
    let d ← hexValue? d
    return (a * 4096 + b * 256 + c * 16 + d, rest)
  | _ => none

/-- The byte that a one-letter escape stands for. -/
def plainEscape? (b : UInt8) : Option UInt8 :=
  if b = 34 then some 34
  else if b = 92 then some 92
  else if b = 47 then some 47
  else if b = 98 then some 8
  else if b = 102 then some 12
  else if b = 110 then some 10
  else if b = 114 then some 13
  else if b = 116 then some 9
  else none

/-- What a string body has denoted so far: its UTF-8 bytes in reverse, the first half of a
surrogate pair that waits for its second, and whether every other half found its pair. -/
structure Body where
  /-- The bytes so far, last first. -/
  reversed : Bytes
  /-- A first half just read. -/
  half : Option Nat
  /-- Whether no half stands alone so far. -/
  sound : Bool

namespace Body

/-- The body of no characters. -/
def empty : Body := ⟨[], none, true⟩

/-- The body after one more byte; a first half before it stands alone. -/
def push (s : Body) (b : UInt8) : Body := ⟨b :: s.reversed, none, s.sound && s.half.isNone⟩

/-- The body after one more character. -/
def pushChar (s : Body) (n : Nat) : Body :=
  ⟨(String.utf8EncodeChar (Char.ofNat n)).reverse ++ s.reversed, none, s.sound⟩

/-- The body after an escaped code unit. -/
def pushUnit (s : Body) (n : Nat) : Body :=
  if 0xD800 ≤ n ∧ n < 0xDC00 then ⟨s.reversed, some n, s.sound && s.half.isNone⟩
  else if 0xDC00 ≤ n ∧ n < 0xE000 then
    match s.half with
    | some high => s.pushChar (0x10000 + (high - 0xD800) * 0x400 + (n - 0xDC00))
    | none => ⟨s.reversed, none, false⟩
  else pushChar ⟨s.reversed, none, s.sound && s.half.isNone⟩ n

/-- The text of a body that is complete, when it denotes one. -/
def text? (s : Body) : Option String :=
  if s.sound && s.half.isNone then (Utf8.decode s.reversed.reverse).toOption else none

/-- The value of a body that is complete: what is wrong with a half that stands alone shows at
once, and with all else at the end. -/
def value (s : Body) : Json :=
  match s.text? with
  | some text => str text
  | none => unreadable s.sound

end Body

/-- The body of a string after its opening quote, and what follows the closing one. -/
def string? : (fuel : Nat) → Bytes → Body → Option (Body × Bytes)
  | 0, _, _ => none
  | _ + 1, [], _ => none
  | fuel + 1, b :: rest, s =>
    if b = 34 then some (s, rest)
    else if b = 92 then
      match rest with
      | [] => none
      | e :: rest =>
        if e = 117 then do
          let (n, rest) ← unit? rest
          string? fuel rest (s.pushUnit n)
        else do
          let b ← plainEscape? e
          string? fuel rest (s.push b)
    else if b < 32 then none
    else string? fuel rest (s.push b)

/-- The digits at the front, and the rest. -/
def digitSpan (b : Bytes) : Bytes × Bytes := (b.takeWhile isDigit, b.dropWhile isDigit)

/-- The number of decimal digits. -/
def decimal (digits : Bytes) : Nat := digits.foldl (fun n d => 10 * n + (d.toNat - 48)) 0

/-- A number token cut into its parts. -/
structure Numeral where
  /-- Whether a minus sign stands in front. -/
  minus : Bool
  /-- The digits before the point. -/
  whole : Bytes
  /-- The digits after the point, when there is one. -/
  fraction : Option Bytes
  /-- The exponent, when there is one. -/
  exponent : Option Int

/-- A number extended by digits as long as it fits 64 bits, and the digits that are left. -/
def extend (n : Nat) : Bytes → Nat × Bytes
  | [] => (n, [])
  | d :: rest =>
    let longer := 10 * n + (d.toNat - 48)
    if longer < UInt64.size then extend longer rest else (n, d :: rest)

/-- The value of a number token. The digits before the point that do not fit 64 bits count as
places only, and those after it do not count at all. An exponent beyond 31 bits shows as soon
as it gets there, which may be before its last digit. -/
def Numeral.value (t : Numeral) : Json :=
  let (n, left) := extend 0 t.whole
  if t.fraction.isNone && t.exponent.isNone && left.isEmpty && !t.minus then nat n
  else if t.fraction.isNone && t.exponent.isNone && left.isEmpty && 0 < n && n ≤ UInt64.size / 2
  then negative n
  else
    let fraction := t.fraction.getD []
    let (digits, ignored) := extend n fraction
    let places : Int := left.length + ignored.length - fraction.length + t.exponent.getD 0
    match Double.ofDecimal? t.minus digits places with
    | some x => real x
    | none => unreadable (t.exponent.getD 0 / 10 < UInt32.size / 2)

/-- The fraction at the front, which needs a digit after its point. -/
def fraction? : Bytes → Option (Option Bytes × Bytes)
  | 46 :: rest =>
    let (digits, rest) := digitSpan rest
    if digits.isEmpty then none else some (some digits, rest)
  | rest => some (none, rest)

/-- The digits of an exponent, after its sign. -/
def exponentDigits? (minus : Bool) (b : Bytes) : Option (Option Int × Bytes) :=
  let (digits, rest) := digitSpan b
  if digits.isEmpty then none
  else
    let n : Int := decimal digits
    some (some (if minus then -n else n), rest)

/-- The exponent at the front, which needs a digit after its sign. -/
def exponent? : Bytes → Option (Option Int × Bytes)
  | [] => some (none, [])
  | b :: rest =>
    if b = 101 ∨ b = 69 then
      match rest with
      | 43 :: rest => exponentDigits? false rest
      | 45 :: rest => exponentDigits? true rest
      | rest => exponentDigits? false rest
    else some (none, b :: rest)

/-- The number at the front: a leading zero stands alone before the point. -/
def number? (b : Bytes) : Option (Json × Bytes) := do
  let (minus, unsigned) := match b with
    | 45 :: rest => (true, rest)
    | rest => (false, rest)
  let (whole, rest) := digitSpan unsigned
  if whole.isEmpty || (whole.head? == some 48 && whole.length != 1) then none
  else
    let (fraction, rest) ← fraction? rest
    let (exponent, rest) ← exponent? rest
    return (Numeral.value ⟨minus, whole, fraction, exponent⟩, rest)

/-- Drop the spaces at the front. -/
def skip (b : Bytes) : Bytes := b.dropWhile isSpace

/-- Drop a given word from the front. -/
def word? (w : Bytes) (b : Bytes) : Option Bytes :=
  if Bytes.startsWith w b then some (b.drop w.length) else none

/-- The fields of an object; a name that denotes no string makes the object unreadable. -/
def gather : List (Option String × Json) → Option (List (String × Json))
  | [] => some []
  | (none, _) :: _ => none
  | (some name, j) :: rest => (gather rest).map ((name, j) :: ·)

mutual

/-- The value at the front, after spaces, and what follows it. -/
def value? : (fuel : Nat) → Bytes → Option (Json × Bytes)
  | 0, _ => none
  | fuel + 1, b =>
    match skip b with
    | [] => none
    | 110 :: rest => (word? [117, 108, 108] rest).map fun rest => (null, rest)
    | 116 :: rest => (word? [114, 117, 101] rest).map fun rest => (bool true, rest)
    | 102 :: rest => (word? [97, 108, 115, 101] rest).map fun rest => (bool false, rest)
    | 34 :: rest =>
      (string? (rest.length + 1) rest .empty).map fun (body, rest) => (body.value, rest)
    | 91 :: rest =>
      match skip rest with
      | 93 :: rest => some (arr [], rest)
      | rest => (items? fuel rest).map fun (items, rest) => (arr items, rest)
    | 123 :: rest =>
      match skip rest with
      | 125 :: rest => some (obj [], rest)
      | rest => (members? fuel rest).map fun (fields, rest) =>
          (match gather fields with | some fields => obj fields | none => unreadable false, rest)
    | b :: rest => number? (b :: rest)

/-- The items of an array up to its closing bracket; there is at least one. -/
def items? : (fuel : Nat) → Bytes → Option (List Json × Bytes)
  | 0, _ => none
  | fuel + 1, b =>
    match value? fuel b with
    | none => none
    | some (j, rest) =>
      match skip rest with
      | 93 :: rest => some ([j], rest)
      | 44 :: rest => (items? fuel rest).map fun (items, rest) => (j :: items, rest)
      | _ => none

/-- The fields of an object up to its closing brace; there is at least one. -/
def members? : (fuel : Nat) → Bytes → Option (List (Option String × Json) × Bytes)
  | 0, _ => none
  | fuel + 1, b =>
    match skip b with
    | 34 :: rest =>
      match string? (rest.length + 1) rest .empty with
      | none => none
      | some (name, rest) =>
        match skip rest with
        | 58 :: rest =>
          match value? fuel rest with
          | none => none
          | some (j, rest) =>
            match skip rest with
            | 125 :: rest => some ([(name.text?, j)], rest)
            | 44 :: rest =>
              (members? fuel rest).map fun (more, rest) => ((name.text?, j) :: more, rest)
            | _ => none
        | _ => none
    | _ => none

end

/-- The value of a whole JSON text in bytes. -/
def ofBytes? (b : Bytes) : Option Json :=
  match value? (b.length + 1) b with
  | some (j, rest) => if (skip rest).isEmpty then some j else none
  | none => none

/-- The value of a whole JSON text. -/
def ofText? (s : String) : Option Json := ofBytes? (Bytes.ofText s)

end ConferenceLedger.Json

import ConferenceLedger.Text.Utf8

/-!
# Tagged blocks

Keys and certificates are nested blocks of a tag, a length and contents. Only the parts that
lead to a key are kept: sequences, object identifiers, bit strings and byte strings. All
other blocks are checked for their form where their tag prescribes one.
-/

namespace ConferenceLedger.Rsa

/-- A block, as far as it matters for finding a key. -/
inductive Block where
  /-- Blocks in order. -/
  | sequence (blocks : List Block)
  /-- The number of an object or an algorithm. -/
  | identifier (arcs : List Nat)
  /-- A string of bits, as bytes. -/
  | bits (b : Bytes)
  /-- A string of bytes. -/
  | bytes (b : Bytes)
  /-- Anything else. -/
  | other

namespace Block

/-- A number in digits of base 128, of which all but the last have their high bit set, and
the bytes after it. -/
def base128? (n : Nat) : Bytes → Option (Nat × Bytes)
  | [] => none
  | b :: rest =>
    let n := n * 128 + b.toNat % 128
    if b.toNat < 128 then some (n, rest) else base128? n rest

/-- All numbers of base 128 in a byte string. -/
def arcs? : (fuel : Nat) → Bytes → Option (List Nat)
  | _, [] => some []
  | 0, _ => none
  | fuel + 1, b => do
    let (n, rest) ← base128? 0 b
    return n :: (← arcs? fuel rest)

/-- The arcs of an object identifier; the first byte holds two of them. -/
def identifierArcs? : Bytes → Option (List Nat)
  | [] => none
  | b :: rest => do
    let n := b.toNat
    let first := if n < 40 then 0 else if n < 80 then 1 else 2
    return first :: (n - 40 * first) :: (← arcs? rest.length rest)

/-- The head of a block: its class, whether it is constructed, its tag and its length. -/
structure Head where
  /-- The class of the tag; zero is the universal class. -/
  cls : Nat
  /-- Whether the contents are blocks. -/
  constructed : Bool
  /-- The tag. -/
  tag : Nat
  /-- How many bytes of contents follow. -/
  length : Nat

/-- The length of the contents: one byte below 128, or the number of bytes that follow and
hold it, at most eight. -/
def length? : Bytes → Option (Nat × Bytes)
  | [] => none
  | b :: rest =>
    let n := b.toNat
    if n < 128 then some (n, rest)
    else
      let count := n - 128
      if 8 < count ∨ rest.length < count then none
      else some (Bytes.toNatBE (rest.take count), rest.drop count)

/-- The head of a block and the bytes after it. -/
def head? : Bytes → Option (Head × Bytes)
  | [] => none
  | b :: rest => do
    let n := b.toNat
    let (tag, rest) ← if n % 32 = 31 then base128? 0 rest else some (n % 32, rest)
    let (length, rest) ← length? rest
    return (⟨n / 64, n / 32 % 2 = 1, tag, length⟩, rest)

/-- Whether a byte may stand in a printable text. -/
def isPrintable (b : UInt8) : Bool :=
  let n := b.toNat
  (65 ≤ n && n ≤ 90) || (97 ≤ n && n ≤ 122) || (48 ≤ n && n ≤ 57) ||
    [32, 39, 40, 41, 43, 44, 45, 46, 47, 58, 61, 63].contains n

/-- The number that two decimal digits write. -/
def twoDigits? : Bytes → Option (Nat × Bytes)
  | a :: b :: rest =>
    let (m, n) := (a.toNat, b.toNat)
    if 48 ≤ m ∧ m ≤ 57 ∧ 48 ≤ n ∧ n ≤ 57 then some (10 * (m - 48) + (n - 48), rest) else none
  | _ => none

/-- How many days a month of a year has. -/
def daysIn (year month : Nat) : Nat :=
  if month = 2 then
    if year % 4 = 0 ∧ (year % 100 ≠ 0 ∨ year % 400 = 0) then 29 else 28
  else if [4, 6, 9, 11].contains month then 30
  else 31

/-- The rest after month, day, hour, minute and second, when they exist in the year. -/
def afterMoment? (year : Nat) (b : Bytes) : Option Bytes := do
  let (month, b) ← twoDigits? b
  let (day, b) ← twoDigits? b
  let (hour, b) ← twoDigits? b
  let (minute, b) ← twoDigits? b
  let (second, b) ← twoDigits? b
  if 1 ≤ month ∧ month ≤ 12 ∧ 1 ≤ day ∧ day ≤ daysIn year month ∧ hour < 24 ∧ minute < 60 ∧
    second < 60 then some b else none

/-- Whether bytes write a time with a year of two digits. -/
def isShortTime (b : Bytes) : Bool :=
  (do
    let (y, b) ← twoDigits? b
    afterMoment? (if 50 ≤ y then 1900 + y else 2000 + y) b) == some [90]

/-- Whether bytes are a fraction of a second, perhaps of no digits, up to the letter that ends
a time. -/
def endsTime (b : Bytes) : Bool := (b.dropWhile fun d => 48 ≤ d.toNat && d.toNat ≤ 57) == [90]

/-- Whether bytes write a time with a year of four digits. The point before the fraction may
be left out, but not when the year has a sign. -/
def isLongTime (b : Bytes) : Bool :=
  let (signed, unsigned) := match b with
    | 43 :: rest => (true, rest)
    | 45 :: rest => (true, rest)
    | rest => (false, rest)
  let rest := do
    let (century, b) ← twoDigits? unsigned
    let (y, b) ← twoDigits? b
    afterMoment? (100 * century + y) b
  match rest with
  | some (46 :: fraction) => endsTime fraction
  | some fraction => !signed && endsTime fraction
  | none => false

/-- A block of the universal class without blocks inside it. -/
def plain? (tag : Nat) (body : Bytes) : Option Block :=
  let asOther (ok : Bool) : Option Block := if ok then some other else none
  match tag with
  | 1 => asOther (body.length = 1)
  | 3 =>
    match body with
    | [] => some (bits [])
    | unused :: b => if 8 * b.length < unused.toNat then none else some (bits b)
  | 4 => some (bytes body)
  | 6 => (identifierArcs? body).map identifier
  | 12 => asOther (Utf8.decode body).isOk
  | 19 => asOther (body.all isPrintable)
  | 20 => asOther (Utf8.decode body).isOk
  | 23 => asOther (isShortTime body)
  | 24 => asOther (isLongTime body)
  | 28 => asOther (Utf8.decode body).isOk
  | 30 => asOther (Utf8.decode body).isOk
  | _ => some other

/-- The blocks that a byte string consists of. Sequences and sets hold at least one block. -/
def blocks? : (fuel : Nat) → Bytes → Option (List Block)
  | _, [] => some []
  | 0, _ => none
  | fuel + 1, b => do
    let (head, rest) ← head? b
    if rest.length < head.length then none
    else
      let body := rest.take head.length
      let block ←
        if head.cls ≠ 0 then some other
        else if head.tag = 16 ∨ head.tag = 17 then
          match blocks? fuel body with
          | none => none
          | some [] => none
          | some inner => some (if head.tag = 16 then sequence inner else other)
        else plain? head.tag body
      return block :: (← blocks? fuel (rest.drop head.length))

/-- The blocks of a byte string that has at least one. -/
def ofBytes? (b : Bytes) : Option (List Block) :=
  match blocks? b.length b with
  | some [] => none
  | r => r

mutual

/-- The identifiers inside a block and the sequences in it, in order. -/
def identifiers : Block → List (List Nat)
  | sequence inner => identifiersIn inner
  | identifier arcs => [arcs]
  | _ => []

/-- The identifiers in blocks, in order. -/
def identifiersIn : List Block → List (List Nat)
  | [] => []
  | b :: rest => b.identifiers ++ identifiersIn rest

end

mutual

/-- The strings of bits or bytes inside a block and the sequences in it, in order. -/
def strings : Block → List Bytes
  | sequence inner => stringsIn inner
  | bits b => [b]
  | bytes b => [b]
  | _ => []

/-- The strings in blocks, in order. -/
def stringsIn : List Block → List Bytes
  | [] => []
  | b :: rest => b.strings ++ stringsIn rest

end

end Block

end ConferenceLedger.Rsa

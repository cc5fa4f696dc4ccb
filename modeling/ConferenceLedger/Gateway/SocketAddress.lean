import ConferenceLedger.Text.Hex

/-!
# Socket addresses

A server listens on an address and a port. An address of four bytes is written in decimal
with dots. An address of eight groups is written in brackets in hexadecimal with colons,
where two colons stand for zero groups and the last two groups may be written as four bytes;
a zone may follow a percent sign.
-/

namespace ConferenceLedger

/-- An address and a port. -/
inductive SocketAddress where
  /-- Four bytes. -/
  | v4 (bytes : List Nat) (port : Nat)
  /-- Eight groups of sixteen bits, and a zone. -/
  | v6 (groups : List Nat) (zone : Nat) (port : Nat)
  deriving DecidableEq

namespace SocketAddress

/-- The value of a decimal digit. -/
def digit? (c : Char) : Option Nat := if '0' ≤ c ∧ c ≤ '9' then some (c.toNat - 48) else none

/-- The value of a hexadecimal digit. -/
def hexDigit? (c : Char) : Option Nat := if c.toNat < 128 then Hex.value? c.toNat.toUInt8 else none

/-- The number at the front in digits of a base, of at most `most` digits and below `bound`,
and what follows it. -/
def number? (digit : Char → Option Nat) (base bound most : Nat) (cs : List Char) :
    Option (Nat × List Char) :=
  let ds := cs.takeWhile fun c => (digit c).isSome
  let n := (ds.filterMap digit).foldl (fun n d => base * n + d) 0
  if ds.isEmpty ∨ most < ds.length ∨ bound ≤ n then none else some (n, cs.drop ds.length)

/-- A number of an address of four bytes: without leading zero. -/
def byte? (cs : List Char) : Option (Nat × List Char) := do
  let (n, rest) ← number? digit? 10 256 3 cs
  if cs.head? = some '0' ∧ (cs.drop 1).head?.any (fun c => (digit? c).isSome) then none
  else return (n, rest)

/-- The rest after a given character. -/
def after? (c : Char) : List Char → Option (List Char)
  | d :: rest => if d = c then some rest else none
  | [] => none

/-- Four bytes with dots between them, at the front. -/
def fourBytes? (cs : List Char) : Option (List Nat × List Char) := do
  let (a, cs) ← byte? cs
  let (b, cs) ← byte? (← after? '.' cs)
  let (c, cs) ← byte? (← after? '.' cs)
  let (d, cs) ← byte? (← after? '.' cs)
  return ([a, b, c, d], cs)

/-- The two groups that four bytes make. -/
def pairUp : List Nat → List Nat
  | [a, b, c, d] => [256 * a + b, 256 * c + d]
  | _ => []

/-- As many groups as there are at the front, at most `limit`, and whether the last two were
written as four bytes. The groups have colons between them. -/
def groups (first : Bool) : (limit : Nat) → List Char → List Nat × Bool × List Char
  | 0, cs => ([], false, cs)
  | limit + 1, cs =>
    let start := if first then some cs else after? ':' cs
    match start with
    | none => ([], false, cs)
    | some body =>
      let embedded := if limit = 0 then none else fourBytes? body
      match embedded with
      | some (bytes, rest) => (pairUp bytes, true, rest)
      | none =>
        match number? hexDigit? 16 65536 4 body with
        | none => ([], false, cs)
        | some (n, rest) =>
          let (more, four, rest) := groups false limit rest
          (n :: more, four, rest)

/-- Eight groups at the front, where two colons stand for the groups that are missing. -/
def eightGroups? (cs : List Char) : Option (List Nat × List Char) :=
  let (head, four, rest) := groups true 8 cs
  if head.length = 8 then some (head, rest)
  else if four then none
  else
    match rest with
    | ':' :: ':' :: rest =>
      let (tail, _, rest) := groups true (8 - (head.length + 1)) rest
      some (head ++ List.replicate (8 - head.length - tail.length) 0 ++ tail, rest)
    | _ => none

/-- The port after a colon, which ends the text. -/
def port? (cs : List Char) : Option Nat := do
  let (port, rest) ← number? digit? 10 65536 (cs.length) (← after? ':' cs)
  if rest.isEmpty then return port else none

/-- The zone after a percent sign, or zero. -/
def zone? (cs : List Char) : Option (Nat × List Char) :=
  match cs with
  | '%' :: rest => number? digit? 10 UInt32.size rest.length rest
  | _ => some (0, cs)

/-- The socket address of a text. -/
def ofText? (s : String) : Option SocketAddress :=
  let cs := s.toList
  let four := do
    let (bytes, rest) ← fourBytes? cs
    return v4 bytes (← port? rest)
  let eight := do
    let (groups, rest) ← eightGroups? (← after? '[' cs)
    let (zone, rest) ← zone? rest
    return v6 groups zone (← port? (← after? ']' rest))
  four.or eight

/-- The first longest run of zero groups, as its start and its length. -/
def longestZeros (index : Nat) (current best : Nat × Nat) : List Nat → Nat × Nat
  | [] => best
  | g :: rest =>
    if g = 0 then
      let current := if current.2 = 0 then (index, 1) else (current.1, current.2 + 1)
      longestZeros (index + 1) current (if best.2 < current.2 then current else best) rest
    else longestZeros (index + 1) (0, 0) best rest

/-- Groups in hexadecimal with colons between them. -/
def joined (gs : List Nat) : String :=
  ":".intercalate (gs.map fun g => String.ofList (Nat.toDigits 16 g))

/-- Four bytes in decimal with dots between them. -/
def dotted (bytes : List Nat) : String := ".".intercalate (bytes.map toString)

/-- The text of eight groups. The groups of an embedded address of four bytes are written as
bytes, and else the longest run of at least two zero groups as two colons. -/
def groupText (gs : List Nat) : String :=
  match gs with
  | [0, 0, 0, 0, 0, 65535, x, y] =>
    "::ffff:" ++ dotted [x / 256, x % 256, y / 256, y % 256]
  | _ =>
    let (start, length) := longestZeros 0 (0, 0) (0, 0) gs
    if 1 < length then joined (gs.take start) ++ "::" ++ joined (gs.drop (start + length))
    else joined gs

/-- The text of a socket address. -/
def text : SocketAddress → String
  | v4 bytes port => dotted bytes ++ ":" ++ toString port
  | v6 gs zone port =>
    "[" ++ groupText gs ++ (if zone = 0 then "" else "%" ++ toString zone) ++ "]:" ++ toString port

end SocketAddress

end ConferenceLedger

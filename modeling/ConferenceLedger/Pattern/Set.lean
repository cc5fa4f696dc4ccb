import ConferenceLedger.Pattern.Escape

/-!
# Sets of characters in patterns

A set stands in brackets: characters, ranges, named sets and sets, next to each other or with
an operation between them. How deep sets lie in each other is counted: a set is one deeper
than what it holds, and so are members side by side and the two sides of an operation.
-/

namespace ConferenceLedger.Pattern

/-- The depth of things side by side, of which a single one is not enclosed. -/
def joinDepth : List Nat → Nat
  | [] => 0
  | [d] => d
  | ds => 1 + ds.foldl max 0

namespace CharacterSet

/-- The sets of ASCII characters that have names. -/
def names : List String :=
  ["alnum", "alpha", "ascii", "blank", "cntrl", "digit", "graph", "lower", "print", "punct",
    "space", "upper", "word", "xdigit"]

/-- A named set after its opening bracket, if it is one: whether everything else is meant, and
what follows it. -/
def named? : List Char → Option (Bool × List Char)
  | ':' :: cs =>
    let complement := cs.head? = some '^'
    let cs := if complement then cs.tail else cs
    let name := cs.takeWhile (· ≠ ':')
    match cs.drop name.length with
    | ':' :: ']' :: rest =>
      if names.contains (String.ofList name) then some (complement, rest) else none
    | _ => none
  | _ => none

/-- A member: the character, unless it is a set, and what follows it. -/
def member? (m : Mode) : List Char → Option (Option Char × List Char)
  | [] => none
  | '\\' :: cs =>
    match Escape.read? m cs with
    | some (.literal c, rest) => some (some c, rest)
    | some (.shorthand, rest) => some (none, rest)
    | _ => none
  | c :: rest => some (some c, rest)

/-- What follows a member or a range of two. A hyphen before the closing bracket or another
hyphen makes no range. -/
def afterRange? (m : Mode) (cs : List Char) : Option (List Char) := do
  let (first, rest) ← member? m cs
  let rest := m.skip rest
  if !first.all m.allowsMember || rest.isEmpty then none
  else
    match rest with
    | '-' :: after =>
      let ahead := m.ahead? after
      if ahead = some ']' || ahead = some '-' then some rest
      else
        match first, ← member? m (m.skip after) with
        | some low, (some high, rest) =>
          if m.allowsMember high && low ≤ high then some rest else none
        | _, _ => none
    | _ => some rest

/-- How many hyphens stand at the front, and what follows them, at most so many. -/
def hyphens (m : Mode) : (most : Nat) → List Char → Nat × List Char
  | most + 1, '-' :: cs =>
    let (n, rest) := hyphens m most (m.skip cs)
    (n + 1, rest)
  | _, cs => (0, cs)

/-- The beginning of a set after its opening bracket: how many members are plain hyphens or a
closing bracket that stands first, and what follows them. -/
def start? (m : Mode) (cs : List Char) : Option (Nat × List Char) :=
  let cs := m.skip cs
  let complement := cs.head? = some '^'
  let cs := if complement then m.skip cs.tail else cs
  let (n, rest) := hyphens m cs.length cs
  let closing := n = 0 && rest.head? = some ']'
  let members := if closing then 1 else n
  if complement && !m.allowsComplement || members ≠ 0 && !m.allowsMember '-' then none
  else some (members, if closing then m.skip rest.tail else rest)

/-- The depth of the members so far, on the other side of an operation if there is one. -/
def depth (left : Option Nat) (members : List Nat) : Nat :=
  match left with
  | none => joinDepth members
  | some d => 1 + max d (joinDepth members)

/-- The depth of a set from some place in it on, and what follows its closing bracket. The
fuel is more than the number of characters. -/
def rest? (m : Mode) : (fuel : Nat) → (left : Option Nat) → (members : List Nat) →
    List Char → Option (Nat × List Char)
  | 0, _, _, _ => none
  | fuel + 1, left, members, cs =>
    match m.skip cs with
    | [] => none
    | ']' :: rest => some (depth left members, rest)
    | '&' :: '&' :: rest => rest? m fuel (some (depth left members)) [] rest
    | '-' :: '-' :: rest => rest? m fuel (some (depth left members)) [] rest
    | '~' :: '~' :: rest => rest? m fuel (some (depth left members)) [] rest
    | '[' :: rest =>
      match named? rest with
      | some (complement, rest) =>
        if m.allowsNamedSet complement then rest? m fuel left (0 :: members) rest else none
      | none => do
        let (n, inner) ← start? m rest
        let (d, rest) ← rest? m fuel none (List.replicate n 0) inner
        rest? m fuel left ((d + 1) :: members) rest
    | cs => do rest? m fuel left (0 :: members) (← afterRange? m cs)

/-- The depth of a set after its opening bracket, and what follows the closing one. -/
def read? (m : Mode) (cs : List Char) : Option (Nat × List Char) := do
  let (n, inner) ← start? m cs
  let (d, rest) ← rest? m (inner.length + 1) none (List.replicate n 0) inner
  return (d + 1, rest)

end CharacterSet

end ConferenceLedger.Pattern

import ConferenceLedger.Pattern.Set
import ConferenceLedger.Text.Alphanumeric

/-!
# The form of patterns

A pattern has branches, a branch has pieces, and a piece is a character, a set, a place or a
group, perhaps repeated. A group is a pattern in parentheses, perhaps with a name that no
other has, or with modes. Not every text is a pattern, and one whose parts lie too deep in
each other is none.
-/

namespace ConferenceLedger.Pattern

/-- What an opening parenthesis begins. -/
inductive Opening where
  /-- Modes for what follows in the group around it. -/
  | modes (m : Mode)
  /-- A group, with its modes and its name. -/
  | group (m : Mode) (name : Option String)

namespace Opening

/-- Whether a character may stand in a name. -/
def isNameRest (c : Char) : Bool := ['_', '.', '[', ']'].contains c || isAlphanumeric c

/-- Whether characters are a name. -/
def isName : List Char → Bool
  | [] => false
  | c :: rest => (c = '_' || isAlphabetic c) && rest.all isNameRest

/-- A group with a name, after the sign before the name. -/
def named? (m : Mode) (cs : List Char) : Option (Opening × List Char) :=
  let name := cs.takeWhile (· ≠ '>')
  match cs.drop name.length with
  | '>' :: rest => if isName name then some (.group m (String.ofList name), rest) else none
  | _ => none

/-- Modes after a question mark, for a group after a colon and else for what follows. -/
def withModes? (m : Mode) (cs : List Char) : Option (Opening × List Char) :=
  let letters := cs.takeWhile fun c => c ≠ ':' && c ≠ ')'
  match cs.drop letters.length with
  | ':' :: rest => do some (.group (← m.set? letters) none, rest)
  | ')' :: rest => if letters.isEmpty then none else do some (.modes (← m.set? letters), rest)
  | _ => none

/-- What an opening parenthesis begins, and what follows. Groups that only look ahead or back
are not known. -/
def read? (m : Mode) (cs : List Char) : Option (Opening × List Char) :=
  match m.skip cs with
  | '?' :: '<' :: '=' :: _ => none
  | '?' :: '<' :: '!' :: _ => none
  | '?' :: '<' :: rest => named? m rest
  | '?' :: 'P' :: '<' :: rest => named? m rest
  | '?' :: rest => withModes? m rest
  | rest => some (.group m none, rest)

end Opening

/-- A piece of a branch. -/
structure Piece where
  /-- How deep parts lie in it. -/
  depth : Nat
  /-- Whether it may be repeated. -/
  repeatable : Bool

/-- A group up to its end. -/
structure Content where
  /-- How deep parts lie in it. -/
  depth : Nat
  /-- The names of the groups so far. -/
  names : List String
  /-- What follows: nothing or a closing parenthesis first. -/
  rest : List Char

/-- The depth of a branch. -/
def branchDepth (pieces : List Piece) : Nat := joinDepth (pieces.map Piece.depth)

/-- The names of groups with one more, unless another group has it. -/
def addName? (names : List String) : Option String → Option (List String)
  | none => some names
  | some name => if names.contains name then none else some (name :: names)

/-- What follows a sign of repetition: a question mark right after it belongs to it. -/
def dropLazy : List Char → List Char
  | '?' :: rest => rest
  | cs => cs

/-- A group from some place in it on, with the names so far, the depths of the branches before
and the pieces of the branch so far, last ones first. The fuel is more than the number of
characters. -/
def content? : (fuel : Nat) → Mode → (names : List String) → (branches : List Nat) →
    (pieces : List Piece) → List Char → Option Content
  | 0, _, _, _, _, _ => none
  | fuel + 1, m, names, branches, pieces, cs =>
    let add (p : Piece) (rest : List Char) : Option Content :=
      content? fuel m names branches (p :: pieces) rest
    let close (rest : List Char) : Content :=
      ⟨joinDepth (branchDepth pieces :: branches), names, rest⟩
    match m.skip cs with
    | [] => some (close [])
    | ')' :: rest => some (close (')' :: rest))
    | '|' :: rest => content? fuel m names (branchDepth pieces :: branches) [] rest
    | '(' :: rest =>
      match Opening.read? m rest with
      | none => none
      | some (.modes new, rest) => content? fuel new names branches (⟨0, false⟩ :: pieces) rest
      | some (.group inner name, rest) => do
        let content ← content? fuel inner (← addName? names name) [] [] rest
        match content.rest with
        | ')' :: rest =>
          content? fuel m content.names branches (⟨content.depth + 1, true⟩ :: pieces) rest
        | _ => none
    | '[' :: rest => do
      let (depth, rest) ← CharacterSet.read? m rest
      add ⟨depth, true⟩ rest
    | '\\' :: rest =>
      match Escape.read? m rest with
      | some (.literal _, rest) => if m.allowsLiteral then add ⟨0, true⟩ rest else none
      | some (_, rest) => add ⟨0, true⟩ rest
      | none => none
    | '.' :: rest => if m.allowsAny then add ⟨0, true⟩ rest else none
    | '^' :: rest => add ⟨0, true⟩ rest
    | '$' :: rest => add ⟨0, true⟩ rest
    | '\x7b' :: _ => none
    | c :: rest =>
      if ['?', '*', '+'].contains c then
        match pieces with
        | ⟨depth, true⟩ :: before =>
          content? fuel m names branches (⟨depth + 1, true⟩ :: before) (dropLazy rest)
        | _ => none
      else if m.allowsLiteral then add ⟨0, true⟩ rest
      else none

/-- How deep the parts of a pattern may lie in each other. -/
def greatestDepth : Nat := 250

/-- Whether a text is a pattern. -/
def isPattern (s : String) : Bool :=
  match content? (s.length + 1) .initial [] [] [] s.toList with
  | some content => content.rest.isEmpty && content.depth ≤ greatestDepth
  | none => false

end ConferenceLedger.Pattern

import ConferenceLedger.Text.Blank

/-!
# How patterns are read

A pattern describes texts by signs. Modes can be set inside it: whether letters stand for both
cases, whether it describes characters or octets, and whether blanks and remarks may stand
between its signs. What it describes must be text, and there is no table of the cases of all
characters; so each mode forbids some signs.
-/

namespace ConferenceLedger.Pattern

/-- How a stretch of a pattern is read. -/
structure Mode where
  /-- Whether letters stand for both cases. -/
  caseless : Bool
  /-- Whether it describes characters, and not octets. -/
  unicode : Bool
  /-- Whether blanks and remarks may stand between the signs. -/
  spaced : Bool
  deriving DecidableEq

/-- What follows blanks and remarks. A remark goes from a number sign to the end of the line;
`remark` tells whether the text begins inside one. -/
def dropSpace : (remark : Bool) → List Char → List Char
  | _, [] => []
  | true, c :: cs => dropSpace (c ≠ '\n') cs
  | false, c :: cs =>
    if isBlank c then dropSpace false cs
    else if c = '#' then dropSpace true cs
    else c :: cs

namespace Mode

/-- How a pattern is read from its beginning. -/
def initial : Mode := ⟨false, true, false⟩

/-- The next sign and what follows it. -/
def skip (m : Mode) (cs : List Char) : List Char := if m.spaced then dropSpace false cs else cs

/-- The sign that follows a hyphen, where one asks if the hyphen joins the ends of a range. A
number sign after blanks is left out, with blanks after it but not with its remark. -/
def ahead? (m : Mode) (cs : List Char) : Option Char :=
  if m.spaced then
    match cs.dropWhile isBlank with
    | [] => cs.head?
    | '#' :: rest => (rest.dropWhile isBlank).head? <|> cs.head?
    | c :: _ => some c
  else cs.head?

/-- Whether a character may stand for itself. -/
def allowsLiteral (m : Mode) : Bool := !(m.unicode && m.caseless)

/-- Whether a character may be a member of a set. -/
def allowsMember (m : Mode) (c : Char) : Bool :=
  if m.unicode then !m.caseless else c.toNat < 0x80

/-- Whether everything outside a set may be meant. -/
def allowsComplement (m : Mode) : Bool := m.unicode

/-- Whether any character may be meant. -/
def allowsAny (m : Mode) : Bool := m.unicode

/-- Whether a digit, a blank or a part of a word may be meant, or everything else. -/
def allowsShorthand (m : Mode) (complement : Bool) : Bool := !m.unicode && !complement

/-- Whether the edge of a word may be meant. -/
def allowsEdge (m : Mode) : Bool := !m.unicode

/-- Whether a named set of ASCII characters may be meant, or everything else. -/
def allowsNamedSet (m : Mode) (complement : Bool) : Bool :=
  if m.unicode then !m.caseless else !complement

/-- The letters of the modes; some modes forbid nothing. -/
def letters : List Char := ['i', 'm', 's', 'U', 'u', 'R', 'x']

/-- The modes after letters, of which those after a hyphen are switched off, or none if the
letters are wrong. -/
def set? (m : Mode) (cs : List Char) : Option Mode :=
  let on := cs.takeWhile (· ≠ '-')
  let switched (letter : Char) (old : Bool) : Bool :=
    on.contains letter || old && !cs.contains letter
  if cs.all (fun c => c = '-' || letters.contains c) && decide cs.Nodup && cs.getLast? ≠ some '-'
  then some ⟨switched 'i' m.caseless, switched 'u' m.unicode, switched 'x' m.spaced⟩
  else none

end Mode

end ConferenceLedger.Pattern

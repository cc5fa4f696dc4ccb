import ConferenceLedger.Log.Line
import ConferenceLedger.Pattern.Form
import ConferenceLedger.Text.Alphanumeric
import ConferenceLedger.Text.Blank
import ConferenceLedger.Text.Cut
import ConferenceLedger.Text.Decimal

/-!
# Rules of log filters

A rule says how much is shown of the sources whose names begin with a given text. It may ask
for a field besides, and for a scope that a line is written in. The places of its parts are
found with the blanks around it left out, but the parts are cut out of the whole text at those
places; so a rule that a blank comes before is misread, and its parts may begin or end inside
a character.
-/

namespace ConferenceLedger

/-- A rule of a filter. -/
structure LogRule where
  /-- What the names of its sources begin with. -/
  source : String
  /-- Whether it is only for lines inside a scope, of a given name or with a given value. -/
  inScope : Bool
  /-- The field that it asks for, if it does. -/
  field : Option String
  /-- The greatest rank that is shown. -/
  threshold : Nat
  deriving DecidableEq

namespace LogRule

/-- Why a text writes no rule. -/
inductive Fault where
  /-- It has not the form of one. -/
  | malformed
  /-- A part of it begins or ends inside a character. -/
  | insideCharacter
  deriving DecidableEq

/-- The names of the thresholds, in order. -/
def thresholdNames : List String := ["off", "error", "warn", "info", "debug", "trace"]

/-- The threshold that shows everything. -/
def everything : Nat := 5

/-- The threshold that a text names, in letters of either case or by its place. -/
def threshold? (s : String) : Option Nat :=
  match uint64OfText? s with
  | some n => if n.toNat ≤ everything then some n.toNat else none
  | none => thresholdNames.idxOf? s.toLower

/-- Whether a rule may begin with a character. -/
def isFirst (c : Char) : Bool := ['-', ':', '_', '['].contains c || isAlphanumeric c

/-- Whether a text is a value that a field can be asked to have: a number or a pattern. -/
def isValue (s : String) : Bool := isNumber s || Pattern.isPattern s

/-- The text without the blanks around it. -/
def trim (text : List Char) : List Char :=
  ((text.dropWhile isBlank).reverse.dropWhile isBlank).reverse

/-- The part of a text of so many octets from a place on. -/
def part (text : List Char) (start count : Nat) : Except Fault String :=
  match cut? start count text with
  | some cs => .ok (String.ofList cs)
  | none => .error .insideCharacter

/-- The name of a field, and whether a value is asked for, after an equals sign. -/
def fieldAsked (s : String) : Except Fault (String × Bool) :=
  match s.splitOn "=" with
  | name :: value :: _ => if isValue value then .ok (name, true) else .error .malformed
  | _ => .ok (s, false)

/-- What brackets ask for. -/
structure Brackets where
  /-- Whether it concerns scopes. -/
  inScope : Bool
  /-- The field, if it concerns one. -/
  field : Option String
  /-- The place after the closing bracket. -/
  place : Nat
  /-- What follows the closing bracket. -/
  rest : List Char

/-- What brackets ask for, of which `cs` follows the opening one at a place of the text. They
name a scope, and braces inside them name a field. -/
def brackets (text : List Char) (place : Nat) (cs : List Char) : Except Fault Brackets := do
  let scope := cs.takeWhile fun c => c ≠ ']' && c ≠ '\x7b'
  let inner := place + octetCount scope + 1
  match cs.drop scope.length with
  | ']' :: rest =>
    let _ ← part text place (octetCount scope)
    return ⟨true, none, inner, rest⟩
  | '\x7b' :: cs =>
    let _ ← part text place (octetCount scope)
    let asked := cs.takeWhile (· ≠ '\x7d')
    match cs.drop asked.length with
    | '\x7d' :: rest =>
      let (name, valued) ← fieldAsked (← part text inner (octetCount asked))
      match rest with
      | ']' :: rest =>
        if asked.isEmpty then .error .malformed
        else return ⟨!scope.isEmpty || valued, some name, inner + octetCount asked + 2, rest⟩
      | _ => .error .malformed
    | _ => .error .malformed
  | _ => .error .malformed

/-- The threshold at the end of a rule, of which `cs` stands at a place of the text. Without
one everything is shown. -/
def ending (text : List Char) (place : Nat) (cs : List Char) : Except Fault Nat :=
  match cs with
  | [] => .ok everything
  | '=' :: _ =>
    match cutFrom? (place + 1) text with
    | none => .error .insideCharacter
    | some [] => .ok everything
    | some level =>
      match threshold? (String.ofList level) with
      | some threshold => .ok threshold
      | none => .error .malformed
  | _ => .error .malformed

/-- The rule that a text writes: a threshold for all sources, or the beginning of a source,
brackets or both, with or without a threshold. -/
def ofText (s : String) : Except Fault LogRule := do
  let text := s.toList
  let trimmed := trim text
  let source := trimmed.takeWhile fun c => c ≠ '=' && c ≠ '['
  let place := octetCount source
  if !trimmed.head?.any isFirst then .error .malformed
  else
    match trimmed.drop source.length with
    | [] =>
      match threshold? s with
      | some threshold => return ⟨"", false, none, threshold⟩
      | none => return ⟨s, false, none, everything⟩
    | '[' :: rest =>
      let source ← part text 0 place
      let asked ← brackets text (place + 1) rest
      return ⟨source, asked.inScope, asked.field, ← ending text asked.place asked.rest⟩
    | rest => return ⟨← part text 0 place, false, none, ← ending text place rest⟩

/-- Whether a rule is one for a line of a source, which is written outside any scope. -/
def covers (source : String) (l : LogLine) (r : LogRule) : Bool :=
  !r.inScope && r.source.isPrefixOf source && r.field.all l.hasField

/-- Whether a field is at least as specific as another: any is more specific than none, and
the one with the name that sorts last counts. -/
def fieldReaches : (new old : Option String) → Bool
  | _, none => true
  | none, some _ => false
  | some new, some old => !(new < old)

/-- Whether a rule is at least as specific as another for the same line. -/
def reaches (new old : LogRule) : Bool :=
  old.source.length < new.source.length ||
    old.source.length = new.source.length && fieldReaches new.field old.field

end LogRule

end ConferenceLedger

import ConferenceLedger.Json.Basic

/-!
# Records and choices in JSON

A record is an object of named fields, or an array of its fields in order. Unknown fields
are ignored, and a known field must not come twice. A choice names its case by a tag, which
is a field beside the others, or the first item of an array.

A choice with its tag among its fields can only be told after all of them are read, so its
parts must all be readable, at a bounded depth. What is read from such parts is buffered,
and buffered tags may also be given as the index of the case.
-/

namespace ConferenceLedger.Json

/-- Whether a value is read from text directly or from parts that were read before. -/
inductive Origin where
  /-- Read directly from a text or from a value. -/
  | direct
  /-- Read from parts that had to be read before the case was known. -/
  | buffered
  deriving DecidableEq

/-- Arrays and objects may nest this deep where the depth is bounded. -/
def maxDepth : Nat := 127

/-- Whether a value may be buffered when `outer` arrays and objects stand around it. -/
def bufferable (outer : Nat) (j : Json) : Bool := j.readable && j.depth + outer ≤ maxDepth

/-- What a record gives for one of its fields. -/
inductive Slot where
  /-- The value of the field. -/
  | given (j : Json)
  /-- The object has no such field. -/
  | absent
  /-- The array ends before this field. -/
  | beyond

/-- The values of the fields of one name. -/
def valuesOf (name : String) (fields : List (String × Json)) : List Json :=
  (fields.filter fun f => f.1 = name).map (·.2)

/-- What an object gives for a field, unless it gives it twice. -/
def slotOf? (fields : List (String × Json)) (name : String) : Option Slot :=
  match valuesOf name fields with
  | [] => some .absent
  | [j] => some (.given j)
  | _ => none

/-- What a record gives for its fields, in the order of their names. -/
def slots? (names : List String) : Json → Option (List Slot)
  | obj fields => names.mapM (slotOf? fields)
  | arr items =>
    if items.length ≤ names.length then
      some (items.map .given ++ List.replicate (names.length - items.length) .beyond)
    else none
  | _ => none

/-- A field that must be there. -/
def Slot.required {α : Type} (read : Json → Option α) : Slot → Option α
  | given j => read j
  | absent => none
  | beyond => none

/-- A value or `null`. -/
def orNull {α : Type} (read : Json → Option α) : Json → Option (Option α)
  | null => some none
  | j => (read j).map some

/-- A field that an object may leave out, and that may be `null`. -/
def Slot.optional {α : Type} (read : Json → Option α) : Slot → Option (Option α)
  | given j => orNull read j
  | absent => some none
  | beyond => none

/-- A field that may be left out in both forms, and then has the value `fallback`. -/
def Slot.defaulted {α : Type} (fallback : α) (read : Json → Option α) : Slot → Option α
  | given j => read j
  | absent => some fallback
  | beyond => some fallback

/-- The text of a string. -/
def text? : Json → Option String
  | str s => some s
  | _ => none

/-- The value of a truth value. -/
def bool? : Json → Option Bool
  | bool b => some b
  | _ => none

/-- An unsigned integer below `bound`. -/
def natBelow? (bound : Nat) : Json → Option Nat
  | nat n => if n < bound then some n else none
  | _ => none

/-- An unsigned 8-bit integer. -/
def uint8? (j : Json) : Option UInt8 := (natBelow? UInt8.size j).map UInt8.ofNat

/-- An unsigned 32-bit integer. -/
def uint32? (j : Json) : Option UInt32 := (natBelow? UInt32.size j).map UInt32.ofNat

/-- An unsigned 64-bit integer. -/
def uint64? (j : Json) : Option UInt64 := (natBelow? UInt64.size j).map UInt64.ofNat

/-- A signed 64-bit integer. -/
def int64? : Json → Option Int64
  | nat n => if n < UInt64.size / 2 then some (Int64.ofNat n) else none
  | negative n => some (Int64.ofInt (-n))
  | _ => none

/-- An array of values that can all be read. -/
def list? {α : Type} (read : Json → Option α) : Json → Option (List α)
  | arr items => items.mapM read
  | _ => none

/-- The JSON value of a signed integer. -/
def ofInt (n : Int) : Json := if 0 ≤ n then nat n.toNat else negative (-n).toNat

/-- The JSON value of something that may be missing. -/
def ofOption {α : Type} (write : α → Json) : Option α → Json
  | some a => write a
  | none => null

/-- The index of a name among the names of cases. -/
def caseNamed? (cases : List String) (name : String) : Option Nat := cases.idxOf? name

/-- The index of the case that a tag names. -/
def caseOfTag? (cases : List String) (origin : Origin) : Json → Option Nat
  | str s => caseNamed? cases s
  | nat n => if origin = .buffered ∧ n < cases.length then some n else none
  | _ => none

/-- The index of a case without contents: its name, or an object that gives it nothing. -/
def bareCase? (cases : List String) (origin : Origin) : Json → Option Nat
  | str s => caseNamed? cases s
  | obj [(name, null)] => caseNamed? cases name
  | obj [(name, obj [])] => if origin = .buffered then caseNamed? cases name else none
  | _ => none

/-- A choice whose tag stands among the fields of the case: the index of the case, and the
record of the other fields. -/
def tagged? (tag : String) (cases : List String) (origin : Origin) (j : Json) :
    Option (Nat × Json) :=
  if origin = .direct ∧ !bufferable 0 j then none
  else
    match j with
    | obj fields =>
      match valuesOf tag fields with
      | [t] => (caseOfTag? cases origin t).map fun i => (i, obj (fields.filter fun f => f.1 ≠ tag))
      | _ => none
    | arr (t :: items) => (caseOfTag? cases origin t).map fun i => (i, arr items)
    | _ => none

/-- A case without fields: any other fields of an object are ignored, an array has none. -/
def noFields? : Json → Option Unit
  | obj _ => some ()
  | arr [] => some ()
  | _ => none

/-- A choice whose tag and contents are two fields: the index of the case, the contents, and
their origin. Contents that come before the tag are buffered. -/
def adjacent? (tag content : String) (cases : List String) (origin : Origin) :
    Json → Option (Nat × Origin × Json)
  | obj fields =>
    match fields.filter fun f => f.1 = tag ∨ f.1 = content with
    | [(first, a), (second, b)] =>
      if first = second then none
      else if first = tag then (bareCase? cases origin a).map fun i => (i, origin, b)
      else if origin = .direct ∧ !bufferable 1 a then none
      else (bareCase? cases origin b).map fun i => (i, .buffered, a)
    | _ => none
  | arr [t, c] => (caseOfTag? cases origin t).map fun i => (i, origin, c)
  | _ => none

end ConferenceLedger.Json

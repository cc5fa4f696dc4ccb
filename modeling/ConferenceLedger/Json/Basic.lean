import ConferenceLedger.Bytes
import ConferenceLedger.Number.Double

/-!
# JSON values and their compact text

A JSON value keeps the fields of an object in order and with repetitions, so that a reader
can refuse a field that is given twice. Integers are apart from other numbers: only a
literal without fraction and exponent, in 64-bit range, counts as one. Text is written
without spaces, and strings escape quotes, backslashes and control characters only.
-/

namespace ConferenceLedger

/-- A JSON value. -/
inductive Json where
  /-- The literal `null`. -/
  | null
  /-- A truth value. -/
  | bool (b : Bool)
  /-- An integer literal without sign, below 2^64. -/
  | nat (n : Nat)
  /-- An integer literal with a minus sign, from -1 down to -2^63; `n` is its absolute value. -/
  | negative (n : Nat)
  /-- Any other number, to the nearest double. -/
  | real (x : Double)
  /-- A string. -/
  | str (s : String)
  /-- An array. -/
  | arr (items : List Json)
  /-- An object, its fields in order. -/
  | obj (fields : List (String × Json))
  /-- Well-formed text that denotes no value: a string whose escapes name half of a surrogate
  pair or whose bytes are not UTF-8, or a number beyond all finite ones. It may be `finished`,
  which means that a reader who wants the value finds out at its end only, not before. -/
  | unreadable (finished : Bool)
  deriving Inhabited

namespace Json

/-- The characters that write one character inside a string. -/
def escape (c : Char) : List Char :=
  let hexDigit (n : Nat) : Char := if n < 10 then Char.ofNat (48 + n) else Char.ofNat (87 + n)
  if c = '"' then ['\\', '"']
  else if c = '\\' then ['\\', '\\']
  else if c = '\x08' then ['\\', 'b']
  else if c = '\x0c' then ['\\', 'f']
  else if c = '\n' then ['\\', 'n']
  else if c = '\r' then ['\\', 'r']
  else if c = '\t' then ['\\', 't']
  else if c.toNat < 32 then ['\\', 'u', '0', '0', hexDigit (c.toNat / 16), hexDigit (c.toNat % 16)]
  else [c]

/-- The characters that write a string, between quotes. -/
def quoted (s : String) : List Char := '"' :: s.toList.flatMap escape ++ ['"']

mutual

/-- The characters that write a value. -/
def chars : Json → List Char
  | null => "null".toList
  | bool true => "true".toList
  | bool false => "false".toList
  | nat n => Nat.toDigits 10 n
  | negative n => '-' :: Nat.toDigits 10 n
  | real x => x.chars
  | str s => quoted s
  | arr items => '[' :: itemChars items ++ [']']
  | obj fields => '\x7b' :: fieldChars fields ++ ['\x7d']
  | unreadable _ => "null".toList

/-- The characters that write the items of an array. -/
def itemChars : List Json → List Char
  | [] => []
  | [j] => j.chars
  | j :: rest => j.chars ++ ',' :: itemChars rest

/-- The characters that write the fields of an object. -/
def fieldChars : List (String × Json) → List Char
  | [] => []
  | [(name, j)] => quoted name ++ ':' :: j.chars
  | (name, j) :: rest => quoted name ++ ':' :: j.chars ++ ',' :: fieldChars rest

end

/-- The compact text of a value. -/
def render (j : Json) : String := String.ofList j.chars

mutual

/-- Whether every part of a value denotes a value. -/
def readable : Json → Bool
  | arr items => itemsReadable items
  | obj fields => fieldsReadable fields
  | unreadable _ => false
  | _ => true

/-- Whether every item of an array denotes a value. -/
def itemsReadable : List Json → Bool
  | [] => true
  | j :: rest => j.readable && itemsReadable rest

/-- Whether every field of an object denotes a value. -/
def fieldsReadable : List (String × Json) → Bool
  | [] => true
  | (_, j) :: rest => j.readable && fieldsReadable rest

end

mutual

/-- How many arrays and objects stand around the innermost value. -/
def depth : Json → Nat
  | arr items => itemsDepth items + 1
  | obj fields => fieldsDepth fields + 1
  | _ => 0

/-- The greatest depth among the items of an array. -/
def itemsDepth : List Json → Nat
  | [] => 0
  | j :: rest => max j.depth (itemsDepth rest)

/-- The greatest depth among the fields of an object. -/
def fieldsDepth : List (String × Json) → Nat
  | [] => 0
  | (_, j) :: rest => max j.depth (fieldsDepth rest)

end

/-- Insert a field into fields sorted by name, in place of a field of that name. -/
def insertField (name : String) (j : Json) : List (String × Json) → List (String × Json)
  | [] => [(name, j)]
  | (other, k) :: rest =>
    if name < other then (name, j) :: (other, k) :: rest
    else if name = other then (name, j) :: rest
    else (other, k) :: insertField name j rest

mutual

/-- The value with the fields of every object sorted by name, where of two fields of one name
the last stays. -/
def canonical : Json → Json
  | arr items => arr (itemsCanonical items)
  | obj fields => obj (fieldsCanonical fields [])
  | j => j

/-- Every item of an array with its fields sorted. -/
def itemsCanonical : List Json → List Json
  | [] => []
  | j :: rest => j.canonical :: itemsCanonical rest

/-- The fields of an object sorted into those that came before. -/
def fieldsCanonical : List (String × Json) → List (String × Json) → List (String × Json)
  | [], sorted => sorted
  | (name, j) :: rest, sorted => fieldsCanonical rest (insertField name j.canonical sorted)

end

end Json

end ConferenceLedger

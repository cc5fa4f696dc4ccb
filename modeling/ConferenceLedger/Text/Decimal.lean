/-!
# Decimal numbers in plain text

A number that a person sets has decimal digits, with a sign in front where it may be negative,
and with a point and an exponent where it need not be whole.
-/

namespace ConferenceLedger

/-- Whether a character is a decimal digit. -/
def isDecimalDigit (c : Char) : Bool := '0' ≤ c && c ≤ '9'

/-- An unsigned 64-bit number in decimal digits, with or without a plus sign. -/
def uint64OfText? (s : String) : Option UInt64 :=
  let ds := match s.toList with
    | '+' :: rest => rest
    | ds => ds
  if ds.isEmpty || !ds.all isDecimalDigit then none
  else
    let n := ds.foldl (fun n c => 10 * n + (c.toNat - 48)) 0
    if n < UInt64.size then some (UInt64.ofNat n) else none

/-- What follows a sign, if there is one. -/
def dropSign : List Char → List Char
  | '+' :: rest => rest
  | '-' :: rest => rest
  | cs => cs

/-- Whether characters are the exponent of a number or nothing. -/
def isExponent : List Char → Bool
  | [] => true
  | c :: rest =>
    let digits := dropSign rest
    (c = 'e' || c = 'E') && !digits.isEmpty && digits.all isDecimalDigit

/-- Whether characters are digits and perhaps a point and an exponent. A digit stands before
the point or after it. -/
def isUnsigned (cs : List Char) : Bool :=
  let whole := cs.takeWhile isDecimalDigit
  match cs.dropWhile isDecimalDigit with
  | '.' :: rest =>
    let places := rest.takeWhile isDecimalDigit
    (!whole.isEmpty || !places.isEmpty) && isExponent (rest.dropWhile isDecimalDigit)
  | rest => !whole.isEmpty && isExponent rest

/-- Whether a text is a number, which may be infinite or none. -/
def isNumber (s : String) : Bool :=
  let cs := dropSign s.toList
  ["inf", "infinity", "nan"].contains (String.ofList (cs.map Char.toLower)) || isUnsigned cs

end ConferenceLedger

/-!
# Numbers of double precision

A number that is no integer is kept with 53 significant bits. Every step that makes one goes
to the nearest such number, and a tie goes to the even one. Reading a decimal takes several
steps, its digits first and then powers of ten, so the outcome may be next to the nearest. It
is written with the fewest decimal digits that no other such number is nearest to; of several
such the closest, and of two as close the even one.
-/

namespace ConferenceLedger

/-- A finite number of double precision: `magnitude * 2 ^ scale`, with a sign that zero has
too. -/
structure Double where
  /-- Whether a minus sign stands in front. -/
  minus : Bool
  /-- A natural number of at most 53 bits. -/
  magnitude : Nat
  /-- The power of two, at least -1074. -/
  scale : Int
  deriving DecidableEq

/-- The quotient of two numbers to the nearest integer, and to the even one of two as near. -/
def roundQuotient (n d : Nat) : Nat :=
  let q := n / d
  let twice := 2 * (n % d)
  if twice < d then q else if d < twice then q + 1 else q + q % 2

namespace Double

/-- The first of 53 bits. -/
def leadingBit : Nat := 1 <<< 52

/-- The scale that leaves a fraction 53 bits before the point, or the least there is. -/
def scaleOf (num den : Nat) : Int :=
  let estimate : Int := (Nat.log2 num : Int) - Nat.log2 den
  let exact :=
    if den <<< estimate.toNat ≤ num <<< (-estimate).toNat then estimate else estimate - 1
  max (exact - 52) (-1074)

/-- Zero, with its sign. -/
def zero (minus : Bool) : Double := ⟨minus, 0, -1074⟩

/-- The double nearest to a fraction, unless it is beyond all of them. -/
def ofFraction? (minus : Bool) (num den : Nat) : Option Double :=
  if num = 0 then some (zero minus)
  else
    let scale := scaleOf num den
    let m := roundQuotient (num <<< (-scale).toNat) (den <<< scale.toNat)
    let (m, scale) := if m = 2 * leadingBit then (leadingBit, scale + 1) else (m, scale)
    if 971 < scale then none else some ⟨minus, m, scale⟩

/-- The numerator of a double without its sign. -/
def numerator (x : Double) : Nat := x.magnitude <<< x.scale.toNat

/-- The denominator of a double. -/
def denominator (x : Double) : Nat := 1 <<< (-x.scale).toNat

/-- The double nearest to a product, unless it is beyond all of them. -/
def mul? (x y : Double) : Option Double :=
  ofFraction? (x.minus != y.minus) (x.numerator * y.numerator) (x.denominator * y.denominator)

/-- The double nearest to a quotient, unless it is beyond all of them. -/
def div? (x y : Double) : Option Double :=
  ofFraction? (x.minus != y.minus) (x.numerator * y.denominator) (x.denominator * y.numerator)

/-- The greatest power of ten among the doubles has this exponent. -/
def widestShift : Nat := 308

/-- The double nearest to a power of ten with an exponent up to the greatest. -/
def tenTo (k : Nat) : Double := (ofFraction? false (Nat.pow 10 k) 1).getD (zero false)

/-- A double divided so many times by the greatest power of ten; zero stays what it is. -/
def shrink? : (times : Nat) → Double → Option Double
  | 0, x => some x
  | times + 1, x =>
    if x.magnitude = 0 then some x
    else
      match x.div? (tenTo widestShift) with
      | some y => shrink? times y
      | none => none

/-- A double with its point moved to the right by so many places, unless it leaves all doubles
behind. To the left it moves in whole steps of the greatest power of ten first. -/
def shift? (x : Double) (places : Int) : Option Double :=
  if x.magnitude = 0 then some x
  else if widestShift < places then none
  else if 0 ≤ places then x.mul? (tenTo places.toNat)
  else
    let left := (-places).toNat
    let times := (left - 1) / widestShift
    match x.shrink? times with
    | some y => if y.magnitude = 0 then some y else y.div? (tenTo (left - times * widestShift))
    | none => none

/-- The double that is read from digits with their point moved to the right. -/
def ofDecimal? (minus : Bool) (digits : Nat) (places : Int) : Option Double :=
  match ofFraction? minus digits 1 with
  | some x => x.shift? places
  | none => none

/-- The 64 bits of the interchange format: sign, exponent and fraction. -/
def bits (x : Double) : Nat :=
  (if x.minus then UInt64.size / 2 else 0) +
    if x.magnitude < leadingBit then x.magnitude
    else (x.scale + 1075).toNat * leadingBit + (x.magnitude - leadingBit)

/-- A multiple of a power of ten. -/
structure Decimal where
  /-- The multiple. -/
  digits : Nat
  /-- The power. -/
  exponent : Int

/-- The nearest multiple of `10 ^ exponent` that reads back as a positive double, when the
double is at least that power and one of the two multiples next to it reads back. -/
def onGrid? (x : Double) (exponent : Int) : Option Decimal :=
  let unit := Nat.pow 10 exponent.toNat <<< (2 - x.scale).toNat
  let quarter := Nat.pow 10 (-exponent).toNat <<< (x.scale - 2).toNat
  let value := 4 * x.magnitude * quarter
  let narrow := x.magnitude = leadingBit ∧ -1074 < x.scale
  let low := (if narrow then 4 * x.magnitude - 1 else 4 * x.magnitude - 2) * quarter
  let high := (4 * x.magnitude + 2) * quarter
  let readsBack (c : Nat) : Bool :=
    if x.magnitude % 2 = 0 then low ≤ c * unit && c * unit ≤ high
    else low < c * unit && c * unit < high
  let below := value / unit
  if below = 0 then none
  else
    match readsBack below, readsBack (below + 1) with
    | false, false => none
    | true, false => some ⟨below, exponent⟩
    | false, true => some ⟨below + 1, exponent⟩
    | true, true =>
      let middle := (2 * below + 1) * unit
      if 2 * value < middle then some ⟨below, exponent⟩
      else if middle < 2 * value then some ⟨below + 1, exponent⟩
      else some ⟨below + below % 2, exponent⟩

/-- A decimal without trailing zeros in its digits. -/
def stripped : (fuel : Nat) → Decimal → Decimal
  | 0, d => d
  | fuel + 1, d =>
    if d.digits ≠ 0 ∧ d.digits % 10 = 0 then stripped fuel ⟨d.digits / 10, d.exponent + 1⟩ else d

/-- The decimal of fewest digits that reads back as a positive double. -/
def shortest (x : Double) : Decimal :=
  let leading : Int := Int.fdiv ((Nat.log2 x.magnitude + x.scale) * 30103) 100000
  let grids : List Int := (List.range 21).map fun (i : Nat) => leading + 1 - (i : Int)
  let exact : Decimal :=
    ⟨Nat.pow 5 (-x.scale).toNat * x.magnitude <<< x.scale.toNat, min x.scale 0⟩
  stripped 20 ((grids.findSome? x.onGrid?).getD exact)

/-- The characters of a decimal: with a point when the point stands at most five places before
or sixteen places after the first digit, and with an exponent and its sign otherwise. -/
def Decimal.chars (d : Decimal) : List Char :=
  let ds := Nat.toDigits 10 d.digits
  let point : Int := ds.length + d.exponent
  if 0 ≤ d.exponent ∧ point ≤ 16 then ds ++ List.replicate d.exponent.toNat '0' ++ ['.', '0']
  else if 0 < point ∧ point ≤ 16 then ds.take point.toNat ++ '.' :: ds.drop point.toNat
  else if -5 < point ∧ point ≤ 0 then '0' :: '.' :: List.replicate (-point).toNat '0' ++ ds
  else
    let tail := if ds.length = 1 then [] else '.' :: ds.drop 1
    let sign := if point - 1 < 0 then '-' else '+'
    ds.take 1 ++ tail ++ 'e' :: sign :: Nat.toDigits 10 (point - 1).natAbs

/-- The characters of a double. -/
def chars (x : Double) : List Char :=
  let unsigned := if x.magnitude = 0 then ['0', '.', '0'] else x.shortest.chars
  if x.minus then '-' :: unsigned else unsigned

end Double

end ConferenceLedger

import ConferenceLedger.Bytes
import ConferenceLedger.Number.Power

/-!
# The twisted Edwards curve over 2^255 - 19

Field elements are natural numbers below the prime, and points are kept in extended
coordinates, so that adding needs no division. A point is written as its `y` with the parity
of `x` in the top bit. Reading reduces `y` modulo the prime, and for `x = 0` accepts either
parity.
-/

namespace ConferenceLedger.Curve

/-- The bit of a written point that holds the parity of `x`. -/
def parityBit : Nat := 1 <<< 255

/-- The prime of the field. -/
def prime : Nat := parityBit - 19

/-- The order of the base point. -/
def order : Nat := 1 <<< 252 + 27742317777372353535851937790883648493

/-- The coefficient of the curve `-x² + y² = 1 + d x² y²`. -/
def coefficient : Nat :=
  37095705934669439343138083508754565189542113879843219016388785533085940283555

/-- A square root of minus one. -/
def rootOfMinusOne : Nat :=
  19681161376707505956807079304988542015446066515923890162744021073123829784752

/-- The product of two field elements. -/
def mul (a b : Nat) : Nat := a * b % prime

/-- The sum of two field elements. -/
def add (a b : Nat) : Nat := (a + b) % prime

/-- The difference of two field elements. -/
def sub (a b : Nat) : Nat := (a + (prime - b)) % prime

/-- The power of a field element. -/
def pow (a e : Nat) : Nat := powMod prime a 256 e

/-- The inverse of a field element, and zero for zero. -/
def inverse (a : Nat) : Nat := pow a (prime - 2)

/-- A point in extended coordinates: `x = X/Z`, `y = Y/Z` and `x y = T/Z`. -/
structure Point where
  /-- Numerator of the first coordinate. -/
  X : Nat
  /-- Numerator of the second coordinate. -/
  Y : Nat
  /-- Common denominator. -/
  Z : Nat
  /-- Numerator of the product of the coordinates. -/
  T : Nat
  deriving DecidableEq

namespace Point

/-- The neutral point. -/
def neutral : Point := ⟨0, 1, 1, 0⟩

/-- The point with the given coordinates. -/
def ofAffine (x y : Nat) : Point := ⟨x, y, 1, mul x y⟩

/-- The point that generates the group of prime order. -/
def base : Point :=
  ofAffine 15112221349535400772501151409588531511454012693041857206046113283949847762202
    46316835694926478169428394003475163141307993866256225615783033603165251855960

/-- The sum of two points; the same formula doubles. -/
protected def add (p q : Point) : Point :=
  let a := mul (sub p.Y p.X) (sub q.Y q.X)
  let b := mul (add p.Y p.X) (add q.Y q.X)
  let c := mul (mul (mul 2 coefficient) p.T) q.T
  let d := mul (mul 2 p.Z) q.Z
  let e := sub b a
  let f := sub d c
  let g := add d c
  let h := add b a
  ⟨mul e f, mul g h, mul f g, mul e h⟩

/-- The sum of a point with itself. -/
def double (p : Point) : Point :=
  let a := mul p.X p.X
  let b := mul p.Y p.Y
  let c := mul 2 (mul p.Z p.Z)
  let h := add a b
  let s := add p.X p.Y
  let e := sub h (mul s s)
  let g := sub a b
  let f := add c g
  ⟨mul e f, mul g h, mul f g, mul e h⟩

/-- The point with the sign of `x` changed. -/
def negate (p : Point) : Point := ⟨sub 0 p.X, p.Y, p.Z, sub 0 p.T⟩

/-- The multiple of a point by the low `bits` bits of `n`. -/
def timesLow (p : Point) : (bits n : Nat) → Point
  | 0, _ => neutral
  | bits + 1, n =>
    let twice := (timesLow p bits (n / 2)).double
    if n % 2 = 1 then Point.add twice p else twice

/-- The multiple of a point by a number below 2^256. -/
def times (p : Point) (n : Nat) : Point := timesLow p 256 n

/-- The 32 bytes of a point. -/
def compress (p : Point) : Octets 32 :=
  let z := inverse p.Z
  let x := mul p.X z
  let y := mul p.Y z
  ⟨Bytes.ofNatLE 32 (y + x % 2 * parityBit), Bytes.length_ofNatLE 32 _⟩

/-- The `x` of even parity with `x² = (y² - 1) / (d y² + 1)`, when there is one. -/
def evenX? (y : Nat) : Option Nat :=
  let square := mul y y
  let u := sub square 1
  let v := add (mul coefficient square) 1
  let v3 := mul (mul v v) v
  let r := mul (mul u v3) (pow (mul u (mul v3 (mul v3 v))) ((prime - 5) / 8))
  let check := mul v (mul r r)
  let x? : Option Nat :=
    if check = u then some r
    else if check = sub 0 u then some (mul r rootOfMinusOne)
    else none
  x?.map fun x => if x % 2 = 0 then x else sub 0 x

/-- The point written by 32 bytes, when there is one. -/
def decompress? (o : Octets 32) : Option Point :=
  let n := Bytes.toNatLE o.bytes
  let y := n % parityBit % prime
  (evenX? y).map fun x => ofAffine (if n / parityBit = 1 then sub 0 x else x) y

end Point

end ConferenceLedger.Curve

import ConferenceLedger.Bytes

/-!
# The text of a duration

A duration of whole milliseconds is written in milliseconds below a second, and otherwise in
seconds with as many places as it needs.
-/

namespace ConferenceLedger.Duration

/-- The digits of a fraction without the zeros at its end. -/
def trimZeros (ds : List Char) : List Char := (ds.reverse.dropWhile (· = '0')).reverse

/-- The three digits of a number of milliseconds below a second. -/
def threeDigits (n : Nat) : List Char :=
  Nat.toDigits 10 (n / 100) ++ Nat.toDigits 10 (n / 10 % 10) ++ Nat.toDigits 10 (n % 10)

/-- The text of a duration in milliseconds. -/
def text (milliseconds : Nat) : String :=
  let seconds := milliseconds / 1000
  let rest := milliseconds % 1000
  if milliseconds = 0 then "0ns"
  else if seconds = 0 then toString rest ++ "ms"
  else
    let places := trimZeros (threeDigits rest)
    toString seconds ++ (if places.isEmpty then "" else "." ++ String.ofList places) ++ "s"

end ConferenceLedger.Duration

/-!
# Cutting text

A part of a text lies between two places, which are counted in the octets that the text takes
in UTF-8. At a place inside a character or after the end nothing can be cut.
-/

namespace ConferenceLedger

/-- How many octets characters take. -/
def octetCount : List Char → Nat
  | [] => 0
  | c :: cs => c.utf8Size + octetCount cs

/-- The characters from a place on. -/
def cutFrom? : Nat → List Char → Option (List Char)
  | 0, cs => some cs
  | _ + 1, [] => none
  | n + 1, c :: cs => if c.utf8Size ≤ n + 1 then cutFrom? (n + 1 - c.utf8Size) cs else none

/-- The characters before a place. -/
def cutBefore? : Nat → List Char → Option (List Char)
  | 0, _ => some []
  | _ + 1, [] => none
  | n + 1, c :: cs =>
    if c.utf8Size ≤ n + 1 then (cutBefore? (n + 1 - c.utf8Size) cs).map (c :: ·) else none

/-- The part of so many octets from a place on. -/
def cut? (start count : Nat) (cs : List Char) : Option (List Char) :=
  (cutFrom? start cs).bind (cutBefore? count)

end ConferenceLedger

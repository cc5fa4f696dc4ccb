/-!
# Blanks

The characters that only set others apart: those that Unicode calls white space.
-/

namespace ConferenceLedger

/-- Whether a character is a blank. -/
def isBlank (c : Char) : Bool :=
  let n := c.toNat
  (9 ≤ n && n ≤ 13) || [0x20, 0x85, 0xa0, 0x1680, 0x2028, 0x2029, 0x202f, 0x205f, 0x3000].contains n
    || (0x2000 ≤ n && n ≤ 0x200a)

end ConferenceLedger

import ConferenceLedger.Text.Base64
import ConferenceLedger.Text.Blank
import ConferenceLedger.Text.Utf8

/-!
# Armored text

A key in a text file stands between a line that begins it and a line that ends it, which
both name what it is. Headers may come first, up to an empty line. What stands before the
first and after the second line does not matter, and neither do blanks among the data.
-/

namespace ConferenceLedger.Rsa

/-- A byte string and what the text says it is. -/
structure Armored where
  /-- What it is. -/
  label : Bytes
  /-- The byte string. -/
  contents : Bytes

namespace Armored

/-- Look for a mark of which `left` is still to come, after the bytes `consumed`, the last of
them first. Where the mark breaks off it starts anew after the byte that breaks it off. -/
def search? (mark : Bytes) : (left consumed : Bytes) → Bytes → Option (Bytes × Bytes)
  | [], consumed, rest => some ((consumed.drop mark.length).reverse, rest)
  | _ :: _, _, [] => none
  | m :: left, consumed, b :: rest =>
    search? mark (if b = m then left else mark) (b :: consumed) rest

/-- The bytes before and after the first mark. -/
def splitAt? (mark : Bytes) (b : Bytes) : Option (Bytes × Bytes) := search? mark mark [] b

/-- Whether a byte may stand between the line that begins and the body. -/
def isGap (b : UInt8) : Bool := [32, 9, 10, 13].contains b.toNat

/-- The lines of a text: what ends in a line feed, without it and a carriage return before
it, and what is left. -/
def lines (current : List Char) : List Char → List (List Char)
  | [] => if current.isEmpty then [] else [current.reverse]
  | '\n' :: rest =>
    let line := match current with
      | '\r' :: before => before.reverse
      | _ => current.reverse
    line :: lines [] rest
  | c :: rest => lines (c :: current) rest

/-- The headers and the data of a body. -/
def sections (body : Bytes) : Bytes × Bytes :=
  match splitAt? [10, 10] body with
  | some parts => parts
  | none => (splitAt? [13, 10, 13, 10] body).getD ([], body)

/-- The text of bytes, when they are one. -/
def text? (b : Bytes) : Option String := (Utf8.decode b).toOption

/-- The byte string in the first armor of a text. -/
def ofBytes? (b : Bytes) : Option Armored := do
  let (_, b) ← splitAt? (Bytes.ofText "-----BEGIN ") b
  let (label, b) ← splitAt? (Bytes.ofText "-----") b
  let (body, b) ← splitAt? (Bytes.ofText "-----END ") (b.dropWhile isGap)
  let (closing, _) ← splitAt? (Bytes.ofText "-----") b
  if label.isEmpty ∨ label ≠ closing then none
  else
    let (headers, data) := sections body
    let headerLines := lines [] (← text? headers).toList
    let digits := (← text? data).toList.filter fun c => !isBlank c
    if headerLines.all (·.contains ':') then
      return ⟨label, ← Base64.decodePadded? (Bytes.ofText (String.ofList digits))⟩
    else none

end Armored

end ConferenceLedger.Rsa

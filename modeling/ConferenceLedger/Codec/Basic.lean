import ConferenceLedger.Identity.Form
import ConferenceLedger.Text.Utf8

/-!
# The binary form of stored and signed values

Integers have fixed width, least significant byte first. Texts and lists are preceded by
their length, optional values and truth values by one byte, and the cases of a choice by
four. Identifiers and blobs are written as their hexadecimal texts. Reading takes a value
from the front and leaves the rest.
-/

namespace ConferenceLedger

/-- Why bytes are not the binary form of a value. -/
inductive CodecError where
  /-- An integer, a length or a tag is cut off. -/
  | cut
  /-- A text is longer than what is left. -/
  | short
  /-- A text is not UTF-8. -/
  | notText (fault : Utf8.Fault)
  /-- A byte is no truth value. -/
  | badBool (found : UInt8)
  /-- A byte does not say whether an optional value is there. -/
  | badOption (found : UInt8)
  /-- A choice has no case of this index. -/
  | badCase (found : UInt32) (cases : Nat)
  /-- A text is not the identifier that it should be. -/
  | badIdentifier (error : FormError)
  /-- A text has a byte that is no hexadecimal digit. -/
  | badDigit (error : Hex.BadDigit)
  /-- The form of the value depends on the value, which the binary form does not tell. -/
  | selfDescribing
  /-- The value names its case, for which the binary form has no place. -/
  | namedCase
  /-- A reason reported by another party. -/
  | reported (text : String)
  deriving DecidableEq

/-- The text that reports why bytes are not the binary form of a value. -/
def CodecError.message : CodecError → String
  | cut => "io error: unexpected end of file"
  | short => "io error: "
  | notText fault => "string is not valid utf8: " ++ fault.message
  | badBool found =>
    "invalid u8 while decoding bool, expected 0 or 1, found " ++ toString found.toNat
  | badOption found => "tag for enum is not valid, found " ++ toString found.toNat
  | badCase found cases =>
    "invalid value: integer `" ++ toString found.toNat ++
      "`, expected variant index 0 <= i < " ++ toString cases
  | badIdentifier error => error.message
  | badDigit error => error.message
  | selfDescribing => "Bincode does not support the serde::Deserializer::deserialize_any method"
  | namedCase => "Bincode does not support Deserializer::deserialize_identifier"
  | reported text => text

/-- Reads a value from the front of a byte string and leaves the rest. -/
abbrev Reader (α : Type) := StateT Bytes (Except CodecError) α

namespace Reader

/-- The next `n` bytes, or the error for too few. -/
def take (n : Nat) (tooFew : CodecError) : Reader Bytes := fun b =>
  if b.length < n then .error tooFew else .ok (b.take n, b.drop n)

/-- An integer of `width` bytes. -/
def natLE (width : Nat) : Reader Nat := return Bytes.toNatLE (← take width .cut)

/-- The value of a whole byte string; what follows it is ignored. -/
def value {α : Type} (r : Reader α) (b : Bytes) : Except CodecError α := (r b).map (·.1)

/-- As many values as `count` says. -/
def times {α : Type} (r : Reader α) : (count : Nat) → Reader (List α)
  | 0 => return []
  | count + 1 => do
    let a ← r
    let rest ← times r count
    return a :: rest

end Reader

/-- A type whose values have a binary form. -/
class Binary (α : Type) where
  /-- The binary form of a value. -/
  put : α → Bytes
  /-- Reads a value from the front. -/
  get : Reader α

export Binary (put)

namespace Binary

instance : Binary UInt8 where
  put n := [n]
  get := return UInt8.ofNat (← Reader.natLE 1)

instance : Binary UInt32 where
  put n := Bytes.ofNatLE 4 n.toNat
  get := return UInt32.ofNat (← Reader.natLE 4)

instance : Binary UInt64 where
  put n := Bytes.ofNatLE 8 n.toNat
  get := return UInt64.ofNat (← Reader.natLE 8)

instance : Binary Int64 where
  put n := Bytes.ofNatLE 8 n.toUInt64.toNat
  get := return (UInt64.ofNat (← Reader.natLE 8)).toInt64

instance : Binary Bool where
  put b := [if b then 1 else 0]
  get := do
    let n : UInt8 ← get
    if n = 0 then return false
    else if n = 1 then return true
    else throw (.badBool n)

instance : Binary String where
  put s :=
    let b := Bytes.ofText s
    Bytes.ofNatLE 8 b.length ++ b
  get := do
    let length ← Reader.natLE 8
    match Utf8.decode (← Reader.take length .short) with
    | .ok s => return s
    | .error fault => throw (.notText fault)

instance {α : Type} [Binary α] : Binary (Option α) where
  put
    | none => [0]
    | some a => 1 :: put a
  get := do
    let n : UInt8 ← get
    if n = 0 then return none
    else if n = 1 then return some (← get)
    else throw (.badOption n)

instance {α : Type} [Binary α] : Binary (List α) where
  put as := Bytes.ofNatLE 8 as.length ++ as.flatMap put
  get := do
    let count ← Reader.natLE 8
    Reader.times get count

instance {n : Nat} : Binary (Octets n) where
  put o := put (Hex.encode o.bytes)
  get := do
    match Octets.ofHex n (← get) with
    | .ok o => return o
    | .error error => throw (.badIdentifier error)

instance : Binary Blob where
  put b := put (Hex.encode b.bytes)
  get := do
    match Hex.decode (← get) with
    | .ok b => return ⟨b⟩
    | .error error => throw (.badDigit error)

/-- The index of a case, in front of its contents. -/
def putCase (index : Nat) : Bytes := Bytes.ofNatLE 4 index

/-- Reads the index of one of `cases` cases. -/
def getCase (cases : Nat) : Reader (Fin cases) := do
  let index : UInt32 ← get
  if h : index.toNat < cases then return ⟨index.toNat, h⟩
  else throw (.badCase index cases)

/-- The value written by a byte string; what follows it is ignored. -/
def decode {α : Type} [Binary α] (b : Bytes) : Except CodecError α := Reader.value get b

end Binary

end ConferenceLedger

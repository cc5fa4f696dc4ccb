import ConferenceLedger.Identity.Form
import ConferenceLedger.Json.Reader
import ConferenceLedger.Json.Shape

/-!
# Types with a JSON form

Integers are integers in range, and identifiers and blobs are strings of hexadecimal digits.
-/

namespace ConferenceLedger

/-- A type whose values have a JSON form that does not depend on where it is read. -/
class JsonForm (α : Type) where
  /-- The JSON form of a value. -/
  toJson : α → Json
  /-- The value of a JSON form. -/
  ofJson? : Json → Option α

export JsonForm (toJson ofJson?)

namespace JsonForm

instance : JsonForm Bool := ⟨.bool, Json.bool?⟩

instance : JsonForm String := ⟨.str, Json.text?⟩

instance : JsonForm UInt8 := ⟨fun n => .nat n.toNat, Json.uint8?⟩

instance : JsonForm UInt32 := ⟨fun n => .nat n.toNat, Json.uint32?⟩

instance : JsonForm UInt64 := ⟨fun n => .nat n.toNat, Json.uint64?⟩

instance : JsonForm Int64 := ⟨fun n => Json.ofInt n.toInt, Json.int64?⟩

instance {α : Type} [JsonForm α] : JsonForm (List α) :=
  ⟨fun as => .arr (as.map toJson), Json.list? ofJson?⟩

instance {α : Type} [JsonForm α] : JsonForm (Option α) :=
  ⟨Json.ofOption toJson, Json.orNull ofJson?⟩

instance {n : Nat} : JsonForm (Octets n) where
  toJson o := .str (Hex.encode o.bytes)
  ofJson?
    | .str s => (Octets.ofHex n s).toOption
    | _ => none

instance : JsonForm Blob where
  toJson b := .str (Hex.encode b.bytes)
  ofJson?
    | .str s => (Hex.decode s).toOption.map Blob.mk
    | _ => none

end JsonForm

/-- The value written by a JSON text. -/
def ofJsonText? {α : Type} [JsonForm α] (s : String) : Option α := (Json.ofText? s).bind ofJson?

end ConferenceLedger

import ConferenceLedger.Codec.Basic
import ConferenceLedger.Json.Form

/-!
# Prizes and wins

A prize is given to attendees who reach its tier while units of it are left. A win is a
prize that an attendee was given, collected at the booth or not yet.
-/

namespace ConferenceLedger

/-- A prize tier. -/
structure Prize where
  /-- The number of the tier. -/
  tier : UInt8
  /-- The reputation that reaches the tier. -/
  repNeeded : UInt64
  /-- What the prize is. -/
  text : String
  /-- How many units are left. -/
  quantity : UInt32
  deriving DecidableEq

/-- A prize that an attendee was given. -/
structure Win where
  /-- The tier of the prize. -/
  tier : UInt8
  /-- What the prize is. -/
  name : String
  /-- Whether it was collected. -/
  claimed : Bool
  deriving DecidableEq

namespace Prize

/-- The names of the fields, in order. -/
def fieldNames : List String := ["tier", "rep_needed", "prize_text", "quantity"]

instance : JsonForm Prize where
  toJson p := .obj [
    ("tier", toJson p.tier),
    ("rep_needed", toJson p.repNeeded),
    ("prize_text", toJson p.text),
    ("quantity", toJson p.quantity)]
  ofJson? j := do
    let [tier, repNeeded, text, quantity] ← Json.slots? fieldNames j | none
    return ⟨← tier.required ofJson?, ← repNeeded.required ofJson?,
      ← text.required ofJson?, ← quantity.required ofJson?⟩

instance : Binary Prize where
  put p := put p.tier ++ put p.repNeeded ++ put p.text ++ put p.quantity
  get := return ⟨← Binary.get, ← Binary.get, ← Binary.get, ← Binary.get⟩

/-- The table of a genesis that brings none of its own. -/
def defaults : List Prize := [
  ⟨1, 5, "Sticker pack", 500⟩,
  ⟨2, 20, "T-shirt", 200⟩,
  ⟨3, 50, "Hoodie", 100⟩,
  ⟨4, 100, "Hardware wallet", 25⟩,
  ⟨5, 200, "Conference pass", 5⟩]

/-- The highest tier whose threshold a reputation reaches, or zero. -/
def tierFor (prizes : List Prize) (rep : UInt64) : UInt8 :=
  ((prizes.filter fun p => p.repNeeded ≤ rep).map (·.tier)).foldl max 0

end Prize

namespace Win

/-- The names of the fields, in order. -/
def fieldNames : List String := ["tier", "name", "claimed"]

instance : JsonForm Win where
  toJson w := .obj [
    ("tier", toJson w.tier),
    ("name", toJson w.name),
    ("claimed", toJson w.claimed)]
  ofJson? j := do
    let [tier, name, claimed] ← Json.slots? fieldNames j | none
    return ⟨← tier.required ofJson?, ← name.required ofJson?, ← claimed.required ofJson?⟩

instance : Binary Win where
  put w := put w.tier ++ put w.name ++ put w.claimed
  get := return ⟨← Binary.get, ← Binary.get, ← Binary.get⟩

end Win

end ConferenceLedger

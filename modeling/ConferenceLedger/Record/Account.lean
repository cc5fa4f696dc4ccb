import ConferenceLedger.Identity.Key

/-!
# Account records

An account signs transactions. Its number is bound into every signature, and its sequence
counts the transactions that were executed for it.
-/

namespace ConferenceLedger

/-- An account of the ledger. -/
structure Account where
  /-- Whose account it is. -/
  address : Address
  /-- The number given to it when it was created. -/
  number : UInt64
  /-- The sequence that its next transaction must carry. -/
  sequence : UInt64
  /-- The key that may sign for it. -/
  pubKey : Option PublicKey
  deriving DecidableEq

namespace Account

/-- The names of the fields, in order. -/
def fieldNames : List String := ["address", "account_number", "sequence", "pub_key"]

instance : JsonForm Account where
  toJson a := .obj [
    ("address", toJson a.address),
    ("account_number", toJson a.number),
    ("sequence", toJson a.sequence),
    ("pub_key", toJson a.pubKey)]
  ofJson? j := do
    let [address, number, sequence, pubKey] ← Json.slots? fieldNames j | none
    return ⟨← address.required ofJson?, ← number.required ofJson?,
      ← sequence.required ofJson?, ← pubKey.optional ofJson?⟩

instance : Binary Account where
  put a := put a.address ++ put a.number ++ put a.sequence ++ put a.pubKey
  get := return ⟨← Binary.get, ← Binary.get, ← Binary.get, ← Binary.get⟩

end Account

end ConferenceLedger

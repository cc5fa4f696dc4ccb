import ConferenceLedger.Ledger.Chain

/-!
# Reaching the ledger

A party that does not run the ledger itself looks up accounts, sends transactions and asks
queries, and each of these may fail on the way. The ledger at hand never fails on the way.
-/

namespace ConferenceLedger

/-- What is needed to sign for an account. -/
structure AccountInfo where
  /-- The number of the account. -/
  number : UInt64
  /-- The sequence that its next transaction must carry. -/
  sequence : UInt64
  deriving DecidableEq

namespace AccountInfo

/-- The names of the fields, in order. -/
def fieldNames : List String := ["account_number", "sequence"]

instance : JsonForm AccountInfo where
  toJson i := .obj [("account_number", toJson i.number), ("sequence", toJson i.sequence)]
  ofJson? j := do
    let [number, sequence] ← Json.slots? fieldNames j | none
    return ⟨← number.required ofJson?, ← sequence.required ofJson?⟩

instance : Binary AccountInfo where
  put i := put i.number ++ put i.sequence
  get := return ⟨← Binary.get, ← Binary.get⟩

end AccountInfo

/-- Why the ledger was not reached, or did not answer as asked. -/
inductive ClientError where
  /-- The ledger was not reached, or what was sent got lost. -/
  | unreachable (reason : String)
  /-- There is no account of the address. -/
  | accountNotFound (address : Address)
  /-- The ledger answered with an error. -/
  | rejected (error : LedgerError)
  deriving DecidableEq

/-- The text that reports why the ledger was not reached. -/
def ClientError.message : ClientError → String
  | unreachable reason => "ledger unreachable: " ++ reason
  | accountNotFound address => "account not found: " ++ address.hex
  | rejected error => "query rejected: " ++ error.message

/-- A ledger as others reach it. -/
class LedgerClient (σ : Type) where
  /-- Look up the account of an address. -/
  account : Address → σ → Except ClientError AccountInfo × σ
  /-- Send a transaction and wait until it is committed. -/
  broadcast : SignedTx → σ → Except ClientError TxResponse × σ
  /-- Ask a query. -/
  query : Query → σ → Except ClientError QueryResponse × σ

/-- A ledger at hand. -/
structure LocalLedger where
  /-- The chain. -/
  chain : Chain
  /-- The time of the blocks to come, in seconds. -/
  time : Int64

namespace LocalLedger

/-- Look up an account. -/
def account (a : Address) (l : LocalLedger) : Except ClientError AccountInfo :=
  match l.chain.account a with
  | .ok (some found) => .ok ⟨found.number, found.sequence⟩
  | .ok none => .error (.accountNotFound a)
  | .error e => .error (.rejected e)

/-- Commit a transaction. -/
def broadcast (tx : SignedTx) (l : LocalLedger) : TxResponse × LocalLedger :=
  let (response, chain) := l.chain.deliver tx l.time
  (response, { l with chain })

/-- Answer a query. -/
def query (q : Query) (l : LocalLedger) : Except ClientError QueryResponse :=
  (l.chain.query q).mapError .rejected

instance : LedgerClient LocalLedger where
  account a l := (l.account a, l)
  broadcast tx l :=
    let (response, l) := l.broadcast tx
    (.ok response, l)
  query q l := (l.query q, l)

end LocalLedger

end ConferenceLedger

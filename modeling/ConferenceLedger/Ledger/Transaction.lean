import ConferenceLedger.Curve.Signature
import ConferenceLedger.Ledger.Operation

/-!
# Signed transactions

A transaction is an operation signed for one chain, one account and one place in the
sequence of that account. What is signed begins with a tag that tells it from other signed
bytes.
-/

namespace ConferenceLedger

/-- The secret that signs for a public key. -/
structure SigningKey where
  /-- The seed of the key. -/
  seed : Octets 32
  deriving DecidableEq

namespace SigningKey

/-- The public key under which its signatures are checked. -/
def publicKey (k : SigningKey) : PublicKey := ⟨Curve.publicKeyOf k.seed⟩

/-- The signature of a message. -/
def sign (k : SigningKey) (message : Bytes) : Octets 64 := Curve.sign k.seed message

end SigningKey

/-- What tells the bytes of a transaction from other signed bytes. -/
def transactionTag : Bytes := Bytes.ofText "LINKEDUP_TX_V1"

/-- The bytes that are signed for an operation at a place. -/
def signBytes (chainId : String) (accountNumber sequence : UInt64) (op : Operation) : Bytes :=
  transactionTag ++ put chainId ++ put accountNumber ++ put sequence ++ put op

/-- A signed transaction. -/
structure SignedTx where
  /-- The operation. -/
  op : Operation
  /-- The account number of the signer. -/
  accountNumber : UInt64
  /-- The sequence of the signer when it was signed. -/
  sequence : UInt64
  /-- The key that signed. -/
  pubKey : PublicKey
  /-- The signature. -/
  signature : Blob
  deriving DecidableEq

namespace SignedTx

/-- Sign an operation at a place. -/
def sign (op : Operation) (chainId : String) (accountNumber sequence : UInt64)
    (key : SigningKey) : SignedTx where
  op := op
  accountNumber := accountNumber
  sequence := sequence
  pubKey := key.publicKey
  signature := ⟨(key.sign (signBytes chainId accountNumber sequence op)).bytes⟩

/-- The key is one, the signature has the right length, and it is one of these bytes. -/
def checkSignature (chainId : String) (tx : SignedTx) : Except LedgerError Unit :=
  if !tx.pubKey.isPoint then .error .invalidPublicKey
  else
    match Octets.ofBytes? 64 tx.signature.bytes with
    | none => .error (.unauthorized .malformedSignature)
    | some signature =>
      let message := signBytes chainId tx.accountNumber tx.sequence tx.op
      if Curve.verify tx.pubKey.octets message signature then .ok ()
      else .error (.unauthorized .badSignature)

/-- The names of the fields, in order. -/
def fieldNames : List String := ["op", "account_number", "sequence", "pub_key", "signature"]

instance : JsonForm SignedTx where
  toJson tx := .obj [
    ("op", toJson tx.op),
    ("account_number", toJson tx.accountNumber),
    ("sequence", toJson tx.sequence),
    ("pub_key", toJson tx.pubKey),
    ("signature", toJson tx.signature)]
  ofJson? j := do
    let [op, accountNumber, sequence, pubKey, signature] ← Json.slots? fieldNames j | none
    return ⟨← op.required ofJson?, ← accountNumber.required ofJson?,
      ← sequence.required ofJson?, ← pubKey.required ofJson?, ← signature.required ofJson?⟩

instance : Binary SignedTx where
  put tx :=
    put tx.op ++ put tx.accountNumber ++ put tx.sequence ++ put tx.pubKey ++ put tx.signature
  get := return ⟨← Binary.get, ← Binary.get, ← Binary.get, ← Binary.get, ← Binary.get⟩

/-- The transaction that was sent as bytes. -/
def ofBytes (b : Bytes) : Except LedgerError SignedTx :=
  match (Binary.decode b : Except CodecError SignedTx) with
  | .ok tx => .ok tx
  | .error e => .error (.codec e)

end SignedTx

/-- What became of a transaction. -/
structure TxResponse where
  /-- The code of the error, or zero. -/
  code : UInt32
  /-- The text of the error, or nothing. -/
  log : String
  /-- The height of the block of the transaction. -/
  height : UInt64
  /-- Whether the transaction was admitted, which uses up its sequence. -/
  executed : Bool
  deriving DecidableEq

namespace TxResponse

/-- The transaction was executed and succeeded. -/
def ok (height : UInt64) : TxResponse := ⟨0, "", height, true⟩

/-- The transaction was executed and failed. -/
def failed (e : LedgerError) (height : UInt64) : TxResponse := ⟨e.code, e.message, height, true⟩

/-- The transaction was not executed. -/
def notAdmitted (e : LedgerError) (height : UInt64) : TxResponse :=
  ⟨e.code, e.message, height, false⟩

/-- Whether the transaction succeeded. -/
def isOk (r : TxResponse) : Bool := r.code = 0

/-- The names of the fields, in order. -/
def fieldNames : List String := ["code", "log", "height", "executed"]

instance : JsonForm TxResponse where
  toJson r := .obj [
    ("code", toJson r.code),
    ("log", toJson r.log),
    ("height", toJson r.height),
    ("executed", toJson r.executed)]
  ofJson? j := do
    let [code, log, height, executed] ← Json.slots? fieldNames j | none
    return ⟨← code.required ofJson?, ← log.required ofJson?, ← height.required ofJson?,
      ← executed.required ofJson?⟩

instance : Binary TxResponse where
  put r := put r.code ++ put r.log ++ put r.height ++ put r.executed
  get := return ⟨← Binary.get, ← Binary.get, ← Binary.get, ← Binary.get⟩

end TxResponse

end ConferenceLedger

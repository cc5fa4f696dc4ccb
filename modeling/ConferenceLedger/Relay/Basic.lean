import ConferenceLedger.Relay.Client
import ConferenceLedger.Text.Duration

/-!
# The relay

The relay holds the key of the custodian and sends every grant of a key in one sequence. It
counts the sequence itself: an executed transaction moves it on, a transaction that carried
the wrong sequence makes it ask the ledger, and anything else leaves it where it is.
-/

namespace ConferenceLedger

/-- What the custodian is asked to grant. -/
structure CustodyRequest where
  /-- The attendee who gets the key. -/
  attendee : Address
  /-- The key. -/
  publicKey : PublicKey
  /-- The commitment to the secret that the attendee is sent. -/
  commitment : Commitment
  deriving DecidableEq

/-- Why a key was not granted. -/
inductive RelayError where
  /-- The attendee has a key already. -/
  | alreadyKeyed
  /-- The ledger did not take the transaction or carry it out. -/
  | failedTx (code : UInt32) (log : String)
  /-- It is not known what became of the transaction. -/
  | submission (error : ClientError)
  /-- The request is wrong in itself; nothing was sent. -/
  | invalidRequest (error : LedgerError)
  /-- The turn of the request did not come in time; nothing was sent. -/
  | busy (milliseconds : Nat)
  /-- The account of the custodian was not found at the start. -/
  | accountLookup (error : ClientError)
  deriving DecidableEq

/-- The text that reports why a key was not granted. -/
def RelayError.message : RelayError → String
  | alreadyKeyed => "account already key'ed"
  | failedTx code log => "failed tx (code " ++ toString code.toNat ++ "): " ++ log
  | submission error => "submission failed: " ++ error.message
  | invalidRequest error => "invalid custody request: " ++ error.message
  | busy milliseconds => "sequence lock not acquired within " ++ Duration.text milliseconds
  | accountLookup error => "master account lookup failed: " ++ error.message

/-- The custodian's end of the ledger. -/
structure Relay where
  /-- The key of the custodian. -/
  key : SigningKey
  /-- The public half of that key. -/
  publicKey : PublicKey
  /-- The public half belongs to the key. -/
  publicKey_key : publicKey = key.publicKey
  /-- The chain that signatures are for. -/
  chainId : String
  /-- The number of the custodian's account. -/
  accountNumber : UInt64
  /-- The sequence that the next transaction will carry. -/
  sequence : UInt64
  /-- How long a request waits for its turn, in milliseconds, unless it waits for ever. -/
  lockTimeout : Option Nat

/-- What the relay does after an answer of the ledger. -/
inductive Settlement where
  /-- The call ends, and the relay goes on with a sequence. -/
  | ended (result : Except RelayError Unit) (sequence : UInt64)
  /-- The relay first asks the ledger for the sequence; the call will end with this error. -/
  | resync (error : RelayError)

namespace Relay

/-- The address of the custodian. -/
def address (r : Relay) : Address := .ofPublicKey r.publicKey

/-- A relay that starts with what the ledger says of the custodian's account. -/
def connect {σ : Type} [LedgerClient σ] (key : SigningKey) (chainId : String)
    (lockTimeout : Option Nat) (ledger : σ) : Except RelayError Relay × σ :=
  let publicKey := key.publicKey
  match LedgerClient.account (Address.ofPublicKey publicKey) ledger with
  | (.error e, ledger) => (.error (.accountLookup e), ledger)
  | (.ok info, ledger) =>
    (.ok ⟨key, publicKey, rfl, chainId, info.number, info.sequence, lockTimeout⟩, ledger)

/-- The operation that a request asks for. -/
def operation (r : Relay) (q : CustodyRequest) : Operation :=
  .key ⟨q.attendee, r.address, q.publicKey, q.commitment⟩

/-- The transaction that a request makes at the present sequence. -/
def transaction (r : Relay) (q : CustodyRequest) : SignedTx :=
  .sign (r.operation q) r.chainId r.accountNumber r.sequence r.key

/-- What follows from the answer to a transaction. -/
def settle (r : Relay) : Except ClientError TxResponse → Settlement
  | .error e => .ended (.error (.submission e)) r.sequence
  | .ok response =>
    if response.code = LedgerError.invalidSequenceCode then
      .resync (.failedTx response.code response.log)
    else
      let sequence := if response.executed then r.sequence + 1 else r.sequence
      if response.isOk then .ended (.ok ()) sequence
      else if response.code = LedgerError.attendeeKeyedCode then
        .ended (.error .alreadyKeyed) sequence
      else .ended (.error (.failedTx response.code response.log)) sequence

/-- The relay with the sequence that a look at the account gives, if it gives one. -/
def adopt (r : Relay) : Except ClientError AccountInfo → Relay
  | .ok info => { r with sequence := info.sequence }
  | .error _ => r

/-- Grant a key, when no other request is on its way. -/
def submit {σ : Type} [LedgerClient σ] (q : CustodyRequest) (r : Relay) (ledger : σ) :
    Except RelayError Unit × Relay × σ :=
  match (r.operation q).check with
  | .error e => (.error (.invalidRequest e), r, ledger)
  | .ok () =>
    let (reply, ledger) := LedgerClient.broadcast (r.transaction q) ledger
    match r.settle reply with
    | .ended result sequence => (result, { r with sequence }, ledger)
    | .resync error =>
      let (lookup, ledger) := LedgerClient.account r.address ledger
      (.error error, r.adopt lookup, ledger)

end Relay

end ConferenceLedger

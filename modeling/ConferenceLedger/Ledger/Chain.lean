import ConferenceLedger.Ledger.Execution
import ConferenceLedger.Ledger.Genesis
import ConferenceLedger.Ledger.Query
import ConferenceLedger.Ledger.Transaction

/-!
# The chain

The chain commits one transaction per block. A transaction is admitted if it is right in
itself, its signer has an account, the key and the signature are those of the account, and
it carries the number and the sequence of the account. An admitted transaction uses up its
sequence even if the operation then fails; any other changes nothing but the height.
-/

namespace ConferenceLedger

/-- A ledger that commits transactions. -/
structure Chain where
  /-- The name of the chain, which every signature covers. -/
  chainId : String
  /-- The height of the last block. -/
  height : UInt64
  /-- The records. -/
  store : Store

namespace Chain

/-- The chain that starts from a genesis. -/
def ofGenesis (chainId : String) (g : Genesis) : Except LedgerError Chain :=
  match g.program.run .empty with
  | (.ok (), store) => .ok ⟨chainId, 0, store⟩
  | (.error e, _) => .error e

/-- The account of an address. -/
def account (c : Chain) (a : Address) : Except LedgerError (Option Account) :=
  (Records.account a).eval c.store

/-- What a query answers. -/
def query (c : Chain) (q : Query) : Except LedgerError QueryResponse := q.answer.eval c.store

/-- The account of the signer, if the transaction is admitted. -/
def admission (chainId : String) (tx : SignedTx) : LedgerAccess Account := do
  Access.ofExcept tx.op.check
  match ← Records.account tx.op.signer with
  | none => Access.fail .unknownAccount
  | some account =>
    if account.pubKey ≠ some tx.pubKey then
      Access.fail (.unauthorized (.keyNotAuthorized tx.op.signer))
    else
      Access.ofExcept (tx.checkSignature chainId)
      if tx.accountNumber ≠ account.number then
        Access.fail (.unauthorized (.accountNumberMismatch account.number tx.accountNumber))
      else if tx.sequence ≠ account.sequence then
        Access.fail (.invalidSequence account.sequence tx.sequence)
      else return account

/-- Commit a transaction in a block of its own. -/
def deliver (tx : SignedTx) (time : Int64) (c : Chain) : TxResponse × Chain :=
  let height := c.height + 1
  match (admission c.chainId tx).eval c.store with
  | .error e => (.notAdmitted e height, { c with height })
  | .ok account =>
    let counted := (Records.setAccount { account with sequence := account.sequence + 1 }).run
      c.store
    match tx.op.execute time counted.2 with
    | (.ok (), store) => (.ok height, { c with height, store })
    | (.error e, store) => (.failed e height, { c with height, store })

end Chain

end ConferenceLedger

import ConferenceLedger.Ledger.Booth
import ConferenceLedger.Ledger.Custody
import ConferenceLedger.Ledger.Meeting

/-!
# Execution of operations

An operation is carried out by the part of the ledger it belongs to, and as a whole or not
at all.
-/

namespace ConferenceLedger

namespace Operation

/-- What an operation does at a block time. -/
def program (time : Int64) (op : Operation) : LedgerAccess Unit :=
  match op with
  | key _ => Custody.handle op
  | claimKey _ => Custody.handle op
  | scanQr _ => Meeting.handle time op
  | redeem _ => Booth.handle op

/-- Carry out an operation; a failed one leaves the store as it was. -/
def execute (time : Int64) (op : Operation) (s : Store) : Except LedgerError Unit × Store :=
  (op.program time).atomically s

end Operation

end ConferenceLedger

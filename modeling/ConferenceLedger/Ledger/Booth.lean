import ConferenceLedger.Ledger.Operation
import ConferenceLedger.Ledger.Records

/-!
# The prize booth

The booth hands an attendee everything won and not collected yet, all at once.
-/

namespace ConferenceLedger.Booth

/-- Collect the wins of an attendee. -/
def collect (m : Redemption) : LedgerAccess Unit := do
  let redeem ← Records.redeem
  if redeem ≠ some m.sender then Access.fail (.unauthorized (.notRedeem m.sender))
  else
    let attendee ← Records.knownAttendee (.ofTicket m.ticket)
    if attendee.unclaimedWinnings.isEmpty then Access.fail .noUnclaimedWinnings
    else Records.setAttendee attendee.collectWinnings

/-- Carry out a redemption, and refuse any other operation. -/
def handle : Operation → LedgerAccess Unit
  | .redeem m => collect m
  | op => Access.fail (.unrecognizedMessageType op.kind)

end ConferenceLedger.Booth

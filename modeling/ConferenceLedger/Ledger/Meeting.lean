import ConferenceLedger.Ledger.Award
import ConferenceLedger.Ledger.Operation

/-!
# Meetings

The first scan between two attendees makes the record of their meeting and awards both. Each
of them may share data once, which awards the one who shares.
-/

namespace ConferenceLedger.Meeting

/-- A meeting and the two attendees in it. -/
structure Parties where
  /-- The meeting. -/
  scan : Scan
  /-- The attendee who scans. -/
  sender : Attendee
  /-- The attendee whose badge is scanned. -/
  scanned : Attendee

/-- The meeting of an identifier, made and awarded if it is new. -/
def meet (sender : Address) (time : Int64) (id : ScanId) (a b : Attendee) :
    LedgerAccess Parties := do
  match ← Records.scan id with
  | some scan => return ⟨scan, a, b⟩
  | none =>
    let scan ← Access.ofExcept ((Scan.new sender b.address time).mapError .ofPairError)
    let a ← Award.awardPoints Award.scanPoints a
    let b ← Award.awardPoints Award.scanPoints b
    return ⟨scan.addPoints Award.scanPoints Award.scanPoints, a, b⟩

/-- Share data in a meeting, unless the sender has shared before or shares nothing. -/
def share (sender : Address) (data : Blob) (p : Parties) : LedgerAccess Parties :=
  if (p.scan.side sender).data.isEmpty && !data.isEmpty then do
    let a ← Award.awardPoints Award.sharePoints p.sender
    return { p with
      scan := p.scan.updateSide sender (·.share data.bytes Award.sharePoints), sender := a }
  else pure p

/-- Scan the badge of another attendee. -/
def scanBadge (time : Int64) (m : BadgeScan) : LedgerAccess Unit := do
  let scanned ← Records.knownAttendee (.ofTicket m.ticket)
  let id ← Access.ofExcept ((ScanId.ofPair m.sender scanned.address).mapError .ofPairError)
  let sender ← Records.knownAttendee m.sender
  let met ← meet m.sender time id sender scanned
  let listed := { met with
    sender := met.sender.addScanId met.scan.id
    scanned := met.scanned.addScanId met.scan.id }
  let shared ← share m.sender m.data listed
  Records.setScan shared.scan
  Records.setAttendee shared.sender
  Records.setAttendee shared.scanned

/-- Carry out a scan, and refuse any other operation. -/
def handle (time : Int64) : Operation → LedgerAccess Unit
  | .scanQr m => scanBadge time m
  | op => Access.fail (.unrecognizedMessageType op.kind)

end ConferenceLedger.Meeting

import ConferenceLedger.Ledger.Award
import ConferenceLedger.Ledger.Operation

/-!
# Custody of attendee keys

An attendee starts unkeyed. The custodian keys the account: it installs a key that the
attendee controls and a commitment to a secret that the attendee is sent. The attendee then
claims the account by revealing the secret, signed with that key. A keyed account is never
keyed again, claimed or not.
-/

namespace ConferenceLedger.Custody

/-- Install a key on the account and the record of an attendee. -/
def grantKey (m : KeyGrant) : LedgerAccess Unit := do
  let master ← Records.master
  if master ≠ some m.master then Access.fail (.unauthorized (.notMaster m.master))
  else
    match ← Records.account m.attendee with
    | none => Access.fail .attendeeNotFound
    | some account =>
      let known ← Records.attendee m.attendee
      let attendee := known.getD (.blank m.attendee)
      if attendee.isKeyed then Access.fail .attendeeKeyed
      else
        Records.setAccount { account with pubKey := some m.newKey }
        Records.setAttendee
          { attendee with pubKey := some m.newKey, commitment := some m.commitment }

/-- Whether a secret opens the commitment of an attendee. -/
def reveals (a : Attendee) (secret : String) : Bool :=
  match a.commitment with
  | some c => c.opensWith (Bytes.ofText secret)
  | none => false

/-- Claim an account with the secret, and fill in the profile. -/
def claimKey (m : KeyClaim) : LedgerAccess Unit := do
  let attendee ← Records.knownAttendee m.attendee
  if attendee.claimed then Access.fail .attendeeClaimed
  else if !reveals attendee m.secret then Access.fail .invalidCommitmentReveal
  else
    let account ← Records.account m.attendee
    let installed := account.bind (·.pubKey)
    let claimed := { attendee with
      pubKey := installed.or attendee.pubKey
      commitment := none
      claimed := true
      name := m.name
      rsaPublicKey := m.rsaPublicKey
      encryptedInfo := m.encryptedInfo }
    Records.setAttendee (← Award.awardPoints Award.claimPoints claimed)

/-- Carry out an operation of custody, and refuse any other. -/
def handle : Operation → LedgerAccess Unit
  | .key m => grantKey m
  | .claimKey m => claimKey m
  | op => Access.fail (.unrecognizedMessageType op.kind)

end ConferenceLedger.Custody

import ConferenceLedger.Identity.Key
import ConferenceLedger.Store.Key

/-!
# Ledger errors

Every error of the ledger has a numeric code that never changes, and a text.
-/

namespace ConferenceLedger

/-- Why the sender of a transaction was refused. -/
inductive Refusal where
  /-- The sender is not the service that keys attendees. -/
  | notMaster (sender : Address)
  /-- The sender is not the service that redeems prizes. -/
  | notRedeem (sender : Address)
  /-- The key is not the one of the signer's account. -/
  | keyNotAuthorized (signer : Address)
  /-- The signature has not the length of one. -/
  | malformedSignature
  /-- The signature is not one of these bytes under this key. -/
  | badSignature
  /-- The transaction names another account number. -/
  | accountNumberMismatch (expected got : UInt64)
  /-- A reason reported by another party. -/
  | reported (text : String)
  deriving DecidableEq

/-- The text that reports why a sender was refused. -/
def Refusal.message : Refusal → String
  | notMaster sender => sender.hex ++ " is not the master service"
  | notRedeem sender => sender.hex ++ " is not the redeem service"
  | keyNotAuthorized signer => "key is not authorized for " ++ signer.hex
  | malformedSignature => "malformed signature"
  | badSignature => "signature verification failed"
  | accountNumberMismatch expected got =>
    "account number mismatch: expected " ++ toString expected.toNat ++
      ", got " ++ toString got.toNat
  | reported text => text

/-- Why the ledger did not do what it was asked. -/
inductive LedgerError where
  /-- A stored record or a transaction has no binary form that can be read. -/
  | codec (error : CodecError)
  /-- There is no attendee, or no account, of the address. -/
  | attendeeNotFound
  /-- The attendee has a key already. -/
  | attendeeKeyed
  /-- The attendee has claimed the account already. -/
  | attendeeClaimed
  /-- The secret is not the one committed to. -/
  | invalidCommitmentReveal
  /-- Sender and scanned attendee are the same. -/
  | accountsSame
  /-- An address names nobody. -/
  | addressEmpty
  /-- The scanned ticket id is no positive number. -/
  | qrCodeInvalid
  /-- A claim without a name. -/
  | emptyName
  /-- A claim without a secret. -/
  | emptySecret
  /-- A claim without a key for encryption. -/
  | emptyRsaKey
  /-- A claim without a profile. -/
  | emptyEncryptedInfo
  /-- There is no meeting of the identifier. -/
  | scanNotFound
  /-- The sender may not do this. -/
  | unauthorized (reason : Refusal)
  /-- The operation is none of those that were asked for. -/
  | unrecognizedMessageType (name : String)
  /-- The transaction carries a sequence other than the account's. -/
  | invalidSequence (expected got : UInt64)
  /-- The signer has no account. -/
  | unknownAccount
  /-- There is nothing left to collect. -/
  | noUnclaimedWinnings
  /-- There is no prize of the tier. -/
  | prizeNotFound
  /-- A key is no point of the curve. -/
  | invalidPublicKey
  deriving DecidableEq

namespace LedgerError

/-- The code of an attendee who has a key already. -/
def attendeeKeyedCode : UInt32 := 102

/-- The code of a sequence other than the account's. -/
def invalidSequenceCode : UInt32 := 115

/-- The numeric code of an error. -/
def code : LedgerError → UInt32
  | codec _ => 1
  | attendeeNotFound => 101
  | attendeeKeyed => attendeeKeyedCode
  | attendeeClaimed => 103
  | invalidCommitmentReveal => 104
  | accountsSame => 105
  | addressEmpty => 106
  | qrCodeInvalid => 107
  | emptyName => 108
  | emptySecret => 109
  | emptyRsaKey => 110
  | emptyEncryptedInfo => 111
  | scanNotFound => 112
  | unauthorized _ => 113
  | unrecognizedMessageType _ => 114
  | invalidSequence _ _ => invalidSequenceCode
  | unknownAccount => 116
  | noUnclaimedWinnings => 117
  | prizeNotFound => 118
  | invalidPublicKey => 119

/-- The text that reports an error. -/
def message : LedgerError → String
  | codec error => "codec error: " ++ error.message
  | attendeeNotFound => "attendee not found"
  | attendeeKeyed => "attendee already key'ed"
  | attendeeClaimed => "attendee already claimed"
  | invalidCommitmentReveal => "invalid commitment reveal"
  | accountsSame => "accounts are the same"
  | addressEmpty => "address is empty"
  | qrCodeInvalid => "invalid qr code"
  | emptyName => "name is empty"
  | emptySecret => "secret is empty"
  | emptyRsaKey => "rsa public key is empty"
  | emptyEncryptedInfo => "encrypted info is empty"
  | scanNotFound => "scan not found"
  | unauthorized reason => "unauthorized: " ++ reason.message
  | unrecognizedMessageType name => "unrecognized message type: " ++ name
  | invalidSequence expected got =>
    "invalid sequence: expected " ++ toString expected.toNat ++ ", got " ++ toString got.toNat
  | unknownAccount => "unknown account"
  | noUnclaimedWinnings => "no unclaimed winnings"
  | prizeNotFound => "prize not found"
  | invalidPublicKey => "invalid public key"

/-- The error of the ledger that two addresses are no pair. -/
def ofPairError : PairError → LedgerError
  | .addressEmpty => addressEmpty
  | .accountsSame => accountsSame

/-- No error has the code of success. -/
theorem code_ne_zero (e : LedgerError) : e.code ≠ 0 := by
  cases e <;> simp [code, attendeeKeyedCode, invalidSequenceCode]

end LedgerError

end ConferenceLedger

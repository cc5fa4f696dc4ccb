import ConferenceLedger.Ledger.Error
import ConferenceLedger.Record.Account
import ConferenceLedger.Record.Scan
import ConferenceLedger.Store.Access

/-!
# Reading and writing records

Every record has its place in the store, and a record is read from and written to its place
here only. Lists of records come in ascending order of keys.
-/

namespace ConferenceLedger

/-- A program over the store with errors of the ledger. -/
abbrev LedgerAccess (α : Type) := Access LedgerError α

namespace Records

/-- The record that a stored value is the binary form of. -/
def decodeRecord {α : Type} [Binary α] (b : Bytes) : Except LedgerError α :=
  match Binary.decode b with
  | .ok a => .ok a
  | .error e => .error (.codec e)

/-- Read the record under a key. -/
def read {α : Type} [Binary α] (key : Bytes) : LedgerAccess (Option α) := do
  match ← Access.get? key with
  | none => return none
  | some b => return some (← Access.ofExcept (decodeRecord b))

/-- Write a record under a key. -/
def write {α : Type} [Binary α] (key : Bytes) (a : α) : LedgerAccess Unit := Access.put key (put a)

/-- Read every record of a collection. -/
def readAll {α : Type} [Binary α] (cls : UInt8) : LedgerAccess (List α) := do
  let entries ← Access.entries (StoreKey.collection cls)
  Access.ofExcept (entries.mapM fun e => decodeRecord e.2)

/-- The account of an address. -/
def account (a : Address) : LedgerAccess (Option Account) := read (StoreKey.account a)

/-- Store an account. -/
def setAccount (a : Account) : LedgerAccess Unit := write (StoreKey.account a.address) a

/-- The account of an address, created with the next number if there is none. -/
def createAccount (address : Address) (pubKey : Option PublicKey) : LedgerAccess Account := do
  match ← account address with
  | some a => return a
  | none =>
    let counter : Option UInt64 ← read StoreKey.accountNumber
    let number := counter.getD 0
    write StoreKey.accountNumber (number + 1)
    let a : Account := { address, number, sequence := 0, pubKey }
    setAccount a
    return a

/-- The attendee of an address. -/
def attendee (a : Address) : LedgerAccess (Option Attendee) := read (StoreKey.attendee a)

/-- The attendee with a ticket id. -/
def attendeeOfTicket (id : String) : LedgerAccess (Option Attendee) := attendee (.ofTicket id)

/-- Store an attendee. -/
def setAttendee (a : Attendee) : LedgerAccess Unit := write (StoreKey.attendee a.address) a

/-- Every attendee, by ascending address. -/
def attendees : LedgerAccess (List Attendee) := readAll StoreKey.attendeeClass

/-- The attendee of an address, who must be there. -/
def knownAttendee (a : Address) : LedgerAccess Attendee := do
  match ← attendee a with
  | some a => return a
  | none => Access.fail .attendeeNotFound

/-- The meeting of an identifier. An identifier of another class of keys has none. -/
def scan (id : ScanId) : LedgerAccess (Option Scan) :=
  if StoreKey.isMember StoreKey.scanClass id.bytes then read id.bytes else pure none

/-- Store a meeting. -/
def setScan (s : Scan) : LedgerAccess Unit := write s.id.bytes s

/-- The meetings of an attendee, in the order the attendee lists them. -/
def scansOf (a : Address) : LedgerAccess (List Scan) := do
  let a ← knownAttendee a
  a.scanIds.mapM fun id => do
    match ← scan id with
    | some s => return s
    | none => Access.fail .scanNotFound

/-- The prize of a tier. -/
def prize (tier : UInt8) : LedgerAccess (Option Prize) := read (StoreKey.prize tier)

/-- Store a prize. -/
def setPrize (p : Prize) : LedgerAccess Unit := write (StoreKey.prize p.tier) p

/-- Every prize, by ascending tier. -/
def prizes : LedgerAccess (List Prize) := readAll StoreKey.prizeClass

/-- The address of the service that keys attendees. -/
def master : LedgerAccess (Option Address) := read StoreKey.master

/-- Store the address of the service that keys attendees. -/
def setMaster (a : Address) : LedgerAccess Unit := write StoreKey.master a

/-- The address of the service that redeems prizes. -/
def redeem : LedgerAccess (Option Address) := read StoreKey.redeem

/-- Store the address of the service that redeems prizes. -/
def setRedeem (a : Address) : LedgerAccess Unit := write StoreKey.redeem a

end Records

end ConferenceLedger

import ConferenceLedger.Gateway.Service
import ConferenceLedger.Log.Filter
import ConferenceLedger.Relay.Config

/-!
# The demonstration

The demonstration takes four attendees through a conference on a ledger at hand. Each is
keyed and claims the account, each scans everyone after, and every second one shares data.
The first one collects what was won, and the leaderboard is shown.
-/

namespace ConferenceLedger.Demo

/-- Why the demonstration broke off. -/
inductive Failure where
  /-- The ledger could not be started. -/
  | genesis (error : LedgerError)
  /-- The relay could not be started. -/
  | relay (error : RelayError)
  /-- An attendee was not keyed. -/
  | keying (ticket : String) (error : RelayError)
  /-- The ledger was not reached. -/
  | client (error : ClientError)
  /-- A transaction was not carried out. -/
  | rejected (kind : String) (signer key : Address) (response : TxResponse)
  deriving DecidableEq

/-- The text that reports why the demonstration broke off. -/
def Failure.message : Failure → String
  | genesis error => error.message
  | relay error => error.message
  | keying ticket error => "keying attendee " ++ ticket ++ ": " ++ error.message
  | client error => error.message
  | rejected kind signer key response =>
    kind ++ " rejected for " ++ signer.hex ++ " (key " ++ key.hex ++ "): [" ++
      toString response.code.toNat ++ "] " ++ response.log

/-- A device of an attendee. -/
structure Device where
  /-- The ticket id of the attendee. -/
  ticket : String
  /-- The key that the device signs with. -/
  key : SigningKey
  /-- The secret that the attendee is sent. -/
  secret : String

/-- Everything that is random in the demonstration. -/
structure Chances where
  /-- A key of the custodian, in case none is configured. -/
  master : SigningKey
  /-- The key of the booth. -/
  redeem : SigningKey
  /-- The devices of the attendees. -/
  devices : List Device

/-- The tickets of the demonstration. -/
def tickets : List String := ["1", "2", "3", "4"]

/-- What the demonstration works with. -/
structure World where
  /-- The relay. -/
  relay : Relay
  /-- The ledger. -/
  ledger : LocalLedger
  /-- The log, last line first. -/
  reversedLog : List LogLine

/-- A step of the demonstration, which may break it off. -/
abbrev Step := ExceptT Failure (StateM World)

/-- Write a line to the log. -/
def log (message : String) : Step Unit :=
  modify fun w => { w with reversedLog := ⟨.info, message, []⟩ :: w.reversedLog }

/-- What the ledger gives, unless it was not reached. -/
def reach {α : Type} : Except ClientError α → Step α
  | .ok a => return a
  | .error e => throw (.client e)

/-- Sign an operation at the present place of its signer and have it carried out. -/
def submit (key : SigningKey) (op : Operation) : Step Unit := do
  let w ← get
  let account ← reach (w.ledger.account op.signer)
  let tx := SignedTx.sign op w.ledger.chain.chainId account.number account.sequence key
  let (response, ledger) := w.ledger.broadcast tx
  set { w with ledger }
  if !response.isOk then
    throw (.rejected op.kind op.signer (.ofPublicKey key.publicKey) response)

/-- Key the account of an attendee, and claim it. -/
def enrol (d : Device) : Step Unit := do
  let w ← get
  let address := Address.ofTicket d.ticket
  let request : CustodyRequest :=
    ⟨address, d.key.publicKey, .ofSecret (Bytes.ofText d.secret)⟩
  let (result, relay, ledger) := w.relay.submit request w.ledger
  set { w with relay, ledger }
  match result with
  | .error e => throw (.keying d.ticket e)
  | .ok () =>
    submit d.key (.claimKey {
      attendee := address
      name := "Attendee " ++ d.ticket
      secret := d.secret
      rsaPublicKey := "rsa-demo-" ++ d.ticket
      encryptedInfo := ⟨Bytes.ofText ("profile of " ++ d.ticket)⟩ })
    log ("Attendee " ++ d.ticket ++ " keyed and claimed at " ++ address.hex)

/-- Have each attendee scan everyone after; those who come at an even place share data. -/
def meetAll (shares : Bool) : List Device → Step Unit
  | [] => return
  | d :: rest => do
    let data : Blob := if shares then ⟨Bytes.ofText "hello from the hallway"⟩ else .empty
    rest.forM fun other => submit d.key (.scanQr ⟨.ofTicket d.ticket, other.ticket, data⟩)
    meetAll (!shares) rest

/-- Have the booth hand out what an attendee has won. -/
def collect (redeem : SigningKey) (d : Device) : Step Unit := do
  submit redeem (.redeem ⟨.ofPublicKey redeem.publicKey, d.ticket⟩)
  log ("Attendee " ++ d.ticket ++ " redeemed at the booth")
  match ← reach ((← get).ledger.query (.redeemable (.ofTicket d.ticket))) with
  | .redeemable wins =>
    log ("Attendee " ++ d.ticket ++ " has " ++ toString wins.length ++ " unclaimed wins left")
  | _ => return

/-- The line that shows a row of the leaderboard. -/
def rowText (rank : Nat) (r : LeaderboardEntry) : String :=
  "#" ++ toString rank ++ " " ++ r.name ++ " (" ++ r.address.hex ++ ") rep=" ++
    toString r.rep.toNat ++ " tier=" ++ toString r.tier.toNat

/-- Show the leaderboard. -/
def showLeaderboard : Step Unit := do
  log "=== Leaderboard ==="
  match ← reach ((← get).ledger.query (.leaderboard 10)) with
  | .leaderboard rows => (rows.zipIdx 1).forM fun (r, rank) => log (rowText rank r)
  | _ => return

/-- The whole conference. -/
def conference (c : Chances) : Step Unit := do
  log "=== Starting Demo ==="
  c.devices.forM enrol
  meetAll true c.devices
  c.devices.head?.forM (collect c.redeem)
  showLeaderboard
  let chain := (← get).ledger.chain
  log ("Final height " ++ toString chain.height.toNat ++ " state hash " ++
    Hex.encode chain.store.fingerprint.bytes)

/-- The genesis of the demonstration. -/
def genesis (master redeem : SigningKey) : Genesis :=
  tickets.foldl (fun g t => g.withAttendee t "GA") (.new master.publicKey redeem.publicKey)

/-- The ledger and the relay of the demonstration. -/
def setUp (config : RelayConfig) (master redeem : SigningKey) (time : Int64) :
    Except Failure (Relay × LocalLedger) := do
  let chain ← (Chain.ofGenesis config.chainId (genesis master redeem)).mapError .genesis
  let timeout := config.lockTimeout.map UInt64.toNat
  let (relay, ledger) := Relay.connect master config.chainId timeout (LocalLedger.mk chain time)
  return (← relay.mapError .relay, ledger)

/-- The greatest number of workers that there is room for. -/
def greatestWorkers : Nat := 1000000

/-- Whether a text sets a number of workers that there can be. -/
def setsWorkers (s : String) : Bool :=
  (uint64OfText? s).any fun n => 0 < n && n.toNat ≤ greatestWorkers

/-- The filter of the log, unless a text that sets it or the number of workers keeps the
demonstration from starting. -/
def filter? (workers filter : Option String) : Option LogFilter :=
  if workers.all setsWorkers then (filter.map LogFilter.ofText?).getD (some .default) else none

/-- The log of the demonstration, and why it broke off, if it did. -/
def run (config : RelayConfig) (chances : Chances) (time : Int64) :
    List LogLine × Except Failure Unit :=
  let (master, warning) : SigningKey × List LogLine := match config.signingKey with
    | .ok key => (key, [])
    | .error e =>
      (chances.master, [⟨.warn, "using an ephemeral master key", [("error", e.message)]⟩])
  let opening := LogLine.mk .info "LinkedUp v0.1.0" [] :: warning
  match setUp config master chances.redeem time with
  | .error e => (opening, .error e)
  | .ok (relay, ledger) =>
    let (result, w) := (conference chances).run.run ⟨relay, ledger, []⟩
    (opening ++ w.reversedLog.reverse, result)

end ConferenceLedger.Demo

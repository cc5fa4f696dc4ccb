import ConferenceLedger.Ledger.Transaction
import ConferenceLedger.Text.Decimal

/-!
# Configuration of the relay

The relay is configured by environment variables. A wait that is no number of milliseconds
is no bound.
-/

namespace ConferenceLedger

/-- How the relay is set up. -/
structure RelayConfig where
  /-- The chain that signatures are for. -/
  chainId : String
  /-- The seed of the custodian's key in hexadecimal. -/
  masterKeyHex : Option String
  /-- How long a request waits for its turn, in milliseconds, unless it waits for ever. -/
  lockTimeout : Option UInt64
  /-- The page where accounts are claimed. -/
  claimUrl : String
  deriving DecidableEq

/-- Why there is no key of the custodian. -/
inductive ConfigError where
  /-- None is configured. -/
  | missingMasterKey
  /-- What is configured is no seed of 32 bytes. -/
  | invalidMasterKey (e : FormError)
  deriving DecidableEq

/-- The text that reports why there is no key of the custodian. -/
def ConfigError.message : ConfigError → String
  | missingMasterKey => "LINKEDUP_MASTER_KEY is not set"
  | invalidMasterKey e => "invalid master key: " ++ e.message

namespace RelayConfig

/-- The configuration that environment variables make. -/
def ofEnv (env : String → Option String) : RelayConfig where
  chainId := (env "LINKEDUP_CHAIN_ID").getD "linkedup-devnet"
  masterKeyHex := env "LINKEDUP_MASTER_KEY"
  lockTimeout := (env "LINKEDUP_LOCK_TIMEOUT_MS").bind uint64OfText?
  claimUrl := (env "LINKEDUP_CLAIM_URL").getD "http://localhost:3000/claim"

/-- The key of the custodian. -/
def signingKey (c : RelayConfig) : Except ConfigError SigningKey :=
  match c.masterKeyHex with
  | none => .error .missingMasterKey
  | some hex =>
    match Octets.ofHex 32 hex with
    | .ok seed => .ok ⟨seed⟩
    | .error e => .error (.invalidMasterKey e)

end RelayConfig

end ConferenceLedger

import ConferenceLedger.Demo

/-!
# The command line

The only command is `demo`. It takes its configuration from environment variables and prints
what a filter, from a variable too, shows of the log.
-/

open ConferenceLedger

/-- So many random bytes. -/
def randomOctets (n : Nat) : IO (Octets n) := do
  let b ← IO.getRandomBytes n.toUSize
  return (Octets.ofBytes? n b.data.toList).getD (.zero n)

/-- A random key. -/
def randomKey : IO SigningKey := return ⟨← randomOctets 32⟩

/-- A device with a random key and a fresh secret. -/
def randomDevice (ticket : String) : IO Demo.Device :=
  return ⟨ticket, ← randomKey, freshSecret (← randomOctets 16)⟩

/-- The variables that configure the relay. -/
def relayVariables : List String :=
  ["LINKEDUP_CHAIN_ID", "LINKEDUP_MASTER_KEY", "LINKEDUP_LOCK_TIMEOUT_MS", "LINKEDUP_CLAIM_URL"]

/-- Run the demonstration and print what a filter shows of its log. -/
def runDemo (filter : LogFilter) : IO UInt32 := do
  let env ← relayVariables.mapM fun name => return (name, ← IO.getEnv name)
  let config := RelayConfig.ofEnv fun name => (env.lookup name).join
  let chances : Demo.Chances :=
    ⟨← randomKey, ← randomKey, ← Demo.tickets.mapM randomDevice⟩
  let (lines, result) := Demo.run config chances 0
  for line in lines.filter (filter.shows "linkedup") do
    IO.println (line.level.name ++ " " ++ line.text)
  match result with
  | .ok () => return 0
  | .error e =>
    IO.eprintln ("Error: " ++ e.message)
    return 1

/-- The command line. -/
def main (args : List String) : IO UInt32 := do
  if args = ["demo"] then
    match Demo.filter? (← IO.getEnv "LINKEDUP_WORKERS") (← IO.getEnv "LINKEDUP_LOG") with
    | some filter => runDemo filter
    | none =>
      IO.eprintln "Error: the number of workers or the filter of the log is set wrongly"
      return 1
  else
    IO.eprintln "usage: conference-ledger demo"
    return 2

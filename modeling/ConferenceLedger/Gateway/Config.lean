import ConferenceLedger.Gateway.SocketAddress

/-!
# Configuration of the server

Only the address is configured by an environment variable; one that is no address leaves the
default.
-/

namespace ConferenceLedger

/-- How the server is set up. -/
structure ServerConfig where
  /-- Where it listens. -/
  bindAddress : SocketAddress
  /-- How many clients may be connected. -/
  maxConnections : Nat
  /-- How long a client may be silent, in milliseconds. -/
  idleTimeout : Nat
  /-- How often silent clients are looked for, in milliseconds. -/
  cleanupInterval : Nat
  /-- The version that clients are told. -/
  version : String
  deriving DecidableEq

namespace ServerConfig

/-- The configuration without any variable. -/
def default : ServerConfig where
  bindAddress := .v4 [0, 0, 0, 0] 1337
  maxConnections := 1000
  idleTimeout := 300000
  cleanupInterval := 60000
  version := "0.1.0"

/-- The configuration that environment variables make. -/
def ofEnv (env : String → Option String) : ServerConfig :=
  match (env "LINKEDUP_BIND_ADDR").bind SocketAddress.ofText? with
  | some bindAddress => { default with bindAddress }
  | none => default

end ServerConfig

end ConferenceLedger

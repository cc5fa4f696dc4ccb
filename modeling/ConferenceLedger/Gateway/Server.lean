import ConferenceLedger.Gateway.Config
import ConferenceLedger.Gateway.Message
import ConferenceLedger.Gateway.Service
import ConferenceLedger.Token.Auth

/-!
# The server

A peer that connects is greeted, and when the greeting is done a client is registered at its
remote address, in place of one that is there. The number of clients is looked at when a peer
connects, and not again when its greeting is done. What a peer sends is put down to the client
at its address, and when a peer has left the client at its address is taken off the register,
whichever peer of the address registered it. A client that is silent for too long is taken off
the register first and its peer told to go then. A token binds a client to a ticket, and only
a bound client can ask for a key. A server that shuts down takes no more peers and tells those
that it has to go, the ones that are still greeted when their greeting is done.
-/

namespace ConferenceLedger

/-- A peer, which is one connection from a remote address. -/
structure Peer where
  /-- The remote address. -/
  address : SocketAddress
  /-- Which of the connections from there it is, by the order in which they were made. -/
  number : Nat
  deriving DecidableEq

/-- A registered client. -/
structure Client where
  /-- The peer that registered it, which is told to go when the client is taken off. -/
  peer : Peer
  /-- The ticket that the last accepted token named. -/
  ticket : Option String
  /-- When the client last sent a message, in milliseconds. -/
  lastActivity : Nat
  deriving DecidableEq

/-- The server and everyone it serves. -/
structure Server (σ : Type) where
  /-- How the server is set up. -/
  config : ServerConfig
  /-- What tokens are accepted. -/
  auth : AuthConfig
  /-- The key service. -/
  service : KeyService σ
  /-- Whether peers are taken. -/
  listening : Bool
  /-- Whether the server was told to shut down. -/
  stopping : Bool
  /-- The peers whose greeting is not done. -/
  greeting : List Peer
  /-- The peers whose frames are read. -/
  served : List Peer
  /-- The peers whose frames are no longer read, and that are still to be taken off the
  register. -/
  leaving : List Peer
  /-- The peers that hear of the shutdown as soon as their frames are read. -/
  warned : List Peer
  /-- The registered clients, by remote address. -/
  clients : List (SocketAddress × Client)

/-- What can happen to the server. -/
inductive ServerEvent where
  /-- A peer connects. -/
  | connect (peer : Peer)
  /-- The greeting of a peer is done, at a time in milliseconds. -/
  | greeted (peer : Peer) (now : Nat)
  /-- The greeting of a peer fails. -/
  | greetingFailed (peer : Peer)
  /-- A peer sends a text at a time; a fresh secret is at hand in case it asks for a key. -/
  | text (peer : Peer) (content : String) (now : Nat) (secret : String)
  /-- A peer leaves. -/
  | leave (peer : Peer)
  /-- A peer that has left is taken off the register. -/
  | gone (peer : Peer)
  /-- Silent clients are taken off the register at a time. -/
  | sweep (now : Nat)
  /-- A peer whose client was taken off the register is told to go. -/
  | dismiss (peer : Peer)
  /-- The server is told to shut down. -/
  | stop
  /-- The server hears that it is to shut down. -/
  | halt
  /-- A peer hears that the server shuts down. -/
  | heed (peer : Peer)

/-- What a peer gets from the server. -/
inductive ServerOutput where
  /-- The connection is not taken. -/
  | refused (peer : Peer)
  /-- A message. -/
  | message (peer : Peer) (m : ServerMessage)
  /-- The connection is closed. -/
  | closed (peer : Peer)

/-- The code of an error of the service. -/
def ServiceError.code : ServiceError → ErrorCode
  | invalidAttendeeId _ => .invalidMessage
  | notFound => .attendeeNotFound
  | alreadyKeyed => .alreadyKeyed
  | relay (.invalidRequest _) => .invalidMessage
  | relay (.submission _) => .ledgerUnavailable
  | relay (.busy _) => .busy
  | relay (.failedTx _ _) => .ledgerRejected
  | client (.unreachable _) => .ledgerUnavailable
  | client _ => .ledgerRejected
  | _ => .internalError

/-- What a client is told of a token that was not accepted. -/
def AuthError.clientMessage : AuthError → String
  | notConfigured => "Authentication unavailable"
  | e => e.message

namespace Server

variable {σ : Type}

/-- A server that nobody has connected to. -/
def new (config : ServerConfig) (auth : AuthConfig) (service : KeyService σ) : Server σ where
  config := config
  auth := auth
  service := service
  listening := true
  stopping := false
  greeting := []
  served := []
  leaving := []
  warned := []
  clients := []

/-- How many clients are registered. -/
def count (s : Server σ) : Nat := s.clients.length

/-- The client that is registered at an address. -/
def client? (address : SocketAddress) (s : Server σ) : Option Client :=
  (s.clients.find? fun c => c.1 = address).map (·.2)

/-- Whether the client at the address of a peer is the one that the peer registered. -/
def holds (peer : Peer) (s : Server σ) : Bool :=
  (s.client? peer.address).any fun c => c.peer = peer

/-- Whether a peer has been taken. -/
def knows (peer : Peer) (s : Server σ) : Bool :=
  (s.greeting ++ s.served ++ s.leaving ++ s.warned).contains peer

/-- The server with the client at an address changed, if there is one. -/
def update (address : SocketAddress) (change : Client → Client) (s : Server σ) : Server σ :=
  { s with clients := s.clients.map fun c => if c.1 = address then (c.1, change c.2) else c }

/-- The server without a client at an address. -/
def unregister (address : SocketAddress) (s : Server σ) : Server σ :=
  { s with clients := s.clients.filter (·.1 ≠ address) }

/-- The server with a client that a peer has registered at its address. -/
def register (peer : Peer) (now : Nat) (s : Server σ) : Server σ :=
  let s := s.unregister peer.address
  { s with clients := s.clients ++ [(peer.address, ⟨peer, none, now⟩)] }

/-- The server that no longer reads the frames of a peer. -/
def hangUp (peer : Peer) (s : Server σ) : Server σ :=
  { s with served := s.served.filter (· ≠ peer), leaving := s.leaving ++ [peer] }

/-- Check a token and bind the client to the ticket that it names. -/
def authenticate (peer : Peer) (token : String) (now : Nat) (s : Server σ) :
    ServerMessage × Server σ :=
  match Token.validate token s.auth (now / 1000) with
  | .error e => (.authResult false none s.config.version (some e.clientMessage), s)
  | .ok claims =>
    (.authResult true (some claims.address) s.config.version none,
      s.update peer.address fun c => { c with ticket := some claims.subject })

variable [LedgerClient σ]

/-- Key the account of the attendee that a client is bound to. -/
def keyAccount (peer : Peer) (publicKey : PublicKey) (secret : String) (s : Server σ) :
    ServerMessage × Server σ :=
  match (s.client? peer.address).bind (·.ticket) with
  | none => (.error .notAuthenticated "Authenticate first", s)
  | some ticket =>
    if !publicKey.isPoint then (.error .invalidMessage "Invalid public key", s)
    else
      let (result, service) := s.service.keyAttendee ⟨ticket, publicKey, secret⟩
      let reply := match result with
        | .ok address => .keyed address
        | .error e => .error e.code e.message
      (reply, { s with service })

/-- Answer a query. -/
def answerQuery (q : Query) (s : Server σ) : ServerMessage × Server σ :=
  let (result, service) := s.service.query q
  let reply := match result with
    | .ok result => .queryResult result
    | .error e => .error e.code e.message
  (reply, { s with service })

/-- Answer a message. -/
def answer (peer : Peer) (m : ClientMessage) (now : Nat) (secret : String) (s : Server σ) :
    ServerMessage × Server σ :=
  match m with
  | .auth token _ => s.authenticate peer token now
  | .key publicKey => s.keyAccount peer publicKey secret
  | .query q => s.answerQuery q
  | .ping timestamp => (.pong timestamp (UInt64.ofNat now), s)

/-- Answer a text, which counts as activity if it is a message. -/
def answerText (peer : Peer) (content : String) (now : Nat) (secret : String) (s : Server σ) :
    ServerMessage × Server σ :=
  match ClientMessage.ofText? content with
  | none => (.error .invalidMessage "Invalid message format", s)
  | some m =>
    (s.update peer.address fun c => { c with lastActivity := now }).answer peer m now secret

/-- Whether a client has been silent for too long. -/
def isIdle (s : Server σ) (now : Nat) (c : Client) : Bool :=
  s.config.idleTimeout < now - c.lastActivity

/-- What an event makes of the server, and what peers get. An event that cannot happen
changes nothing. -/
def step (s : Server σ) : ServerEvent → List ServerOutput × Server σ
  | .connect peer =>
    if s.knows peer then ([], s)
    else if s.listening && s.count < s.config.maxConnections then
      ([], { s with greeting := s.greeting ++ [peer] })
    else ([.refused peer], s)
  | .greeted peer now =>
    if s.greeting.contains peer then
      ([], { s.register peer now with
        greeting := s.greeting.filter (· ≠ peer), served := s.served ++ [peer] })
    else ([], s)
  | .greetingFailed peer => ([], { s with greeting := s.greeting.filter (· ≠ peer) })
  | .text peer content now secret =>
    if s.served.contains peer then
      let (reply, s) := s.answerText peer content now secret
      ([.message peer reply], s)
    else ([], s)
  | .leave peer => if s.served.contains peer then ([.closed peer], s.hangUp peer) else ([], s)
  | .gone peer =>
    if s.leaving.contains peer then
      ([], { s.unregister peer.address with leaving := s.leaving.filter (· ≠ peer) })
    else ([], s)
  | .sweep now =>
    if s.listening then
      ([], { s with clients := s.clients.filter fun c => !s.isIdle now c.2 })
    else ([], s)
  | .dismiss peer =>
    if s.served.contains peer && !s.holds peer then
      ([.message peer (.shutdown "Idle timeout"), .closed peer], s.hangUp peer)
    else ([], s)
  | .stop => ([], { s with stopping := true, warned := s.warned ++ s.greeting ++ s.served })
  | .halt => ([], { s with listening := s.listening && !s.stopping })
  | .heed peer =>
    if s.served.contains peer && s.warned.contains peer then
      ([.message peer (.shutdown "Server shutting down"), .closed peer], s.hangUp peer)
    else ([], s)

/-- What events make of the server, and what peers get, one after another. -/
def run (s : Server σ) : List ServerEvent → List ServerOutput × Server σ
  | [] => ([], s)
  | e :: rest =>
    let (out, s) := s.step e
    let (more, s) := s.run rest
    (out ++ more, s)

end Server

end ConferenceLedger

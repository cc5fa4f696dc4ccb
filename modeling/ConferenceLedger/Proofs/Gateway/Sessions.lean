import ConferenceLedger.Proofs.Gateway.Desk
import ConferenceLedger.Proofs.Gateway.Register

/-!
# What a text can do to the ledger

Texts of many peers are answered, some at once and some step by step while others come in. Only a
request for a key reaches the ledger, and only if a client is registered at its address and bound to
a ticket. It can change the record and the account of the ticket's address and the account of the
relay, and nothing else. The ticket is that of the last token from the address. If two peers share
the address, which happens when one is greeted before the other has been taken off, the token may be
that of the other one.
-/

namespace ConferenceLedger

/-- A chain that differs from another, if at all, in the record and the account of the address of a
ticket and in the account of the relay. -/
def Chain.ConfinedTo (c c' : Chain) (ticket : String) (relay : Address) : Prop :=
  ∀ k, k ≠ StoreKey.attendee (.ofTicket ticket) → k ≠ StoreKey.account (.ofTicket ticket) →
    k ≠ StoreKey.account relay → c'.store.get? k = c.store.get? k

namespace KeyService

/-- What steps of a request have led to. -/
structure Serves (members : List Address) (q : KeyRequest) (s : KeyService LocalLedger)
    (r : Progress × KeyService LocalLedger) : Prop where
  /-- The ledger can be held. -/
  sound : r.2.ledger.chain.store.Sound members
  /-- The relay has the same address. -/
  address : r.2.relay.address = s.relay.address
  /-- What the request has found, granted or answered with has the address of its ticket. -/
  placed : ∀ b ∈ r.1.address?, b = .ofTicket q.ticket
  /-- Nothing changed on the ledger but what the ticket allows. -/
  confined : s.ledger.chain.ConfinedTo r.2.ledger.chain q.ticket s.relay.address

variable {members : List Address} {q : KeyRequest} {p : Progress} {s : KeyService LocalLedger}

/-- Every step of a request serves it. -/
theorem serves_advance (hs : s.ledger.chain.store.Sound members)
    (hp : ∀ b ∈ p.address?, b = .ofTicket q.ticket) : Serves members q s (s.advance q p) := by
  have hadvanced := advanced hs q p
  exact ⟨hadvanced.sound hs, hadvanced.address, hadvanced.address? hs hp,
    fun k hattendee haccount hrelay => hadvanced.get? hs hp hattendee haccount hrelay⟩

/-- Several steps of a request serve it. -/
theorem serves_advanceTimes (hs : s.ledger.chain.store.Sound members)
    (hp : ∀ b ∈ p.address?, b = .ofTicket q.ticket) (steps : Nat) :
    Serves members q s (advanceTimes q steps p s) := by
  induction steps generalizing p s with
  | zero => exact ⟨hs, rfl, hp, fun _ _ _ _ => rfl⟩
  | succ steps ih =>
    have hfirst := serves_advance (p := p) hs hp
    have hrest := ih hfirst.sound hfirst.placed
    refine ⟨hrest.sound, hrest.address.trans hfirst.address, hrest.placed, ?_⟩
    intro k hattendee haccount hrelay
    rw [← hfirst.address] at hrelay
    exact (hrest.confined k hattendee haccount hrelay).trans
      (hfirst.confined k hattendee haccount (hfirst.address ▸ hrelay))

/-- A request that is answered at once is served. -/
theorem serves_keyAttendee (hs : s.ledger.chain.store.Sound members) (q : KeyRequest) :
    Serves members q s (.ended (s.keyAttendee q).1, (s.keyAttendee q).2) := by
  have hserves := serves_advanceTimes (q := q) (p := .asked) hs nofun 3
  rw [keyAttendee]
  generalize advanceTimes q 3 .asked s = r at hserves
  obtain ⟨progress, t⟩ := r
  cases progress with
  | ended result => exact hserves
  | asked | resolved | granted => exact ⟨hserves.sound, hserves.address, nofun, hserves.confined⟩

end KeyService

namespace Server

section Register

variable {σ : Type}

/-- A text of a peer asks for a key, and a client is registered at the address of the peer and bound
to the ticket. -/
def Asks (s : Server σ) (peer : Peer) (content ticket : String) : Prop :=
  ∃ publicKey c, ClientMessage.ofText? content = some (.key publicKey) ∧
    s.client? peer.address = some c ∧ c.ticket = some ticket

/-- The key request that a text of a peer makes, if it does. -/
def request? (s : Server σ) (peer : Peer) (content secret : String) : Option KeyRequest :=
  match ClientMessage.ofText? content with
  | some (.key publicKey) =>
    if publicKey.isPoint then
      ((s.client? peer.address).bind (·.ticket)).map fun ticket => ⟨ticket, publicKey, secret⟩
    else none
  | _ => none

/-- The server that has just heard a message of a peer. -/
def touched (s : Server σ) (peer : Peer) (now : Nat) : Server σ :=
  s.update peer.address fun c => { c with lastActivity := now }

/-- Who makes a key request asks for a key. -/
theorem asks_of_request? {s : Server σ} {peer : Peer} {content secret : String} {q : KeyRequest}
    (h : s.request? peer content secret = some q) : s.Asks peer content q.ticket := by
  unfold request? at h
  split at h
  · next publicKey hkey =>
    split_ifs at h
    obtain ⟨ticket, hticket, rfl⟩ := Option.map_eq_some_iff.mp h
    obtain ⟨c, hc, hbound⟩ := Option.bind_eq_some_iff.mp hticket
    exact ⟨publicKey, c, hkey, hc, hbound⟩
  · cases h

/-- A text that asks for a key shows no token. -/
theorem Asks.accepts {s t : Server σ} {peer : Peer} {content ticket : String}
    (h : s.Asks peer content ticket) (now : Nat) (secret : String) :
    t.accepts (.text peer content now secret) = none := by
  obtain ⟨publicKey, c, hkey, -⟩ := h
  rw [Server.accepts, namedTicket, hkey]
  exact ite_self none

/-- Hearing a message leaves the ticket that a client is bound to. -/
theorem ticket_touched (s : Server σ) (peer : Peer) (now : Nat) :
    ((s.touched peer now).client? peer.address).bind (·.ticket) =
      (s.client? peer.address).bind (·.ticket) := by
  have hsame : ((fun c : SocketAddress × Client => decide (c.1 = peer.address)) ∘
      fun c : SocketAddress × Client =>
        if c.1 = peer.address then (c.1, { c.2 with lastActivity := now }) else c) =
      fun c => decide (c.1 = peer.address) := by
    funext c
    dsimp only [Function.comp_apply]
    split_ifs <;> rfl
  unfold touched update client?
  rw [List.find?_map, hsame]
  cases s.clients.find? fun c => decide (c.1 = peer.address) with
  | none => rfl
  | some c =>
    simp only [Option.map_some, Option.bind_some]
    split_ifs <;> rfl

end Register

variable {members : List Address} {s : Server LocalLedger} {peer : Peer} {content secret : String}

/-- A text that makes a key request is answered with what becomes of the request. -/
theorem answerText_of_request {q : KeyRequest} (h : s.request? peer content secret = some q)
    (now : Nat) :
    (s.answerText peer content now secret).2 =
      { s.touched peer now with service := (s.service.keyAttendee q).2 } ∧
    ∀ a, (s.answerText peer content now secret).1 = .keyed a →
      (s.service.keyAttendee q).1 = .ok a := by
  unfold request? at h
  split at h
  · next publicKey hkey =>
    split_ifs at h with hpoint
    obtain ⟨ticket, hticket, rfl⟩ := Option.map_eq_some_iff.mp h
    rw [answerText, hkey]
    change ((s.touched peer now).keyAccount peer publicKey secret).2 = _ ∧
      ∀ a, ((s.touched peer now).keyAccount peer publicKey secret).1 = .keyed a → _
    have hservice : (s.touched peer now).service = s.service := rfl
    rw [keyAccount, ticket_touched, hticket]
    dsimp only
    rw [if_neg (by rw [hpoint]; exact Bool.false_ne_true), hservice]
    refine ⟨rfl, ?_⟩
    intro a ha
    cases hresult : (s.service.keyAttendee ⟨ticket, publicKey, secret⟩).1 with
    | ok b =>
      rw [hresult] at ha
      cases ha
      rfl
    | error e =>
      rw [hresult] at ha
      cases ha
  · cases h

/-- A text that makes no key request leaves the service and is not answered with a key. -/
theorem answerText_of_no_request (h : s.request? peer content secret = none) (now : Nat) :
    (s.answerText peer content now secret).2.service = s.service ∧
      ∀ a, (s.answerText peer content now secret).1 ≠ .keyed a := by
  unfold request? at h
  rw [answerText]
  cases hm : ClientMessage.ofText? content with
  | none => exact ⟨rfl, fun a ha => by cases ha⟩
  | some m =>
    rw [hm] at h
    cases m with
    | auth token clientVersion =>
      change ((s.touched peer now).authenticate peer token now).2.service = s.service ∧
        ∀ a, ((s.touched peer now).authenticate peer token now).1 ≠ .keyed a
      rw [authenticate]
      split <;> exact ⟨rfl, fun a ha => by cases ha⟩
    | key publicKey =>
      change ((s.touched peer now).keyAccount peer publicKey secret).2.service = s.service ∧
        ∀ a, ((s.touched peer now).keyAccount peer publicKey secret).1 ≠ .keyed a
      rw [keyAccount, ticket_touched]
      cases hticket : (s.client? peer.address).bind (·.ticket) with
      | none => exact ⟨rfl, fun a ha => by cases ha⟩
      | some ticket =>
        dsimp only at h ⊢
        rw [hticket] at h
        split_ifs at h with hpoint
        · cases h
        · rw [if_pos (by simpa using hpoint)]
          exact ⟨rfl, fun a ha => by cases ha⟩
    | query q =>
      change ((s.touched peer now).answerQuery q).2.service = s.service ∧
        ∀ a, ((s.touched peer now).answerQuery q).1 ≠ .keyed a
      refine ⟨rfl, ?_⟩
      rw [answerQuery]
      dsimp only
      split <;> exact fun a ha => by cases ha
    | ping timestamp => exact ⟨rfl, fun a ha => by cases ha⟩

/-- An event that is answered at once leaves the service, unless it is a text that makes a key
request. -/
theorem step_service (s : Server LocalLedger) (e : ServerEvent) :
    ((s.step e).2.service = s.service ∧ ∀ p a, .message p (.keyed a) ∉ (s.step e).1) ∨
      ∃ peer content now secret q, e = .text peer content now secret ∧
        s.request? peer content secret = some q ∧
        (s.step e).2.service = (s.service.keyAttendee q).2 ∧
        ∀ p a, .message p (.keyed a) ∈ (s.step e).1 →
          p = peer ∧ (s.service.keyAttendee q).1 = .ok a := by
  cases e with
  | text peer content now secret =>
    rw [step_text]
    split_ifs with hserved
    · cases hrequest : s.request? peer content secret with
      | none =>
        obtain ⟨hservice, hreply⟩ := answerText_of_no_request hrequest now
        refine Or.inl ⟨hservice, ?_⟩
        intro p a hmem
        obtain ⟨-, hkeyed⟩ := ServerOutput.message.inj (List.mem_singleton.mp hmem)
        exact hreply a hkeyed.symm
      | some q =>
        obtain ⟨hserver, hreply⟩ := answerText_of_request hrequest now
        right
        refine ⟨peer, content, now, secret, q, rfl, hrequest, congrArg (·.service) hserver, ?_⟩
        intro p a hmem
        obtain ⟨hpeer, hkeyed⟩ := ServerOutput.message.inj (List.mem_singleton.mp hmem)
        exact ⟨hpeer, hreply a hkeyed.symm⟩
    · exact Or.inl ⟨rfl, nofun⟩
  | connect | greeted | greetingFailed | leave | gone | sweep | dismiss | stop | halt | heed =>
    left
    rw [step]
    try split_ifs
    all_goals exact ⟨rfl, by simp⟩

/-- What an event that is answered at once does to the ledger and answers. -/
inductive OnLedger (s : Server LocalLedger) :
    ServerEvent → List ServerOutput × Server LocalLedger → Prop where
  /-- The ledger stays, and nobody is told that an account was keyed. -/
  | left {e : ServerEvent} {r : List ServerOutput × Server LocalLedger}
    (hledger : r.2.service.ledger.chain = s.service.ledger.chain)
    (hreply : ∀ p a, .message p (.keyed a) ∉ r.1) : OnLedger s e r
  /-- A text asks for a key. What changes on the ledger is confined to the ticket that the client at
  its address is bound to, and only the address of the ticket is told to be keyed. -/
  | asked {peer : Peer} {content : String} {now : Nat} {secret ticket : String}
    {r : List ServerOutput × Server LocalLedger} (hasks : s.Asks peer content ticket)
    (hconfined : s.service.ledger.chain.ConfinedTo r.2.service.ledger.chain ticket
      s.service.relay.address)
    (hreply : ∀ p a, .message p (.keyed a) ∈ r.1 → p = peer ∧ a = .ofTicket ticket) :
    OnLedger s (.text peer content now secret) r

/-- Every event that is answered at once is of one of these kinds. -/
theorem onLedger (hs : s.service.ledger.chain.store.Sound members) (e : ServerEvent) :
    s.OnLedger e (s.step e) := by
  rcases s.step_service e with ⟨hservice, hreply⟩ |
    ⟨peer, content, now, secret, q, rfl, hrequest, hservice, hreply⟩
  · exact .left (congrArg (·.ledger.chain) hservice) hreply
  · have hserves := KeyService.serves_keyAttendee hs q
    refine .asked (asks_of_request? hrequest) ?_ ?_
    · rw [hservice]
      exact hserves.confined
    · intro p a hmem
      obtain ⟨hpeer, hanswer⟩ := hreply p a hmem
      exact ⟨hpeer, hserves.placed a (by rw [hanswer]; rfl)⟩

/-- An event that is answered at once keeps what the ledger can hold, and the address of the relay. -/
theorem step_sound (hs : s.service.ledger.chain.store.Sound members) (e : ServerEvent) :
    (s.step e).2.service.ledger.chain.store.Sound members ∧
      (s.step e).2.service.relay.address = s.service.relay.address := by
  rcases s.step_service e with ⟨hservice, -⟩ | ⟨peer, content, now, secret, q, -, -, hservice, -⟩
  · rw [hservice]
    exact ⟨hs, rfl⟩
  · have hserves := KeyService.serves_keyAttendee hs q
    rw [hservice]
    exact ⟨hserves.sound, hserves.address⟩

/-- The server at a time of the ledger, with links that go out or do not. -/
def under (s : Server LocalLedger) (time : Int64) (failure : Option String) : Server LocalLedger :=
  { s with service := s.service.under time failure }

end Server

/-- A key request that a peer made by a text, and how far it has come. -/
structure Handler where
  /-- The peer. -/
  peer : Peer
  /-- The request. -/
  errand : Errand

/-- A server over a ledger at hand, and the key requests that are not answered at once. -/
structure Hall where
  /-- The server. -/
  server : Server LocalLedger
  /-- The requests, first ones first. -/
  handlers : List Handler

/-- What can happen in a hall. -/
inductive HallEvent where
  /-- Something happens to the server and is answered at once, at a time of the ledger and with links
  that go out or do not. -/
  | whole (e : ServerEvent) (time : Int64) (failure : Option String)
  /-- A peer sends a text. A key request that it makes is not answered yet. -/
  | begun (peer : Peer) (content : String) (now : Nat) (secret : String)
  /-- One of the requests takes its next step. -/
  | moved (m : Move)

namespace Hall

/-- A hall that nobody has entered. -/
def new (config : ServerConfig) (auth : AuthConfig) (service : KeyService LocalLedger) : Hall :=
  ⟨.new config auth service, []⟩

/-- The key request that a text of a peer makes, if the frames of the peer are read. -/
def request? (h : Hall) (peer : Peer) (content secret : String) : Option KeyRequest :=
  if h.server.served.contains peer then h.server.request? peer content secret else none

/-- A key request that a text of a peer makes is one of a client that asks for it. -/
theorem asks_of_request? {h : Hall} {peer : Peer} {content secret : String} {q : KeyRequest}
    (hq : h.request? peer content secret = some q) : h.server.Asks peer content q.ticket := by
  unfold request? at hq
  split_ifs at hq
  exact Server.asks_of_request? hq

/-- The hall after an event. -/
def step (h : Hall) : HallEvent → Hall
  | .whole e time failure => { h with server := ((h.server.under time failure).step e).2 }
  | .begun peer content now secret =>
    match h.request? peer content secret with
    | some q => ⟨h.server.touched peer now, h.handlers ++ [⟨peer, ⟨q, .asked⟩⟩]⟩
    | none => { h with server := (h.server.step (.text peer content now secret)).2 }
  | .moved m =>
    match h.handlers[m.errand]? with
    | none => h
    | some x =>
      let (progress, service) :=
        (h.server.service.under m.time m.failure).advance x.errand.request x.errand.progress
      ⟨{ h.server with service },
        h.handlers.set m.errand ⟨x.peer, ⟨x.errand.request, progress⟩⟩⟩

/-- The hall after events. -/
def run (h : Hall) (events : List HallEvent) : Hall := events.foldl step h

/-- The ledger of the hall. -/
def ledger (h : Hall) : Chain := h.server.service.ledger.chain

/-- Whether an event registers a peer. -/
def Registers (h : Hall) (p : Peer) (e : HallEvent) : Prop :=
  ∃ f time failure, e = .whole f time failure ∧ h.server.Registers p f

/-- The peer and the ticket of a token that an event shows, if it is a text which is read and the
token is accepted. -/
def accepts (h : Hall) : HallEvent → Option (Peer × String)
  | .whole e _ _ => h.server.accepts e
  | .begun peer content now secret => h.server.accepts (.text peer content now secret)
  | .moved _ => none

/-- The tokens that are accepted in the course of events, first ones first: which peer showed each
of them and which ticket it named. -/
def tokens (h : Hall) : List HallEvent → List (Peer × String)
  | [] => []
  | e :: rest => (h.accepts e).toList ++ (h.step e).tokens rest

/-- What holds in a hall after every event. -/
structure Orderly (members : List Address) (auth : AuthConfig) (relay : Address) (h : Hall) :
    Prop where
  /-- The register is in order. -/
  registered : h.server.Registered
  /-- The same tokens are accepted. -/
  auth : h.server.auth = auth
  /-- The relay has the same address. -/
  relay : h.server.service.relay.address = relay
  /-- The ledger can be held. -/
  sound : h.ledger.store.Sound members
  /-- What a request has found, granted or answered with has the address of its ticket. -/
  placed : ∀ x ∈ h.handlers, ∀ b ∈ x.errand.progress.address?, b = .ofTicket x.errand.request.ticket

variable {members : List Address} {auth : AuthConfig} {relay : Address} {h : Hall}

/-- A text that makes a key request is not answered yet. -/
theorem step_begun_of_request {peer : Peer} {content secret : String} {now : Nat} {q : KeyRequest}
    (hq : h.request? peer content secret = some q) : h.step (.begun peer content now secret) =
      ⟨h.server.touched peer now, h.handlers ++ [⟨peer, ⟨q, .asked⟩⟩]⟩ := by
  rw [step, hq]

/-- A text that makes no key request is answered at once. -/
theorem step_begun_of_no_request {peer : Peer} {content secret : String} {now : Nat}
    (hq : h.request? peer content secret = none) : h.step (.begun peer content now secret) =
      { h with server := (h.server.step (.text peer content now secret)).2 } := by
  rw [step, hq]

/-- A step of no request changes nothing. -/
theorem step_moved_of_none {m : Move} (hm : h.handlers[m.errand]? = none) :
    h.step (.moved m) = h := by
  rw [step, hm]

/-- The hall after a step of a request. -/
theorem step_moved_of_some {m : Move} {x : Handler} (hm : h.handlers[m.errand]? = some x) :
    h.step (.moved m) =
      ⟨{ h.server with service := ((h.server.service.under m.time m.failure).advance
          x.errand.request x.errand.progress).2 },
        h.handlers.set m.errand ⟨x.peer, ⟨x.errand.request, ((h.server.service.under m.time
          m.failure).advance x.errand.request x.errand.progress).1⟩⟩⟩ := by
  rw [step, hm]

/-- Every event keeps a hall in order. -/
theorem Orderly.step (ho : h.Orderly members auth relay) (e : HallEvent) :
    (h.step e).Orderly members auth relay := by
  cases e with
  | whole e time failure =>
    have hregistered : (h.server.under time failure).Registered :=
      ⟨ho.registered.nodup, ho.registered.alive, ho.registered.address⟩
    obtain ⟨hsound, haddress⟩ := Server.step_sound (s := h.server.under time failure) ho.sound e
    exact ⟨hregistered.step e, (Server.settings_step _ e).2.trans ho.auth,
      haddress.trans ho.relay, hsound, ho.placed⟩
  | begun peer content now secret =>
    cases hq : h.request? peer content secret with
    | none =>
      obtain ⟨hsound, haddress⟩ := Server.step_sound ho.sound (.text peer content now secret)
      rw [step_begun_of_no_request hq]
      exact ⟨ho.registered.step _, (Server.settings_step _ _).2.trans ho.auth,
        haddress.trans ho.relay, hsound, ho.placed⟩
    | some q =>
      have htouched : (h.server.touched peer now).Registered :=
        ho.registered.update peer.address fun _ => rfl
      rw [step_begun_of_request hq]
      refine ⟨htouched, ho.auth, ho.relay, ho.sound, ?_⟩
      intro x hx
      rcases List.mem_append.mp hx with hx | hx
      · exact ho.placed x hx
      · cases List.mem_singleton.mp hx
        exact nofun
  | moved m =>
    cases hm : h.handlers[m.errand]? with
    | none =>
      rw [step_moved_of_none hm]
      exact ho
    | some x =>
      have hserves := KeyService.serves_advance (q := x.errand.request)
        (s := h.server.service.under m.time m.failure) ho.sound
        (ho.placed x (List.mem_of_getElem? hm))
      rw [step_moved_of_some hm]
      refine ⟨⟨ho.registered.nodup, ho.registered.alive, ho.registered.address⟩, ho.auth,
        hserves.address.trans ho.relay, hserves.sound, ?_⟩
      intro y hy
      rcases List.mem_or_eq_of_mem_set hy with hy | rfl
      · exact ho.placed y hy
      · exact hserves.placed

/-- A client that is registered after an event was registered by it, or was registered before by the
same peer, and is bound to the ticket that the event names for its address, or else to the same as
before. -/
theorem mem_clients_step {e : HallEvent} {a : SocketAddress} {c : Client}
    (hmem : (a, c) ∈ (h.step e).server.clients) :
    (h.Registers c.peer e ∧ c.peer.address = a ∧ c.ticket = none) ∨
      ((∀ p, p.address = a → ¬h.Registers p e) ∧ ∃ d, (a, d) ∈ h.server.clients ∧ d.peer = c.peer ∧
        c.ticket = (lastTicket (·.address = a) (h.accepts e).toList).or d.ticket) := by
  cases e with
  | whole e time failure =>
    have haccepts : (h.server.under time failure).accepts e = h.server.accepts e := by
      cases e <;> rfl
    rcases Server.mem_clients_step hmem with ⟨hregisters, haddress, hticket⟩ |
      ⟨hregisters, d, hd, hpeer, hticket⟩
    · exact Or.inl ⟨⟨e, time, failure, rfl, hregisters⟩, haddress, hticket⟩
    · refine Or.inr ⟨?_, d, hd, hpeer, ?_⟩
      · rintro p hp ⟨f, time', failure', heq, hf⟩
        cases heq
        exact hregisters p hp hf
      · rw [haccepts] at hticket
        exact hticket
  | begun peer content now secret =>
    right
    have hnone : ∀ p, p.address = a → ¬h.Registers p (.begun peer content now secret) := by
      rintro p - ⟨_, _, _, heq, -⟩
      cases heq
    refine ⟨hnone, ?_⟩
    cases hq : h.request? peer content secret with
    | none =>
      rw [step_begun_of_no_request hq] at hmem
      rcases Server.mem_clients_step hmem with ⟨⟨now', heq, -⟩, -⟩ | ⟨-, hbefore⟩
      · cases heq
      · exact hbefore
    | some q =>
      rw [step_begun_of_request hq] at hmem
      obtain ⟨d, hd, rfl⟩ := Server.mem_clients_update.mp hmem
      have haccepts : h.accepts (.begun peer content now secret) = none :=
        (asks_of_request? hq).accepts now secret
      refine ⟨d, hd, by split_ifs <;> rfl, ?_⟩
      rw [haccepts]
      split_ifs <;> rfl
  | moved m =>
    right
    have hnone : ∀ p, p.address = a → ¬h.Registers p (.moved m) := by
      rintro p - ⟨_, _, _, heq, -⟩
      cases heq
    refine ⟨hnone, c, ?_, rfl, rfl⟩
    cases hm : h.handlers[m.errand]? with
    | none =>
      rw [step_moved_of_none hm] at hmem
      exact hmem
    | some x =>
      rw [step_moved_of_some hm] at hmem
      exact hmem

/-- A hall that nobody has entered is in order. -/
theorem Orderly.new {service : KeyService LocalLedger}
    (hs : service.ledger.chain.store.Sound members) (config : ServerConfig) (auth : AuthConfig) :
    (Hall.new config auth service).Orderly members auth service.relay.address :=
  ⟨⟨List.nodup_nil, nofun, nofun⟩, rfl, rfl, hs, nofun⟩

/-- The hall after events and one more. -/
theorem run_concat (h : Hall) (events : List HallEvent) (e : HallEvent) :
    h.run (events ++ [e]) = (h.run events).step e :=
  List.foldl_append

/-- The hall after events, one more and others. -/
theorem run_append_cons (h : Hall) (before : List HallEvent) (e : HallEvent)
    (later : List HallEvent) :
    h.run (before ++ e :: later) = (h.run (before ++ [e])).run later := by
  rw [List.append_cons]
  exact List.foldl_append

/-- A hall stays in order. -/
theorem Orderly.run (ho : h.Orderly members auth relay) (events : List HallEvent) :
    (h.run events).Orderly members auth relay := by
  induction events using List.reverseRecOn with
  | nil => exact ho
  | append_singleton events e ih =>
    rw [run_concat]
    exact ih.step e

/-- The tokens that are accepted in two parts of the events are those of the one and of the
other. -/
theorem tokens_append (h : Hall) (events later : List HallEvent) :
    h.tokens (events ++ later) = h.tokens events ++ (h.run events).tokens later := by
  induction events generalizing h with
  | nil => rfl
  | cons e rest ih =>
    rw [List.cons_append, tokens, ih, ← List.append_assoc]
    rfl

/-- A token that is accepted in the course of events is shown by one of them. -/
theorem exists_accepts {events : List HallEvent} {x : Peer × String} (hx : x ∈ h.tokens events) :
    ∃ before e later, events = before ++ e :: later ∧ (h.run before).accepts e = some x := by
  induction events generalizing h with
  | nil => cases hx
  | cons e rest ih =>
    rcases List.mem_append.mp hx with hx | hx
    · exact ⟨[], e, rest, rfl, Option.mem_toList.mp hx⟩
    · obtain ⟨before, f, later, rfl, hf⟩ := ih hx
      exact ⟨e :: before, f, later, rfl, hf⟩

/-- The token that an event shows was shown by a peer whose frames are read. -/
theorem served_of_accepts {e : HallEvent} {x : Peer × String} (hx : h.accepts e = some x) :
    x.1 ∈ h.server.served := by
  cases e with
  | whole e time failure => exact Server.served_of_accepts hx
  | begun peer content now secret =>
    exact Server.served_of_accepts (e := .text peer content now secret) hx
  | moved m => cases hx

/-- An event registered a peer, and the client that the peer registered has been in the register
since. -/
structure Since (h : Hall) (p : Peer) (before : List HallEvent) (e : HallEvent)
    (later : List HallEvent) : Prop where
  /-- The event registered the peer. -/
  registers : (h.run before).Registers p e
  /-- After it the client at the address of the peer was all the time the one that the peer
  registered. -/
  stays : ∀ mid rest, later = mid ++ rest →
    (h.run (before ++ e :: mid)).server.holds p = true
  /-- No later event registered a peer of the address. -/
  once : ∀ mid f rest, later = mid ++ f :: rest → ∀ q, q.address = p.address →
    ¬(h.run (before ++ e :: mid)).Registers q f

/-- A peer that has just been registered. -/
theorem since_of_registers {events : List HallEvent} {e : HallEvent} {p : Peer}
    (hregisters : (h.run events).Registers p e)
    (hholds : (h.run (events ++ [e])).server.holds p = true) : h.Since p events e [] := by
  refine ⟨hregisters, ?_, ?_⟩
  · intro mid rest heq
    obtain ⟨rfl, -⟩ := List.append_eq_nil_iff.mp heq.symm
    exact hholds
  · intro mid f rest heq
    cases (List.append_eq_nil_iff.mp heq.symm).2

/-- A peer whose client stays in the register. -/
theorem Since.concat {p : Peer} {before later : List HallEvent} {e f : HallEvent}
    (hsince : h.Since p before e later)
    (hnot : ∀ q, q.address = p.address → ¬(h.run (before ++ e :: later)).Registers q f)
    (hholds : (h.run (before ++ e :: later ++ [f])).server.holds p = true) :
    h.Since p before e (later ++ [f]) := by
  refine ⟨hsince.registers, ?_, ?_⟩
  · intro mid rest heq
    rcases List.eq_nil_or_concat' rest with rfl | ⟨rest, g, rfl⟩
    · rw [List.append_nil] at heq
      rw [← heq, ← List.cons_append, ← List.append_assoc]
      exact hholds
    · rw [← List.append_assoc] at heq
      exact hsince.stays mid rest (List.append_singleton_inj.mp heq).1
  · intro mid g rest heq
    rcases List.eq_nil_or_concat' rest with rfl | ⟨rest, g', rfl⟩
    · obtain ⟨rfl, rfl⟩ := List.append_singleton_inj.mp heq
      exact hnot
    · rw [← List.cons_append, ← List.append_assoc] at heq
      exact hsince.once mid g rest (List.append_singleton_inj.mp heq).1

/-- A client at an address, registered by an event, and what it is bound to after more events. -/
structure Bound (h : Hall) (a : SocketAddress) (c : Client) (before : List HallEvent)
    (e : HallEvent) (later : List HallEvent) : Prop where
  /-- The event registered the peer of the client, and the client has been in the register since. -/
  since : h.Since c.peer before e later
  /-- The peer comes from the address. -/
  address : c.peer.address = a
  /-- The client is bound to the last ticket that a token from the address named which was accepted
  since. -/
  ticket : c.ticket = lastTicket (·.address = a) ((h.run (before ++ [e])).tokens later)

/-- A client is bound to the last ticket that a token from its address named which was accepted
since it was registered. -/
theorem bound_run (ho : h.Orderly members auth relay) (hempty : h.server.clients = [])
    (events : List HallEvent) {a : SocketAddress} {c : Client}
    (hmem : (a, c) ∈ (h.run events).server.clients) :
    ∃ before e later, events = before ++ e :: later ∧ h.Bound a c before e later := by
  induction events using List.reverseRecOn generalizing c with
  | nil =>
    rw [run, List.foldl_nil, hempty] at hmem
    cases hmem
  | append_singleton events f ih =>
    have hregistered := (ho.run (events ++ [f])).registered
    have hholds : (h.run (events ++ [f])).server.holds c.peer = true := by
      rw [Server.holds, hregistered.address _ hmem, hregistered.client?_eq_some.mpr hmem]
      exact decide_eq_true rfl
    rw [run_concat] at hmem
    rcases mem_clients_step hmem with ⟨hregisters, haddress, hticket⟩ |
      ⟨hregisters, d, hd, hpeer, hticket⟩
    · exact ⟨events, f, [], rfl, since_of_registers hregisters hholds, haddress, hticket⟩
    · obtain ⟨before, e, later, rfl, hbound⟩ := ih hd
      have haddress : c.peer.address = a := hpeer ▸ hbound.address
      have hsince : h.Since c.peer before e later := hpeer ▸ hbound.since
      refine ⟨before, e, later ++ [f], by simp, ?_, haddress, ?_⟩
      · exact hsince.concat (fun q hq => hregisters q (hq.trans haddress)) hholds
      · rw [run_append_cons] at hticket
        rw [tokens_append, lastTicket_append, hticket, hbound.ticket]
        congr 2
        exact (List.append_nil _).symm

/-- Whether at no time in the course of events two peers share an address that can still change the
register. -/
def StaysApart (h : Hall) (events : List HallEvent) : Prop :=
  ∀ before later, events = before ++ later → (h.run before).server.Apart

/-- Peers that are apart all the while are apart from an event on. -/
theorem StaysApart.after {before later : List HallEvent} {e : HallEvent}
    (h' : h.StaysApart (before ++ e :: later)) : (h.run (before ++ [e])).StaysApart later := by
  rintro mid rest rfl
  rw [← run_append_cons]
  exact h' _ rest (by simp)

/-- Among peers that are apart the tokens from the address of a client were all shown by the peer
that registered it. -/
theorem Bound.peer_eq (ho : h.Orderly members auth relay) {a : SocketAddress} {c : Client}
    {before later : List HallEvent} {e : HallEvent} (hbound : h.Bound a c before e later)
    (hapart : (h.run (before ++ [e])).StaysApart later) {x : Peer × String}
    (hx : x ∈ (h.run (before ++ [e])).tokens later) (haddress : x.1.address = a) :
    x.1 = c.peer := by
  obtain ⟨mid, f, rest, rfl, hf⟩ := exists_accepts hx
  have hserved := served_of_accepts hf
  have hthere := hapart mid _ rfl
  rw [← run_append_cons] at hserved hthere
  have halive := (ho.run _).registered.alive_of_holds (hbound.since.stays mid _ rfl)
  exact hthere x.1 (List.mem_append_left _ hserved) c.peer halive
    (haddress.trans hbound.address.symm)

/-- Among peers that are apart a client is bound to the last ticket that a token named which was
accepted, since it was registered, of the peer that registered it. -/
theorem Bound.own (ho : h.Orderly members auth relay) {a : SocketAddress} {c : Client}
    {before later : List HallEvent} {e : HallEvent} (hbound : h.Bound a c before e later)
    (hapart : (h.run (before ++ [e])).StaysApart later) :
    c.ticket = lastTicket (· = c.peer) ((h.run (before ++ [e])).tokens later) := by
  rw [hbound.ticket]
  apply lastTicket_congr
  intro x hx
  refine decide_eq_decide.mpr ⟨hbound.peer_eq ho hapart hx, ?_⟩
  intro hpeer
  rw [hpeer]
  exact hbound.address

/-- Who asks for a key has the ticket from a token that was accepted from its address. Among peers
that are apart it showed the token itself. -/
theorem vouched_run (ho : h.Orderly members auth relay) (hempty : h.server.clients = [])
    {events : List HallEvent} {peer : Peer} {content ticket : String}
    (hasks : (h.run events).server.Asks peer content ticket) :
    ∃ p, (p, ticket) ∈ h.tokens events ∧ p.address = peer.address ∧
      (h.StaysApart events → peer ∈ (h.run events).server.served → p = peer) := by
  obtain ⟨publicKey, c, -, hc, hticket⟩ := hasks
  have hregistered := (ho.run events).registered
  have hmem := hregistered.client?_eq_some.mp hc
  obtain ⟨before, e, later, rfl, hbound⟩ := bound_run ho hempty events hmem
  rw [hbound.ticket] at hticket
  obtain ⟨p, hp, haddress⟩ := exists_of_lastTicket hticket
  rw [decide_eq_true_eq] at haddress
  refine ⟨p, ?_, haddress, ?_⟩
  · rw [List.append_cons, tokens_append]
    exact List.mem_append_right _ hp
  · intro hapart hserved
    have hpeer : p = c.peer := hbound.peer_eq ho hapart.after hp haddress
    rw [hpeer]
    exact hregistered.peer_eq (hapart _ [] (List.append_nil _).symm)
      (List.mem_append_left _ hserved) hmem

/-- A text that is not answered at once leaves the ledger. -/
theorem ledger_begun (h : Hall) (peer : Peer) (content : String) (now : Nat) (secret : String) :
    (h.step (.begun peer content now secret)).ledger = h.ledger := by
  cases hq : h.request? peer content secret with
  | some q =>
    rw [step_begun_of_request hq]
    rfl
  | none =>
    rw [step_begun_of_no_request hq, Server.step_text]
    unfold request? at hq
    split_ifs at hq ⊢
    · exact congrArg (·.ledger.chain) (Server.answerText_of_no_request hq now).1
    · rfl

/-- What changes on the ledger by a step of a request is confined to its ticket. -/
theorem confined_moved (ho : h.Orderly members auth relay) (m : Move) :
    (h.step (.moved m)).ledger = h.ledger ∨ ∃ x, h.handlers[m.errand]? = some x ∧
      h.ledger.ConfinedTo (h.step (.moved m)).ledger x.errand.request.ticket relay := by
  cases hm : h.handlers[m.errand]? with
  | none =>
    rw [step_moved_of_none hm]
    exact Or.inl rfl
  | some x =>
    have hserves := KeyService.serves_advance (q := x.errand.request)
      (s := h.server.service.under m.time m.failure) ho.sound
      (ho.placed x (List.mem_of_getElem? hm))
    rw [step_moved_of_some hm, ← ho.relay]
    exact Or.inr ⟨x, rfl, hserves.confined⟩

/-- A request that is in the hall after an event was in it before, or the event is the text that made
it. -/
theorem mem_handlers_step {e : HallEvent} {x : Handler} (hx : x ∈ (h.step e).handlers) :
    (∃ y ∈ h.handlers, y.peer = x.peer ∧ y.errand.request = x.errand.request) ∨
      ∃ content now secret, e = .begun x.peer content now secret ∧
        h.server.Asks x.peer content x.errand.request.ticket := by
  cases e with
  | whole e time failure => exact Or.inl ⟨x, hx, rfl, rfl⟩
  | begun peer content now secret =>
    cases hq : h.request? peer content secret with
    | none =>
      rw [step_begun_of_no_request hq] at hx
      exact Or.inl ⟨x, hx, rfl, rfl⟩
    | some q =>
      rw [step_begun_of_request hq] at hx
      rcases List.mem_append.mp hx with hx | hx
      · exact Or.inl ⟨x, hx, rfl, rfl⟩
      · cases List.mem_singleton.mp hx
        exact Or.inr ⟨content, now, secret, rfl, asks_of_request? hq⟩
  | moved m =>
    left
    cases hm : h.handlers[m.errand]? with
    | none =>
      rw [step_moved_of_none hm] at hx
      exact ⟨x, hx, rfl, rfl⟩
    | some y =>
      rw [step_moved_of_some hm] at hx
      rcases List.mem_or_eq_of_mem_set hx with hx | rfl
      · exact ⟨x, hx, rfl, rfl⟩
      · exact ⟨y, List.mem_of_getElem? hm, rfl, rfl⟩

/-- A request in a hall was made by a text that asked for the key of its ticket. -/
theorem exists_begun (hempty : h.handlers = []) (events : List HallEvent) {x : Handler}
    (hx : x ∈ (h.run events).handlers) :
    ∃ before content now secret later, events = before ++ .begun x.peer content now secret :: later ∧
      (h.run before).server.Asks x.peer content x.errand.request.ticket := by
  induction events using List.reverseRecOn generalizing x with
  | nil =>
    rw [run, List.foldl_nil, hempty] at hx
    cases hx
  | append_singleton events e ih =>
    rw [run_concat] at hx
    rcases mem_handlers_step hx with ⟨y, hy, hpeer, hrequest⟩ | ⟨content, now, secret, rfl, hasks⟩
    · obtain ⟨before, content, now, secret, later, rfl, hasks⟩ := ih hy
      rw [hpeer, hrequest] at hasks
      exact ⟨before, content, now, secret, later ++ [e], by simp [hpeer], hasks⟩
    · exact ⟨events, content, now, secret, [], rfl, hasks⟩

/-- What becomes of a hall in the course of events. -/
structure KeepsSessions (h : Hall) (events : List HallEvent) : Prop where
  /-- The client at an address is bound to the last ticket that a token from there named which was
  accepted since the client was registered. -/
  bound : ∀ a c, (h.run events).server.client? a = some c → ∃ before e later,
    events = before ++ e :: later ∧ h.Bound a c before e later
  /-- Among peers that are apart since then these are the tokens of the peer that registered it. -/
  own : ∀ a c before e later, events = before ++ e :: later → h.Bound a c before e later →
    (h.run (before ++ [e])).StaysApart later →
      c.ticket = lastTicket (· = c.peer) ((h.run (before ++ [e])).tokens later)
  /-- Who asks for a key has the ticket from a token that was accepted from its address. Among peers
  that are apart it showed the token itself. -/
  vouched : ∀ peer content ticket, (h.run events).server.Asks peer content ticket →
    ∃ p, (p, ticket) ∈ h.tokens events ∧ p.address = peer.address ∧
      (h.StaysApart events → peer ∈ (h.run events).server.served → p = peer)
  /-- What is answered at once leaves the ledger, unless it is a text that asks for a key. -/
  whole : ∀ before e time failure later, events = before ++ .whole e time failure :: later →
    ((h.run before).server.under time failure).OnLedger e
      (((h.run before).server.under time failure).step e)
  /-- A text that is not answered at once leaves the ledger. -/
  begun : ∀ before peer content now secret later,
    events = before ++ .begun peer content now secret :: later →
      ((h.run before).step (.begun peer content now secret)).ledger = (h.run before).ledger
  /-- A request in the hall was made by a text that asked for the key of its ticket. -/
  opened : ∀ x ∈ (h.run events).handlers, ∃ before content now secret later,
    events = before ++ .begun x.peer content now secret :: later ∧
      (h.run before).server.Asks x.peer content x.errand.request.ticket
  /-- A step of a request changes nothing on the ledger but what its ticket allows. -/
  moved : ∀ before m later, events = before ++ .moved m :: later →
    ((h.run before).step (.moved m)).ledger = (h.run before).ledger ∨
      ∃ x, (h.run before).handlers[m.errand]? = some x ∧
        (h.run before).ledger.ConfinedTo ((h.run before).step (.moved m)).ledger
          x.errand.request.ticket h.server.service.relay.address
  /-- A request that has ended well answers with the address of its ticket. -/
  answer : ∀ x ∈ (h.run events).handlers, ∀ b, x.errand.progress = .ended (.ok b) →
    b = .ofTicket x.errand.request.ticket

/-- In a hall over a ledger in any state that a run of operations that fit reaches from a sized
genesis, clients are bound to the tickets of the tokens from their addresses and the ledger changes
only at the tickets that they are bound to. -/
theorem keepsSessions {chainId : String} {g : Genesis} {c : Chain} {ds : List Delivery}
    (hg : g.Sized) (hc : Chain.ofGenesis chainId g = .ok c) (hds : ∀ d ∈ ds, Fits d.tx.op)
    {service : KeyService LocalLedger} (hservice : service.ledger.chain = c.after ds)
    (config : ServerConfig) (auth : AuthConfig) (events : List HallEvent) :
    KeepsSessions (.new config auth service) events := by
  have hsound := Chain.after_sound hg hc hds
  rw [← hservice] at hsound
  have ho := Orderly.new hsound config auth
  constructor
  · intro a d hd
    exact bound_run ho rfl events ((ho.run events).registered.client?_eq_some.mp hd)
  · intro a d before e later _ hbound hapart
    exact hbound.own ho hapart
  · intro peer content ticket hasks
    exact vouched_run ho rfl hasks
  · intro before e time failure later _
    exact Server.onLedger (s := ((Hall.new config auth service).run before).server.under time failure)
      (ho.run before).sound e
  · intro before peer content now secret later _
    exact ledger_begun _ peer content now secret
  · intro x hx
    exact exists_begun rfl events hx
  · intro before m later _
    exact confined_moved (ho.run before) m
  · intro x hx b hb
    exact (ho.run events).placed x hx b (by rw [hb]; rfl)

end Hall

namespace SmallLedger

/-- A configuration with the secret `s`. -/
def tokens : AuthConfig := ⟨none, none, none, some "s", false⟩

/-- A token that names the ticket of the attendee, signed with the secret `s`. -/
def authText : String :=
  "\x7b\"type\":\"auth\",\"token\":\"eyJ0eXAiOiJKV1QiLCJhbGciOiJIUzI1NiJ9.eyJzdWIiOiIxIn0." ++
    "2Qw_6Mre6HwxGRmMn6NflQiE_rbAgbcDK4K4LLksqBI\"\x7d"

/-- A text that asks for the key of the attendee. -/
def keyText : String :=
  "\x7b\"type\":\"key\",\"public_key\":" ++
    "\"ed4928c628d1c2c6eae90338905995612959273a5c63f93636c14614ac8737d1\"\x7d"

/-- The peer that shows a token. -/
def elder : Peer := ⟨.v4 [10, 0, 0, 1] 5000, 0⟩

/-- A later peer of the same address. -/
def newcomer : Peer := ⟨.v4 [10, 0, 0, 1] 5000, 1⟩

/-- A peer of another address. -/
def stranger : Peer := ⟨.v4 [10, 0, 0, 2] 5000, 0⟩

/-- All three are greeted, and the elder one shows a token. The two others ask for the key of the
attendee. The elder one then hears that its client was replaced, and leaves. -/
def visits : List HallEvent :=
  [.whole (.connect elder) 0 none, .whole (.connect newcomer) 0 none,
    .whole (.connect stranger) 0 none, .whole (.greeted elder 0) 0 none,
    .whole (.greeted newcomer 0) 0 none, .whole (.greeted stranger 0) 0 none,
    .whole (.text elder authText 0 "") 0 none, .begun stranger keyText 0 "t",
    .begun newcomer keyText 0 "s", .moved ⟨0, 0, none⟩, .moved ⟨0, 0, none⟩,
    .whole (.dismiss elder) 0 none]

/-- A hall over the small ledger that nobody has entered. -/
def hall : Hall := .new .default tokens service

end SmallLedger

/-- The newcomer, which has shown no token, is granted the key of the ticket that the elder peer of
its address named, and the stranger is not. When the elder one is gone the newcomer is not registered
any more, though it has not left. -/
theorem Hall.keepsSessions_visits :
    SmallLedger.genesis.Sized ∧
      Chain.ofGenesis "test-chain" SmallLedger.genesis = .ok SmallLedger.chain ∧
      KeepsSessions SmallLedger.hall SmallLedger.visits ∧
      SmallLedger.hall.tokens SmallLedger.visits = [(SmallLedger.elder, "1")] ∧
      ((SmallLedger.hall.run SmallLedger.visits).server.clients.map (fun x =>
          (x.2.peer, x.2.ticket)),
        (SmallLedger.hall.run SmallLedger.visits).handlers.map (fun x =>
          (x.peer, x.errand.request.ticket, x.errand.progress.hasGrant))) =
        ([(SmallLedger.newcomer, some "1"), (SmallLedger.stranger, none)],
          [(SmallLedger.newcomer, "1", true)]) ∧
      ((SmallLedger.hall.run SmallLedger.visits).step
        (.whole (.gone SmallLedger.elder) 0 none)).server.clients.map (·.1) =
          [SmallLedger.stranger.address] := by
  have hfits : ∀ d ∈ ([] : List Delivery), Fits d.tx.op := fun d hd => absurd hd List.not_mem_nil
  have hchain : SmallLedger.service.ledger.chain = SmallLedger.chain.after [] := by
    rw [Chain.after_nil, SmallLedger.service]
  have hkeeps := keepsSessions SmallLedger.sized SmallLedger.ofGenesis_eq hfits hchain .default
    SmallLedger.tokens SmallLedger.visits
  refine ⟨SmallLedger.sized, SmallLedger.ofGenesis_eq, hkeeps, ?_⟩
  decide +kernel

end ConferenceLedger

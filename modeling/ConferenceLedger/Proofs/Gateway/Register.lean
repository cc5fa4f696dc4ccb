import ConferenceLedger.Gateway.Server
import Mathlib.Data.List.Nodup

/-!
# Who is registered, and for which ticket

A client is registered at a remote address when the greeting of a peer from there is done, and it is
bound to the ticket that the last accepted token from there named, whichever peer of the address
showed it. Nothing that comes from another address, and no token that is not accepted, changes that.
The peer that registered a client is still served, or has left and is still to be taken off. So what
comes from the address comes from that peer, as long as no two such peers share an address.
-/

namespace ConferenceLedger

/-- The ticket that a message names, if it is a token that is accepted. -/
def ClientMessage.names (auth : AuthConfig) (now : Nat) : ClientMessage → Option String
  | .auth token _ =>
    match Token.validate token auth (now / 1000) with
    | .ok claims => some claims.subject
    | .error _ => none
  | _ => none

/-- The ticket that a text names, if it is a token that is accepted. -/
def namedTicket (auth : AuthConfig) (content : String) (now : Nat) : Option String :=
  (ClientMessage.ofText? content).bind (·.names auth now)

/-- A client from whose address a text was heard. -/
def Client.heard (auth : AuthConfig) (content : String) (now : Nat) (c : Client) : Client where
  peer := c.peer
  ticket := (namedTicket auth content now).or c.ticket
  lastActivity := if (ClientMessage.ofText? content).isSome then now else c.lastActivity

/-- The last ticket that tokens name which some of the peers have shown. -/
def lastTicket (shown : Peer → Bool) (tokens : List (Peer × String)) : Option String :=
  (tokens.filter (shown ·.1)).getLast?.map (·.2)

/-- Of tokens in two parts the last one is in the second part, unless there is none. -/
theorem lastTicket_append (shown : Peer → Bool) (tokens later : List (Peer × String)) :
    lastTicket shown (tokens ++ later) = (lastTicket shown later).or (lastTicket shown tokens) := by
  unfold lastTicket
  rw [List.filter_append, List.getLast?_append]
  cases (later.filter (shown ·.1)).getLast? <;> rfl

/-- The last ticket depends on who of those that have shown tokens counts. -/
theorem lastTicket_congr {shown shown' : Peer → Bool} {tokens : List (Peer × String)}
    (h : ∀ x ∈ tokens, shown x.1 = shown' x.1) :
    lastTicket shown tokens = lastTicket shown' tokens := by
  rw [lastTicket, List.filter_congr h]
  rfl

/-- The last ticket is that of a token which was shown. -/
theorem exists_of_lastTicket {shown : Peer → Bool} {tokens : List (Peer × String)} {ticket : String}
    (h : lastTicket shown tokens = some ticket) :
    ∃ p, (p, ticket) ∈ tokens ∧ shown p = true := by
  obtain ⟨⟨p, t⟩, hlast, rfl⟩ := Option.map_eq_some_iff.mp h
  obtain ⟨hmem, hshown⟩ := List.mem_filter.mp (List.mem_of_getLast? hlast)
  exact ⟨p, hmem, hshown⟩

namespace Server

variable {σ : Type} {s : Server σ} {a : SocketAddress} {c : Client}

/-- The peer and the ticket of a token that an event shows, if it is a text which is read and the
token is accepted. -/
def accepts (s : Server σ) : ServerEvent → Option (Peer × String)
  | .text peer content now _ =>
    if s.served.contains peer then (namedTicket s.auth content now).map (peer, ·) else none
  | _ => none

/-- The peers that can still change the register: those whose frames are read, and those that have
left and are still to be taken off. -/
def alive (s : Server σ) : List Peer := s.served ++ s.leaving

/-- Whether no two of these peers share an address. -/
def Apart (s : Server σ) : Prop :=
  ∀ p ∈ s.alive, ∀ q ∈ s.alive, p.address = q.address → p = q

/-- A server at which no address is registered twice, and the peers that registered clients at their
addresses are alive. -/
structure Registered (s : Server σ) : Prop where
  /-- No address is registered twice. -/
  nodup : (s.clients.map (·.1)).Nodup
  /-- The peer that registered a client is alive. -/
  alive : ∀ x ∈ s.clients, x.2.peer ∈ s.alive
  /-- A client is at the address of the peer that registered it. -/
  address : ∀ x ∈ s.clients, x.2.peer.address = x.1

/-- The registered client at an address is the one in the register. -/
theorem Registered.client?_eq_some (h : s.Registered) :
    s.client? a = some c ↔ (a, c) ∈ s.clients := by
  have hnodup := h.nodup
  rw [client?]
  generalize s.clients = clients at hnodup
  induction clients with
  | nil =>
    constructor
    · exact nofun
    · exact nofun
  | cons x rest ih =>
    obtain ⟨b, d⟩ := x
    obtain ⟨hfresh, hrest⟩ := List.nodup_cons.mp hnodup
    by_cases hb : b = a
    · subst hb
      have hother : (b, c) ∉ rest := fun hmem =>
        hfresh (List.mem_map.mpr ⟨(b, c), hmem, rfl⟩)
      simp [hother, eq_comm]
    · rw [List.find?_cons_of_neg (by simpa using hb)]
      refine (ih hrest).trans ?_
      simp [Ne.symm hb]

/-- Among peers that are apart a client is the one that the only peer of its address registered. -/
theorem Registered.peer_eq (h : s.Registered) (hapart : s.Apart) {p : Peer} (hp : p ∈ s.alive)
    (hmem : (p.address, c) ∈ s.clients) : c.peer = p :=
  hapart c.peer (h.alive _ hmem) p hp (h.address _ hmem)

/-- A peer whose client is in the register is alive. -/
theorem Registered.alive_of_holds (h : s.Registered) {p : Peer} (hp : s.holds p = true) :
    p ∈ s.alive := by
  rw [holds, Option.any_eq_true] at hp
  obtain ⟨c, hc, hpeer⟩ := hp
  have halive := h.alive _ (h.client?_eq_some.mp hc)
  rw [decide_eq_true_eq] at hpeer
  exact hpeer ▸ halive

/-- The token that an event shows was shown by a peer whose frames are read. -/
theorem served_of_accepts {e : ServerEvent} {x : Peer × String} (hx : s.accepts e = some x) :
    x.1 ∈ s.served := by
  cases e with
  | text peer content now secret =>
    rw [accepts] at hx
    split_ifs at hx with hserved
    obtain ⟨t, -, rfl⟩ := Option.map_eq_some_iff.mp hx
    exact List.contains_iff_mem.mp hserved
  | connect | greeted | greetingFailed | leave | gone | sweep | dismiss | stop | halt | heed =>
    cases hx

/-- Who is registered when a client is changed. -/
theorem mem_clients_update {b : SocketAddress} {change : Client → Client} :
    (a, c) ∈ (s.update b change).clients ↔
      ∃ d, (a, d) ∈ s.clients ∧ c = if a = b then change d else d := by
  rw [update, List.mem_map]
  constructor
  · rintro ⟨⟨b', d⟩, hmem, heq⟩
    dsimp only at heq
    split_ifs at heq with hb
    · cases heq
      exact ⟨d, hmem, (if_pos hb).symm⟩
    · cases heq
      exact ⟨c, hmem, (if_neg hb).symm⟩
  · rintro ⟨d, hmem, rfl⟩
    refine ⟨(a, d), hmem, ?_⟩
    dsimp only
    split_ifs <;> rfl

/-- Who is registered when an address is taken off. -/
theorem mem_clients_unregister {b : SocketAddress} :
    (a, c) ∈ (s.unregister b).clients ↔ (a, c) ∈ s.clients ∧ a ≠ b := by
  rw [unregister, List.mem_filter, decide_eq_true_eq]

/-- Who is registered when a peer has registered its client. -/
theorem mem_clients_register {peer : Peer} {now : Nat} :
    (a, c) ∈ (s.register peer now).clients ↔
      (a, c) ∈ s.clients ∧ a ≠ peer.address ∨ a = peer.address ∧ c = ⟨peer, none, now⟩ := by
  rw [register, List.mem_append, mem_clients_unregister, List.mem_singleton, Prod.mk.injEq]

/-- The addresses at which clients are registered do not change with a client. -/
theorem addresses_update (s : Server σ) (b : SocketAddress) (change : Client → Client) :
    (s.update b change).clients.map (·.1) = s.clients.map (·.1) := by
  rw [update, List.map_map]
  apply List.map_congr_left
  intro x _
  dsimp only [Function.comp_apply]
  split_ifs <;> rfl

/-- A client that is changed twice is changed by both changes. -/
theorem update_update (s : Server σ) (b : SocketAddress) (first second : Client → Client) :
    (s.update b first).update b second = s.update b fun c => second (first c) := by
  unfold update
  dsimp only
  rw [List.map_map]
  congr 2
  funext x
  dsimp only [Function.comp_apply]
  split_ifs <;> rfl

/-- A change that leaves every client leaves the server. -/
theorem update_id (s : Server σ) (b : SocketAddress) : s.update b (fun c => c) = s := by
  unfold update
  have hsame : (fun x : SocketAddress × Client => if x.1 = b then (x.1, x.2) else x) = id := by
    funext x
    split_ifs <;> rfl
  rw [hsame, List.map_id]

/-- A client that is changed stays registered by the same peer. -/
theorem Registered.update (h : s.Registered) (b : SocketAddress) {change : Client → Client}
    (hchange : ∀ c, (change c).peer = c.peer) : (s.update b change).Registered := by
  have hpeer : ∀ x ∈ (s.update b change).clients,
      ∃ d, (x.1, d) ∈ s.clients ∧ x.2.peer = d.peer := by
    rintro ⟨a, c⟩ hmem
    obtain ⟨d, hd, rfl⟩ := mem_clients_update.mp hmem
    refine ⟨d, hd, ?_⟩
    dsimp only
    split_ifs
    · exact hchange d
    · rfl
  constructor
  · rw [addresses_update]
    exact h.nodup
  · intro x hx
    obtain ⟨d, hd, heq⟩ := hpeer x hx
    rw [heq]
    exact h.alive _ hd
  · intro x hx
    obtain ⟨d, hd, heq⟩ := hpeer x hx
    rw [heq]
    exact h.address _ hd

/-- A peer whose frames are no longer read has left and is alive. -/
theorem mem_alive_hangUp {p peer : Peer} (hp : p ∈ s.alive) : p ∈ (s.hangUp peer).alive := by
  rcases List.mem_append.mp hp with hp | hp
  · by_cases hpeer : p = peer
    · rw [hpeer]
      exact List.mem_append_right _ (List.mem_append_right _ List.mem_cons_self)
    · exact List.mem_append_left _ (List.mem_filter.mpr ⟨hp, decide_eq_true hpeer⟩)
  · exact List.mem_append_right _ (List.mem_append_left _ hp)

/-- A peer whose frames are no longer read keeps its place in the register. -/
theorem Registered.hangUp (h : s.Registered) (peer : Peer) : (s.hangUp peer).Registered :=
  ⟨h.nodup, fun x hx => mem_alive_hangUp (h.alive x hx), h.address⟩

/-- A peer whose frames come to be read registers a client in place of the one at its address. -/
theorem Registered.register (h : s.Registered) (peer : Peer) (now : Nat) (greeting : List Peer) :
    ({ s.register peer now with
      greeting, served := s.served ++ [peer] } : Server σ).Registered := by
  constructor
  · have hothers : ((s.unregister peer.address).clients.map (·.1)).Nodup :=
      h.nodup.sublist (List.filter_sublist.map _)
    dsimp only [Server.register]
    rw [List.map_append, List.map_singleton]
    refine List.nodup_append.mpr ⟨hothers, List.nodup_singleton _, ?_⟩
    rintro a ha b hb rfl
    obtain ⟨⟨a', c⟩, hc, rfl⟩ := List.mem_map.mp ha
    exact (mem_clients_unregister.mp hc).2 (List.mem_singleton.mp hb)
  · rintro ⟨a, c⟩ hmem
    rcases mem_clients_register.mp hmem with ⟨hmem, -⟩ | ⟨-, rfl⟩
    · rcases List.mem_append.mp (h.alive _ hmem) with hserved | hleaving
      · exact List.mem_append_left _ (List.mem_append_left _ hserved)
      · exact List.mem_append_right _ hleaving
    · exact List.mem_append_left _ (List.mem_append_right _ List.mem_cons_self)
  · rintro ⟨a, c⟩ hmem
    rcases mem_clients_register.mp hmem with ⟨hmem, -⟩ | ⟨rfl, rfl⟩
    · exact h.address _ hmem
    · rfl

/-- A peer that is taken off the register takes with it the client at its address. -/
theorem Registered.gone (h : s.Registered) (peer : Peer) :
    ({ s.unregister peer.address with
      leaving := s.leaving.filter (· ≠ peer) } : Server σ).Registered := by
  constructor
  · exact h.nodup.sublist (List.filter_sublist.map _)
  · rintro ⟨a, c⟩ hmem
    obtain ⟨hkept, hne⟩ := mem_clients_unregister.mp hmem
    -- the client at another address was registered by another peer
    have hpeer : c.peer ≠ peer := by
      intro heq
      exact hne (heq ▸ (h.address (a, c) hkept).symm)
    rcases List.mem_append.mp (h.alive _ hkept) with hserved | hleaving
    · exact List.mem_append_left _ hserved
    · exact List.mem_append_right _ (List.mem_filter.mpr ⟨hleaving, decide_eq_true hpeer⟩)
  · exact fun x hx => h.address x (List.mem_of_mem_filter hx)

/-- Whether an event registers a peer. -/
def Registers (s : Server σ) (p : Peer) (e : ServerEvent) : Prop :=
  ∃ now, e = .greeted p now ∧ s.greeting.contains p = true

variable [LedgerClient σ]

/-- What the answer to a message makes of the register: the client is bound to the ticket that the
message names, and all else stays. -/
theorem answer_eq (s : Server σ) (peer : Peer) (m : ClientMessage) (now : Nat) (secret : String) :
    (s.answer peer m now secret).2 =
      { s.update peer.address (fun c => { c with ticket := (m.names s.auth now).or c.ticket }) with
        service := (s.answer peer m now secret).2.service } := by
  cases m with
  | auth token clientVersion =>
    rw [answer, authenticate, ClientMessage.names]
    cases Token.validate token s.auth (now / 1000) with
    | ok claims => rfl
    | error e => exact (s.update_id peer.address).symm
  | key publicKey =>
    change (s.keyAccount peer publicKey secret).2 = { s.update peer.address (fun c => c) with
      service := (s.keyAccount peer publicKey secret).2.service }
    rw [update_id, keyAccount]
    split
    · rfl
    · split_ifs <;> rfl
  | query q =>
    change (s.answerQuery q).2 = { s.update peer.address (fun c => c) with
      service := (s.answerQuery q).2.service }
    rw [update_id]
    rfl
  | ping timestamp => exact (s.update_id peer.address).symm

/-- What a text makes of the register: the client is one from whose address it was heard, and all
else stays. -/
theorem answerText_eq (s : Server σ) (peer : Peer) (content : String) (now : Nat)
    (secret : String) :
    (s.answerText peer content now secret).2 =
      { s.update peer.address (Client.heard s.auth content now) with
        service := (s.answerText peer content now secret).2.service } := by
  rw [answerText]
  unfold Client.heard namedTicket
  cases ClientMessage.ofText? content with
  | none => exact (s.update_id peer.address).symm
  | some m =>
    dsimp only
    rw [answer_eq, update_update]
    rfl

/-- A text is answered if the frames of the peer are read. -/
theorem step_text (s : Server σ) (peer : Peer) (content : String) (now : Nat) (secret : String) :
    s.step (.text peer content now secret) =
      if s.served.contains peer then ([.message peer (s.answerText peer content now secret).1],
        (s.answerText peer content now secret).2)
      else ([], s) := rfl

/-- The server goes on to be set up the same way and to accept the same tokens. -/
theorem settings_step (s : Server σ) (e : ServerEvent) :
    (s.step e).2.config = s.config ∧ (s.step e).2.auth = s.auth := by
  cases e with
  | text peer content now secret =>
    rw [step_text]
    split_ifs
    · rw [answerText_eq]
      exact ⟨rfl, rfl⟩
    · exact ⟨rfl, rfl⟩
  | connect | greeted | greetingFailed | leave | gone | sweep | dismiss | stop | halt | heed =>
    rw [step]
    try split_ifs
    all_goals exact ⟨rfl, rfl⟩

/-- Every event keeps the register in order. -/
theorem Registered.step (h : s.Registered) (e : ServerEvent) : (s.step e).2.Registered := by
  cases e with
  | connect peer =>
    rw [Server.step]
    split_ifs
    · exact h
    · exact ⟨h.nodup, h.alive, h.address⟩
    · exact h
  | greeted peer now =>
    rw [Server.step]
    split_ifs
    · exact h.register peer now _
    · exact h
  | text peer content now secret =>
    rw [step_text]
    split_ifs
    · rw [answerText_eq]
      have hpeer : ∀ c, (Client.heard s.auth content now c).peer = c.peer := fun _ => rfl
      have hheard := h.update peer.address hpeer
      exact ⟨hheard.nodup, hheard.alive, hheard.address⟩
    · exact h
  | gone peer =>
    rw [Server.step]
    split_ifs
    · exact h.gone peer
    · exact h
  | sweep now =>
    rw [Server.step]
    split_ifs
    · exact ⟨h.nodup.sublist (List.filter_sublist.map _),
        fun x hx => h.alive x (List.mem_of_mem_filter hx),
        fun x hx => h.address x (List.mem_of_mem_filter hx)⟩
    · exact h
  | leave peer | dismiss peer | heed peer =>
    rw [Server.step]
    split_ifs
    · exact h.hangUp peer
    · exact h
  | greetingFailed | stop | halt => exact ⟨h.nodup, h.alive, h.address⟩

/-- A client that is registered after an event was registered by it, or was registered before by the
same peer, and is bound to the ticket that the event names for its address, or else to the same as
before. -/
theorem mem_clients_step {e : ServerEvent} (hmem : (a, c) ∈ (s.step e).2.clients) :
    (s.Registers c.peer e ∧ c.peer.address = a ∧ c.ticket = none) ∨
      ((∀ p, p.address = a → ¬s.Registers p e) ∧ ∃ d, (a, d) ∈ s.clients ∧ d.peer = c.peer ∧
        c.ticket = (lastTicket (·.address = a) (s.accepts e).toList).or d.ticket) := by
  cases e with
  | connect peer =>
    refine Or.inr ⟨nofun, c, ?_, rfl, rfl⟩
    rw [step] at hmem
    split_ifs at hmem <;> exact hmem
  | greeted peer now =>
    rw [step] at hmem
    split_ifs at hmem with hgreeting
    · rcases mem_clients_register.mp hmem with ⟨hmem, hne⟩ | ⟨rfl, rfl⟩
      · refine Or.inr ⟨?_, c, hmem, rfl, rfl⟩
        rintro p rfl ⟨now', heq, -⟩
        cases heq
        exact hne rfl
      · exact Or.inl ⟨⟨now, rfl, hgreeting⟩, rfl, rfl⟩
    · refine Or.inr ⟨?_, c, hmem, rfl, rfl⟩
      rintro p - ⟨now', heq, hcontains⟩
      cases heq
      exact hgreeting hcontains
  | text peer content now secret =>
    right
    refine ⟨nofun, ?_⟩
    rw [step_text] at hmem
    rw [accepts]
    split_ifs at hmem ⊢ with hserved
    · rw [answerText_eq] at hmem
      obtain ⟨d, hd, rfl⟩ := mem_clients_update.mp hmem
      refine ⟨d, hd, by split_ifs <;> rfl, ?_⟩
      by_cases ha : a = peer.address
      · rw [if_pos ha, Client.heard]
        cases namedTicket s.auth content now <;> simp [lastTicket, ha]
      · rw [if_neg ha]
        cases namedTicket s.auth content now <;> simp [lastTicket, Ne.symm ha]
    · exact ⟨c, hmem, rfl, rfl⟩
  | gone peer =>
    refine Or.inr ⟨nofun, c, ?_, rfl, rfl⟩
    rw [step] at hmem
    split_ifs at hmem
    · exact (mem_clients_unregister.mp hmem).1
    · exact hmem
  | sweep now =>
    refine Or.inr ⟨nofun, c, ?_, rfl, rfl⟩
    rw [step] at hmem
    split_ifs at hmem
    · exact List.mem_of_mem_filter hmem
    · exact hmem
  | leave peer | dismiss peer | heed peer =>
    refine Or.inr ⟨nofun, c, ?_, rfl, rfl⟩
    rw [step] at hmem
    split_ifs at hmem <;> exact hmem
  | greetingFailed | stop | halt => exact Or.inr ⟨nofun, c, hmem, rfl, rfl⟩

end Server

end ConferenceLedger

import ConferenceLedger.Proofs.Gateway.Requests
import Mathlib.Data.List.Induction

/-!
# Many key requests at one desk

Requests to key an account take their steps in any order. Several may find the same attendee without
a key, so it is not the finding that keeps them apart. The ledger takes the first keying of an
attendee and no other, and only the request of this keying goes on to send its link.
-/

namespace ConferenceLedger

/-- An entry that was replaced is the new one, and any other is the old one. -/
theorem List.getElem?_set_eq_some {α : Type} {l : List α} {i j : Nat} {x y : α}
    (h : (l.set i x)[j]? = some y) : (i = j ∧ y = x) ∨ (i ≠ j ∧ l[j]? = some y) := by
  by_cases hij : i = j
  · rw [List.getElem?_set, if_pos hij] at h
    split_ifs at h
    exact Or.inl ⟨hij, (Option.some.inj h).symm⟩
  · rw [List.getElem?_set_ne hij] at h
    exact Or.inr ⟨hij, h⟩

/-- An entry that is there is the new one once it was replaced. -/
theorem List.getElem?_set_of_some {α : Type} {l : List α} {i : Nat} {x : α} (y : α)
    (h : l[i]? = some x) : (l.set i y)[i]? = some y := by
  rw [List.getElem?_set_self', h]
  rfl

/-- Where there was an entry there still is one: the new one if it was replaced, and otherwise the
old one. -/
theorem List.exists_getElem?_set {α : Type} {l : List α} {i j : Nat} {x z : α} (y : α)
    (hi : l[i]? = some x) (hj : l[j]? = some z) :
    ∃ w, (l.set i y)[j]? = some w ∧ ((i = j ∧ z = x ∧ w = y) ∨ (i ≠ j ∧ w = z)) := by
  by_cases hij : i = j
  · subst hij
    rw [hi] at hj
    exact ⟨y, List.getElem?_set_of_some y hi, Or.inl ⟨rfl, (Option.some.inj hj).symm, rfl⟩⟩
  · refine ⟨z, ?_, Or.inr ⟨hij, rfl⟩⟩
    rw [List.getElem?_set_ne hij]
    exact hj

/-- A request and how far it has come. -/
structure Errand where
  /-- The request. -/
  request : KeyRequest
  /-- How far it has come. -/
  progress : Progress

/-- A key service with a ledger at hand, and the requests to it. -/
structure Desk where
  /-- The service. -/
  service : KeyService LocalLedger
  /-- The requests. -/
  errands : List Errand

/-- A step of one of the requests. -/
structure Move where
  /-- The place of the request. -/
  errand : Nat
  /-- The time of the ledger. -/
  time : Int64
  /-- Why links do not go out at the time, unless they do. -/
  failure : Option String

/-- A transaction that was sent for a request. -/
structure Sending where
  /-- The place of the request. -/
  errand : Nat
  /-- The transaction and when it was delivered. -/
  delivery : Delivery
  /-- The response of the ledger. -/
  response : TxResponse

/-- A link that carries what the attendee of a request needs to claim the account. -/
structure ClaimLink.IsOf (l : ClaimLink) (base : String) (q : KeyRequest) : Prop where
  /-- It was sent to the attendee of the ticket. -/
  address : l.attendee.address = .ofTicket q.ticket
  /-- The secret is that of the request. -/
  secret : l.secret = q.secret
  /-- The link is to the page, with the attendee and the secret. -/
  url : l.url = claimUrl base l.attendee q.secret

/-- The service at a time of the ledger, with links that go out or do not. -/
def KeyService.under (s : KeyService LocalLedger) (time : Int64) (failure : Option String) :
    KeyService LocalLedger :=
  { s with ledger := { s.ledger with time }, outbox := { s.outbox with failure } }

namespace Desk

/-- A desk with requests that were just made. -/
def new (s : KeyService LocalLedger) (requests : List KeyRequest) : Desk :=
  ⟨s, requests.map fun q => ⟨q, .asked⟩⟩

/-- The desk after a move. A move of no request changes nothing. -/
def step (d : Desk) (m : Move) : Desk :=
  match d.errands[m.errand]? with
  | none => d
  | some e =>
    let (progress, service) := (d.service.under m.time m.failure).advance e.request e.progress
    ⟨service, d.errands.set m.errand ⟨e.request, progress⟩⟩

/-- The desk after moves. -/
def run (d : Desk) (moves : List Move) : Desk := moves.foldl step d

/-- What a move has sent. -/
def sends (d : Desk) (m : Move) : List Sending :=
  match d.errands[m.errand]? with
  | none => []
  | some e => ((d.service.under m.time m.failure).brought e.request e.progress).map fun x =>
      ⟨m.errand, x, (d.service.ledger.chain.deliver x.tx x.time).1⟩

/-- What moves have sent. -/
def log (d : Desk) : List Move → List Sending
  | [] => []
  | m :: moves => d.sends m ++ (d.step m).log moves

/-- A request reaches the delivery of its link in the course of moves. -/
def Reaches (d : Desk) (moves : List Move) (i : Nat) : Prop :=
  ∃ before later q a, moves = before ++ later ∧ (d.run before).errands[i]? = some ⟨q, .granted a⟩

/-- What a move does. -/
inductive Moved (d : Desk) (m : Move) : List Sending → Desk → Prop where
  /-- There is no such request. -/
  | idle (hnone : d.errands[m.errand]? = none) : Moved d m [] d
  /-- The request takes a step. -/
  | moved {e : Errand} {ds : List Delivery} {p : Progress} {s : KeyService LocalLedger}
    (he : d.errands[m.errand]? = some e)
    (hadvanced : (d.service.under m.time m.failure).Advanced e.request e.progress ds (p, s)) :
    Moved d m (ds.map fun x => ⟨m.errand, x, (d.service.ledger.chain.deliver x.tx x.time).1⟩)
      ⟨s, d.errands.set m.errand ⟨e.request, p⟩⟩

/-- Every move is of one of these kinds. -/
theorem moved {d : Desk} {members : List Address} (hs : d.service.ledger.chain.store.Sound members)
    (m : Move) : d.Moved m (d.sends m) (d.step m) := by
  have hadvanced (e : Errand) := KeyService.advanced (s := d.service.under m.time m.failure) hs
    e.request e.progress
  rw [sends, step]
  cases he : d.errands[m.errand]? with
  | none => exact .idle he
  | some e => exact .moved he (hadvanced e)

/-- At first every request was just made. -/
theorem asked_of_new {s : KeyService LocalLedger} {requests : List KeyRequest} {i : Nat}
    {e : Errand} (he : (new s requests).errands[i]? = some e) : e.progress = .asked := by
  rw [new, List.getElem?_map] at he
  obtain ⟨q, -, rfl⟩ := Option.map_eq_some_iff.mp he
  rfl

/-- What holds at a desk after every move. -/
structure Orderly (members : List Address) (d : Desk) : Prop where
  /-- The ledger can be held. -/
  sound : d.service.ledger.chain.store.Sound members
  /-- What a request has found, granted or answered with has the address of its ticket. -/
  placed : ∀ (i : Nat) (e : Errand), d.errands[i]? = some e →
    ∀ b ∈ e.progress.address?, b = .ofTicket e.request.ticket
  /-- The ledger has the key and the commitment of every request that was granted its key. -/
  held : ∀ (i : Nat) (e : Errand), d.errands[i]? = some e → e.progress.hasGrant = true →
    e.request.HeldBy d.service.ledger.chain.store
  /-- No two requests were granted a key for one address. -/
  alone : ∀ (i j : Nat) (e f : Errand), d.errands[i]? = some e → d.errands[j]? = some f →
    e.progress.hasGrant = true → f.progress.hasGrant = true →
    Address.ofTicket e.request.ticket = .ofTicket f.request.ticket → i = j

namespace Orderly

variable {members : List Address} {d d' : Desk} {m : Move} {sent : List Sending}

/-- At first nothing was found or granted. -/
theorem new {s : KeyService LocalLedger} (hs : s.ledger.chain.store.Sound members)
    (requests : List KeyRequest) : (Desk.new s requests).Orderly members := by
  constructor
  · exact hs
  · intro i e he b hb
    rw [asked_of_new he] at hb
    cases hb
  · intro i e he hgrant
    rw [asked_of_new he] at hgrant
    cases hgrant
  · intro i j e f he hf hgrant
    rw [asked_of_new he] at hgrant
    cases hgrant

/-- A move keeps a desk orderly. -/
theorem step (h : d.Orderly members) (hmoved : d.Moved m sent d') : d'.Orderly members := by
  cases hmoved with
  | idle => exact h
  | @moved e ds p s he hadvanced =>
    have hs : (d.service.under m.time m.failure).ledger.chain.store.Sound members := h.sound
    have hplaced := h.placed m.errand e he
    -- a request that has just been granted its key has an address that no other was granted one for
    have hnew : ∀ j f, m.errand ≠ j → d.errands[j]? = some f → p.hasGrant = true →
        f.progress.hasGrant = true →
        Address.ofTicket f.request.ticket ≠ .ofTicket e.request.ticket := by
      intro j f hne hf hp hgrant heq
      by_cases hbefore : e.progress.hasGrant = true
      · exact hne (h.alone m.errand j e f he hf hbefore hgrant heq.symm)
      · obtain ⟨a, ha⟩ := hadvanced.granted_of_hasGrant hp (Bool.eq_false_iff.mpr hbefore)
        obtain ⟨-, hother⟩ := hadvanced.heldBy_of_granted ha hs hplaced
        exact hother f.request (h.held j f hf hgrant) heq
    constructor
    · exact hadvanced.sound hs
    · intro i f hf
      rcases List.getElem?_set_eq_some hf with ⟨-, rfl⟩ | ⟨-, hf⟩
      · exact hadvanced.address? hs hplaced
      · exact h.placed i f hf
    · intro i f hf hgrant
      rcases List.getElem?_set_eq_some hf with ⟨-, rfl⟩ | ⟨-, hf⟩
      · by_cases hbefore : e.progress.hasGrant = true
        · exact hadvanced.heldBy hs hplaced (h.held m.errand e he hbefore)
        · obtain ⟨a, ha⟩ := hadvanced.granted_of_hasGrant hgrant (Bool.eq_false_iff.mpr hbefore)
          exact (hadvanced.heldBy_of_granted ha hs hplaced).1
      · exact hadvanced.heldBy hs hplaced (h.held i f hf hgrant)
    · intro i j f g hf hg hfgrant hggrant heq
      rcases List.getElem?_set_eq_some hf with ⟨rfl, rfl⟩ | ⟨hi, hf⟩
      · rcases List.getElem?_set_eq_some hg with ⟨rfl, rfl⟩ | ⟨hj, hg⟩
        · rfl
        · exact absurd heq.symm (hnew j g hj hg hfgrant hggrant)
      · rcases List.getElem?_set_eq_some hg with ⟨rfl, rfl⟩ | ⟨hj, hg⟩
        · exact absurd heq (hnew i f hi hf hggrant hfgrant)
        · exact h.alone i j f g hf hg hfgrant hggrant heq

end Orderly

/-- What was sent from a desk at which the relay has the address `address` and the ledger was
`first`. -/
structure Recorded (first : Chain) (address : Address) (d : Desk) (log : List Sending) : Prop where
  /-- The relay has the address. -/
  relay : d.service.relay.address = address
  /-- The ledger went on by what was sent. -/
  chain : d.service.ledger.chain = first.after (log.map (·.delivery))
  /-- The responses are those of the ledger. -/
  answers : log.map (fun x => (x.delivery.tx, x.response)) = first.answers (log.map (·.delivery))
  /-- What was sent is the keying of a request that sends no other, and the key was granted if the
  keying succeeded. -/
  keying : ∀ x ∈ log, ∃ e, d.errands[x.errand]? = some e ∧ e.progress.isOpen = false ∧
    (e.progress.hasGrant = true ↔ x.response.code = 0) ∧ x.delivery.tx.op =
      .key ⟨.ofTicket e.request.ticket, address, e.request.publicKey, e.request.commitment⟩
  /-- Every request that was granted its key has sent its keying. -/
  granted : ∀ (i : Nat) (e : Errand), d.errands[i]? = some e → e.progress.hasGrant = true →
    ∃ x ∈ log, x.errand = i
  /-- No request has sent two keyings. -/
  once : (log.map (·.errand)).Nodup

namespace Recorded

variable {members : List Address} {first : Chain} {address : Address} {d d' : Desk} {m : Move}
  {log sent : List Sending}

/-- At first nothing was sent. -/
theorem new (s : KeyService LocalLedger) (requests : List KeyRequest) :
    (Desk.new s requests).Recorded s.ledger.chain s.relay.address [] where
  relay := rfl
  chain := rfl
  answers := rfl
  keying := by nofun
  granted i e he hgrant := by
    rw [asked_of_new he] at hgrant
    cases hgrant
  once := List.nodup_nil

/-- A step that sends nothing is recorded by nothing. -/
theorem quiet {e : Errand} {p : Progress} {s : KeyService LocalLedger}
    (h : d.Recorded first address log) (he : d.errands[m.errand]? = some e)
    (hrelay : s.relay.address = d.service.relay.address)
    (hchain : s.ledger.chain = d.service.ledger.chain) (hgrant : p.hasGrant = e.progress.hasGrant)
    (hopen : e.progress.isOpen = false → p.isOpen = false) :
    (⟨s, d.errands.set m.errand ⟨e.request, p⟩⟩ : Desk).Recorded first address log := by
  refine ⟨hrelay.trans h.relay, hchain.trans h.chain, h.answers, ?_, ?_, h.once⟩
  · intro x hx
    obtain ⟨f, hf, hfopen, hfgrant, hop⟩ := h.keying x hx
    obtain ⟨f', hf', ⟨-, rfl, rfl⟩ | ⟨-, rfl⟩⟩ := List.exists_getElem?_set ⟨e.request, p⟩ he hf
    · exact ⟨_, hf', hopen hfopen, hgrant ▸ hfgrant, hop⟩
    · exact ⟨_, hf', hfopen, hfgrant, hop⟩
  · intro i f hf hfgrant
    rcases List.getElem?_set_eq_some hf with ⟨rfl, rfl⟩ | ⟨-, hf⟩
    · exact h.granted m.errand e he (hgrant ▸ hfgrant)
    · exact h.granted i f hf hfgrant

/-- A request that may still send a keying has sent none. -/
theorem errand_ne_of_isOpen {e : Errand} (h : d.Recorded first address log)
    (he : d.errands[m.errand]? = some e) (hopen : e.progress.isOpen = true) :
    ∀ x ∈ log, m.errand ≠ x.errand := by
  intro x hx heq
  obtain ⟨f, hf, hclosed, -⟩ := h.keying x hx
  rw [← heq, he] at hf
  cases hf
  exact absurd (hclosed.symm.trans hopen) Bool.false_ne_true

/-- A step that sends a keying is recorded by it. -/
theorem concat {e : Errand} {p : Progress} {s : KeyService LocalLedger} {x : Sending}
    (h : d.Recorded first address log) (he : d.errands[m.errand]? = some e)
    (hmay : e.progress.isOpen = true) (hrelay : s.relay.address = d.service.relay.address)
    (hx : x.errand = m.errand)
    (hchain : s.ledger.chain = d.service.ledger.chain.after [x.delivery])
    (hanswer : [(x.delivery.tx, x.response)] = d.service.ledger.chain.answers [x.delivery])
    (hopen : p.isOpen = false) (hgrant : p.hasGrant = true ↔ x.response.code = 0)
    (hop : x.delivery.tx.op =
      .key ⟨.ofTicket e.request.ticket, address, e.request.publicKey, e.request.commitment⟩) :
    (⟨s, d.errands.set m.errand ⟨e.request, p⟩⟩ : Desk).Recorded first address (log ++ [x]) := by
  have hfresh := h.errand_ne_of_isOpen he hmay
  have hnew := List.getElem?_set_of_some ⟨e.request, p⟩ he
  refine ⟨hrelay.trans h.relay, ?_, ?_, ?_, ?_, ?_⟩
  · rw [List.map_append, Chain.after_append, ← h.chain]
    exact hchain
  · rw [List.map_append, List.map_append, Chain.answers_append, h.answers, ← h.chain]
    exact congrArg _ hanswer
  · intro y hy
    rcases List.mem_append.mp hy with hy | hy
    · obtain ⟨f, hf, hrest⟩ := h.keying y hy
      refine ⟨f, ?_, hrest⟩
      rw [List.getElem?_set_ne (hfresh y hy)]
      exact hf
    · cases List.mem_singleton.mp hy
      rw [hx]
      exact ⟨_, hnew, hopen, hgrant, hop⟩
  · intro i f hf hfgrant
    rcases List.getElem?_set_eq_some hf with ⟨rfl, rfl⟩ | ⟨-, hf⟩
    · exact ⟨x, List.mem_append_right _ List.mem_cons_self, hx⟩
    · obtain ⟨y, hy, hyi⟩ := h.granted i f hf hfgrant
      exact ⟨y, List.mem_append_left _ hy, hyi⟩
  · rw [List.map_append, List.map_singleton, List.nodup_append]
    refine ⟨h.once, List.nodup_singleton _, ?_⟩
    intro i hi j hj heq
    obtain ⟨y, hy, rfl⟩ := List.mem_map.mp hi
    rw [List.mem_singleton.mp hj, hx] at heq
    exact hfresh y hy heq.symm

/-- A move records what it has sent. -/
theorem step (h : d.Recorded first address log) (horderly : d.Orderly members)
    (hmoved : d.Moved m sent d') : d'.Recorded first address (log ++ sent) := by
  cases hmoved with
  | idle =>
    rw [List.append_nil]
    exact h
  | @moved e ds p s he hadvanced =>
    have hchain : s.ledger.chain = d.service.ledger.chain.after ds := hadvanced.chain
    rcases hadvanced.quiet_or_sends with ⟨rfl, hgrant, hopen⟩ | ⟨a, hp, rfl, hopen, hgrant⟩
    · rw [List.map_nil, List.append_nil]
      exact h.quiet he hadvanced.address hchain hgrant hopen
    · have haddress : a.address = .ofTicket e.request.ticket :=
        horderly.placed m.errand e he a.address (by rw [hp]; rfl)
      rw [List.map_singleton]
      refine h.concat he (by rw [hp]; rfl) hadvanced.address rfl hchain rfl hopen hgrant ?_
      rw [← haddress, ← h.relay]
      rfl

end Recorded

/-- The links that went out from a desk with a page of claims, beside those that had gone out
before. -/
structure Linked (base : String) (before : List ClaimLink) (d : Desk) (links : List ClaimLink) :
    Prop where
  /-- The page is the same. -/
  page : d.service.claimBase = base
  /-- The links went out after those before. -/
  sent : d.service.outbox.sent = before ++ links
  /-- Every link is that of a request that has ended well. -/
  each : ∀ l ∈ links, ∃ (i : Nat) (e : Errand), d.errands[i]? = some e ∧
    e.progress = .ended (.ok l.attendee.address) ∧ l.IsOf base e.request
  /-- Every request that has ended well has a link. -/
  all : ∀ (i : Nat) (e : Errand) (b : Address), d.errands[i]? = some e →
    e.progress = .ended (.ok b) → ∃ l ∈ links, l.IsOf base e.request
  /-- No two links went out for one address. -/
  once : (links.map (·.attendee.address)).Nodup

namespace Linked

variable {members : List Address} {base : String} {before links : List ClaimLink} {d d' : Desk}
  {m : Move} {sent : List Sending}

/-- At first no link went out. -/
theorem new (s : KeyService LocalLedger) (requests : List KeyRequest) :
    (Desk.new s requests).Linked s.claimBase s.outbox.sent [] where
  page := rfl
  sent := (List.append_nil _).symm
  each := by nofun
  all i e b he hended := by
    rw [asked_of_new he] at hended
    cases hended
  once := List.nodup_nil

/-- A step that sends no link keeps what is said of links. -/
theorem quiet {e : Errand} {p : Progress} {s : KeyService LocalLedger}
    (h : d.Linked base before links) (he : d.errands[m.errand]? = some e)
    (hbase : s.claimBase = d.service.claimBase) (hsent : s.outbox.sent = d.service.outbox.sent)
    (hended : ∀ b, p = .ended (.ok b) ↔ e.progress = .ended (.ok b)) :
    (⟨s, d.errands.set m.errand ⟨e.request, p⟩⟩ : Desk).Linked base before links := by
  refine ⟨hbase.trans h.page, hsent.trans h.sent, ?_, ?_, h.once⟩
  · intro l hl
    obtain ⟨i, f, hf, hfp, hof⟩ := h.each l hl
    obtain ⟨f', hf', ⟨-, rfl, rfl⟩ | ⟨-, rfl⟩⟩ := List.exists_getElem?_set ⟨e.request, p⟩ he hf
    · exact ⟨i, _, hf', (hended _).mpr hfp, hof⟩
    · exact ⟨i, _, hf', hfp, hof⟩
  · intro i f b hf hfp
    rcases List.getElem?_set_eq_some hf with ⟨rfl, rfl⟩ | ⟨-, hf⟩
    · exact h.all m.errand e b he ((hended b).mp hfp)
    · exact h.all i f b hf hfp

/-- A request that was granted its key and has not ended has an address that no link was sent to. -/
theorem address_ne_of_granted {e : Errand} {a : Attendee} (h : d.Linked base before links)
    (horderly : d.Orderly members) (he : d.errands[m.errand]? = some e)
    (hp : e.progress = .granted a) :
    ∀ l ∈ links, l.attendee.address ≠ .ofTicket e.request.ticket := by
  intro l hl hsame
  obtain ⟨i, f, hf, hfp, hof⟩ := h.each l hl
  have hgrant : e.progress.hasGrant = true := by rw [hp]; rfl
  have hfgrant : f.progress.hasGrant = true := by rw [hfp]; rfl
  cases horderly.alone i m.errand f e hf he hfgrant hgrant (hof.address.symm.trans hsame)
  rw [he] at hf
  cases hf
  rw [hp] at hfp
  cases hfp

/-- A step that sends a link adds it. -/
theorem concat {e : Errand} {a : Attendee} {s : KeyService LocalLedger} {l : ClaimLink}
    (h : d.Linked base before links) (horderly : d.Orderly members)
    (he : d.errands[m.errand]? = some e) (hp : e.progress = .granted a)
    (hbase : s.claimBase = d.service.claimBase)
    (hsent : s.outbox.sent = d.service.outbox.sent ++ [l]) (hlink : l.IsOf base e.request) :
    (⟨s, d.errands.set m.errand ⟨e.request, .ended (.ok l.attendee.address)⟩⟩ : Desk).Linked base
      before (links ++ [l]) := by
  have hnew := List.getElem?_set_of_some ⟨e.request, .ended (.ok l.attendee.address)⟩ he
  refine ⟨hbase.trans h.page, ?_, ?_, ?_, ?_⟩
  · rw [← List.append_assoc, ← h.sent]
    exact hsent
  · intro k hk
    rcases List.mem_append.mp hk with hk | hk
    · obtain ⟨i, f, hf, hfp, hof⟩ := h.each k hk
      refine ⟨i, f, ?_, hfp, hof⟩
      rw [List.getElem?_set_ne]
      · exact hf
      · rintro rfl
        rw [he] at hf
        cases hf
        rw [hp] at hfp
        cases hfp
    · cases List.mem_singleton.mp hk
      exact ⟨m.errand, _, hnew, rfl, hlink⟩
  · intro i f b hf hfp
    rcases List.getElem?_set_eq_some hf with ⟨rfl, rfl⟩ | ⟨-, hf⟩
    · exact ⟨_, List.mem_append_right _ List.mem_cons_self, hlink⟩
    · obtain ⟨k, hk, hof⟩ := h.all i f b hf hfp
      exact ⟨k, List.mem_append_left _ hk, hof⟩
  · rw [List.map_append, List.map_singleton, List.nodup_append]
    refine ⟨h.once, List.nodup_singleton _, ?_⟩
    intro b hb b' hb' heq
    obtain ⟨k, hk, rfl⟩ := List.mem_map.mp hb
    rw [List.mem_singleton.mp hb', hlink.address] at heq
    exact h.address_ne_of_granted horderly he hp k hk heq

/-- A move sends one link or none. -/
theorem step (h : d.Linked base before links) (horderly : d.Orderly members)
    (hmoved : d.Moved m sent d') :
    d'.Linked base before links ∨ ∃ l, d'.Linked base before (links ++ [l]) := by
  cases hmoved with
  | idle => exact Or.inl h
  | @moved e ds p s he hadvanced =>
    obtain ⟨hbase, ⟨hsent, hended⟩ | ⟨a, hp, rfl, hsent⟩⟩ := hadvanced.sent_or_not
    · exact Or.inl (h.quiet he hbase hsent hended)
    · have haddress : a.address = .ofTicket e.request.ticket :=
        horderly.placed m.errand e he a.address (by rw [hp]; rfl)
      have hlink : (d.service.claimLink e.request a).IsOf base e.request := by
        refine ⟨haddress, rfl, ?_⟩
        rw [← h.page]
        rfl
      exact Or.inr ⟨_, h.concat horderly he hp hbase hsent hlink⟩

end Linked

/-- The desk after moves in two parts. -/
theorem run_append (d : Desk) (moves later : List Move) :
    d.run (moves ++ later) = (d.run moves).run later :=
  List.foldl_append

/-- The desk after moves and one more. -/
theorem run_concat (d : Desk) (moves : List Move) (m : Move) :
    d.run (moves ++ [m]) = (d.run moves).step m :=
  run_append d moves [m]

/-- What moves and one more have sent. -/
theorem log_concat (d : Desk) (moves : List Move) (m : Move) :
    d.log (moves ++ [m]) = d.log moves ++ (d.run moves).sends m := by
  induction moves generalizing d with
  | nil => exact List.append_nil _
  | cons n moves ih =>
    rw [List.cons_append, log, ih, log, List.append_assoc]
    rfl

section Moved

variable {d d' : Desk} {m : Move} {sent : List Sending} {i : Nat}

/-- A move leaves the requests. -/
theorem Moved.requests (h : d.Moved m sent d') :
    d'.errands.map (·.request) = d.errands.map (·.request) := by
  cases h with
  | idle => rfl
  | @moved e ds p s he hadvanced =>
    apply List.ext_getElem?
    intro j
    rw [List.getElem?_map, List.getElem?_map]
    by_cases hj : m.errand = j
    · rw [← hj, List.getElem?_set_of_some _ he, he]
      rfl
    · rw [List.getElem?_set_ne hj]

/-- A request that was granted its key stays one. -/
theorem Moved.hasGrant (h : d.Moved m sent d') {e : Errand} (he : d.errands[i]? = some e)
    (hgrant : e.progress.hasGrant = true) :
    ∃ f, d'.errands[i]? = some f ∧ f.progress.hasGrant = true := by
  cases h with
  | idle => exact ⟨e, he, hgrant⟩
  | @moved e' ds p s he' hadvanced =>
    obtain ⟨f, hf, ⟨-, rfl, rfl⟩ | ⟨-, rfl⟩⟩ := List.exists_getElem?_set ⟨e'.request, p⟩ he' he
    · refine ⟨_, hf, ?_⟩
      by_contra hnone
      have hbefore := hadvanced.hasGrant_of_eq_false (Bool.eq_false_iff.mpr hnone)
      exact absurd (hbefore.symm.trans hgrant) Bool.false_ne_true
    · exact ⟨_, hf, hgrant⟩

/-- A request that was granted its key was granted it before the last move, or it has just been and
will now send its link. -/
theorem Moved.granted (h : d.Moved m sent d') {f : Errand} (hf : d'.errands[i]? = some f)
    (hgrant : f.progress.hasGrant = true) :
    (∃ e, d.errands[i]? = some e ∧ e.progress.hasGrant = true) ∨
      ∃ q a, d'.errands[i]? = some ⟨q, .granted a⟩ := by
  cases h with
  | idle => exact Or.inl ⟨f, hf, hgrant⟩
  | @moved e ds p s he hadvanced =>
    rcases List.getElem?_set_eq_some hf with ⟨rfl, rfl⟩ | ⟨-, hold⟩
    · by_cases hbefore : e.progress.hasGrant = true
      · exact Or.inl ⟨e, he, hbefore⟩
      · obtain ⟨a, rfl⟩ := hadvanced.granted_of_hasGrant hgrant (Bool.eq_false_iff.mpr hbefore)
        exact Or.inr ⟨e.request, a, hf⟩
    · exact Or.inl ⟨f, hold, hgrant⟩

/-- A move of a request that is not granted its key leaves every entry of the ledger but the account
of the relay. -/
theorem Moved.get? {members : List Address} (h : d.Moved m sent d')
    (hs : d.service.ledger.chain.store.Sound members)
    (hgrant : ∀ f, d'.errands[m.errand]? = some f → f.progress.hasGrant = false) {k : Bytes}
    (hk : k ≠ StoreKey.account d.service.relay.address) :
    d'.service.ledger.chain.store.get? k = d.service.ledger.chain.store.get? k := by
  cases h with
  | idle => rfl
  | @moved e ds p s he hadvanced =>
    have hnone : p.hasGrant = false := hgrant _ (List.getElem?_set_of_some _ he)
    exact hadvanced.get?_of_hasGrant hs hnone hk

end Moved

section Run

variable {members : List Address} {s : KeyService LocalLedger}

/-- A desk stays orderly. -/
theorem orderly_run (hs : s.ledger.chain.store.Sound members) (requests : List KeyRequest)
    (moves : List Move) : ((new s requests).run moves).Orderly members := by
  induction moves using List.reverseRecOn with
  | nil => exact .new hs requests
  | append_singleton moves m ih =>
    rw [run_concat]
    exact ih.step (moved ih.sound m)

/-- Every move does what it does at an orderly desk. -/
theorem moved_run (hs : s.ledger.chain.store.Sound members) (requests : List KeyRequest)
    (moves : List Move) (m : Move) : ((new s requests).run moves).Moved m
      (((new s requests).run moves).sends m) ((new s requests).run (moves ++ [m])) := by
  rw [run_concat]
  exact moved (orderly_run hs requests moves).sound m

/-- Everything that is sent is recorded. -/
theorem recorded_run (hs : s.ledger.chain.store.Sound members) (requests : List KeyRequest)
    (moves : List Move) : ((new s requests).run moves).Recorded s.ledger.chain s.relay.address
      ((new s requests).log moves) := by
  induction moves using List.reverseRecOn with
  | nil => exact .new s requests
  | append_singleton moves m ih =>
    rw [log_concat]
    exact ih.step (orderly_run hs requests moves) (moved_run hs requests moves m)

/-- The links that go out are those of requests that ended well. -/
theorem linked_run (hs : s.ledger.chain.store.Sound members) (requests : List KeyRequest)
    (moves : List Move) :
    ∃ links, ((new s requests).run moves).Linked s.claimBase s.outbox.sent links := by
  induction moves using List.reverseRecOn with
  | nil => exact ⟨[], .new s requests⟩
  | append_singleton moves m ih =>
    obtain ⟨links, hlinks⟩ := ih
    rcases hlinks.step (orderly_run hs requests moves) (moved_run hs requests moves m)
      with hsame | ⟨l, hmore⟩
    · exact ⟨links, hsame⟩
    · exact ⟨links ++ [l], hmore⟩

/-- The requests stay the same. -/
theorem requests_run (hs : s.ledger.chain.store.Sound members) (requests : List KeyRequest)
    (moves : List Move) : ((new s requests).run moves).errands.map (·.request) = requests := by
  induction moves using List.reverseRecOn with
  | nil =>
    change (requests.map fun q => (⟨q, .asked⟩ : Errand)).map (·.request) = requests
    rw [List.map_map]
    exact List.map_id requests
  | append_singleton moves m ih => rw [(moved_run hs requests moves m).requests, ih]

/-- What a request has reached it has reached in the course of more moves. -/
theorem Reaches.append {d : Desk} {moves : List Move} {i : Nat} (h : d.Reaches moves i)
    (later : List Move) : d.Reaches (moves ++ later) i := by
  obtain ⟨before, rest, q, a, rfl, hfound⟩ := h
  exact ⟨before, rest ++ later, q, a, List.append_assoc .., hfound⟩

/-- A request has reached the delivery of its link if it was granted its key. -/
theorem reaches_iff (hs : s.ledger.chain.store.Sound members) (requests : List KeyRequest)
    (moves : List Move) (i : Nat) : (new s requests).Reaches moves i ↔
      ∃ e, ((new s requests).run moves).errands[i]? = some e ∧ e.progress.hasGrant = true := by
  induction moves using List.reverseRecOn with
  | nil =>
    constructor
    · rintro ⟨before, later, q, a, heq, hfound⟩
      obtain ⟨rfl, rfl⟩ := List.append_eq_nil_iff.mp heq.symm
      cases asked_of_new hfound
    · rintro ⟨e, he, hgrant⟩
      rw [asked_of_new he] at hgrant
      cases hgrant
  | append_singleton moves m ih =>
    have hmoved := moved_run hs requests moves m
    constructor
    · rintro ⟨before, later, q, a, heq, hfound⟩
      rcases List.eq_nil_or_concat' later with rfl | ⟨rest, n, rfl⟩
      · rw [List.append_nil] at heq
        rw [heq]
        exact ⟨_, hfound, rfl⟩
      · rw [← List.append_assoc] at heq
        obtain ⟨rfl, -⟩ := List.append_singleton_inj.mp heq
        obtain ⟨e, he, hgrant⟩ := ih.mp ⟨before, rest, q, a, rfl, hfound⟩
        exact hmoved.hasGrant he hgrant
    · rintro ⟨f, hf, hgrant⟩
      rcases hmoved.granted hf hgrant with hbefore | ⟨q, a, hgranted⟩
      · exact (ih.mpr hbefore).append [m]
      · exact ⟨moves ++ [m], [], q, a, (List.append_nil _).symm, hgranted⟩

/-- What becomes of requests that were made to a service and moved on in some order. -/
structure GrantsOnce (s : KeyService LocalLedger) (requests : List KeyRequest) (moves : List Move) :
    Prop where
  /-- The requests stay the same. -/
  kept : ((new s requests).run moves).errands.map (·.request) = requests
  /-- The ledger went on by what was sent and by nothing else, and answered as it does. -/
  ledger : ((new s requests).run moves).service.ledger.chain =
      s.ledger.chain.after (((new s requests).log moves).map (·.delivery)) ∧
    ((new s requests).log moves).map (fun x => (x.delivery.tx, x.response)) =
      s.ledger.chain.answers (((new s requests).log moves).map (·.delivery))
  /-- What was sent for a request is the keying of the attendee of its ticket, with its key and the
  commitment to its secret. -/
  keying : ∀ x ∈ (new s requests).log moves, ∃ q, requests[x.errand]? = some q ∧
    x.delivery.tx.op =
      .key ⟨.ofTicket q.ticket, s.relay.address, q.publicKey, .ofSecret (Bytes.ofText q.secret)⟩
  /-- No request has sent two keyings. -/
  once : (((new s requests).log moves).map (·.errand)).Nodup
  /-- A request has reached the delivery of its link if and only if its own keying succeeded. -/
  reaches_iff : ∀ i, (new s requests).Reaches moves i ↔
    ∃ x ∈ (new s requests).log moves, x.errand = i ∧ x.response.code = 0
  /-- Of all requests for one attendee one at most has reached the delivery of its link. -/
  alone : ∀ i j q r, requests[i]? = some q → requests[j]? = some r →
    Address.ofTicket q.ticket = .ofTicket r.ticket → (new s requests).Reaches moves i →
    (new s requests).Reaches moves j → i = j
  /-- The attendee of a request that has reached it has the key of the request and a commitment that
  the secret of the request opens. -/
  held : ∀ i q, requests[i]? = some q → (new s requests).Reaches moves i →
    ∃ y, (Records.attendee (.ofTicket q.ticket)).eval
        ((new s requests).run moves).service.ledger.chain.store = .ok (some y) ∧
      y.pubKey = some q.publicKey ∧ Custody.reveals y q.secret = true
  /-- A request that has ended has reached it if and only if it ended well or with the error that the
  link did not go out. -/
  ended : ∀ (i : Nat) (e : Errand) (result : Except ServiceError Address),
    ((new s requests).run moves).errands[i]? = some e → e.progress = .ended result →
    ((new s requests).Reaches moves i ↔
      (∃ b, result = .ok b) ∨ ∃ reason, result = .error (.delivery reason))
  /-- A request that has ended well answers with the address of its ticket. -/
  answer : ∀ (i : Nat) (e : Errand) (b : Address), ((new s requests).run moves).errands[i]? = some e →
    e.progress = .ended (.ok b) → b = .ofTicket e.request.ticket
  /-- The links that went out are those of the requests that have ended well, each to the attendee of
  the ticket and with the secret of the request, and no two of them to one attendee. -/
  links : ∃ links, ((new s requests).run moves).Linked s.claimBase s.outbox.sent links
  /-- A step of a request that does not reach the delivery of its link leaves every entry of the
  ledger but the account of the relay. -/
  others : ∀ before m later, moves = before ++ m :: later → ¬(new s requests).Reaches moves m.errand →
    ∀ k, k ≠ StoreKey.account s.relay.address →
      ((new s requests).run (before ++ [m])).service.ledger.chain.store.get? k =
        ((new s requests).run before).service.ledger.chain.store.get? k

/-- A request at a desk is the one that was made. -/
theorem exists_errand (hs : s.ledger.chain.store.Sound members) {requests : List KeyRequest}
    (moves : List Move) {i : Nat} {q : KeyRequest} : requests[i]? = some q ↔
      ∃ e, ((new s requests).run moves).errands[i]? = some e ∧ e.request = q := by
  have hkept := requests_run hs requests moves
  conv_lhs => rw [← hkept, List.getElem?_map]
  exact Option.map_eq_some_iff

/-- Requests to a service over a ledger that can be held are granted their keys once. -/
theorem grantsOnce_of_sound (hs : s.ledger.chain.store.Sound members) (requests : List KeyRequest)
    (moves : List Move) : GrantsOnce s requests moves := by
  have horderly := orderly_run hs requests moves
  have hrecorded := recorded_run hs requests moves
  have hreaches := reaches_iff hs requests moves
  have hrequest {i : Nat} {q : KeyRequest} : requests[i]? = some q ↔ ∃ e,
      ((new s requests).run moves).errands[i]? = some e ∧ e.request = q := exists_errand hs moves
  have hgrant {i : Nat} {e : Errand} (he : ((new s requests).run moves).errands[i]? = some e)
      (hi : (new s requests).Reaches moves i) : e.progress.hasGrant = true := by
    obtain ⟨f, hf, hgranted⟩ := (hreaches i).mp hi
    rw [he] at hf
    cases hf
    exact hgranted
  constructor
  · exact requests_run hs requests moves
  · exact ⟨hrecorded.chain, hrecorded.answers⟩
  · intro x hx
    obtain ⟨e, he, -, -, hop⟩ := hrecorded.keying x hx
    exact ⟨e.request, hrequest.mpr ⟨e, he, rfl⟩, hop⟩
  · exact hrecorded.once
  · intro i
    rw [hreaches]
    constructor
    · rintro ⟨e, he, hgrant⟩
      obtain ⟨x, hx, rfl⟩ := hrecorded.granted i e he hgrant
      obtain ⟨f, hf, -, hcode, -⟩ := hrecorded.keying x hx
      rw [he] at hf
      cases hf
      exact ⟨x, hx, rfl, hcode.mp hgrant⟩
    · rintro ⟨x, hx, rfl, hcode⟩
      obtain ⟨e, he, -, hgrant, -⟩ := hrecorded.keying x hx
      exact ⟨e, he, hgrant.mpr hcode⟩
  · intro i j q r hq hr heq hi hj
    obtain ⟨e, he, rfl⟩ := hrequest.mp hq
    obtain ⟨f, hf, rfl⟩ := hrequest.mp hr
    exact horderly.alone i j e f he hf (hgrant he hi) (hgrant hf hj) heq
  · intro i q hq hi
    obtain ⟨e, he, rfl⟩ := hrequest.mp hq
    obtain ⟨y, hy, hkey, hcommitment⟩ := horderly.held i e he (hgrant he hi)
    refine ⟨y, ?_, hkey, ?_⟩
    · rw [Chain.attendee_eval horderly.sound, hy]
    · rw [Custody.reveals, hcommitment]
      exact Commitment.ofSecret_opensWith _
  · intro i e result he hended
    constructor
    · intro hi
      have hgranted := hgrant he hi
      rw [hended] at hgranted
      cases result with
      | ok b => exact Or.inl ⟨b, rfl⟩
      | error error =>
        cases error with
        | delivery reason => exact Or.inr ⟨reason, rfl⟩
        | _ => cases hgranted
    · intro hresult
      refine (hreaches i).mpr ⟨e, he, ?_⟩
      rw [hended]
      rcases hresult with ⟨b, rfl⟩ | ⟨reason, rfl⟩
      · rfl
      · rfl
  · intro i e b he hended
    exact horderly.placed i e he b (by rw [hended]; rfl)
  · exact linked_run hs requests moves
  · rintro before m later rfl hnot k hk
    have hmoved := moved_run hs requests before m
    rw [← (recorded_run hs requests before).relay] at hk
    refine hmoved.get? (orderly_run hs requests before).sound ?_ hk
    intro f hf
    by_contra hgranted
    have hreached := (reaches_iff hs requests (before ++ [m]) m.errand).mpr
      ⟨f, hf, eq_true_of_ne_false hgranted⟩
    apply hnot
    rw [List.append_cons]
    exact hreached.append later

/-- Requests to a service over a ledger in any state that a run of operations that fit reaches from a
sized genesis are granted their keys once, in whatever order they take their steps. -/
theorem grantsOnce {chainId : String} {g : Genesis} {c : Chain} {ds : List Delivery} (hg : g.Sized)
    (h : Chain.ofGenesis chainId g = .ok c) (hds : ∀ d ∈ ds, Fits d.tx.op)
    (hs : s.ledger.chain = c.after ds) (requests : List KeyRequest) (moves : List Move) :
    GrantsOnce s requests moves := by
  have hsound := Chain.after_sound hg h hds
  rw [← hs] at hsound
  exact grantsOnce_of_sound hsound requests moves

end Run

end Desk

namespace SmallLedger

/-- The key service over the small ledger. -/
def service : KeyService LocalLedger := ⟨relay, ⟨chain, 0⟩, .empty, "claim"⟩

/-- Two requests for the same attendee. -/
def rivals : List KeyRequest := [⟨"1", attendeeKey, "s"⟩, ⟨"1", redeemKey, "t"⟩]

/-- Both requests find the attendee, and the second one is the first to be granted its key. -/
def race : List Move :=
  [⟨0, 0, none⟩, ⟨1, 0, none⟩, ⟨1, 1, none⟩, ⟨0, 2, none⟩, ⟨1, 3, none⟩]

/-- The desk of the small ledger with both requests. -/
def desk : Desk := .new service rivals

end SmallLedger

/-- Of two requests that both find the attendee without a key one is granted its key and sends the
only link. -/
theorem Desk.grantsOnce_race :
    SmallLedger.genesis.Sized ∧
      Chain.ofGenesis "test-chain" SmallLedger.genesis = .ok SmallLedger.chain ∧
      GrantsOnce SmallLedger.service SmallLedger.rivals SmallLedger.race ∧
      (SmallLedger.desk.run (SmallLedger.race.take 2)).errands.map (·.progress.isOpen) =
        [true, true] ∧
      ((SmallLedger.desk.run SmallLedger.race).errands.map (·.progress.hasGrant),
        (SmallLedger.desk.run SmallLedger.race).service.outbox.sent.map (·.secret)) =
        ([false, true], ["t"]) := by
  have hfits : ∀ d ∈ ([] : List Delivery), Fits d.tx.op := fun d hd => absurd hd List.not_mem_nil
  have hchain : SmallLedger.service.ledger.chain = SmallLedger.chain.after [] := by
    rw [Chain.after_nil, SmallLedger.service]
  have hgrants := grantsOnce SmallLedger.sized SmallLedger.ofGenesis_eq hfits hchain
    SmallLedger.rivals SmallLedger.race
  refine ⟨SmallLedger.sized, SmallLedger.ofGenesis_eq, hgrants, ?_, ?_⟩
  · decide +kernel
  · decide +kernel

end ConferenceLedger

import ConferenceLedger.Proofs.Relay.Basic
import ConferenceLedger.Relay.Calls
import Mathlib.Data.List.Chain
import Mathlib.Data.List.ModifyLast
import Mathlib.Data.List.Nodup

/-!
# One transaction at a time

Many calls share one sequence, and a call reads and settles it only in its turn. Every transaction
that is sent makes an exchange with what comes back for it, and only when nothing more will come
back is the next one sent. Its sequence is the one that the exchange before it leads to.
-/

namespace ConferenceLedger

/-- A transaction that a call sent, and what came back for it. -/
structure Exchange where
  /-- The call. -/
  call : Nat
  /-- The transaction. -/
  tx : SignedTx
  /-- The answer to the transaction, once it has come. -/
  reply : Option (Except ClientError TxResponse)
  /-- The answer to the question for the account, once it has come. -/
  lookup : Option (Except ClientError AccountInfo)

namespace Exchange

/-- Whether nothing more will come back: the transaction was answered, and so was the question for
the account if the answer was that the transaction carried the wrong sequence. -/
def isSettled (e : Exchange) : Bool :=
  match e.reply with
  | none => false
  | some (.error _) => true
  | some (.ok response) => response.code ≠ LedgerError.invalidSequenceCode || e.lookup.isSome

/-- The sequence that an exchange leads to. -/
def next (e : Exchange) : UInt64 :=
  match e.reply with
  | some (.ok response) =>
    if response.code = LedgerError.invalidSequenceCode then
      match e.lookup with
      | some (.ok info) => info.sequence
      | _ => e.tx.sequence
    else if response.executed then e.tx.sequence + 1 else e.tx.sequence
  | _ => e.tx.sequence

/-- An exchange that began when the one before it was settled, with the sequence that this led
to. -/
structure Follows (e f : Exchange) : Prop where
  /-- The exchange before is settled. -/
  settled : e.isSettled = true
  /-- The sequence is the one it leads to. -/
  sequence : f.tx.sequence = e.next

/-- Whether the answer, if it has come, is of an executed transaction with the right sequence. -/
def Advances (e : Exchange) : Prop :=
  ∀ answer, e.reply = some answer → ∃ response, answer = .ok response ∧
    response.executed = true ∧ response.code ≠ LedgerError.invalidSequenceCode

/-- The sequence after exchanges that began with the sequence `first`. -/
def upcoming (first : UInt64) (log : List Exchange) : UInt64 := (log.getLast?.map next).getD first

/-- After a settled exchange that advances, the sequence is one more. -/
theorem next_of_advances {e : Exchange} (h : e.Advances) (hsettled : e.isSettled = true) :
    e.next = e.tx.sequence + 1 := by
  cases hreply : e.reply with
  | none =>
    rw [isSettled, hreply] at hsettled
    cases hsettled
  | some answer =>
    obtain ⟨response, rfl, hexecuted, hcode⟩ := h answer hreply
    simp only [next, hreply, if_neg hcode, hexecuted, if_true]

/-- Exchanges that advance and follow each other carry consecutive sequences. -/
theorem sequences_of_advances {first : UInt64} {log : List Exchange}
    (hchain : log.IsChain Follows) (hfirst : ∀ e ∈ log.head?, e.tx.sequence = first)
    (h : ∀ e ∈ log, e.Advances) :
    log.map (·.tx.sequence) = (List.range log.length).map fun i => first + UInt64.ofNat i := by
  induction log generalizing first with
  | nil => rfl
  | cons e log ih =>
    obtain ⟨hhead, htail⟩ := List.isChain_cons.mp hchain
    have he : e.tx.sequence = first := hfirst e rfl
    have hrest : ∀ f ∈ log.head?, f.tx.sequence = first + 1 := by
      intro f hf
      obtain ⟨hsettled, hsequence⟩ := hhead f hf
      rw [hsequence, next_of_advances (h e List.mem_cons_self) hsettled, he]
    rw [List.map_cons, he, ih htail hrest fun f hf => h f (List.mem_cons_of_mem e hf),
      List.length_cons, List.range_succ_eq_map, List.map_cons, List.map_map]
    congr 1
    · exact (UInt64.add_zero first).symm
    · apply List.map_congr_left
      intro i _
      rw [Function.comp_apply, Nat.succ_eq_add_one, UInt64.ofNat_add, UInt64.add_assoc,
        UInt64.add_comm 1]
      rfl

end Exchange

namespace RelayError

/-- Whether the error is that of a call that was refused before its turn. -/
def isRefusal : RelayError → Bool
  | invalidRequest _ => true
  | busy _ => true
  | _ => false

end RelayError

namespace CallPhase

/-- Whether the call has the turn. -/
def isActive : CallPhase → Bool
  | broadcasting _ => true
  | resyncing _ => true
  | _ => false

/-- Whether the call is one that has sent its transaction. -/
def hasSent : CallPhase → Bool
  | waiting _ => false
  | broadcasting _ => true
  | resyncing error => !error.isRefusal
  | ended (.ok ()) => true
  | ended (.error error) => !error.isRefusal
  | dropped => false

end CallPhase

/-- An answer that ends a call settles the exchange, which leads to the sequence that the relay goes
on with. -/
theorem Relay.settle_ended {r : Relay} {answer : Except ClientError TxResponse} {e : Exchange}
    {result : Except RelayError Unit} {n : UInt64} (h : r.settle answer = .ended result n)
    (hsequence : e.tx.sequence = r.sequence) :
    ({ e with reply := some answer } : Exchange).isSettled = true ∧
      ({ e with reply := some answer } : Exchange).next = n ∧
      (CallPhase.ended result).hasSent = true := by
  have hsettles := r.settles answer
  rw [h] at hsettles
  cases hsettles with
  | failed failure => exact ⟨rfl, hsequence, rfl⟩
  | answered hcode hok herror =>
    refine ⟨?_, ?_, ?_⟩
    · simp [Exchange.isSettled, hcode]
    · simp only [Exchange.next, if_neg hcode, hsequence]
    · cases result with
      | ok => rfl
      | error error => rcases herror error rfl with rfl | rfl <;> rfl

namespace Calls

/-- The exchanges when an event has happened to the calls. -/
def noted (c : Calls) (log : List Exchange) : CallEvent → List Exchange
  | .acquire call =>
    match c.holder, c.phase? call with
    | none, some (.waiting q) => log ++ [⟨call, c.relay.transaction q, none, none⟩]
    | _, _ => log
  | .reply answer =>
    match c.holder.bind c.phase? with
    | some (.broadcasting _) => log.modifyLast fun e => { e with reply := some answer }
    | _ => log
  | .lookup answer =>
    match c.holder.bind c.phase? with
    | some (.resyncing _) => log.modifyLast fun e => { e with lookup := some answer }
    | _ => log
  | .expire _ => log
  | .abandon _ => log

/-- The exchanges when events have happened, after those that there were before. -/
def notedAll (c : Calls) (log : List Exchange) : List CallEvent → List Exchange
  | [] => log
  | event :: events => (c.step event).notedAll (c.noted log event) events

/-- The exchanges of a run, first ones first. -/
def exchanges (c : Calls) (events : List CallEvent) : List Exchange := c.notedAll [] events

/-- What an event makes of calls and their exchanges, unless a caller gives a call up. -/
inductive Happens (c : Calls) (log : List Exchange) : CallEvent → Calls → List Exchange → Prop where
  /-- An event that cannot happen changes nothing. -/
  | nothing (event : CallEvent) : Happens c log event c log
  /-- A waiting call gets the turn and sends its transaction. -/
  | acquired {call : Nat} {q : CustodyRequest} (hholder : c.holder = none)
    (hphase : c.phase? call = some (.waiting q)) :
    Happens c log (.acquire call)
      { c.place call (.broadcasting (c.relay.transaction q)) with
        holder := some call, sent := c.sent ++ [c.relay.transaction q] }
      (log ++ [⟨call, c.relay.transaction q, none, none⟩])
  /-- A waiting call has waited too long. -/
  | expired {call limit : Nat} {q : CustodyRequest} (hphase : c.phase? call = some (.waiting q)) :
    Happens c log (.expire call) (c.place call (.ended (.error (.busy limit)))) log
  /-- The answer to the transaction ends the call. -/
  | settled {call : Nat} {tx : SignedTx} {answer : Except ClientError TxResponse}
    {result : Except RelayError Unit} {sequence : UInt64} (hholder : c.holder = some call)
    (hphase : c.phase? call = some (.broadcasting tx))
    (hsettle : c.relay.settle answer = .ended result sequence) :
    Happens c log (.reply answer)
      { c.place call (.ended result) with holder := none, relay := { c.relay with sequence } }
      (log.modifyLast fun e => { e with reply := some answer })
  /-- The answer to the transaction has the relay ask for the sequence. -/
  | asks {call : Nat} {tx : SignedTx} {answer : Except ClientError TxResponse} {error : RelayError}
    (hholder : c.holder = some call) (hphase : c.phase? call = some (.broadcasting tx))
    (hsettle : c.relay.settle answer = .resync error) :
    Happens c log (.reply answer) (c.place call (.resyncing error))
      (log.modifyLast fun e => { e with reply := some answer })
  /-- The answer to the question for the sequence ends the call. -/
  | adopted {call : Nat} {error : RelayError} {answer : Except ClientError AccountInfo}
    (hholder : c.holder = some call) (hphase : c.phase? call = some (.resyncing error)) :
    Happens c log (.lookup answer)
      { c.place call (.ended (.error error)) with holder := none, relay := c.relay.adopt answer }
      (log.modifyLast fun e => { e with lookup := some answer })

/-- Every event is of one of these kinds, unless a caller gives a call up. -/
theorem happens (c : Calls) (log : List Exchange) {event : CallEvent}
    (hevent : ∀ call, event ≠ .abandon call) :
    Happens c log event (c.step event) (c.noted log event) := by
  cases event with
  | acquire call =>
    rw [step, noted]
    rcases hholder : c.holder with _ | holder
    · rcases hphase : c.phase? call with _ | ⟨q⟩ | _
      case some.waiting => exact .acquired hholder hphase
      all_goals exact .nothing _
    · exact .nothing _
  | expire call =>
    rw [step, noted]
    split
    · next hphase _ => exact .expired hphase
    · exact .nothing _
  | reply answer =>
    rw [step, noted]
    rcases hholder : c.holder with _ | call
    · exact .nothing _
    · rw [Option.bind_some]
      dsimp only
      rcases hphase : c.phase? call with _ | _ | ⟨tx⟩ | _
      case some.broadcasting =>
        dsimp only
        cases hsettle : c.relay.settle answer with
        | ended result sequence => exact .settled hholder hphase hsettle
        | resync error => exact .asks hholder hphase hsettle
      all_goals exact .nothing _
  | lookup answer =>
    rw [step, noted]
    rcases hholder : c.holder with _ | call
    · exact .nothing _
    · rw [Option.bind_some]
      dsimp only
      rcases hphase : c.phase? call with _ | _ | _ | ⟨error⟩ | _
      case some.resyncing => exact .adopted hholder hphase
      all_goals exact .nothing _
  | abandon call => exact absurd rfl (hevent call)

/-- A call that is placed is where it was placed. -/
theorem phase?_place_self {c : Calls} {call : Nat} {p q : CallPhase}
    (h : c.phase? call = some p) : (c.place call q).phase? call = some q := by
  obtain ⟨hlt, -⟩ := List.getElem?_eq_some_iff.mp h
  exact List.getElem?_set_self hlt

/-- Placing a call leaves the others. -/
theorem phase?_place_ne {c : Calls} {call i : Nat} {p : CallPhase} (h : call ≠ i) :
    (c.place call p).phase? i = c.phase? i :=
  List.getElem?_set_ne h

/-- Where the turn is, after exchanges that began with the sequence `first`. -/
inductive Turn (first : UInt64) (c : Calls) : List Exchange → Prop where
  /-- Nobody has it. The last exchange is settled, and the relay has the sequence that it leads
  to. -/
  | free {log : List Exchange} (hholder : c.holder = none)
    (hsettled : ∀ e ∈ log.getLast?, e.isSettled = true)
    (hsequence : c.relay.sequence = Exchange.upcoming first log) : Turn first c log
  /-- The call of the last exchange has it, and waits for the answer to its transaction. -/
  | broadcasting {before : List Exchange} {e : Exchange} (hholder : c.holder = some e.call)
    (hphase : c.phase? e.call = some (.broadcasting e.tx)) (hreply : e.reply = none)
    (hsequence : e.tx.sequence = c.relay.sequence) : Turn first c (before ++ [e])
  /-- The call of the last exchange has it, and waits for the answer to the question for the
  sequence. -/
  | resyncing {before : List Exchange} {e : Exchange} {error : RelayError} {response : TxResponse}
    (hholder : c.holder = some e.call) (hphase : c.phase? e.call = some (.resyncing error))
    (hreply : e.reply = some (.ok response))
    (hcode : response.code = LedgerError.invalidSequenceCode)
    (hsequence : e.tx.sequence = c.relay.sequence) : Turn first c (before ++ [e])

/-- Calls that take turns, and the exchanges that they had, which began with the sequence
`first`. -/
structure Orderly (first : UInt64) (c : Calls) (log : List Exchange) : Prop where
  /-- The transactions are those that were sent. -/
  sent : log.map (·.tx) = c.sent
  /-- Every call has at most one exchange. -/
  once : (log.map (·.call)).Nodup
  /-- A call that has an exchange is one that has sent. -/
  called : ∀ i ∈ log.map (·.call), ∃ p, c.phase? i = some p ∧ p.hasSent = true
  /-- Only the call that has the turn is active. -/
  active : ∀ i p, c.phase? i = some p → p.isActive = true → c.holder = some i
  /-- The first transaction carries the first sequence. -/
  begins : ∀ e ∈ log.head?, e.tx.sequence = first
  /-- Every exchange follows the one before. -/
  chained : log.IsChain Exchange.Follows
  /-- The turn is with the last exchange, or free. -/
  turn : Turn first c log

namespace Orderly

variable {first : UInt64} {c : Calls} {log : List Exchange}

/-- Calls that are made at once are in order. -/
theorem start (r : Relay) (requests : List CustodyRequest) :
    Orderly r.sequence (.start r requests) [] := by
  refine ⟨rfl, List.nodup_nil, ?_, ?_, ?_, List.isChain_nil, ?_⟩
  · intro i hi
    cases hi
  · intro i p hp hactive
    obtain ⟨q, -, rfl⟩ := List.mem_map.mp (List.mem_of_getElem? hp)
    unfold entry at hactive
    split at hactive <;> cases hactive
  · intro e he
    cases he
  · refine .free rfl ?_ rfl
    intro e he
    cases he

/-- A call that waits has no exchange. -/
theorem not_mem_of_waiting (h : c.Orderly first log) {call : Nat} {q : CustodyRequest}
    (hphase : c.phase? call = some (.waiting q)) : call ∉ log.map (·.call) := by
  intro hmem
  obtain ⟨p, hp, hsent⟩ := h.called call hmem
  rw [hphase] at hp
  cases hp
  cases hsent

/-- Placing a call keeps those who have sent, if it is placed as one that has sent, or has no
exchange. -/
theorem called_place (h : c.Orderly first log) {call : Nat} {p p' : CallPhase}
    (hphase : c.phase? call = some p) (hplaced : call ∈ log.map (·.call) → p'.hasSent = true) :
    ∀ i ∈ log.map (·.call), ∃ p, (c.place call p').phase? i = some p ∧ p.hasSent = true := by
  intro i hi
  by_cases hcall : call = i
  · subst hcall
    exact ⟨p', phase?_place_self hphase, hplaced hi⟩
  · rw [phase?_place_ne hcall]
    exact h.called i hi

/-- Placing a call leaves the other calls that are active. -/
theorem active_place (h : c.Orderly first log) {call i : Nat} {p p' q : CallPhase}
    (hphase : c.phase? call = some p) (hp : (c.place call p').phase? i = some q)
    (hactive : q.isActive = true) : (call = i ∧ p' = q) ∨ (call ≠ i ∧ c.holder = some i) := by
  by_cases hcall : call = i
  · subst hcall
    rw [phase?_place_self hphase] at hp
    exact Or.inl ⟨rfl, Option.some.inj hp⟩
  · rw [phase?_place_ne hcall] at hp
    exact Or.inr ⟨hcall, h.active i q hp hactive⟩

/-- A call that gets the turn sends the next transaction in order. -/
theorem acquired (h : c.Orderly first log) {call : Nat} {q : CustodyRequest}
    (hholder : c.holder = none) (hphase : c.phase? call = some (.waiting q)) :
    Orderly first
      { c.place call (.broadcasting (c.relay.transaction q)) with
        holder := some call, sent := c.sent ++ [c.relay.transaction q] }
      (log ++ [⟨call, c.relay.transaction q, none, none⟩]) := by
  have hnew := h.not_mem_of_waiting hphase
  have hplaced := phase?_place_self (q := .broadcasting (c.relay.transaction q)) hphase
  obtain ⟨hsettled, hsequence⟩ : (∀ e ∈ log.getLast?, e.isSettled = true) ∧
      c.relay.sequence = Exchange.upcoming first log := by
    cases h.turn with
    | free _ hsettled hsequence => exact ⟨hsettled, hsequence⟩
    | broadcasting hother => rw [hholder] at hother; cases hother
    | resyncing hother => rw [hholder] at hother; cases hother
  refine ⟨?_, ?_, ?_, ?_, ?_, ?_, ?_⟩
  · rw [List.map_append, h.sent]
    rfl
  · rw [List.map_append, List.map_singleton, ← List.concat_eq_append]
    exact h.once.concat hnew
  · intro i hi
    rw [List.map_append, List.mem_append] at hi
    rcases hi with hi | hi
    · exact h.called_place hphase (fun _ => rfl) i hi
    · rw [List.mem_singleton.mp hi]
      exact ⟨_, hplaced, rfl⟩
  · intro i p hp hactive
    rcases h.active_place hphase hp hactive with ⟨rfl, -⟩ | ⟨-, hother⟩
    · rfl
    · rw [hholder] at hother
      cases hother
  · intro e he
    cases log with
    | nil =>
      cases he
      exact hsequence
    | cons d log => exact h.begins e he
  · refine h.chained.append (List.isChain_singleton _) ?_
    intro e he f hf
    cases hf
    refine ⟨hsettled e he, ?_⟩
    change c.relay.sequence = e.next
    rw [hsequence, Exchange.upcoming, Option.mem_def.mp he]
    rfl
  · exact .broadcasting rfl hplaced rfl rfl

/-- A call that has waited too long changes nothing for the others. -/
theorem expired (h : c.Orderly first log) {call limit : Nat} {q : CustodyRequest}
    (hphase : c.phase? call = some (.waiting q)) :
    (c.place call (.ended (.error (.busy limit)))).Orderly first log := by
  have hne : ∀ i p, c.phase? i = some p → p.isActive = true → call ≠ i := by
    rintro i p hp hactive rfl
    rw [hphase] at hp
    cases hp
    cases hactive
  refine ⟨h.sent, h.once, ?_, ?_, h.begins, h.chained, ?_⟩
  · exact h.called_place hphase fun hmem => absurd hmem (h.not_mem_of_waiting hphase)
  · intro i p hp hactive
    rcases h.active_place hphase hp hactive with ⟨-, rfl⟩ | ⟨-, hother⟩
    · cases hactive
    · exact hother
  · cases h.turn with
    | free hholder hsettled hsequence => exact .free hholder hsettled hsequence
    | broadcasting hholder hother hreply hsequence =>
      rw [← phase?_place_ne (hne _ _ hother rfl)] at hother
      exact .broadcasting hholder hother hreply hsequence
    | resyncing hholder hother hreply hcode hsequence =>
      rw [← phase?_place_ne (hne _ _ hother rfl)] at hother
      exact .resyncing hholder hother hreply hcode hsequence

/-- When the call that has the turn broadcasts, the last exchange is its own and is not answered. -/
theorem exists_broadcasting (h : c.Orderly first log) {call : Nat} {tx : SignedTx}
    (hholder : c.holder = some call) (hphase : c.phase? call = some (.broadcasting tx)) :
    ∃ before e, log = before ++ [e] ∧ e.call = call ∧ e.tx = tx ∧ e.reply = none ∧
      e.tx.sequence = c.relay.sequence := by
  cases h.turn with
  | free hother => rw [hholder] at hother; cases hother
  | @broadcasting before e hother hphase' hreply hsequence =>
    rw [hholder] at hother
    cases hother
    rw [hphase] at hphase'
    cases hphase'
    exact ⟨before, e, rfl, rfl, rfl, hreply, hsequence⟩
  | resyncing hother hphase' =>
    rw [hholder] at hother
    cases hother
    rw [hphase] at hphase'
    cases hphase'

/-- When the call that has the turn asks for the sequence, the last exchange is its own, and was
answered that the sequence was wrong. -/
theorem exists_resyncing (h : c.Orderly first log) {call : Nat} {error : RelayError}
    (hholder : c.holder = some call) (hphase : c.phase? call = some (.resyncing error)) :
    ∃ before e response, log = before ++ [e] ∧ e.call = call ∧ e.reply = some (.ok response) ∧
      response.code = LedgerError.invalidSequenceCode ∧ e.tx.sequence = c.relay.sequence := by
  cases h.turn with
  | free hother => rw [hholder] at hother; cases hother
  | broadcasting hother hphase' =>
    rw [hholder] at hother
    cases hother
    rw [hphase] at hphase'
    cases hphase'
  | @resyncing before e _ response hother _ hreply hcode hsequence =>
    rw [hholder] at hother
    cases hother
    exact ⟨before, e, response, rfl, rfl, hreply, hcode, hsequence⟩

/-- What comes back for the last exchange keeps the order, if the call is placed as one that has
sent, and the turn is where it should be. -/
theorem comes_back {before : List Exchange} {e f : Exchange} {p q : CallPhase} {d : Calls}
    (h : c.Orderly first (before ++ [e])) (hcall : f.call = e.call) (htx : f.tx = e.tx)
    (hphase : c.phase? e.call = some p) (hplaced : q.hasSent = true)
    (hphases : d.phases = (c.place e.call q).phases) (hsent : d.sent = c.sent)
    (hactive : ∀ i, (e.call = i ∧ q.isActive = true) ∨ (e.call ≠ i ∧ c.holder = some i) →
      d.holder = some i)
    (hturn : Turn first d (before ++ [f])) : d.Orderly first (before ++ [f]) := by
  have hcalls : (before ++ [f]).map (·.call) = (before ++ [e]).map (·.call) := by
    simp only [List.map_append, List.map_singleton, hcall]
  have hphase? : ∀ i, d.phase? i = (c.place e.call q).phase? i := by
    intro i
    rw [phase?, phase?, hphases]
  refine ⟨?_, ?_, ?_, ?_, ?_, ?_, hturn⟩
  · rw [hsent, ← h.sent]
    simp only [List.map_append, List.map_singleton, htx]
  · rw [hcalls]
    exact h.once
  · intro i hi
    rw [hcalls] at hi
    rw [hphase?]
    exact h.called_place hphase (fun _ => hplaced) i hi
  · intro i r hr hr'
    rw [hphase?] at hr
    apply hactive
    rcases h.active_place hphase hr hr' with ⟨hi, rfl⟩ | hother
    · exact Or.inl ⟨hi, hr'⟩
    · exact Or.inr hother
  · intro g hg
    have hbegins := h.begins
    cases before with
    | nil =>
      cases hg
      rw [htx]
      exact hbegins e rfl
    | cons b before => exact hbegins g hg
  · obtain ⟨hbefore, -, hlast⟩ := List.isChain_append.mp h.chained
    refine hbefore.append (List.isChain_singleton _) ?_
    intro b hb g hg
    cases hg
    obtain ⟨hsettled, hsequence⟩ := hlast b hb e rfl
    refine ⟨hsettled, ?_⟩
    rw [htx]
    exact hsequence

/-- Every event keeps the order, unless a caller gives a call up. -/
theorem step (h : c.Orderly first log) {event : CallEvent}
    (hevent : ∀ call, event ≠ .abandon call) :
    (c.step event).Orderly first (c.noted log event) := by
  have hhappens := c.happens log hevent
  generalize c.step event = d, c.noted log event = log' at hhappens
  cases hhappens with
  | nothing => exact h
  | acquired hholder hphase => exact h.acquired hholder hphase
  | expired hphase => exact h.expired hphase
  | @settled call tx answer result sequence hholder hphase hsettle =>
    obtain ⟨before, e, rfl, rfl, -, -, hsequence⟩ := h.exists_broadcasting hholder hphase
    obtain ⟨hsettled, hnext, hsent⟩ := Relay.settle_ended hsettle hsequence
    rw [List.modifyLast_concat]
    refine h.comes_back (q := .ended result) ?_ ?_ hphase hsent rfl rfl ?_ ?_
    · rfl
    · rfl
    · rintro i (⟨-, hactive⟩ | ⟨hne, hother⟩)
      · cases hactive
      · rw [hholder] at hother
        exact absurd (Option.some.inj hother) hne
    · refine .free rfl ?_ ?_
      · intro f hf
        rw [List.getLast?_concat] at hf
        cases hf
        exact hsettled
      · rw [Exchange.upcoming, List.getLast?_concat, Option.map_some, Option.getD_some, hnext]
  | @asks call tx answer error hholder hphase hsettle =>
    obtain ⟨before, e, rfl, rfl, -, -, hsequence⟩ := h.exists_broadcasting hholder hphase
    have hsettles := c.relay.settles answer
    rw [hsettle] at hsettles
    cases hsettles with
    | stale hcode =>
      rw [List.modifyLast_concat]
      refine h.comes_back (q := .resyncing _) ?_ ?_ hphase rfl rfl rfl ?_ ?_
      · rfl
      · rfl
      · rintro i (⟨rfl, -⟩ | ⟨hne, hother⟩)
        · exact hholder
        · exact hother
      · exact .resyncing hholder (phase?_place_self hphase) rfl hcode hsequence
  | @adopted call error answer hholder hphase =>
    obtain ⟨before, e, response, rfl, rfl, hreply, hcode, hsequence⟩ :=
      h.exists_resyncing hholder hphase
    have hsent : (CallPhase.ended (.error error)).hasSent = true := by
      obtain ⟨p, hp, hsent⟩ := h.called e.call (by simp)
      rw [hphase] at hp
      cases hp
      exact hsent
    rw [List.modifyLast_concat]
    refine h.comes_back (q := .ended (.error error)) ?_ ?_ hphase hsent rfl rfl ?_ ?_
    · rfl
    · rfl
    · rintro i (⟨-, hactive⟩ | ⟨hne, hother⟩)
      · cases hactive
      · rw [hholder] at hother
        exact absurd (Option.some.inj hother) hne
    · refine .free rfl ?_ ?_
      · intro f hf
        rw [List.getLast?_concat] at hf
        cases hf
        simp [Exchange.isSettled, hreply]
      · rw [Exchange.upcoming, List.getLast?_concat, Option.map_some, Option.getD_some]
        simp only [Exchange.next, hreply, if_pos hcode]
        cases answer with
        | ok info => rfl
        | error failure => exact hsequence.symm

/-- A run keeps the order, unless a caller gives a call up. -/
theorem run (h : c.Orderly first log) {events : List CallEvent}
    (hevents : ∀ call, .abandon call ∉ events) :
    (c.run events).Orderly first (c.notedAll log events) := by
  induction events generalizing c log with
  | nil => exact h
  | cons event events ih =>
    have hevent : ∀ call, event ≠ .abandon call := by
      rintro call rfl
      exact hevents call List.mem_cons_self
    exact ih (h.step hevent) fun call hcall => hevents call (List.mem_cons_of_mem event hcall)

end Orderly

/-- Calls of a relay that began with the sequence `first`, with the exchanges that they had. -/
structure KeepsSequence (first : UInt64) (c : Calls) (log : List Exchange) : Prop where
  /-- The transactions that were sent are those of the exchanges. -/
  sent : c.sent = log.map (·.tx)
  /-- No two transactions are on their way at once. -/
  alone : ∀ i j tx tx', c.phase? i = some (.broadcasting tx) →
    c.phase? j = some (.broadcasting tx') → i = j
  /-- A transaction on its way is that of the last exchange. -/
  last : ∀ i tx, c.phase? i = some (.broadcasting tx) →
    ∃ e, log.getLast? = some e ∧ e.call = i ∧ e.tx = tx ∧ e.reply = none
  /-- The first transaction carries the first sequence. -/
  begins : ∀ e ∈ log.head?, e.tx.sequence = first
  /-- Every other transaction is sent when the exchange before is settled, and carries the sequence
  that it led to. -/
  chained : log.IsChain Exchange.Follows
  /-- While nobody has the turn, the relay has the sequence that the last exchange led to. -/
  free : c.holder = none → c.relay.sequence = Exchange.upcoming first log
  /-- A call has at most one exchange. -/
  once : (log.map (·.call)).Nodup
  /-- A call that was refused because of the request, or because its turn did not come in time, has
  none. -/
  refused : ∀ i error, c.result? i = some (.error error) → error.isRefusal = true →
    i ∉ log.map (·.call)
  /-- If every answer is of an executed transaction with the right sequence, the sequences are
  consecutive. -/
  consecutive : (∀ e ∈ log, e.Advances) →
    c.sent.map (·.sequence) = (List.range c.sent.length).map fun i => first + UInt64.ofNat i
  /-- Then none comes again, as far as the numbers go. -/
  distinct : (∀ e ∈ log, e.Advances) → ∀ i j tx tx', i < j → j - i < UInt64.size →
    c.sent[i]? = some tx → c.sent[j]? = some tx' → tx.sequence ≠ tx'.sequence

/-- Calls in order keep the sequence. -/
theorem Orderly.keeps {first : UInt64} {c : Calls} {log : List Exchange}
    (h : c.Orderly first log) : c.KeepsSequence first log := by
  have hconsecutive : (∀ e ∈ log, e.Advances) →
      c.sent.map (·.sequence) = (List.range c.sent.length).map fun i => first + UInt64.ofNat i := by
    intro hadvances
    have hsequences := Exchange.sequences_of_advances h.chained h.begins hadvances
    rw [← h.sent, List.map_map, List.length_map]
    exact hsequences
  refine ⟨h.sent.symm, ?_, ?_, h.begins, h.chained, ?_, h.once, ?_, hconsecutive, ?_⟩
  · intro i j tx tx' hi hj
    have hholder := h.active i _ hi rfl
    rw [h.active j _ hj rfl] at hholder
    exact (Option.some.inj hholder).symm
  · intro i tx hi
    obtain ⟨before, e, rfl, hcall, htx, hreply, -⟩ := h.exists_broadcasting (h.active i _ hi rfl) hi
    exact ⟨e, List.getLast?_concat, hcall, htx, hreply⟩
  · intro hholder
    cases h.turn with
    | free _ _ hsequence => exact hsequence
    | broadcasting hother => rw [hholder] at hother; cases hother
    | resyncing hother => rw [hholder] at hother; cases hother
  · intro i error hresult hrefusal hmem
    obtain ⟨p, hp, hsent⟩ := h.called i hmem
    rw [result?, hp] at hresult
    cases p with
    | ended result =>
      cases hresult
      simp [CallPhase.hasSent, hrefusal] at hsent
    | _ => cases hresult
  · intro hadvances i j tx tx' hlt hclose hi hj heq
    have hat : ∀ n u, c.sent[n]? = some u → u.sequence = first + UInt64.ofNat n := by
      intro n u hu
      obtain ⟨hn, -⟩ := List.getElem?_eq_some_iff.mp hu
      have hget := congrArg (·[n]?) (hconsecutive hadvances)
      simp only [List.getElem?_map, hu, List.getElem?_range hn, Option.map_some] at hget
      exact Option.some.inj hget
    rw [hat i tx hi, hat j tx' hj, UInt64.add_right_inj, ← UInt64.toNat_inj, UInt64.toNat_ofNat',
      UInt64.toNat_ofNat'] at heq
    have hsize : UInt64.size = 2 ^ 64 := rfl
    omega

/-- In every run of the calls of a relay, as long as no caller gives a call up, one transaction at a
time is on its way, and the sequence goes on from what the ledger said at the start by what the
answers tell. -/
theorem keepsSequence {σ : Type} [LedgerClient σ] {key : SigningKey} {chainId : String}
    {lockTimeout : Option Nat} {ledger ledger' : σ} {r : Relay}
    (h : Relay.connect key chainId lockTimeout ledger = (.ok r, ledger'))
    (requests : List CustodyRequest) {events : List CallEvent}
    (hevents : ∀ call, .abandon call ∉ events) :
    ∃ info, LedgerClient.account (Address.ofPublicKey key.publicKey) ledger = (.ok info, ledger') ∧
      ((start r requests).run events).KeepsSequence info.sequence
        ((start r requests).exchanges events) := by
  have horderly := (Orderly.start r requests).run hevents
  obtain ⟨info, haccount, rfl⟩ := Relay.connect_eq_ok h
  exact ⟨info, haccount, horderly.keeps⟩

end Calls

namespace SmallLedger

/-- A request for the attendee, one that is wrong in itself, and the first one again. -/
def requests : List CustodyRequest :=
  [⟨.ofTicket "1", attendeeKey, .ofSecret (Bytes.ofText "s")⟩,
    ⟨.zero, attendeeKey, .ofSecret (Bytes.ofText "s")⟩,
    ⟨.ofTicket "1", attendeeKey, .ofSecret (Bytes.ofText "s")⟩]

/-- The first call gets the turn, and the third does not. The first is told that its sequence is
wrong and that seven is right. Then the third gets the turn, and its transaction is executed. -/
def turns : List CallEvent :=
  [.acquire 0, .acquire 2, .reply (.ok (.notAdmitted (.invalidSequence 7 0) 1)),
    .lookup (.ok ⟨0, 7⟩), .acquire 2, .reply (.ok (.ok 2))]

end SmallLedger

/-- On the small ledger the first call sends with the sequence of the ledger and the third with the
sequence that the first was told, and the second sends nothing. -/
theorem Calls.keepsSequence_turns :
    Relay.connect SmallLedger.signer "test-chain" (some 5) (⟨SmallLedger.chain, 0⟩ : LocalLedger) =
        (.ok SmallLedger.relay, ⟨SmallLedger.chain, 0⟩) ∧
      (∀ call, .abandon call ∉ SmallLedger.turns) ∧
      (∃ info, LedgerClient.account (Address.ofPublicKey SmallLedger.signer.publicKey)
          (⟨SmallLedger.chain, 0⟩ : LocalLedger) = (.ok info, ⟨SmallLedger.chain, 0⟩) ∧
        ((start SmallLedger.relay SmallLedger.requests).run SmallLedger.turns).KeepsSequence
          info.sequence
          ((start SmallLedger.relay SmallLedger.requests).exchanges SmallLedger.turns)) ∧
      ((start SmallLedger.relay SmallLedger.requests).exchanges SmallLedger.turns).map
        (fun e => (e.call, e.tx.sequence, e.next)) = [(0, 0, 7), (2, 7, 8)] := by
  have hevents : ∀ call, .abandon call ∉ SmallLedger.turns := by
    simp [SmallLedger.turns]
  have hexchanges : ((start SmallLedger.relay SmallLedger.requests).exchanges
      SmallLedger.turns).map (fun e => (e.call, e.tx.sequence, e.next)) =
        [(0, 0, 7), (2, 7, 8)] := by
    decide +kernel
  have hkeeps := keepsSequence SmallLedger.connect_eq SmallLedger.requests hevents
  exact ⟨SmallLedger.connect_eq, hevents, hkeeps, hexchanges⟩

end ConferenceLedger

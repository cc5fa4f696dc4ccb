import ConferenceLedger.Proofs.Ledger.Effects
import ConferenceLedger.Proofs.Ledger.Execution

/-!
# Runs of any events

A ledger commits transactions, and its handler may also be asked to carry out an operation without
one, which nobody need have signed and which is not checked first. In a run the two may come in any
order. What every effect of an operation keeps, and counting up a sequence, holds after every such
run.
-/

namespace ConferenceLedger

/-- Something that a ledger is asked to do. -/
inductive LedgerEvent where
  /-- To commit a transaction. -/
  | delivery (d : Delivery)
  /-- To carry out an operation at a block time, without a transaction. -/
  | operation (op : Operation) (time : Int64)

namespace LedgerEvent

/-- The operation that is asked for. -/
def op : LedgerEvent → Operation
  | delivery d => d.tx.op
  | operation op _ => op

/-- The block time. -/
def time : LedgerEvent → Int64
  | delivery d => d.time
  | operation _ time => time

end LedgerEvent

namespace Chain

/-- The chain after an event. Without a transaction there is no block. -/
def happen (c : Chain) : LedgerEvent → Chain
  | .delivery d => (c.deliver d.tx d.time).2
  | .operation op time => { c with store := (op.execute time c.store).2 }

/-- Whether the operation of an event is carried out. -/
def CarriesOut (c : Chain) : LedgerEvent → Prop
  | .delivery d => (c.deliver d.tx d.time).1.code = 0
  | .operation op time => (op.execute time c.store).1 = .ok ()

/-- The chain after events one after another. -/
def through (c : Chain) (es : List LedgerEvent) : Chain := es.foldl happen c

/-- Events in two parts are the second after the first. -/
theorem through_append (c : Chain) (es fs : List LedgerEvent) :
    c.through (es ++ fs) = (c.through es).through fs :=
  List.foldl_append

/-- A run of deliveries is a run of events. -/
theorem through_deliveries (c : Chain) (ds : List Delivery) :
    c.through (ds.map .delivery) = c.after ds :=
  List.foldl_map

variable {members : List Address} {c : Chain} {e : LedgerEvent}

/-- An event that is carried out runs its operation on a store of the same records, but for a
sequence that may have been counted up, and leaves what the operation leaves. -/
theorem run_of_carriesOut (hs : c.store.Sound members) (h : c.CarriesOut e) :
    ∃ s, s.Sound members ∧ (e.op.program e.time).run s = (.ok (), (c.happen e).store) := by
  cases e with
  | delivery d =>
    obtain ⟨x, hadmits, hrun⟩ := done_of_code h
    exact ⟨_, counted_sound hs hadmits, hrun⟩
  | operation op time =>
    rcases op.execute_cases time c.store with ⟨t, hrun, hexecute⟩ | ⟨e, t, -, hexecute⟩
    · rw [happen, hexecute]
      exact ⟨c.store, hs, hrun⟩
    · rw [CarriesOut, hexecute] at h
      cases h

section Keeping

variable {P : Store → Prop} (hcounted : ∀ s x, P s → P (s.counted x))
  (heffect : ∀ (op : Operation) time s t, s.Sound members → P s → op.Effect members time s t → P t)

include hcounted heffect

/-- What counting up a sequence and every effect keep, every event keeps. -/
theorem happen_keeps (hs : c.store.Sound members) (hP : P c.store) (he : Fits e.op) :
    (c.happen e).store.Sound members ∧ P (c.happen e).store := by
  cases e with
  | delivery d =>
    exact ⟨deliver_sound hs he d.time, deliver_of_effects hcounted heffect hs hP he⟩
  | operation op time =>
    rcases op.execute_cases time c.store with ⟨t, hrun, hexecute⟩ | ⟨e, t, -, hexecute⟩
    · rw [happen, hexecute]
      exact ⟨Operation.sound_of_run_ok hs he hrun,
        heffect op time _ _ hs hP (Operation.effect_of_run_ok hs he hrun)⟩
    · rw [happen, hexecute]
      exact ⟨hs, hP⟩

/-- What counting up a sequence and every effect keep, every run keeps. -/
theorem through_keeps {es : List LedgerEvent} (hs : c.store.Sound members) (hP : P c.store)
    (hes : ∀ e ∈ es, Fits e.op) :
    (c.through es).store.Sound members ∧ P (c.through es).store := by
  induction es generalizing c with
  | nil => exact ⟨hs, hP⟩
  | cons e es ih =>
    obtain ⟨hsound, hkept⟩ := happen_keeps hcounted heffect hs hP (hes e List.mem_cons_self)
    exact ih hsound hkept fun f hf => hes f (List.mem_cons_of_mem e hf)

end Keeping

/-- An event of an operation that fits keeps what can be held. -/
theorem happen_sound (hs : c.store.Sound members) (he : Fits e.op) :
    (c.happen e).store.Sound members :=
  (happen_keeps (P := fun _ => True) (fun _ _ h => h) (fun _ _ _ _ _ h _ => h) hs trivial he).1

end Chain

end ConferenceLedger

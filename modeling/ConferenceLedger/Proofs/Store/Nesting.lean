import ConferenceLedger.Proofs.Store.Overlay
import ConferenceLedger.Store.Script

/-!
# Nested overlays cannot be told from one plain map

A plain map takes every write at once, and a part of a script that is dropped is undone by going
back to the map as it was. A script over overlays, at any depth of nesting, answers as it does on
the plain map, and in the end the store holds what the plain map does. While an overlay is open, the
view below it does not change.
-/

namespace ConferenceLedger

/-- A map from keys to values. -/
abbrev PlainMap := Bytes → Option Bytes

namespace PlainMap

/-- The map with a value put under a key. -/
def put (m : PlainMap) (key value : Bytes) : PlainMap :=
  fun k => if key = k then some value else m k

/-- The entries of a map under some of its keys, each once, in ascending order of keys. -/
structure Lists (m : PlainMap) (keys : Bytes → Prop) (entries : List Entry) : Prop where
  /-- The order is that of the keys. -/
  ascending : Ascending entries
  /-- The entries are those under the keys. -/
  mem : ∀ k v, (k, v) ∈ entries ↔ m k = some v ∧ keys k

/-- There is only one such list. -/
theorem Lists.unique {m : PlainMap} {keys : Bytes → Prop} {entries others : List Entry}
    (h : m.Lists keys entries) (h' : m.Lists keys others) : entries = others := by
  apply h.ascending.ext h'.ascending
  intro k
  apply Option.ext
  intro v
  rw [h.ascending.find_eq_some_iff, h'.ascending.find_eq_some_iff, h.mem, h'.mem]

end PlainMap

mutual

/-- The keys under which a step puts something. -/
def StoreStep.puts : StoreStep → List Bytes
  | .set key _ => [key]
  | .overlay steps commit => if commit then StoreStep.putsAll steps else []
  | _ => []

/-- The keys under which steps put something. -/
def StoreStep.putsAll : List StoreStep → List Bytes
  | [] => []
  | step :: rest => step.puts ++ StoreStep.putsAll rest

end

mutual

/-- What a step answers on a plain map, and the map that it leaves. -/
inductive StoreStep.Plainly : StoreStep → PlainMap → StoreAnswer → PlainMap → Prop where
  /-- A write is made at once. -/
  | set (m : PlainMap) (key value : Bytes) : Plainly (.set key value) m .written (m.put key value)
  /-- A read gives the value of the key. -/
  | get (m : PlainMap) (key : Bytes) : Plainly (.get key) m (.value (m key)) m
  /-- A test tells whether the key has a value. -/
  | contains (m : PlainMap) (key : Bytes) : Plainly (.contains key) m (.present (m key).isSome) m
  /-- A listing gives the entries whose keys have the start. -/
  | scan {m : PlainMap} {start : Bytes} {entries : List Entry}
    (h : m.Lists (Bytes.startsWith start · = true) entries) :
    Plainly (.scan start) m (.listed entries) m
  /-- What the steps of an overlay that is committed have put is kept. -/
  | kept {m n : PlainMap} {steps : List StoreStep} {answers : List StoreAnswer}
    {writes : List Entry} (h : StoreStep.AllPlainly steps m answers n)
    (hwrites : n.Lists (· ∈ StoreStep.putsAll steps) writes) :
    Plainly (.overlay steps true) m (.overlaid answers writes) n
  /-- What the steps of an overlay that is dropped have put is undone. -/
  | undone {m n : PlainMap} {steps : List StoreStep} {answers : List StoreAnswer}
    {writes : List Entry} (h : StoreStep.AllPlainly steps m answers n)
    (hwrites : n.Lists (· ∈ StoreStep.putsAll steps) writes) :
    Plainly (.overlay steps false) m (.overlaid answers writes) m

/-- What steps answer on a plain map one after another, and the map that they leave. -/
inductive StoreStep.AllPlainly : List StoreStep → PlainMap → List StoreAnswer → PlainMap → Prop where
  /-- No step leaves the map. -/
  | nil (m : PlainMap) : AllPlainly [] m [] m
  /-- The first step leaves the map for the others. -/
  | cons {m n o : PlainMap} {step : StoreStep} {rest : List StoreStep} {answer : StoreAnswer}
    {answers : List StoreAnswer} (h : step.Plainly m answer n)
    (hrest : StoreStep.AllPlainly rest n answers o) :
    AllPlainly (step :: rest) m (answer :: answers) o

end

namespace View

/-- A view has a value where its flat store does. -/
theorem contains_flat (v : View) (k : Bytes) : v.contains k = (v.flat.get? k).isSome := by
  induction v with
  | base store => rfl
  | overlay parent pending ih =>
    rw [contains, ih, flat, Store.get?_setAll, Store.contains]
    cases pending.get? k <;> rfl

/-- Writes to an overlay are pending. -/
theorem setAll_overlay (parent : View) (pending : Store) (writes : List Entry) :
    (overlay parent pending).setAll writes = overlay parent (pending.setAll writes) := by
  induction writes generalizing pending with
  | nil => rfl
  | cons e rest ih => exact ih (pending.set e.1 e.2)

/-- Writes to a store are made at once. -/
theorem setAll_base (s : Store) (writes : List Entry) :
    (base s).setAll writes = base (s.setAll writes) := by
  induction writes generalizing s with
  | nil => rfl
  | cons e rest ih => exact ih (s.set e.1 e.2)

/-- Writes to a view are writes to its flat store. -/
theorem flat_setAll (v : View) (writes : List Entry) :
    (v.setAll writes).flat = v.flat.setAll writes := by
  induction writes generalizing v with
  | nil => rfl
  | cons e rest ih =>
    have hstep := ih (v.set e.1 e.2)
    rw [flat_set] at hstep
    exact hstep

/-- An overlay that is committed leaves what it answered from. -/
theorem flat_committed (parent : View) (pending : Store) :
    (overlay parent pending).committed.flat = (overlay parent pending).flat :=
  flat_setAll parent pending.entries

/-- A view lists the entries of its flat store whose keys have the start. -/
theorem lists_scan (v : View) (start : Bytes) :
    PlainMap.Lists v.flat.get? (Bytes.startsWith start · = true) (v.scan start) := by
  rw [← scan_flat]
  exact ⟨v.flat.ascending_scan start, fun _ _ => Store.mem_scan_iff⟩

end View

namespace StoreStep

mutual

/-- A step over an overlay leaves the view below, and all that becomes pending is what it puts. -/
theorem run_overlay (step : StoreStep) (parent : View) (pending : Store) :
    ∃ pending', (step.run (.overlay parent pending)).2 = .overlay parent pending' ∧
      ∀ k, (pending'.get? k).isSome = true ↔ (pending.get? k).isSome = true ∨ k ∈ step.puts := by
  cases step with
  | set key value =>
    refine ⟨pending.set key value, rfl, fun k => ?_⟩
    rw [Store.get?_set]
    split_ifs with hk
    · simp [puts, hk]
    · simp [puts, Ne.symm hk]
  | get key => exact ⟨pending, rfl, by simp [puts]⟩
  | contains key => exact ⟨pending, rfl, by simp [puts]⟩
  | scan start => exact ⟨pending, rfl, by simp [puts]⟩
  | overlay steps commit =>
    obtain ⟨top, htop, hputs⟩ := runAll_overlay steps (.overlay parent pending) .empty
    have hrun : (runAll steps (View.overlay parent pending).opened).2 =
        .overlay (.overlay parent pending) top := htop
    cases commit with
    | false =>
      refine ⟨pending, ?_, by simp [puts]⟩
      simp only [run, hrun]
      rfl
    | true =>
      refine ⟨pending.setAll top.entries, ?_, fun k => ?_⟩
      · simp only [run, hrun]
        exact View.setAll_overlay _ _ _
      · have hempty : Store.empty.get? k = none := rfl
        have hk := hputs k
        rw [hempty] at hk
        rw [Store.get?_setAll, Option.isSome_or, Bool.or_eq_true, hk]
        simp [puts, or_comm]

/-- Steps over an overlay leave the view below, and all that becomes pending is what they put. -/
theorem runAll_overlay (steps : List StoreStep) (parent : View) (pending : Store) :
    ∃ pending', (runAll steps (.overlay parent pending)).2 = .overlay parent pending' ∧
      ∀ k, (pending'.get? k).isSome = true ↔ (pending.get? k).isSome = true ∨ k ∈ putsAll steps := by
  cases steps with
  | nil => exact ⟨pending, rfl, by simp [putsAll]⟩
  | cons step rest =>
    obtain ⟨between, hstep, hfirst⟩ := run_overlay step parent pending
    obtain ⟨last, hrest, hlast⟩ := runAll_overlay rest parent between
    refine ⟨last, ?_, fun k => ?_⟩
    · simp only [runAll, hstep, hrest]
    · rw [hlast, hfirst, putsAll, List.mem_append, or_assoc]

end

/-- What an overlay has pending after its steps are the entries that it answers from under the keys
that the steps put something under. -/
theorem lists_writes (steps : List StoreStep) (v : View) :
    PlainMap.Lists (runAll steps v.opened).2.flat.get? (· ∈ putsAll steps)
      (runAll steps v.opened).2.writes := by
  obtain ⟨top, htop, hputs⟩ := runAll_overlay steps v .empty
  have hrun : (runAll steps v.opened).2 = .overlay v top := htop
  rw [hrun]
  refine ⟨top.ascending, fun k value => ?_⟩
  have hempty : Store.empty.get? k = none := rfl
  have hk := hputs k
  rw [hempty] at hk
  have hpending : (k, value) ∈ top.entries ↔ top.get? k = some value :=
    top.ascending.find_eq_some_iff.symm
  rw [View.writes, hpending, View.flat, Store.get?_setAll]
  cases htopk : top.get? k with
  | none =>
    rw [htopk] at hk
    simp at hk
    simp [hk]
  | some w =>
    rw [htopk] at hk
    simp at hk
    simp [hk]

/-- An overlay that is committed after its steps leaves what it answers from then. -/
theorem flat_committed_runAll (steps : List StoreStep) (v : View) :
    (runAll steps v.opened).2.committed.flat = (runAll steps v.opened).2.flat := by
  obtain ⟨top, htop, -⟩ := runAll_overlay steps v .empty
  have hrun : (runAll steps v.opened).2 = .overlay v top := htop
  rw [hrun, View.flat_committed]

/-- An overlay that is dropped after its steps leaves the view that it was opened over. -/
theorem dropped_runAll (steps : List StoreStep) (v : View) :
    (runAll steps v.opened).2.dropped = v := by
  obtain ⟨top, htop, -⟩ := runAll_overlay steps v .empty
  have hrun : (runAll steps v.opened).2 = .overlay v top := htop
  rw [hrun]
  rfl

mutual

/-- A step over a view answers as on the plain map of what the view answers from. -/
theorem plainly_run (step : StoreStep) (v : View) :
    step.Plainly v.flat.get? (step.run v).1 (step.run v).2.flat.get? := by
  cases step with
  | set key value =>
    have hput : (v.set key value).flat.get? = PlainMap.put v.flat.get? key value := by
      funext k
      rw [View.flat_set, Store.get?_set]
      rfl
    simp only [run, hput]
    exact .set _ key value
  | get key =>
    simp only [run, ← View.get?_flat]
    exact .get _ key
  | contains key =>
    simp only [run, View.contains_flat]
    exact .contains _ key
  | scan start => exact .scan (v.lists_scan start)
  | overlay steps commit =>
    have hsteps := plainly_runAll steps v.opened
    have hwrites := lists_writes steps v
    have hopened : v.opened.flat = v.flat := rfl
    rw [hopened] at hsteps
    cases commit with
    | true =>
      have hkept : ((overlay steps true).run v).2 = (runAll steps v.opened).2.committed := rfl
      rw [hkept, flat_committed_runAll]
      exact .kept hsteps hwrites
    | false =>
      have hundone : ((overlay steps false).run v).2 = (runAll steps v.opened).2.dropped := rfl
      rw [hundone, dropped_runAll]
      exact .undone hsteps hwrites

/-- Steps over a view answer as on the plain map of what the view answers from. -/
theorem plainly_runAll (steps : List StoreStep) (v : View) :
    AllPlainly steps v.flat.get? (runAll steps v).1 (runAll steps v).2.flat.get? := by
  cases steps with
  | nil => exact .nil _
  | cons step rest => exact .cons (plainly_run step v) (plainly_runAll rest (step.run v).2)

end

mutual

/-- On a plain map a step has one answer, and leaves one map. -/
theorem Plainly.unique {step : StoreStep} {m n n' : PlainMap} {answer answer' : StoreAnswer}
    (h : step.Plainly m answer n) (h' : step.Plainly m answer' n') :
    answer = answer' ∧ n = n' := by
  cases h with
  | set =>
    cases h'
    exact ⟨rfl, rfl⟩
  | get =>
    cases h'
    exact ⟨rfl, rfl⟩
  | contains =>
    cases h'
    exact ⟨rfl, rfl⟩
  | scan hlists =>
    cases h' with
    | scan hlists' => exact ⟨by rw [hlists.unique hlists'], rfl⟩
  | kept hsteps hwrites =>
    cases h' with
    | kept hsteps' hwrites' =>
      obtain ⟨rfl, rfl⟩ := AllPlainly.unique hsteps hsteps'
      exact ⟨by rw [hwrites.unique hwrites'], rfl⟩
  | undone hsteps hwrites =>
    cases h' with
    | undone hsteps' hwrites' =>
      obtain ⟨rfl, rfl⟩ := AllPlainly.unique hsteps hsteps'
      exact ⟨by rw [hwrites.unique hwrites'], rfl⟩

/-- On a plain map steps have one list of answers, and leave one map. -/
theorem AllPlainly.unique {steps : List StoreStep} {m n n' : PlainMap}
    {answers answers' : List StoreAnswer} (h : AllPlainly steps m answers n)
    (h' : AllPlainly steps m answers' n') : answers = answers' ∧ n = n' := by
  cases h with
  | nil =>
    cases h'
    exact ⟨rfl, rfl⟩
  | cons hstep hrest =>
    cases h' with
    | cons hstep' hrest' =>
      obtain ⟨rfl, rfl⟩ := Plainly.unique hstep hstep'
      obtain ⟨rfl, rfl⟩ := AllPlainly.unique hrest hrest'
      exact ⟨rfl, rfl⟩

end

/-- A step over a store leaves a store. -/
theorem run_base (step : StoreStep) (s : Store) : ∃ t, (step.run (.base s)).2 = .base t := by
  cases step with
  | set key value => exact ⟨s.set key value, rfl⟩
  | get key => exact ⟨s, rfl⟩
  | contains key => exact ⟨s, rfl⟩
  | scan start => exact ⟨s, rfl⟩
  | overlay steps commit =>
    obtain ⟨top, htop, -⟩ := runAll_overlay steps (.base s) .empty
    have hrun : (runAll steps (View.base s).opened).2 = .overlay (.base s) top := htop
    cases commit with
    | false =>
      refine ⟨s, ?_⟩
      simp only [run, hrun]
      rfl
    | true =>
      refine ⟨s.setAll top.entries, ?_⟩
      simp only [run, hrun]
      exact View.setAll_base s top.entries

/-- Steps over a store leave a store. -/
theorem runAll_base (steps : List StoreStep) (s : Store) :
    ∃ t, (runAll steps (.base s)).2 = .base t := by
  induction steps generalizing s with
  | nil => exact ⟨s, rfl⟩
  | cons step rest ih =>
    obtain ⟨t, ht⟩ := step.run_base s
    obtain ⟨u, hu⟩ := ih t
    refine ⟨u, ?_⟩
    simp only [runAll, ht, hu]

/-- Whatever overlays the steps of a script open on a store, the answers and the store that is left
are those of the plain map that the store is, and of no other. Over an overlay the steps leave the
view below as it was. -/
theorem runs_as_on_plainMap (s : Store) (steps : List StoreStep) :
    (∃ answers t, runAll steps (.base s) = (answers, .base t) ∧
      ∀ answers' m, AllPlainly steps s.get? answers' m ↔ answers' = answers ∧ m = t.get?) ∧
    ∀ parent pending, ∃ pending',
      (runAll steps (.overlay parent pending)).2 = .overlay parent pending' := by
  constructor
  · obtain ⟨t, ht⟩ := runAll_base steps s
    have hplain := plainly_runAll steps (.base s)
    rw [ht] at hplain
    refine ⟨(runAll steps (.base s)).1, t, Prod.ext rfl ht, fun answers' m => ⟨fun h => ?_, ?_⟩⟩
    · exact h.unique hplain
    · rintro ⟨rfl, rfl⟩
      exact hplain
  · intro parent pending
    obtain ⟨pending', hrun, -⟩ := runAll_overlay steps parent pending
    exact ⟨pending', hrun⟩

end StoreStep

end ConferenceLedger

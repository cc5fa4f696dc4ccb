import ConferenceLedger.Proofs.Store.Lookup
import ConferenceLedger.Store.Access

/-!
# Overlays cannot be told from the store

A view answers as the store does that has all its pending writes put into it. A program runs
over an overlay as it runs on that store, so running it atomically is running it directly when
it succeeds, and doing nothing when it fails.
-/

namespace ConferenceLedger

namespace View

/-- The store that has every pending write put into it. -/
def flat : View → Store
  | base store => store
  | overlay parent pending => parent.flat.setAll pending.entries

/-- A view holds what its flat store holds. -/
theorem get?_flat (v : View) (k : Bytes) : v.flat.get? k = v.get? k := by
  induction v with
  | base store => rfl
  | overlay parent pending ih =>
    rw [flat, Store.get?_setAll, ih, get?]
    cases pending.get? k <;> rfl

/-- A write to a view is a write to its flat store. -/
theorem flat_set (v : View) (key value : Bytes) : (v.set key value).flat = v.flat.set key value := by
  cases v with
  | base store => rfl
  | overlay parent pending =>
    apply Store.ext_get?
    intro k
    rw [set, flat, flat, Store.get?_setAll, Store.get?_set, Store.get?_set, Store.get?_setAll]
    split_ifs <;> rfl

/-- A view lists what its flat store lists. -/
theorem scan_flat (v : View) (start : Bytes) : v.flat.scan start = v.scan start := by
  induction v with
  | base store => rfl
  | overlay parent pending ih =>
    have hmerged : Ascending (mergeEntries (parent.flat.scan start) (pending.scan start)) :=
      (parent.flat.ascending_scan start).foldl_insertEntry _
    rw [scan, ← ih]
    apply (Store.ascending_scan _ start).ext hmerged
    intro k
    rw [mergeEntries, findEntry?_foldl_insertEntry (pending.ascending_scan start)]
    simp only [Store.scan_eq_filter, findEntry?_filter]
    split_ifs
    · exact Store.get?_setAll _ _ k
    · rfl

end View

namespace Access

variable {ε α β : Type}

/-- A program runs over an overlay as on the flat store, and leaves the view below. -/
theorem runOver_overlay (x : Access ε α) (parent : View) (pending : Store) :
    ∃ pending', x.runOver (.overlay parent pending) =
        ((x.run (View.overlay parent pending).flat).1, .overlay parent pending') ∧
      (View.overlay parent pending').flat = (x.run (View.overlay parent pending).flat).2 := by
  induction x generalizing pending with
  | done a => exact ⟨pending, rfl, rfl⟩
  | fail e => exact ⟨pending, rfl, rfl⟩
  | read key next ih =>
    rw [runOver, run, View.get?_flat]
    exact ih _ pending
  | write key value next ih =>
    rw [runOver, run, ← View.flat_set]
    exact ih (pending.set key value)
  | list start next ih =>
    rw [runOver, run, View.scan_flat]
    exact ih _ pending

/-- Run atomically, a program that succeeds does what it does directly, and one that fails
leaves the store as it was. -/
theorem atomically_eq (x : Access ε α) (s : Store) :
    x.atomically s = match x.run s with
      | (.ok a, t) => (.ok a, t)
      | (.error e, _) => (.error e, s) := by
  obtain ⟨pending, hrun, hflat⟩ := x.runOver_overlay (.base s) .empty
  have hs : (View.overlay (.base s) .empty).flat = s := rfl
  rw [hs] at hrun hflat
  have hopened : (View.base s).opened = .overlay (.base s) .empty := rfl
  rw [atomically, hopened, hrun]
  rcases hx : x.run s with ⟨r, t⟩
  rw [hx] at hflat
  cases r with
  | ok a => exact congrArg (Except.ok a, ·) hflat
  | error e => rfl

/-- A program that fails after it has written leaves the write behind only if it runs directly. -/
example (key value : Bytes) (e : ε) (s : Store) :
    (write key value (fail e) : Access ε α).run s = (.error e, s.set key value) ∧
      (write key value (fail e) : Access ε α).atomically s = (.error e, s) := by
  refine ⟨rfl, ?_⟩
  rw [atomically_eq]
  rfl

/-- Ending with the result of a program adds nothing. -/
theorem bind_done (x : Access ε α) : x.bind done = x := by
  induction x with
  | done a => rfl
  | fail e => rfl
  | read key next ih => exact congrArg (read key) (funext ih)
  | write key value next ih => exact congrArg (write key value) ih
  | list start next ih => exact congrArg (list start) (funext ih)

/-- It does not matter how a sequence of programs is grouped. -/
theorem bind_assoc {γ : Type} (x : Access ε α) (f : α → Access ε β) (g : β → Access ε γ) :
    (x.bind f).bind g = x.bind fun a => (f a).bind g := by
  induction x with
  | done a => rfl
  | fail e => rfl
  | read key next ih => exact congrArg (read key) (funext ih)
  | write key value next ih => exact congrArg (write key value) ih
  | list start next ih => exact congrArg (list start) (funext ih)

instance : LawfulMonad (Access ε) :=
  LawfulMonad.mk' _ bind_done (fun _ _ => rfl) bind_assoc

/-- A sequence of programs succeeds if the first does and the second does on what it leaves. -/
theorem run_bind_ok {x : Access ε α} {f : α → Access ε β} {s u : Store} {b : β} :
    (x >>= f).run s = (.ok b, u) ↔ ∃ a t, x.run s = (.ok a, t) ∧ (f a).run t = (.ok b, u) := by
  change (x.bind f).run s = (.ok b, u) ↔ _
  rw [run_bind]
  obtain ⟨r, t⟩ := x.run s
  cases r with
  | ok a =>
    constructor
    · intro h
      exact ⟨a, t, rfl, h⟩
    · rintro ⟨a', t', heq, h⟩
      cases heq
      exact h
  | error e =>
    constructor
    · intro h
      cases h
    · rintro ⟨a, t', heq, -⟩
      cases heq

/-- What follows a program that succeeds runs on what it leaves. -/
theorem run_bind_of_ok {x : Access ε α} {s t : Store} {a : α} (h : x.run s = (.ok a, t))
    (f : α → Access ε β) : (x >>= f).run s = (f a).run t := by
  change (x.bind f).run s = _
  rw [run_bind, h]

/-- What follows a program that fails does not run. -/
theorem run_bind_of_error {x : Access ε α} {s t : Store} {e : ε} (h : x.run s = (.error e, t))
    (f : α → Access ε β) : (x >>= f).run s = (.error e, t) := by
  change (x.bind f).run s = _
  rw [run_bind, h]

/-- A sequence of programs fails if the first does, or the second on what the first leaves. -/
theorem run_bind_error {x : Access ε α} {f : α → Access ε β} {s u : Store} {e : ε}
    (h : (x >>= f).run s = (.error e, u)) :
    x.run s = (.error e, u) ∨ ∃ a t, x.run s = (.ok a, t) ∧ (f a).run t = (.error e, u) := by
  change (x.bind f).run s = _ at h
  rw [run_bind] at h
  rcases hx : x.run s with ⟨⟨e'⟩ | ⟨a⟩, t⟩
  · rw [hx] at h
    cases h
    exact Or.inl rfl
  · rw [hx] at h
    exact Or.inr ⟨a, t, rfl, h⟩

/-- Programs that succeed and leave the store do so one after another. -/
theorem run_mapM_of_forall {f : α → Access ε β} {r : α → Option β} {l : List α} {s : Store}
    (h : ∀ a ∈ l, ∃ b, r a = some b ∧ (f a).run s = (.ok b, s)) :
    (l.mapM f).run s = (.ok (l.filterMap r), s) := by
  induction l with
  | nil => rfl
  | cons a l ih =>
    obtain ⟨b, hb, hrun⟩ := h a List.mem_cons_self
    have hrest := ih fun c hc => h c (List.mem_cons_of_mem a hc)
    rw [List.mapM_cons, run_bind_of_ok hrun, run_bind_of_ok hrest, List.filterMap_cons_some hb]
    rfl

/-- Behind a guard a program succeeds if the guard lets it and it succeeds. -/
theorem run_guard_ok {c : Prop} [Decidable c] {e : ε} {x : Access ε α} {s t : Store} {a : α} :
    (if c then fail e else x).run s = (.ok a, t) ↔ ¬c ∧ x.run s = (.ok a, t) := by
  by_cases hc : c
  · rw [if_pos hc]
    constructor
    · intro h
      cases h
    · rintro ⟨hn, -⟩
      exact absurd hc hn
  · rw [if_neg hc]
    constructor
    · intro h
      exact ⟨hc, h⟩
    · exact And.right

/-- A plain computation leaves the store. -/
@[simp] theorem run_ofExcept (x : Except ε α) (s : Store) : (ofExcept x).run s = (x, s) := by
  cases x <;> rfl

/-- A plain computation whose errors are renamed succeeds as itself. -/
theorem run_mapError_ok {δ : Type} {f : δ → ε} {x : Except δ α} {s t : Store} {a : α}
    (h : (ofExcept (x.mapError f)).run s = (.ok a, t)) : s = t ∧ x = .ok a := by
  cases x with
  | error e => cases h
  | ok b =>
    cases h
    exact ⟨rfl, rfl⟩

end Access

end ConferenceLedger

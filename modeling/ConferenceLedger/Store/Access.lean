import ConferenceLedger.Store.View

/-!
# Programs over the store

A program reads, writes and lists entries, and ends with a result or an error. It can run on
a store directly, where writes that came before an error stay, or over a view. Run
atomically, it works in an overlay that is committed when it succeeds and dropped when it
fails.
-/

namespace ConferenceLedger

/-- A program that accesses a store, with errors in `ε` and results in `α`. -/
inductive Access (ε α : Type) where
  /-- End with a result. -/
  | done (a : α)
  /-- End with an error. -/
  | fail (e : ε)
  /-- Read the value of a key and go on. -/
  | read (key : Bytes) (next : Option Bytes → Access ε α)
  /-- Put a value under a key and go on. -/
  | write (key value : Bytes) (next : Access ε α)
  /-- List the entries whose keys begin with `start` and go on. -/
  | list (start : Bytes) (next : List Entry → Access ε α)

namespace Access

variable {ε α β : Type}

/-- Run one program and then another that depends on its result. -/
def bind : Access ε α → (α → Access ε β) → Access ε β
  | done a, f => f a
  | fail e, _ => fail e
  | read key next, f => read key fun v => (next v).bind f
  | write key value next, f => write key value (next.bind f)
  | list start next, f => list start fun es => (next es).bind f

instance : Monad (Access ε) where
  pure := done
  bind := bind

/-- The program that ends as a plain computation does. -/
def ofExcept : Except ε α → Access ε α
  | .ok a => done a
  | .error e => fail e

/-- The value of a key. -/
def get? (key : Bytes) : Access ε (Option Bytes) := read key done

/-- Put a value under a key. -/
def put (key value : Bytes) : Access ε Unit := write key value (done ())

/-- The entries whose keys begin with `start`. -/
def entries (start : Bytes) : Access ε (List Entry) := list start done

/-- Run a program on a store. -/
def run : Access ε α → Store → Except ε α × Store
  | done a, s => (.ok a, s)
  | fail e, s => (.error e, s)
  | read key next, s => (next (s.get? key)).run s
  | write key value next, s => next.run (s.set key value)
  | list start next, s => (next (s.scan start)).run s

/-- Run a program over a view. -/
def runOver : Access ε α → View → Except ε α × View
  | done a, v => (.ok a, v)
  | fail e, v => (.error e, v)
  | read key next, v => (next (v.get? key)).runOver v
  | write key value next, v => next.runOver (v.set key value)
  | list start next, v => (next (v.scan start)).runOver v

/-- The result of a program that only reads. -/
def eval (x : Access ε α) (s : Store) : Except ε α := (x.run s).1

/-- Run a program in an overlay over a store, whose writes are kept only if it succeeds. -/
def atomically (x : Access ε α) (s : Store) : Except ε α × Store :=
  match x.runOver (View.base s).opened with
  | (.ok a, v) => (.ok a, s.setAll v.writes)
  | (.error e, _) => (.error e, s)

/-- A sequence of programs runs the second on the store that the first leaves. -/
theorem run_bind (x : Access ε α) (f : α → Access ε β) (s : Store) :
    (x.bind f).run s = match x.run s with
      | (.ok a, t) => (f a).run t
      | (.error e, t) => (.error e, t) := by
  induction x generalizing s with
  | done a => rfl
  | fail e => rfl
  | read key next ih => exact ih (s.get? key) s
  | write key value next ih => exact ih (s.set key value)
  | list start next ih => exact ih (s.scan start) s

end Access

end ConferenceLedger

import ConferenceLedger.Store.Basic

/-!
# Overlays

An overlay holds pending writes over a view of the store. It answers from its pending
writes first and from the view below otherwise. Committing it puts its writes into the view
below, and dropping it forgets them. Overlays may be stacked to any height.
-/

namespace ConferenceLedger

/-- Entries in ascending order with the entries `writes` put among them. -/
def mergeEntries (entries writes : List Entry) : List Entry :=
  writes.foldl (fun entries e => insertEntry e.1 e.2 entries) entries

/-- A store, or an overlay over a view. -/
inductive View where
  /-- The store itself. -/
  | base (store : Store)
  /-- Pending writes over a view. -/
  | overlay (parent : View) (pending : Store)

namespace View

/-- The value of a key. -/
def get? (key : Bytes) : View → Option Bytes
  | base store => store.get? key
  | overlay parent pending =>
    match pending.get? key with
    | some value => some value
    | none => parent.get? key

/-- Whether a key has a value. -/
def contains (key : Bytes) : View → Bool
  | base store => store.contains key
  | overlay parent pending => pending.contains key || parent.contains key

/-- The entries whose keys begin with `start`, in ascending order. -/
def scan (start : Bytes) : View → List Entry
  | base store => store.scan start
  | overlay parent pending => mergeEntries (parent.scan start) (pending.scan start)

/-- The view with a value put under a key. -/
def set (key value : Bytes) : View → View
  | base store => base (store.set key value)
  | overlay parent pending => overlay parent (pending.set key value)

/-- The view with every entry of a list put into it, in order. -/
def setAll (entries : List Entry) (v : View) : View :=
  entries.foldl (fun v e => v.set e.1 e.2) v

/-- A view with a new overlay on top. -/
def opened (v : View) : View := overlay v .empty

/-- The writes that the topmost overlay holds. -/
def writes : View → List Entry
  | base _ => []
  | overlay _ pending => pending.entries

/-- The view below the topmost overlay. -/
def dropped : View → View
  | base store => base store
  | overlay parent _ => parent

/-- The view below with the writes of the topmost overlay put into it. -/
def committed (v : View) : View := v.dropped.setAll v.writes

/-- The store at the bottom. -/
def store : View → Store
  | base store => store
  | overlay parent _ => parent.store

/-- A write to an overlay leaves the view below as it was. -/
theorem dropped_set_opened (v : View) (key value : Bytes) :
    (v.opened.set key value).dropped = v := rfl

/-- Dropping a fresh overlay gives back the view it was opened over. -/
theorem dropped_opened (v : View) : v.opened.dropped = v := rfl

/-- Committing a fresh overlay changes nothing. -/
theorem committed_opened (v : View) : v.opened.committed = v := rfl

end View

end ConferenceLedger

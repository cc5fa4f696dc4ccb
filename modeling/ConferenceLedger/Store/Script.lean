import ConferenceLedger.Store.View

/-!
# Scripts of store steps

A script reads and writes a view step by step, and opens overlays within overlays. Each
overlay runs its own steps and is then committed or dropped.
-/

namespace ConferenceLedger

/-- One step on a view of the store. -/
inductive StoreStep where
  /-- Put a value under a key. -/
  | set (key value : Bytes)
  /-- Ask for the value of a key. -/
  | get (key : Bytes)
  /-- Ask whether a key has a value. -/
  | contains (key : Bytes)
  /-- Ask for the entries whose keys begin with `start`. -/
  | scan (start : Bytes)
  /-- Run steps in an overlay, and keep its writes or not. -/
  | overlay (steps : List StoreStep) (commit : Bool)

/-- What a step answers. -/
inductive StoreAnswer where
  /-- A write answers nothing. -/
  | written
  /-- The value of a key. -/
  | value (v : Option Bytes)
  /-- Whether a key has a value. -/
  | present (b : Bool)
  /-- Entries in ascending order of keys. -/
  | listed (entries : List Entry)
  /-- The answers of the steps of an overlay, and its writes before they were kept or not. -/
  | overlaid (answers : List StoreAnswer) (writes : List Entry)

mutual

/-- Run a step over a view. -/
def StoreStep.run : StoreStep → View → StoreAnswer × View
  | .set key value, v => (.written, v.set key value)
  | .get key, v => (.value (v.get? key), v)
  | .contains key, v => (.present (v.contains key), v)
  | .scan start, v => (.listed (v.scan start), v)
  | .overlay steps commit, v =>
    let (answers, top) := StoreStep.runAll steps v.opened
    (.overlaid answers top.writes, if commit then top.committed else top.dropped)

/-- Run steps over a view, one after another. -/
def StoreStep.runAll : List StoreStep → View → List StoreAnswer × View
  | [], v => ([], v)
  | step :: rest, v =>
    let (answer, v) := step.run v
    let (answers, v) := StoreStep.runAll rest v
    (answer :: answers, v)

end

end ConferenceLedger

import ConferenceLedger.Proofs.Ledger.Refusals

/-!
# Execution is the handler or nothing

An operation works in an overlay. The handler cannot tell the overlay from a copy of the store that
it changes itself: it reads and lists what it would there, its own writes included. So an operation
that succeeds leaves what the handler leaves, and one that fails leaves the store as it was,
whatever a handler had written by then. The handlers there are have written nothing when they fail.
-/

namespace ConferenceLedger

/-- A program in a fresh overlay has the result that it has on the store, and the overlay that it
leaves answers as the store that it leaves. -/
theorem Access.runOver_opened {ε α : Type} (x : Access ε α) (s : Store) :
    ∃ v, x.runOver (View.base s).opened = ((x.run s).1, v) ∧
      (∀ k, v.get? k = (x.run s).2.get? k) ∧ ∀ start, v.scan start = (x.run s).2.scan start := by
  obtain ⟨pending, hrun, hflat⟩ := x.runOver_overlay (.base s) .empty
  have hs : (View.overlay (.base s) .empty).flat = s := rfl
  rw [hs] at hrun hflat
  refine ⟨_, hrun, ?_, ?_⟩
  · intro k
    rw [← View.get?_flat, hflat]
  · intro start
    rw [← View.scan_flat, hflat]

namespace Operation

/-- The handler that an operation goes to at a block time. -/
inductive GoesTo (time : Int64) : Operation → LedgerAccess Unit → Prop where
  /-- Keys are granted by the handler of custody. -/
  | key (m : KeyGrant) : GoesTo time (.key m) (Custody.handle (.key m))
  /-- Accounts are claimed at the handler of custody. -/
  | claimKey (m : KeyClaim) : GoesTo time (.claimKey m) (Custody.handle (.claimKey m))
  /-- Badges are scanned at the handler of meetings. -/
  | scanQr (m : BadgeScan) : GoesTo time (.scanQr m) (Meeting.handle time (.scanQr m))
  /-- Wins are collected at the handler of the booth. -/
  | redeem (m : Redemption) : GoesTo time (.redeem m) (Booth.handle (.redeem m))

/-- What becomes of a store when an operation is executed on it, by what the handler of the
operation does on a copy of the store. -/
structure ExecutesAsHandled (op : Operation) (time : Int64) (s : Store) : Prop where
  /-- The handler is that of custody, of meetings or of the booth. -/
  handler : GoesTo time op (op.program time)
  /-- The result is that of the handler. -/
  result : (op.execute time s).1 = ((op.program time).run s).1
  /-- If the handler succeeds, the store is the one that it leaves. -/
  committed : ∀ t, (op.program time).run s = (.ok (), t) → (op.execute time s).2 = t
  /-- If the handler fails, the store is as before, whatever the handler leaves of its copy. -/
  dropped : ∀ e t, (op.program time).run s = (.error e, t) → (op.execute time s).2 = s
  /-- The overlay that the handler leaves answers as the copy does, also when the handler fails. -/
  overlay : ∃ v, (op.program time).runOver (View.base s).opened =
      (((op.program time).run s).1, v) ∧
    (∀ k, v.get? k = ((op.program time).run s).2.get? k) ∧
    ∀ start, v.scan start = ((op.program time).run s).2.scan start
  /-- A handler that fails has written nothing to its copy. -/
  unwritten : ∀ e t, (op.program time).run s = (.error e, t) → t = s

/-- Every operation goes to its handler. -/
theorem goesTo_program (op : Operation) (time : Int64) : GoesTo time op (op.program time) := by
  cases op with
  | key m => exact .key m
  | claimKey m => exact .claimKey m
  | scanQr m => exact .scanQr m
  | redeem m => exact .redeem m

/-- Either the handler succeeds and what it leaves is kept, or it fails and the store is as
before. -/
theorem execute_cases (op : Operation) (time : Int64) (s : Store) :
    (∃ t, (op.program time).run s = (.ok (), t) ∧ op.execute time s = (.ok (), t)) ∨
      ∃ e t, (op.program time).run s = (.error e, t) ∧ op.execute time s = (.error e, s) := by
  have hexecute := (op.program time).atomically_eq s
  cases hrun : (op.program time).run s with
  | mk result t =>
    rw [hrun] at hexecute
    cases result with
    | ok => exact Or.inl ⟨t, rfl, hexecute⟩
    | error e => exact Or.inr ⟨e, t, rfl, hexecute⟩

/-- Every operation is executed on every store as its handler does it on a copy, or not at all. -/
theorem executesAsHandled (op : Operation) (time : Int64) (s : Store) :
    op.ExecutesAsHandled time s := by
  have hexecute := (op.program time).atomically_eq s
  refine ⟨op.goesTo_program time, ?_, ?_, ?_, (op.program time).runOver_opened s,
    op.failsUnwritten_program time s⟩
  · rw [execute, hexecute]
    rcases (op.program time).run s with ⟨⟨e⟩ | ⟨⟨⟩⟩, t⟩ <;> rfl
  · intro t hrun
    rw [execute, hexecute, hrun]
  · intro e t hrun
    rw [execute, hexecute, hrun]

/-- Two attendees, and a prize of which one unit is left. -/
def lastUnit : Store :=
  Store.empty.fileAll [.attendee (.blank (.ofTicket "1")), .attendee (.blank (.ofTicket "2")),
    .prize ⟨1, 1, "Pin", 1⟩]

/-- The first attendee scans the badge of the second and shares something. -/
def lastScan : Operation := .scanQr ⟨.ofTicket "1", "2", ⟨[7]⟩⟩

/-- Both attendees reach the first tier by the scan, and the second is awarded after the handler has
taken the last unit for the first. Where the prize of another tier cannot be read the scan fails,
and the store is as before. -/
theorem executesAsHandled_lastScan :
    (lastScan.ExecutesAsHandled 0 lastUnit ∧
      (lastScan.execute 0 lastUnit).1.toOption = some () ∧
      (lastScan.execute 0 lastUnit).2.prizes.map (·.quantity) = [0] ∧
      (lastScan.execute 0 lastUnit).2.attendees.map (fun a => (a.tier, a.rep, a.winnings.length)) =
        [(1, 1, 0), (1, 4, 1)]) ∧
      lastScan.ExecutesAsHandled 0 (lastUnit.set (StoreKey.prize 2) [2]) ∧
      (lastScan.execute 0 (lastUnit.set (StoreKey.prize 2) [2])).1.toOption = none ∧
      (lastScan.execute 0 (lastUnit.set (StoreKey.prize 2) [2])).2.entries =
        (lastUnit.set (StoreKey.prize 2) [2]).entries := by
  have hscan := executesAsHandled lastScan 0 lastUnit
  have htorn := executesAsHandled lastScan 0 (lastUnit.set (StoreKey.prize 2) [2])
  refine ⟨⟨hscan, ?_⟩, htorn, ?_⟩
  · decide +kernel
  · decide +kernel

end Operation

end ConferenceLedger

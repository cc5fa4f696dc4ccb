import ConferenceLedger.Ledger.Records

/-!
# Awards

Points raise an attendee's reputation, and reputation reaches prize tiers. An attendee who
reaches new tiers gets the prize of each of them that is in stock, and its stock goes down
by one. The attendee is handed on; whoever awards points stores the record.
-/

namespace ConferenceLedger.Award

/-- The points of a claimed account. -/
def claimPoints : UInt64 := 5

/-- The points of each side of a new meeting. -/
def scanPoints : UInt64 := 1

/-- The points of sharing data in a meeting for the first time. -/
def sharePoints : UInt64 := 3

/-- Give an attendee one unit of a prize, if there is one. -/
def giveOne (a : Attendee) (p : Prize) : LedgerAccess Attendee :=
  if p.quantity = 0 then pure a
  else do
    Records.setPrize { p with quantity := p.quantity - 1 }
    return { a with winnings := a.winnings ++ [⟨p.tier, p.text, false⟩] }

/-- Bring the tier of an attendee up to date, and give the prizes of the tiers passed. -/
def updateTier (a : Attendee) : LedgerAccess Attendee := do
  let prizes ← Records.prizes
  let tier := Prize.tierFor prizes a.rep
  if tier ≤ a.tier then return a
  else
    let passed := prizes.filter fun p => a.tier < p.tier && p.tier ≤ tier
    let a ← passed.foldlM giveOne a
    return { a with tier }

/-- Award points to an attendee. -/
def awardPoints (points : UInt64) (a : Attendee) : LedgerAccess Attendee :=
  updateTier (a.addRep points)

end ConferenceLedger.Award

import ConferenceLedger.Record.Attendee

/-!
# Meeting records

Two attendees who scan each other share one record, whatever the direction and however
often. Each side holds what that attendee shared and the points earned by it.
-/

namespace ConferenceLedger

/-- One attendee's part in a meeting. -/
structure Side where
  /-- The attendee. -/
  address : Address
  /-- What the attendee shared; nothing until then. -/
  data : Blob
  /-- The points that the attendee earned in this meeting. -/
  points : UInt64
  deriving DecidableEq

/-- The meeting of two attendees. -/
structure Scan where
  /-- The identifier of the pair. -/
  id : ScanId
  /-- The attendee who scanned first. -/
  first : Side
  /-- The other attendee. -/
  second : Side
  /-- When the first scan was made, in seconds. -/
  time : Int64
  deriving DecidableEq

namespace Side

/-- The side with points added. -/
def credit (points : UInt64) (s : Side) : Side := { s with points := addCapped s.points points }

/-- The side with data appended and points added. -/
def share (data : Bytes) (points : UInt64) (s : Side) : Side :=
  { s with data := ⟨s.data.bytes ++ data⟩ }.credit points

end Side

namespace Scan

/-- The record of a first scan, without data and points. -/
def new (first second : Address) (time : Int64) : Except PairError Scan :=
  match ScanId.ofPair first second with
  | .error e => .error e
  | .ok id => .ok ⟨id, ⟨first, .empty, 0⟩, ⟨second, .empty, 0⟩, time⟩

/-- The record with points added on both sides. -/
def addPoints (first second : UInt64) (s : Scan) : Scan :=
  { s with first := s.first.credit first, second := s.second.credit second }

/-- The side of an attendee: any but the first has the second side. -/
def side (address : Address) (s : Scan) : Side :=
  if s.first.address = address then s.first else s.second

/-- The record with the side of an attendee changed. -/
def updateSide (address : Address) (change : Side → Side) (s : Scan) : Scan :=
  if s.first.address = address then { s with first := change s.first }
  else { s with second := change s.second }

/-- The names of the fields, in order. -/
def fieldNames : List String := ["id", "s1", "s2", "d1", "d2", "p1", "p2", "unix_time_sec"]

instance : JsonForm Scan where
  toJson s := .obj [
    ("id", toJson s.id),
    ("s1", toJson s.first.address),
    ("s2", toJson s.second.address),
    ("d1", toJson s.first.data),
    ("d2", toJson s.second.data),
    ("p1", toJson s.first.points),
    ("p2", toJson s.second.points),
    ("unix_time_sec", toJson s.time)]
  ofJson? j := do
    let [id, s1, s2, d1, d2, p1, p2, time] ← Json.slots? fieldNames j | none
    return ⟨← id.required ofJson?,
      ⟨← s1.required ofJson?, ← d1.required ofJson?, ← p1.required ofJson?⟩,
      ⟨← s2.required ofJson?, ← d2.required ofJson?, ← p2.required ofJson?⟩,
      ← time.required ofJson?⟩

instance : Binary Scan where
  put s :=
    put s.id ++ put s.first.address ++ put s.second.address ++ put s.first.data ++
      put s.second.data ++ put s.first.points ++ put s.second.points ++ put s.time
  get := do
    let id ← Binary.get
    let s1 ← Binary.get
    let s2 ← Binary.get
    let d1 ← Binary.get
    let d2 ← Binary.get
    let p1 ← Binary.get
    let p2 ← Binary.get
    let time ← Binary.get
    return ⟨id, ⟨s1, d1, p1⟩, ⟨s2, d2, p2⟩, time⟩

end Scan

end ConferenceLedger

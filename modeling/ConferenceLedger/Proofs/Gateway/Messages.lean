import ConferenceLedger.Gateway.Message
import ConferenceLedger.Proofs.Json.Forms

/-!
# Reading back messages

Every message of a client or of the server is read back from its text, with every query and every
answer inside it. The forms of the records inside are objects of their fields. Queries and answers
are read from parts that had to be read before the kind of the message was known, and their forms
nest far less deep than such parts may.
-/

namespace ConferenceLedger

open Json (plain_toJson required_given required_bind optional_bind slots?_obj)

namespace LawfulJson

instance : LawfulJson PublicKey where
  height := 0
  plain k := plain_toJson k.octets (Nat.le_refl 0)
  ofJson?_toJson k := by
    change (ofJson? (toJson k.octets)).map PublicKey.mk = some k
    rw [ofJson?_toJson]
    rfl

instance : LawfulJson Address where
  height := 0
  plain a := plain_toJson a.octets (Nat.le_refl 0)
  ofJson?_toJson a := by
    change (ofJson? (toJson a.octets)).map Address.mk = some a
    rw [ofJson?_toJson]
    rfl

instance : LawfulJson Commitment where
  height := 0
  plain c := plain_toJson c.octets (Nat.le_refl 0)
  ofJson?_toJson c := by
    change (ofJson? (toJson c.octets)).map Commitment.mk = some c
    rw [ofJson?_toJson]
    rfl

instance : LawfulJson ScanId where
  height := 0
  plain i := plain_toJson (Blob.mk i.bytes) (Nat.le_refl 0)
  ofJson?_toJson i := by
    change (ofJson? (toJson (Blob.mk i.bytes)) : Option Blob).map (fun b => ScanId.mk b.bytes) = _
    rw [ofJson?_toJson]
    rfl

instance : NeverNull PublicKey := ⟨fun k => NeverNull.ne_null k.octets⟩

instance : NeverNull Address := ⟨fun a => NeverNull.ne_null a.octets⟩

instance : NeverNull Commitment := ⟨fun c => NeverNull.ne_null c.octets⟩

instance : LawfulJson Win where
  height := 1
  plain w := by
    refine .obj ?_
    simp only [List.forall_mem_cons]
    refine ⟨plain_toJson _ ?_, plain_toJson _ ?_, plain_toJson _ ?_,
      List.forall_mem_nil _⟩ <;> decide
  ofJson?_toJson w := by
    have hslots : Json.slots? Win.fieldNames (toJson w) = some [.given (toJson w.tier),
        .given (toJson w.name), .given (toJson w.claimed)] :=
      slots?_obj rfl (by decide)
    change (Json.slots? Win.fieldNames (toJson w)).bind _ = _
    rw [hslots]
    simp only [↓Option.bind_eq_bind, ↓Option.bind_some, ↓required_bind]
    rfl

instance : LawfulJson Prize where
  height := 1
  plain p := by
    refine .obj ?_
    simp only [List.forall_mem_cons]
    refine ⟨plain_toJson _ ?_, plain_toJson _ ?_, plain_toJson _ ?_, plain_toJson _ ?_,
      List.forall_mem_nil _⟩ <;> decide
  ofJson?_toJson p := by
    have hslots : Json.slots? Prize.fieldNames (toJson p) = some [.given (toJson p.tier),
        .given (toJson p.repNeeded), .given (toJson p.text), .given (toJson p.quantity)] :=
      slots?_obj rfl (by decide)
    change (Json.slots? Prize.fieldNames (toJson p)).bind _ = _
    rw [hslots]
    simp only [↓Option.bind_eq_bind, ↓Option.bind_some, ↓required_bind]
    rfl

instance : LawfulJson LeaderboardEntry where
  height := 1
  plain r := by
    refine .obj ?_
    simp only [List.forall_mem_cons]
    refine ⟨plain_toJson _ ?_, plain_toJson _ ?_, plain_toJson _ ?_, plain_toJson _ ?_,
      List.forall_mem_nil _⟩ <;> decide
  ofJson?_toJson r := by
    have hslots : Json.slots? LeaderboardEntry.fieldNames (toJson r) = some [
        .given (toJson r.address), .given (toJson r.name), .given (toJson r.rep),
        .given (toJson r.tier)] :=
      slots?_obj rfl (by decide)
    change (Json.slots? LeaderboardEntry.fieldNames (toJson r)).bind _ = _
    rw [hslots]
    simp only [↓Option.bind_eq_bind, ↓Option.bind_some, ↓required_bind]
    rfl

instance : LawfulJson Scan where
  height := 1
  plain s := by
    refine .obj ?_
    simp only [List.forall_mem_cons]
    refine ⟨plain_toJson _ ?_, plain_toJson _ ?_, plain_toJson _ ?_, plain_toJson _ ?_,
      plain_toJson _ ?_, plain_toJson _ ?_, plain_toJson _ ?_, plain_toJson _ ?_,
      List.forall_mem_nil _⟩ <;> decide
  ofJson?_toJson s := by
    have hslots : Json.slots? Scan.fieldNames (toJson s) = some [.given (toJson s.id),
        .given (toJson s.first.address), .given (toJson s.second.address),
        .given (toJson s.first.data), .given (toJson s.second.data),
        .given (toJson s.first.points), .given (toJson s.second.points), .given (toJson s.time)] :=
      slots?_obj rfl (by decide)
    change (Json.slots? Scan.fieldNames (toJson s)).bind _ = _
    rw [hslots]
    simp only [↓Option.bind_eq_bind, ↓Option.bind_some, ↓required_bind]
    rfl

instance : LawfulJson Attendee where
  height := 3
  plain a := by
    refine .obj ?_
    simp only [List.forall_mem_cons]
    refine ⟨plain_toJson _ ?_, plain_toJson _ ?_, plain_toJson _ ?_, plain_toJson _ ?_,
      plain_toJson _ ?_, plain_toJson _ ?_, plain_toJson _ ?_, plain_toJson _ ?_,
      plain_toJson _ ?_, plain_toJson _ ?_, plain_toJson _ ?_, plain_toJson _ ?_,
      plain_toJson _ ?_, List.forall_mem_nil _⟩ <;> decide
  ofJson?_toJson a := by
    have hslots : Json.slots? Attendee.fieldNames (toJson a) = some [.given (toJson a.address),
        .given (toJson a.id), .given (toJson a.ticketClass), .given (toJson a.name),
        .given (toJson a.pubKey), .given (toJson a.commitment), .given (toJson a.claimed),
        .given (toJson a.rep), .given (toJson a.tier), .given (toJson a.rsaPublicKey),
        .given (toJson a.encryptedInfo), .given (toJson a.scanIds), .given (toJson a.winnings)] :=
      slots?_obj rfl (by decide)
    change (Json.slots? Attendee.fieldNames (toJson a)).bind _ = _
    rw [hslots]
    simp only [↓Option.bind_eq_bind, ↓Option.bind_some, ↓required_bind, ↓optional_bind]
    rfl

end LawfulJson

/-! ### Queries and answers -/

namespace Query

/-- The form of a query is an object of strings and integers. -/
theorem plain_toJson (q : Query) : (toJson q).Plain 1 := by
  refine .obj ?_
  cases q <;> simp only [shape, List.forall_mem_cons] <;>
    first
    | exact ⟨.str _, List.forall_mem_nil _⟩
    | exact ⟨.str _, Json.plain_toJson _ (by decide), List.forall_mem_nil _⟩

/-- No field of a query is its tag. -/
theorem tag_notMem (q : Query) : "path" ∉ q.shape.2.map (·.1) := by
  cases q <;> simp [shape]

/-- The tag of a query names its case, and what is left are its fields. -/
theorem tagged?_toJson (q : Query) (origin : Json.Origin) {i : Nat}
    (hcase : Json.caseNamed? caseNames q.shape.1 = some i) :
    Json.tagged? "path" caseNames origin (toJson q) = some (i, .obj q.shape.2) :=
  Json.tagged?_obj (fun _ => q.plain_toJson.bufferable (by decide)) hcase q.tag_notMem

/-- The only field of a record is read back. -/
theorem onlyField?_obj {α : Type} [JsonForm α] [LawfulJson α] (name : String) (a : α) :
    onlyField? name (.obj [(name, toJson a)]) = some a := by
  have hslots : Json.slots? [name] (.obj [(name, toJson a)]) = some [.given (toJson a)] :=
    slots?_obj rfl (List.pairwise_singleton _ name)
  rw [onlyField?, hslots]
  exact required_given a

/-- A query is read back from its form, whatever the origin of the form. -/
theorem ofJsonOf?_toJson (origin : Json.Origin) (q : Query) :
    ofJsonOf? origin (toJson q) = some q := by
  cases q with
  | attendee address =>
    have hname : caseNames[0]? = some "attendee" := rfl
    rw [ofJsonOf?, tagged?_toJson (.attendee address) origin (i := 0) rfl]
    simp only [Option.bind_eq_bind, Option.bind_some, hname, shape, onlyField?_obj]
    rfl
  | attendeeById id =>
    have hname : caseNames[1]? = some "attendee_by_id" := rfl
    rw [ofJsonOf?, tagged?_toJson (.attendeeById id) origin (i := 1) rfl]
    simp only [Option.bind_eq_bind, Option.bind_some, hname, shape, onlyField?_obj]
    rfl
  | keyed id =>
    have hname : caseNames[2]? = some "keyed" := rfl
    rw [ofJsonOf?, tagged?_toJson (.keyed id) origin (i := 2) rfl]
    simp only [Option.bind_eq_bind, Option.bind_some, hname, shape, onlyField?_obj]
    rfl
  | claimed id =>
    have hname : caseNames[3]? = some "claimed" := rfl
    rw [ofJsonOf?, tagged?_toJson (.claimed id) origin (i := 3) rfl]
    simp only [Option.bind_eq_bind, Option.bind_some, hname, shape, onlyField?_obj]
    rfl
  | scan id =>
    have hname : caseNames[4]? = some "scan" := rfl
    rw [ofJsonOf?, tagged?_toJson (.scan id) origin (i := 4) rfl]
    simp only [Option.bind_eq_bind, Option.bind_some, hname, shape, onlyField?_obj]
    rfl
  | attendeeScans address =>
    have hname : caseNames[5]? = some "attendee_scans" := rfl
    rw [ofJsonOf?, tagged?_toJson (.attendeeScans address) origin (i := 5) rfl]
    simp only [Option.bind_eq_bind, Option.bind_some, hname, shape, onlyField?_obj]
    rfl
  | attendees =>
    have hname : caseNames[6]? = some "attendees" := rfl
    rw [ofJsonOf?, tagged?_toJson .attendees origin (i := 6) rfl]
    simp only [Option.bind_eq_bind, Option.bind_some, hname]
    rfl
  | prizes =>
    have hname : caseNames[7]? = some "prizes" := rfl
    rw [ofJsonOf?, tagged?_toJson .prizes origin (i := 7) rfl]
    simp only [Option.bind_eq_bind, Option.bind_some, hname]
    rfl
  | prize tier =>
    have hname : caseNames[8]? = some "prize" := rfl
    rw [ofJsonOf?, tagged?_toJson (.prize tier) origin (i := 8) rfl]
    simp only [Option.bind_eq_bind, Option.bind_some, hname, shape, onlyField?_obj]
    rfl
  | leaderboard limit =>
    have hname : caseNames[9]? = some "leaderboard" := rfl
    have hslots : Json.slots? ["limit"] (.obj [("limit", toJson limit)]) =
        some [.given (toJson limit)] := slots?_obj rfl (by decide)
    rw [ofJsonOf?, tagged?_toJson (.leaderboard limit) origin (i := 9) rfl]
    simp only [Option.bind_eq_bind, Option.bind_some, hname, shape, hslots, Json.Slot.defaulted,
      LawfulJson.ofJson?_toJson]
    rfl
  | redeemable address =>
    have hname : caseNames[10]? = some "redeemable" := rfl
    rw [ofJsonOf?, tagged?_toJson (.redeemable address) origin (i := 10) rfl]
    simp only [Option.bind_eq_bind, Option.bind_some, hname, shape, onlyField?_obj]
    rfl

end Query

instance : LawfulJson Query where
  height := 1
  plain := Query.plain_toJson
  ofJson?_toJson := Query.ofJsonOf?_toJson .direct

namespace QueryResponse

/-- The contents of an answer nest no deeper than a list of attendees. -/
theorem plain_contents (r : QueryResponse) : r.shape.2.Plain 4 := by
  cases r <;> exact Json.plain_toJson _ (by decide)

/-- The form of an answer is an object of the name of its case and its contents. -/
theorem plain_toJson (r : QueryResponse) : (toJson r).Plain 5 := by
  refine .obj ?_
  simp only [List.forall_mem_cons]
  exact ⟨.str _, r.plain_contents, List.forall_mem_nil _⟩

/-- An answer is told by the name of its case, and its contents are left. -/
theorem adjacent?_toJson (r : QueryResponse) (origin : Json.Origin) {i : Nat}
    (hcase : Json.caseNamed? caseNames r.shape.1 = some i) :
    Json.adjacent? "type" "data" caseNames origin (toJson r) = some (i, origin, r.shape.2) := by
  change (Json.bareCase? caseNames origin (.str r.shape.1)).map
    (fun i => (i, origin, r.shape.2)) = _
  rw [Json.bareCase?, hcase]
  rfl

/-- An answer is read back from its form, whatever the origin of the form. -/
theorem ofJsonOf?_toJson (origin : Json.Origin) (r : QueryResponse) :
    ofJsonOf? origin (toJson r) = some r := by
  cases r with
  | attendee a =>
    have hname : caseNames[0]? = some "attendee" := rfl
    rw [ofJsonOf?, adjacent?_toJson (.attendee a) origin (i := 0) rfl]
    simp only [Option.bind_eq_bind, Option.bind_some, hname, shape, LawfulJson.ofJson?_toJson]
    rfl
  | attendees as =>
    have hname : caseNames[1]? = some "attendees" := rfl
    rw [ofJsonOf?, adjacent?_toJson (.attendees as) origin (i := 1) rfl]
    simp only [Option.bind_eq_bind, Option.bind_some, hname, shape, LawfulJson.ofJson?_toJson]
    rfl
  | flag b =>
    have hname : caseNames[2]? = some "flag" := rfl
    rw [ofJsonOf?, adjacent?_toJson (.flag b) origin (i := 2) rfl]
    simp only [Option.bind_eq_bind, Option.bind_some, hname, shape, LawfulJson.ofJson?_toJson]
    rfl
  | scan s =>
    have hname : caseNames[3]? = some "scan" := rfl
    rw [ofJsonOf?, adjacent?_toJson (.scan s) origin (i := 3) rfl]
    simp only [Option.bind_eq_bind, Option.bind_some, hname, shape, LawfulJson.ofJson?_toJson]
    rfl
  | scans ss =>
    have hname : caseNames[4]? = some "scans" := rfl
    rw [ofJsonOf?, adjacent?_toJson (.scans ss) origin (i := 4) rfl]
    simp only [Option.bind_eq_bind, Option.bind_some, hname, shape, LawfulJson.ofJson?_toJson]
    rfl
  | prizes ps =>
    have hname : caseNames[5]? = some "prizes" := rfl
    rw [ofJsonOf?, adjacent?_toJson (.prizes ps) origin (i := 5) rfl]
    simp only [Option.bind_eq_bind, Option.bind_some, hname, shape, LawfulJson.ofJson?_toJson]
    rfl
  | prize p =>
    have hname : caseNames[6]? = some "prize" := rfl
    rw [ofJsonOf?, adjacent?_toJson (.prize p) origin (i := 6) rfl]
    simp only [Option.bind_eq_bind, Option.bind_some, hname, shape, LawfulJson.ofJson?_toJson]
    rfl
  | leaderboard rows =>
    have hname : caseNames[7]? = some "leaderboard" := rfl
    rw [ofJsonOf?, adjacent?_toJson (.leaderboard rows) origin (i := 7) rfl]
    simp only [Option.bind_eq_bind, Option.bind_some, hname, shape, LawfulJson.ofJson?_toJson]
    rfl
  | redeemable ws =>
    have hname : caseNames[8]? = some "redeemable" := rfl
    rw [ofJsonOf?, adjacent?_toJson (.redeemable ws) origin (i := 8) rfl]
    simp only [Option.bind_eq_bind, Option.bind_some, hname, shape, LawfulJson.ofJson?_toJson]
    rfl

end QueryResponse

instance : LawfulJson QueryResponse where
  height := 5
  plain := QueryResponse.plain_toJson
  ofJson?_toJson := QueryResponse.ofJsonOf?_toJson .direct

/-! ### Messages -/

namespace ErrorCode

/-- A code is read back from its name. -/
theorem ofJsonOf?_toJson (origin : Json.Origin) (c : ErrorCode) :
    ofJsonOf? origin (toJson c) = some c := by
  cases c <;> rfl

end ErrorCode

instance : LawfulJson ErrorCode where
  height := 0
  plain _ := .str _
  ofJson?_toJson := ErrorCode.ofJsonOf?_toJson .direct

namespace ClientMessage

/-- A message is an object whose field `type` names its kind, beside its other fields. -/
theorem plain_toJson (m : ClientMessage) : (toJson m).Plain 2 := by
  cases m <;> refine .obj ?_ <;> simp only [List.forall_mem_cons]
  · exact ⟨.str _, Json.plain_toJson _ (by decide), Json.plain_toJson _ (by decide),
      List.forall_mem_nil _⟩
  · exact ⟨.str _, Json.plain_toJson _ (by decide), List.forall_mem_nil _⟩
  · exact ⟨.str _, Json.plain_toJson _ (by decide), List.forall_mem_nil _⟩
  · exact ⟨.str _, Json.plain_toJson _ (by decide), List.forall_mem_nil _⟩

/-- The kind of a message is told by its name, and its other fields are left. -/
theorem tagged?_toJson (m : ClientMessage) {name : String} {fields : List (String × Json)} {i : Nat}
    (hform : toJson m = .obj (("type", .str name) :: fields))
    (hcase : Json.caseNamed? caseNames name = some i) (hother : "type" ∉ fields.map (·.1)) :
    Json.tagged? "type" caseNames .direct (toJson m) = some (i, .obj fields) := by
  have hbuffer : (toJson m).bufferable 0 = true := m.plain_toJson.bufferable (by decide)
  rw [hform] at hbuffer ⊢
  exact Json.tagged?_obj (fun _ => hbuffer) hcase hother

/-- A message of a client is read back from its form. -/
theorem ofJson?_toJson (m : ClientMessage) : ofJson? (toJson m) = some m := by
  cases m with
  | auth token clientVersion =>
    have htag := tagged?_toJson (.auth token clientVersion) (i := 0) rfl rfl (by simp)
    have hname : caseNames[0]? = some "auth" := rfl
    have hslots : Json.slots? ["token", "client_version"]
        (.obj [("token", toJson token), ("client_version", toJson clientVersion)]) =
        some [.given (toJson token), .given (toJson clientVersion)] := slots?_obj rfl (by decide)
    change (Json.tagged? "type" caseNames .direct _).bind _ = _
    rw [htag]
    simp only [↓Option.bind_eq_bind, Option.bind_some, hname, hslots, ↓required_bind,
      Json.Slot.defaulted, LawfulJson.ofJson?_toJson]
    rfl
  | key publicKey =>
    have htag := tagged?_toJson (.key publicKey) (i := 1) rfl rfl (by simp)
    have hname : caseNames[1]? = some "key" := rfl
    have hslots : Json.slots? ["public_key"] (.obj [("public_key", toJson publicKey)]) =
        some [.given (toJson publicKey)] := slots?_obj rfl (by decide)
    change (Json.tagged? "type" caseNames .direct _).bind _ = _
    rw [htag]
    simp only [↓Option.bind_eq_bind, Option.bind_some, hname, hslots, ↓required_bind]
    rfl
  | query q =>
    have htag := tagged?_toJson (.query q) (i := 2) rfl rfl (by simp)
    have hname : caseNames[2]? = some "query" := rfl
    have hslots : Json.slots? ["query"] (.obj [("query", toJson q)]) =
        some [.given (toJson q)] := slots?_obj rfl (by decide)
    change (Json.tagged? "type" caseNames .direct _).bind _ = _
    rw [htag]
    simp only [↓Option.bind_eq_bind, Option.bind_some, hname, hslots, Json.Slot.required,
      Query.ofJsonOf?_toJson]
    rfl
  | ping timestamp =>
    have htag := tagged?_toJson (.ping timestamp) (i := 3) rfl rfl (by simp)
    have hname : caseNames[3]? = some "ping" := rfl
    have hslots : Json.slots? ["timestamp"] (.obj [("timestamp", toJson timestamp)]) =
        some [.given (toJson timestamp)] := slots?_obj rfl (by decide)
    change (Json.tagged? "type" caseNames .direct _).bind _ = _
    rw [htag]
    simp only [↓Option.bind_eq_bind, Option.bind_some, hname, hslots, ↓required_bind]
    rfl

end ClientMessage

instance : LawfulJson ClientMessage where
  height := 2
  plain := ClientMessage.plain_toJson
  ofJson?_toJson := ClientMessage.ofJson?_toJson

namespace ServerMessage

/-- A message is an object whose field `type` names its kind, beside its other fields. -/
theorem plain_toJson (m : ServerMessage) : (toJson m).Plain 6 := by
  cases m <;> refine .obj ?_ <;> simp only [List.forall_mem_cons]
  · exact ⟨.str _, Json.plain_toJson _ (by decide), Json.plain_toJson _ (by decide),
      Json.plain_toJson _ (by decide), Json.plain_toJson _ (by decide), List.forall_mem_nil _⟩
  · exact ⟨.str _, Json.plain_toJson _ (by decide), List.forall_mem_nil _⟩
  · exact ⟨.str _, Json.plain_toJson _ (by decide), List.forall_mem_nil _⟩
  · exact ⟨.str _, Json.plain_toJson _ (by decide), Json.plain_toJson _ (by decide),
      List.forall_mem_nil _⟩
  · exact ⟨.str _, Json.plain_toJson _ (by decide), Json.plain_toJson _ (by decide),
      List.forall_mem_nil _⟩
  · exact ⟨.str _, Json.plain_toJson _ (by decide), List.forall_mem_nil _⟩

/-- The kind of a message is told by its name, and its other fields are left. -/
theorem tagged?_toJson (m : ServerMessage) {name : String} {fields : List (String × Json)} {i : Nat}
    (hform : toJson m = .obj (("type", .str name) :: fields))
    (hcase : Json.caseNamed? caseNames name = some i) (hother : "type" ∉ fields.map (·.1)) :
    Json.tagged? "type" caseNames .direct (toJson m) = some (i, .obj fields) := by
  have hbuffer : (toJson m).bufferable 0 = true := m.plain_toJson.bufferable (by decide)
  rw [hform] at hbuffer ⊢
  exact Json.tagged?_obj (fun _ => hbuffer) hcase hother

/-- A message of the server is read back from its form. -/
theorem ofJson?_toJson (m : ServerMessage) : ofJson? (toJson m) = some m := by
  cases m with
  | authResult success address serverVersion reason =>
    have htag := tagged?_toJson (.authResult success address serverVersion reason) (i := 0) rfl rfl
      (by simp)
    have hname : caseNames[0]? = some "auth_result" := rfl
    have hslots : Json.slots? authResultNames (.obj [("success", toJson success),
        ("address", toJson address), ("server_version", toJson serverVersion),
        ("error", toJson reason)]) = some [.given (toJson success), .given (toJson address),
          .given (toJson serverVersion), .given (toJson reason)] := slots?_obj rfl (by decide)
    change (Json.tagged? "type" caseNames .direct _).bind _ = _
    rw [htag]
    simp only [↓Option.bind_eq_bind, Option.bind_some, hname, hslots, ↓required_bind,
      ↓optional_bind]
    rfl
  | keyed address =>
    have htag := tagged?_toJson (.keyed address) (i := 1) rfl rfl (by simp)
    have hname : caseNames[1]? = some "keyed" := rfl
    have hslots : Json.slots? ["address"] (.obj [("address", toJson address)]) =
        some [.given (toJson address)] := slots?_obj rfl (by decide)
    change (Json.tagged? "type" caseNames .direct _).bind _ = _
    rw [htag]
    simp only [↓Option.bind_eq_bind, Option.bind_some, hname, hslots, ↓required_bind]
    rfl
  | queryResult result =>
    have htag := tagged?_toJson (.queryResult result) (i := 2) rfl rfl (by simp)
    have hname : caseNames[2]? = some "query_result" := rfl
    have hslots : Json.slots? ["result"] (.obj [("result", toJson result)]) =
        some [.given (toJson result)] := slots?_obj rfl (by decide)
    change (Json.tagged? "type" caseNames .direct _).bind _ = _
    rw [htag]
    simp only [↓Option.bind_eq_bind, Option.bind_some, hname, hslots, Json.Slot.required,
      QueryResponse.ofJsonOf?_toJson]
    rfl
  | pong timestamp serverTime =>
    have htag := tagged?_toJson (.pong timestamp serverTime) (i := 3) rfl rfl (by simp)
    have hname : caseNames[3]? = some "pong" := rfl
    have hslots : Json.slots? ["timestamp", "server_time"]
        (.obj [("timestamp", toJson timestamp), ("server_time", toJson serverTime)]) =
        some [.given (toJson timestamp), .given (toJson serverTime)] := slots?_obj rfl (by decide)
    change (Json.tagged? "type" caseNames .direct _).bind _ = _
    rw [htag]
    simp only [↓Option.bind_eq_bind, Option.bind_some, hname, hslots, ↓required_bind]
    rfl
  | error code text =>
    have htag := tagged?_toJson (.error code text) (i := 4) rfl rfl (by simp)
    have hname : caseNames[4]? = some "error" := rfl
    have hslots : Json.slots? ["code", "message"]
        (.obj [("code", toJson code), ("message", toJson text)]) =
        some [.given (toJson code), .given (toJson text)] := slots?_obj rfl (by decide)
    change (Json.tagged? "type" caseNames .direct _).bind _ = _
    rw [htag]
    simp only [↓Option.bind_eq_bind, Option.bind_some, hname, hslots, Json.Slot.required,
      ErrorCode.ofJsonOf?_toJson, LawfulJson.ofJson?_toJson]
    rfl
  | shutdown reason =>
    have htag := tagged?_toJson (.shutdown reason) (i := 5) rfl rfl (by simp)
    have hname : caseNames[5]? = some "shutdown" := rfl
    have hslots : Json.slots? ["reason"] (.obj [("reason", toJson reason)]) =
        some [.given (toJson reason)] := slots?_obj rfl (by decide)
    change (Json.tagged? "type" caseNames .direct _).bind _ = _
    rw [htag]
    simp only [↓Option.bind_eq_bind, Option.bind_some, hname, hslots, ↓required_bind]
    rfl

end ServerMessage

instance : LawfulJson ServerMessage where
  height := 6
  plain := ServerMessage.plain_toJson
  ofJson?_toJson := ServerMessage.ofJson?_toJson

/-- Every message of a client and every message of the server is read back from its text. -/
theorem messages_readBack :
    (∀ m : ClientMessage, ClientMessage.ofText? m.text = some m) ∧
      ∀ m : ServerMessage, ServerMessage.ofText? m.text = some m :=
  ⟨fun m => Json.ofJsonText?_render m, fun m => Json.ofJsonText?_render m⟩

example : (ClientMessage.auth "a\"b" "é\n").text =
    "\x7b\"type\":\"auth\",\"token\":\"a\\\"b\",\"client_version\":\"é\\n\"\x7d" := by
  decide

end ConferenceLedger

import ConferenceLedger.Proofs.Ledger.Outcome

/-!
# Every record stays at its place

Operations write rows at their places, so that a store of rows stays one. No operation takes
an account away or creates one, and all that an operation may change of an account is its key:
a keying changes the key of the account that it names.
-/

namespace ConferenceLedger

/-- A store whose entries are all rows at their places. -/
abbrev Store.Placed (s : Store) : Prop := s.Holds fun _ => True

/-- A store of rows of one kind is a store of rows. -/
theorem Store.Holds.placed {P : Row → Prop} {s : Store} (hs : s.Holds P) : s.Placed :=
  hs.mono fun _ _ => trivial

namespace Scan

/-- A change of one side leaves the identifier of a meeting. -/
@[simp] theorem id_updateSide (a : Address) (change : Side → Side) (x : Scan) :
    (x.updateSide a change).id = x.id := by
  unfold updateSide
  split_ifs <;> rfl

/-- A new meeting has the identifier of the pair. -/
theorem id_new {first second : Address} {time : Int64} {x : Scan}
    (h : new first second time = .ok x) : ScanId.ofPair first second = .ok x.id := by
  unfold new at h
  cases hpair : ScanId.ofPair first second with
  | error e =>
    rw [hpair] at h
    cases h
  | ok id =>
    rw [hpair] at h
    cases h
    rfl

end Scan

namespace Meeting

/-- The meeting of a pair has the identifier of the pair, whether it was found or made. -/
theorem id_of_meet {sender : Address} {time : Int64} {id : ScanId} {a b : Attendee} {p : Parties}
    {s t : Store} (hs : s.Placed) (hpair : ScanId.ofPair sender b.address = .ok id)
    (h : (meet sender time id a b).run s = (.ok p, t)) : p.scan.id = id := by
  rcases meet_run_ok h with ⟨scan, hfound, rfl, rfl⟩ | ⟨-, scan, hnew, rfl, rfl⟩
  · exact (hs.of_meeting hfound).1
  · have hid := Scan.id_new hnew
    rw [hpair] at hid
    exact (Except.ok.inj hid).symm

/-- Sharing leaves the identifier of the meeting. -/
theorem id_of_share {sender : Address} {data : Blob} {p q : Parties} {s t : Store}
    (h : (share sender data p).run s = (.ok q, t)) : q.scan.id = p.scan.id := by
  rcases share_run_ok h with ⟨-, rfl, rfl⟩ | ⟨-, rfl, rfl⟩
  · exact Scan.id_updateSide ..
  · rfl

/-- The rows of a scan are at their places, and they are a meeting and two attendees. -/
theorem rows_placed {sender : Address} {data : Blob} {time : Int64} {id : ScanId} {a b : Attendee}
    {met shared : Parties} {s u v : Store} (hs : s.Placed)
    (hpair : ScanId.ofPair sender b.address = .ok id)
    (hmeet : (meet sender time id a b).run s = (.ok met, u))
    (hshare : (share sender data met.listed).run u = (.ok shared, v)) :
    ∀ r ∈ shared.rows, r.WellPlaced ∧ r.cls ∈ [StoreKey.scanClass, StoreKey.attendeeClass] := by
  have hid : shared.scan.id = id := by
    rw [id_of_share hshare]
    exact (id_of_meet hs hpair hmeet : met.scan.id = id)
  intro r hr
  simp only [Parties.rows, List.mem_cons, List.not_mem_nil, or_false] at hr
  rcases hr with rfl | rfl | rfl
  · exact ⟨⟨sender, b.address, hid ▸ hpair⟩, List.mem_cons_self⟩
  · exact ⟨trivial, List.mem_cons_of_mem _ List.mem_cons_self⟩
  · exact ⟨trivial, List.mem_cons_of_mem _ List.mem_cons_self⟩

end Meeting

/-- Awards keep every record at its place. -/
theorem Store.Awarding.placed {s t : Store} (h : s.Awarding t) (hs : s.Placed) : t.Placed := by
  induction h with
  | none => exact hs
  | award _ points a ih => exact ih.handOut (fun _ _ => trivial) points a

namespace Operation

/-- What an operation makes of the account of an address: a keying installs the key on the
account that it names, and nothing else changes an account. -/
def rekey (op : Operation) (a : Address) (x : Account) : Account :=
  match op with
  | key m => if m.attendee = a then { x with pubKey := some m.newKey } else x
  | _ => x

/-- An operation leaves the sequence of every account. -/
@[simp] theorem sequence_rekey (op : Operation) (a : Address) (x : Account) :
    (op.rekey a x).sequence = x.sequence := by
  unfold rekey
  split
  · split_ifs <;> rfl
  · rfl

/-- An operation leaves the number of every account. -/
@[simp] theorem number_rekey (op : Operation) (a : Address) (x : Account) :
    (op.rekey a x).number = x.number := by
  unfold rekey
  split
  · split_ifs <;> rfl
  · rfl

variable {op : Operation} {time : Int64} {s t : Store}

/-- Whatever an operation writes stays at its place. -/
theorem placed_of_run_ok (hs : s.Placed) (h : (op.program time).run s = (.ok (), t)) :
    t.Placed := by
  cases op with
  | key m =>
    obtain ⟨-, -, account, -, rfl⟩ := Custody.grantKey_run_ok h
    exact (hs.file (r := .account _) trivial trivial).file (r := .attendee _) trivial trivial
  | claimKey m =>
    obtain ⟨x, -, -, -, y, -, rfl⟩ := Custody.claimKey_run_ok h
    exact (hs.handOut (fun _ _ => trivial) _ _).file (r := .attendee _) trivial trivial
  | scanQr m =>
    obtain ⟨scanned, sender, id, -, -, hpair, met, u, shared, v, hmeet, hshare, rfl⟩ :=
      Meeting.scanBadge_run_ok h
    have hv : v.Placed :=
      ((Meeting.meet_awarding hmeet).append (Meeting.share_awarding hshare)).placed hs
    exact hv.fileAll fun r hr =>
      ⟨(Meeting.rows_placed hs hpair hmeet hshare r hr).1, trivial⟩
  | redeem m =>
    obtain ⟨-, x, -, -, rfl⟩ := Booth.collect_run_ok h
    exact hs.file (r := .attendee _) trivial trivial

/-- The accounts after an operation are those before, rekeyed. -/
theorem account_of_run_ok (hs : s.Placed) (h : (op.program time).run s = (.ok (), t))
    (a : Address) : t.account a = (s.account a).map (op.rekey a) := by
  cases op with
  | key m =>
    obtain ⟨-, -, account, haccount, rfl⟩ := Custody.grantKey_run_ok h
    have haddress : account.address = m.attendee := (hs.of_account haccount).2.1
    rw [Store.fileAll_cons, Store.fileAll_cons, Store.fileAll_nil,
      Store.account_file_attendee, Store.account_file_account]
    by_cases ha : account.address = a
    · have hnamed : m.attendee = a := haddress.symm.trans ha
      rw [if_pos ha, ← hnamed, haccount, Option.map_some, rekey, if_pos rfl]
    · have hsame : (key m).rekey a = id := by
        funext x
        exact if_neg fun hnamed => ha (haddress.trans hnamed)
      rw [if_neg ha, hsame, Option.map_id_fun, id]
  | claimKey m =>
    obtain ⟨x, -, -, -, y, -, rfl⟩ := Custody.claimKey_run_ok h
    rw [Store.account_file_attendee, ((Store.Awarding.none s).award _ y).account]
    exact Option.map_id'.symm
  | scanQr m =>
    obtain ⟨scanned, sender, id, -, -, hpair, met, u, shared, v, hmeet, hshare, rfl⟩ :=
      Meeting.scanBadge_run_ok h
    have hrows : (v.fileAll shared.rows).account a = v.account a := by
      apply Store.record?_fileAll_of_cls_ne rfl
      intro r hr
      obtain ⟨hplaced, hcls⟩ := Meeting.rows_placed hs hpair hmeet hshare r hr
      exact ⟨hplaced, ne_of_mem_of_not_mem hcls (by simp)⟩
    rw [hrows, (Meeting.share_awarding hshare).account, (Meeting.meet_awarding hmeet).account]
    exact Option.map_id'.symm
  | redeem m =>
    obtain ⟨-, x, -, -, rfl⟩ := Booth.collect_run_ok h
    rw [Store.account_file_attendee]
    exact Option.map_id'.symm

/-- The classes of the records that operations write. -/
def classes : List UInt8 :=
  [StoreKey.attendeeClass, StoreKey.scanClass, StoreKey.prizeClass, StoreKey.accountClass]

/-- An operation leaves the records of all other classes. -/
theorem record?_of_run_ok {α : Type} [Binary α] (hs : s.Placed)
    (h : (op.program time).run s = (.ok (), t)) {k : Bytes} {c : UInt8} (hk : k.head? = some c)
    (hc : c ∉ classes) : t.record? α k = s.record? α k := by
  have hwritten : ∀ {cls : UInt8}, cls ∈ classes → cls ≠ c := fun hcls =>
    ne_of_mem_of_not_mem hcls hc
  have hattendee : ∀ (u : Store) (x : Attendee),
      (u.file (.attendee x)).record? α k = u.record? α k := by
    intro u x
    have hcls : StoreKey.attendeeClass ≠ c := hwritten (by simp [classes])
    exact Store.record?_file_of_cls_ne (r := .attendee x) trivial hk hcls
  have haccount : StoreKey.accountClass ≠ c := hwritten (by simp [classes])
  have hprize : c ≠ StoreKey.prizeClass := (hwritten (by simp [classes])).symm
  cases op with
  | key m =>
    obtain ⟨-, -, account, -, rfl⟩ := Custody.grantKey_run_ok h
    rw [Store.fileAll_cons, Store.fileAll_cons, Store.fileAll_nil, hattendee]
    exact Store.record?_file_of_cls_ne (r := .account _) trivial hk haccount
  | claimKey m =>
    obtain ⟨x, -, -, -, y, -, rfl⟩ := Custody.claimKey_run_ok h
    rw [hattendee]
    exact ((Store.Awarding.none s).award _ y).record? hk hprize
  | scanQr m =>
    obtain ⟨scanned, sender, id, -, -, hpair, met, u, shared, v, hmeet, hshare, rfl⟩ :=
      Meeting.scanBadge_run_ok h
    have hrows : (v.fileAll shared.rows).record? α k = v.record? α k := by
      apply Store.record?_fileAll_of_cls_ne hk
      intro r hr
      obtain ⟨hplaced, hcls⟩ := Meeting.rows_placed hs hpair hmeet hshare r hr
      have hsubset : [StoreKey.scanClass, StoreKey.attendeeClass] ⊆ classes := by decide
      exact ⟨hplaced, hwritten (hsubset hcls)⟩
    rw [hrows, (Meeting.share_awarding hshare).record? hk hprize,
      (Meeting.meet_awarding hmeet).record? hk hprize]
  | redeem m =>
    obtain ⟨-, x, -, -, rfl⟩ := Booth.collect_run_ok h
    exact hattendee _ _

/-- An operation leaves the address of the keying service. -/
theorem master_of_run_ok (hs : s.Placed) (h : (op.program time).run s = (.ok (), t)) :
    t.master = s.master :=
  record?_of_run_ok hs h rfl (by simp [classes])

end Operation

end ConferenceLedger

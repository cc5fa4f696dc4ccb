import ConferenceLedger.Proofs.Ledger.Contents

/-!
# Reading records

Reading leaves the store and gives what the store is seen to hold, unless a value cannot be
read. In a store of rows of one kind every value is that of a row, so what is read was once
filed: accounts always, and other records as long as they fit their binary form.
-/

namespace ConferenceLedger

/-- What a plain computation over a list gives, when it succeeds. -/
theorem Except.mapM_eq_ok {ε α β : Type} {f : α → Except ε β} {l : List α} {r : List β}
    (h : l.mapM f = .ok r) : r = l.filterMap fun a => (f a).toOption := by
  induction l generalizing r with
  | nil =>
    cases h
    rfl
  | cons a l ih =>
    rw [List.mapM_cons] at h
    cases ha : f a with
    | error e =>
      rw [ha] at h
      cases h
    | ok b =>
      cases hl : l.mapM f with
      | error e =>
        rw [ha, hl] at h
        cases h
      | ok bs =>
        rw [ha, hl] at h
        cases h
        simp only [List.filterMap_cons, ha, Except.toOption, ih hl]

/-- A plain computation over a list that succeeds has succeeded on every element. -/
theorem Except.exists_of_mapM {ε α β : Type} {f : α → Except ε β} {l : List α} {r : List β}
    (h : l.mapM f = .ok r) : ∀ a ∈ l, ∃ b, f a = .ok b := by
  induction l generalizing r with
  | nil => exact nofun
  | cons a l ih =>
    rw [List.mapM_cons] at h
    cases ha : f a with
    | error e =>
      rw [ha] at h
      cases h
    | ok b =>
      cases hl : l.mapM f with
      | error e =>
        rw [ha, hl] at h
        cases h
      | ok bs =>
        intro c hc
        rcases List.mem_cons.mp hc with rfl | hc
        · exact ⟨b, ha⟩
        · exact ih hl c hc

/-- A plain computation over a list succeeds if it does on every element. -/
theorem Except.mapM_of_forall {ε α β : Type} {f : α → Except ε β} {l : List α}
    (h : ∀ a ∈ l, ∃ b, f a = .ok b) : l.mapM f = .ok (l.filterMap fun a => (f a).toOption) := by
  induction l with
  | nil => rfl
  | cons a l ih =>
    obtain ⟨b, hb⟩ := h a List.mem_cons_self
    have hl := ih fun c hc => h c (List.mem_cons_of_mem a hc)
    rw [List.mapM_cons, hb, hl]
    simp only [List.filterMap_cons, hb, Except.toOption]
    rfl

namespace Records

variable {α : Type} [Binary α] {s t : Store} {key : Bytes}

/-- Decoding a record either gives it or fails. -/
theorem toOption_decodeRecord (b : Bytes) :
    (decodeRecord b : Except LedgerError α).toOption = (Binary.decode b).toOption := by
  unfold decodeRecord
  cases (Binary.decode b : Except CodecError α) <;> rfl

/-- Reading decodes the value under the key, if there is one, and leaves the store. -/
theorem read_run_eq (key : Bytes) (s : Store) : (read (α := α) key).run s =
    (match s.get? key with
      | none => .ok none
      | some b => (decodeRecord b).map some, s) := by
  have hget : (Access.get? key : LedgerAccess _).run s = (.ok (s.get? key), s) := rfl
  rw [read, Access.run_bind_of_ok hget]
  cases s.get? key with
  | none => rfl
  | some b =>
    dsimp only
    cases (decodeRecord b : Except LedgerError α) <;> rfl

/-- Reading a collection decodes every value of it, and leaves the store. -/
theorem readAll_run_eq (cls : UInt8) (s : Store) : (readAll (α := α) cls).run s =
    ((s.scan (StoreKey.collection cls)).mapM fun e => decodeRecord e.2, s) := by
  have hlist : (Access.entries (StoreKey.collection cls) : LedgerAccess _).run s =
    (.ok (s.scan (StoreKey.collection cls)), s) := rfl
  rw [readAll, Access.run_bind_of_ok hlist, Access.run_ofExcept]

/-- Reading leaves the store and gives the record it holds. -/
theorem read_run_ok {r : Option α} (h : (read (α := α) key).run s = (.ok r, t)) :
    s = t ∧ r = s.record? α key := by
  obtain ⟨o, u, hget, h⟩ := Access.run_bind_ok.mp h
  cases hget
  rw [Store.record?]
  cases ho : s.get? key with
  | none =>
    rw [ho] at h
    cases h
    exact ⟨rfl, rfl⟩
  | some b =>
    rw [ho] at h
    obtain ⟨a, v, hdecode, h⟩ := Access.run_bind_ok.mp h
    rw [Access.run_ofExcept] at hdecode
    cases h
    obtain ⟨ha, hv⟩ := Prod.mk.inj hdecode
    rw [Option.bind_some, ← toOption_decodeRecord, ha]
    exact ⟨hv, rfl⟩

/-- Reading fails only if the value cannot be read. -/
theorem read_run_error {e : LedgerError} (h : (read (α := α) key).run s = (.error e, t)) :
    ∃ d, e = .codec d := by
  rcases Access.run_bind_error h with hget | ⟨o, u, hget, h⟩
  · cases hget
  · cases o with
    | none => cases h
    | some b =>
      rcases Access.run_bind_error h with hdecode | ⟨a, v, -, h⟩
      · rw [Access.run_ofExcept, decodeRecord] at hdecode
        split at hdecode
        · cases hdecode
        · next d _ =>
          cases hdecode
          exact ⟨d, rfl⟩
      · cases h

/-- Reading succeeds if the value under the key, when there is one, can be read. -/
theorem read_run (h : ∀ b, s.get? key = some b → ∃ a : α, Binary.decode b = .ok a) :
    (read (α := α) key).run s = (.ok (s.record? α key), s) := by
  have hget : (Access.get? key : LedgerAccess _).run s = (.ok (s.get? key), s) := rfl
  rw [read, Access.run_bind_of_ok hget, Store.record?]
  cases hs : s.get? key with
  | none => rfl
  | some b =>
    obtain ⟨a, ha⟩ := h b hs
    have hdecode : (decodeRecord b : Except LedgerError α) = .ok a := by rw [decodeRecord, ha]
    dsimp only
    rw [hdecode, Option.bind_some, ha]
    rfl

/-- Reading a collection leaves the store and gives every record of it. -/
theorem readAll_run_ok {cls : UInt8} {l : List α}
    (h : (readAll (α := α) cls).run s = (.ok l, t)) :
    s = t ∧ l = (s.scan (StoreKey.collection cls)).filterMap fun e =>
      (Binary.decode e.2 : Except CodecError α).toOption := by
  rw [readAll_run_eq] at h
  obtain ⟨hl, ht⟩ := Prod.mk.inj h
  have heq := Except.mapM_eq_ok hl
  simp only [toOption_decodeRecord] at heq
  exact ⟨ht, heq⟩

/-- Reading a collection succeeds if every value of it can be read. -/
theorem readAll_run {cls : UInt8}
    (h : ∀ e ∈ s.scan (StoreKey.collection cls), ∃ a : α, Binary.decode e.2 = .ok a) :
    (readAll (α := α) cls).run s = (.ok ((s.scan (StoreKey.collection cls)).filterMap fun e =>
      (Binary.decode e.2 : Except CodecError α).toOption), s) := by
  have hall : ∀ e ∈ s.scan (StoreKey.collection cls),
      ∃ a : α, (decodeRecord e.2 : Except LedgerError α) = .ok a := by
    intro e he
    obtain ⟨a, ha⟩ := h e he
    exact ⟨a, by rw [decodeRecord, ha]⟩
  rw [readAll_run_eq, Except.mapM_of_forall hall]
  simp only [toOption_decodeRecord]

/-- Reading a meeting leaves the store and gives the meeting it holds. -/
theorem scan_run_ok {id : ScanId} {r : Option Scan} (h : (scan id).run s = (.ok r, t)) :
    s = t ∧ r = s.meeting id := by
  unfold scan at h
  rw [Store.meeting]
  by_cases hid : StoreKey.isMember StoreKey.scanClass id.bytes = true
  · rw [if_pos hid] at h ⊢
    exact read_run_ok h
  · rw [if_neg hid] at h ⊢
    cases h
    exact ⟨rfl, rfl⟩

/-- Reading the prizes leaves the store and gives the prizes it holds. -/
theorem prizes_run_ok {l : List Prize} (h : prizes.run s = (.ok l, t)) :
    s = t ∧ l = s.prizes :=
  readAll_run_ok h

/-- An attendee who must be there is the one the store holds. -/
theorem knownAttendee_run_ok {a : Address} {x : Attendee}
    (h : (knownAttendee a).run s = (.ok x, t)) : s = t ∧ s.attendee a = some x := by
  obtain ⟨o, u, hread, h⟩ := Access.run_bind_ok.mp h
  obtain ⟨rfl, ho⟩ := read_run_ok hread
  cases o with
  | none => cases h
  | some y =>
    cases h
    exact ⟨rfl, ho.symm⟩

end Records

/-- The order of the keys of prizes is that of their tiers. -/
theorem StoreKey.prize_lt {a b : UInt8} (h : prize a < prize b) : a < b := by
  simpa [prize, member, collection, List.cons_lt_cons_iff] using h

namespace Store

variable {s : Store} {P : Row → Prop}

/-- Under a key of a class stands a row of the class. -/
theorem Holds.get?_of_head? (hs : s.Holds P) {k v : Bytes} {c : UInt8} (h : s.get? k = some v)
    (hk : k.head? = some c) :
    ∃ r : Row, r.cls = c ∧ r.WellPlaced ∧ P r ∧ r.key = k ∧ r.value = v := by
  obtain ⟨r, hplaced, hr, hkey, hvalue⟩ := hs k v h
  have hhead := Row.head?_key hplaced
  rw [hkey, hk] at hhead
  exact ⟨r, (Option.some.inj hhead).symm, hplaced, hr, hkey, hvalue⟩

/-- Under a key of the class of accounts stands an account, at its address. -/
theorem Holds.account_of_get? (hs : s.Holds P) {k v : Bytes} (h : s.get? k = some v)
    (hk : k.head? = some StoreKey.accountClass) :
    ∃ x : Account, P (.account x) ∧ k = StoreKey.account x.address ∧ v = put x := by
  obtain ⟨r, hcls, -, hr, hkey, hvalue⟩ := hs.get?_of_head? h hk
  cases r with
  | account x => exact ⟨x, hr, hkey.symm, hvalue.symm⟩
  | _ => simp at hcls

/-- Under a key of the class of attendees stands an attendee, at its address. -/
theorem Holds.attendee_of_get? (hs : s.Holds P) {k v : Bytes} (h : s.get? k = some v)
    (hk : k.head? = some StoreKey.attendeeClass) :
    ∃ x : Attendee, P (.attendee x) ∧ k = StoreKey.attendee x.address ∧ v = put x := by
  obtain ⟨r, hcls, -, hr, hkey, hvalue⟩ := hs.get?_of_head? h hk
  cases r with
  | attendee x => exact ⟨x, hr, hkey.symm, hvalue.symm⟩
  | _ => simp at hcls

/-- Under a key of the class of meetings stands a meeting of a pair, at its identifier. -/
theorem Holds.meeting_of_get? (hs : s.Holds P) {k v : Bytes} (h : s.get? k = some v)
    (hk : k.head? = some StoreKey.scanClass) :
    ∃ x : Scan, P (.meeting x) ∧ (∃ a b, ScanId.ofPair a b = .ok x.id) ∧ k = x.id.bytes ∧
      v = put x := by
  obtain ⟨r, hcls, hplaced, hr, hkey, hvalue⟩ := hs.get?_of_head? h hk
  cases r with
  | meeting x => exact ⟨x, hr, hplaced, hkey.symm, hvalue.symm⟩
  | _ => simp at hcls

/-- A record that is found stands under its key and can be read. -/
theorem get?_of_record? {α : Type} [Binary α] {k : Bytes} {a : α} (h : s.record? α k = some a) :
    ∃ v, s.get? k = some v ∧ Binary.decode v = Except.ok a := by
  obtain ⟨v, hget, ha⟩ := Option.bind_eq_some_iff.mp h
  refine ⟨v, hget, ?_⟩
  cases hdecode : (Binary.decode v : Except CodecError α) with
  | error e =>
    rw [hdecode] at ha
    cases ha
  | ok b =>
    rw [hdecode] at ha
    cases ha
    rfl

/-- The accounts of a store of rows are those that were filed. -/
theorem Holds.of_account (hs : s.Holds P) {a : Address} {x : Account}
    (h : s.account a = some x) : P (.account x) ∧ x.address = a ∧
      s.get? (StoreKey.account a) = some (put x) := by
  obtain ⟨v, hget, hdecode⟩ := get?_of_record? h
  obtain ⟨y, hy, hkey, rfl⟩ := hs.account_of_get? hget rfl
  rw [LawfulBinary.decode_put (a := y) trivial] at hdecode
  cases hdecode
  exact ⟨hy, (StoreKey.account_inj.mp hkey).symm, hget⟩

/-- The accounts of a store of rows can be read. -/
theorem Holds.account_run (hs : s.Holds P) (a : Address) :
    (Records.account a).run s = (.ok (s.account a), s) := by
  apply Records.read_run
  intro b hb
  obtain ⟨x, -, -, rfl⟩ := hs.account_of_get? hb rfl
  exact ⟨x, LawfulBinary.decode_put (a := x) trivial⟩

/-- A record of a store of rows can be read if every row of its class can. -/
theorem Holds.read_run {α : Type} [Binary α] (hs : s.Holds P) {k : Bytes} {c : UInt8}
    (hk : k.head? = some c)
    (h : ∀ r : Row, r.cls = c → P r → ∃ a : α, Binary.decode r.value = .ok a) :
    (Records.read (α := α) k).run s = (.ok (s.record? α k), s) := by
  apply Records.read_run
  intro b hb
  obtain ⟨r, hcls, -, hr, -, rfl⟩ := hs.get?_of_head? hb hk
  exact h r hcls hr

/-- A meeting that is found under an identifier has that identifier, and it is that of a pair. -/
theorem Holds.of_meeting (hs : s.Holds P) {id : ScanId} {x : Scan} (h : s.meeting id = some x) :
    x.id = id ∧ (Row.meeting x).WellPlaced := by
  rw [meeting] at h
  split_ifs at h with hclass
  obtain ⟨v, hget, hdecode⟩ := get?_of_record? h
  obtain ⟨y, -, ⟨a, b, hpair⟩, hkey, rfl⟩ :=
    hs.meeting_of_get? hget (StoreKey.head?_of_isMember hclass)
  have hfits : Fits y.id := by
    change 2 * y.id.bytes.length < UInt64.size
    rw [ScanId.length_ofPair hpair]
    decide
  have hid : x.id = y.id := LawfulBinary.id_of_decode_scan hfits hdecode
  refine ⟨?_, a, b, ?_⟩
  · rw [hid]
    exact congrArg ScanId.mk hkey.symm
  · rw [hid]
    exact hpair

/-- The attendees of a store of rows are those that were filed, if these fit. -/
theorem Holds.of_attendee (hs : s.Holds P) (hP : ∀ x, P (.attendee x) → Fits x) {a : Address}
    {x : Attendee} (h : s.attendee a = some x) : P (.attendee x) ∧ x.address = a ∧
      s.get? (StoreKey.attendee a) = some (put x) := by
  obtain ⟨v, hget, hdecode⟩ := get?_of_record? h
  obtain ⟨y, hy, hkey, rfl⟩ := hs.attendee_of_get? hget rfl
  rw [LawfulBinary.decode_put (hP y hy)] at hdecode
  cases hdecode
  exact ⟨hy, (StoreKey.attendee_inj.mp hkey).symm, hget⟩

/-- A meeting of a store of rows was filed, if the meetings of the store fit. -/
theorem Holds.meeting_filed (hs : s.Holds P) (hP : ∀ x, P (.meeting x) → Fits x) {id : ScanId}
    {x : Scan} (h : s.meeting id = some x) :
    P (.meeting x) ∧ s.get? id.bytes = some (put x) := by
  rw [meeting] at h
  split_ifs at h with hclass
  obtain ⟨v, hget, hdecode⟩ := get?_of_record? h
  obtain ⟨y, hy, -, -, rfl⟩ := hs.meeting_of_get? hget (StoreKey.head?_of_isMember hclass)
  rw [LawfulBinary.decode_put (hP y hy)] at hdecode
  cases hdecode
  exact ⟨hy, hget⟩

/-- A prize of a store of rows was filed under its tier, if the prizes of the store fit. -/
theorem Holds.of_prize (hs : s.Holds P) (hP : ∀ p, P (.prize p) → Fits p) {tier : UInt8}
    {p : Prize} (h : s.prize tier = some p) : P (.prize p) ∧ p.tier = tier := by
  obtain ⟨v, hget, hdecode⟩ := get?_of_record? h
  obtain ⟨r, hcls, -, hr, hkey, rfl⟩ := hs.get?_of_head? hget rfl
  cases r with
  | prize q =>
    rw [Row.value, LawfulBinary.decode_put (hP q hr)] at hdecode
    cases hdecode
    exact ⟨hr, StoreKey.prize_inj.mp hkey⟩
  | _ => simp at hcls

/-- The values of a class of keys are records that fit, each under its own key. -/
def Collects {α : Type} [Binary α] [LawfulBinary α] (s : Store) (cls : UInt8) (key : α → Bytes) :
    Prop :=
  ∀ k v, s.get? k = some v → StoreKey.isMember cls k = true → ∃ a : α, Fits a ∧ k = key a ∧ v = put a

/-- The values of a class of keys are read as records, each found under its own key. -/
def Reads {α : Type} [Binary α] (s : Store) (cls : UInt8) (key : α → Bytes) : Prop :=
  ∀ k v, s.get? k = some v → StoreKey.isMember cls k = true →
    ∃ a : α, Binary.decode v = Except.ok a ∧ k = key a

/-- Records that fit are read from their values. -/
theorem Collects.reads {α : Type} [Binary α] [LawfulBinary α] {cls : UInt8} {key : α → Bytes}
    (hs : s.Collects cls key) : s.Reads cls key := by
  intro k v hget hk
  obtain ⟨a, ha, rfl, rfl⟩ := hs k v hget hk
  exact ⟨a, LawfulBinary.decode_put ha, rfl⟩

/-- A collection is read as exactly the records that are found under their keys, in ascending
order of keys. -/
theorem Reads.records {α : Type} [Binary α] {cls : UInt8} {key : α → Bytes}
    (hs : s.Reads cls key) (hkey : ∀ a, StoreKey.isMember cls (key a) = true) :
    ∃ l : List α, l = ((s.scan (StoreKey.collection cls)).filterMap fun e =>
        (Binary.decode e.2 : Except CodecError α).toOption) ∧
      (Records.readAll (α := α) cls).run s = (.ok l, s) ∧
      l.Pairwise (key · < key ·) ∧ ∀ a, a ∈ l ↔ s.record? α (key a) = some a := by
  have hread : ∀ e ∈ s.scan (StoreKey.collection cls),
      ∃ a : α, Binary.decode e.2 = Except.ok a ∧ e.1 = key a := by
    intro e he
    obtain ⟨hget, hk⟩ := mem_scan_iff.mp he
    exact hs e.1 e.2 hget hk
  have hkeyOf : ∀ e ∈ s.scan (StoreKey.collection cls), ∀ a : α,
      (Binary.decode e.2 : Except CodecError α).toOption = some a →
        Binary.decode e.2 = Except.ok a ∧ e.1 = key a := by
    intro e he a ha
    obtain ⟨b, hb, hk⟩ := hread e he
    rw [hb] at ha
    cases ha
    exact ⟨hb, hk⟩
  refine ⟨_, rfl, ?_, ?_, ?_⟩
  · apply Records.readAll_run
    intro e he
    obtain ⟨a, ha, -⟩ := hread e he
    exact ⟨a, ha⟩
  · apply List.pairwise_filterMap.mpr
    refine (s.ascending_scan _).imp_of_mem ?_
    intro e f he hf hlt a ha b hb
    rw [← (hkeyOf e he a ha).2, ← (hkeyOf f hf b hb).2]
    exact hlt
  · intro a
    rw [List.mem_filterMap]
    constructor
    · rintro ⟨e, he, ha⟩
      obtain ⟨hdecode, hk⟩ := hkeyOf e he a ha
      rw [record?, ← hk, (mem_scan_iff.mp he).1, Option.bind_some, hdecode]
      rfl
    · intro ha
      obtain ⟨v, hget, hdecode⟩ := get?_of_record? ha
      exact ⟨(key a, v), mem_scan_iff.mpr ⟨hget, hkey a⟩, by rw [hdecode]; rfl⟩

/-- A collection of records that fit is read as exactly these, in ascending order of keys. -/
theorem Collects.records {α : Type} [Binary α] [LawfulBinary α] {cls : UInt8} {key : α → Bytes}
    (hs : s.Collects cls key) (hkey : ∀ a, StoreKey.isMember cls (key a) = true) :
    ∃ l : List α, l = ((s.scan (StoreKey.collection cls)).filterMap fun e =>
        (Binary.decode e.2 : Except CodecError α).toOption) ∧
      (Records.readAll (α := α) cls).run s = (.ok l, s) ∧
      l.Pairwise (key · < key ·) ∧ ∀ a, a ∈ l ↔ s.record? α (key a) = some a :=
  hs.reads.records hkey

/-- Every value of the class of prizes is read as a prize, which is found under its tier. -/
def FilesPrizes (s : Store) : Prop :=
  s.Reads StoreKey.prizeClass fun p : Prize => StoreKey.prize p.tier

/-- The prizes of a store of rows that fit are found under their tiers. -/
theorem Holds.filesPrizes (hs : s.Holds P) (hP : ∀ p, P (.prize p) → Fits p) : s.FilesPrizes := by
  apply Collects.reads
  intro k v hget hk
  obtain ⟨r, hcls, -, hr, rfl, rfl⟩ := hs.get?_of_head? hget (StoreKey.head?_of_isMember hk)
  cases r with
  | prize p => exact ⟨p, hP p hr, rfl, rfl⟩
  | _ => simp at hcls

/-- The prizes of a store that are found under their tiers can be read, in ascending order of
tiers. -/
theorem FilesPrizes.prizes (hs : s.FilesPrizes) :
    Records.prizes.run s = (.ok s.prizes, s) ∧ s.prizes.Pairwise (·.tier < ·.tier) ∧
      ∀ p, p ∈ s.prizes ↔ s.prize p.tier = some p := by
  obtain ⟨l, rfl, hrun, hascending, hmem⟩ := hs.records fun _ => rfl
  exact ⟨hrun, hascending.imp StoreKey.prize_lt, hmem⟩

/-- The prizes of a store are those found under their tiers. -/
theorem FilesPrizes.mem_prizes (hs : s.FilesPrizes) {p : Prize} :
    p ∈ s.prizes ↔ s.prize p.tier = some p :=
  hs.prizes.2.2 p

/-- A prize that is found fits, and it is found under its tier. -/
theorem FilesPrizes.prize (hs : s.FilesPrizes) {tier : UInt8} {p : Prize}
    (h : s.prize tier = some p) : Fits p ∧ p.tier = tier := by
  obtain ⟨v, hget, hdecode⟩ := get?_of_record? h
  obtain ⟨q, hq, hkey⟩ := hs _ v hget rfl
  rw [hq] at hdecode
  cases hdecode
  exact ⟨LawfulBinary.fits_of_decode_prize hq, (StoreKey.prize_inj.mp hkey).symm⟩

/-- A prize that fits may be filed. -/
theorem FilesPrizes.file (hs : s.FilesPrizes) {p : Prize} (hp : Fits p) :
    (s.file (.prize p)).FilesPrizes := by
  intro k v hget hk
  have hset : (s.file (.prize p)).get? k = if StoreKey.prize p.tier = k then some (put p)
      else s.get? k := get?_set s _ _ k
  rw [hset] at hget
  split_ifs at hget with hkey
  · cases hget
    exact ⟨p, LawfulBinary.decode_put hp, hkey.symm⟩
  · exact hs k v hget hk

/-- Prizes that fit may be filed. -/
theorem FilesPrizes.fileAll (hs : s.FilesPrizes) {l : List Prize} (hl : ∀ p ∈ l, Fits p) :
    (s.fileAll (l.map .prize)).FilesPrizes := by
  induction l generalizing s with
  | nil => exact hs
  | cons p l ih =>
    exact ih (hs.file (hl p List.mem_cons_self)) fun q hq => hl q (List.mem_cons_of_mem p hq)

/-- The prizes of a store of rows that fit can be read. They are those found under their tiers,
in ascending order of tiers. -/
theorem Holds.prizes (hs : s.Holds P) (hP : ∀ p, P (.prize p) → Fits p) :
    Records.prizes.run s = (.ok s.prizes, s) ∧ s.prizes.Pairwise (·.tier < ·.tier) ∧
      ∀ p, p ∈ s.prizes ↔ s.prize p.tier = some p :=
  (hs.filesPrizes hP).prizes

/-- The attendees of a store of rows that fit can be read. They are those found under their
addresses, each once. -/
theorem Holds.attendees (hs : s.Holds P) (hP : ∀ x, P (.attendee x) → Fits x) :
    Records.attendees.run s = (.ok s.attendees, s) ∧
      s.attendees.Pairwise (·.address ≠ ·.address) ∧
      ∀ x, x ∈ s.attendees ↔ s.attendee x.address = some x := by
  have hcollects : s.Collects StoreKey.attendeeClass fun x : Attendee =>
      StoreKey.attendee x.address := by
    intro k v hget hk
    obtain ⟨x, hx, rfl, rfl⟩ := hs.attendee_of_get? hget (StoreKey.head?_of_isMember hk)
    exact ⟨x, hP x hx, rfl, rfl⟩
  have hkey : ∀ x : Attendee, StoreKey.isMember StoreKey.attendeeClass
      (StoreKey.attendee x.address) = true := fun _ =>
    List.isPrefixOf_iff_prefix.mpr (List.prefix_append _ _)
  obtain ⟨l, rfl, hrun, hascending, hmem⟩ := hcollects.records hkey
  refine ⟨hrun, hascending.imp ?_, hmem⟩
  intro x y hlt heq
  rw [heq] at hlt
  exact List.lt_irrefl _ hlt

end Store

end ConferenceLedger

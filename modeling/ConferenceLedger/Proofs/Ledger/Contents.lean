import ConferenceLedger.Proofs.Codec.Records
import ConferenceLedger.Proofs.Store.Overlay

/-!
# The records of a store

Whatever the ledger writes is a row: a record that goes to its own place. A store is seen as
the records that can be read from it, one function for each class of places. A row that was
filed is found there, and the records of every other place stay as they were, because keys of
different classes differ in their first byte.
-/

namespace ConferenceLedger

/-- A record and, with it, its place in the store. -/
inductive Row where
  /-- An attendee, under its address. -/
  | attendee (x : Attendee)
  /-- A meeting, under its identifier. -/
  | meeting (x : Scan)
  /-- A prize, under its tier. -/
  | prize (x : Prize)
  /-- The address of the service that keys attendees. -/
  | master (a : Address)
  /-- The address of the service that redeems prizes. -/
  | redeem (a : Address)
  /-- An account, under its address. -/
  | account (x : Account)
  /-- The number of the next account. -/
  | counter (n : UInt64)

namespace Row

/-- The place of a row. -/
def key : Row → Bytes
  | attendee x => StoreKey.attendee x.address
  | meeting x => x.id.bytes
  | prize x => StoreKey.prize x.tier
  | master _ => StoreKey.master
  | redeem _ => StoreKey.redeem
  | account x => StoreKey.account x.address
  | counter _ => StoreKey.accountNumber

/-- What a row puts at its place. -/
def value : Row → Bytes
  | attendee x => put x
  | meeting x => put x
  | prize x => put x
  | master a => put a
  | redeem a => put a
  | account x => put x
  | counter n => put n

/-- The class of the places of a kind of rows. -/
def cls : Row → UInt8
  | attendee _ => StoreKey.attendeeClass
  | meeting _ => StoreKey.scanClass
  | prize _ => StoreKey.prizeClass
  | master _ => StoreKey.masterClass
  | redeem _ => StoreKey.redeemClass
  | account _ => StoreKey.accountClass
  | counter _ => StoreKey.accountNumberClass

-- the classes are numbers, so which of them differ is decided by simp
attribute [simp] cls StoreKey.attendeeClass StoreKey.scanClass StoreKey.prizeClass
  StoreKey.masterClass StoreKey.redeemClass StoreKey.accountClass StoreKey.accountNumberClass

/-- Whether the identifier of a meeting is that of a pair. Other rows are placed by their keys. -/
def WellPlaced : Row → Prop
  | meeting x => ∃ a b, ScanId.ofPair a b = .ok x.id
  | _ => True

end Row

namespace ScanId

/-- What makes two addresses a pair, and the key of their meeting. -/
theorem ofPair_eq_ok {a b : Address} {id : ScanId} (h : ofPair a b = .ok id) :
    a ≠ b ∧ a.isEmpty = false ∧ b.isEmpty = false ∧
      id.bytes = StoreKey.member StoreKey.scanClass
        (if b < a then a.octets.bytes ++ b.octets.bytes
          else b.octets.bytes ++ a.octets.bytes) := by
  unfold ofPair at h
  split_ifs at h with hempty hsame hlt
  all_goals
    cases h
    simp only [Bool.or_eq_true, not_or, Bool.not_eq_true] at hempty
    refine ⟨hsame, hempty.1, hempty.2, ?_⟩
  · rw [if_pos hlt]
  · rw [if_neg hlt]

/-- The key of a meeting has the bytes of the class and of two addresses. -/
theorem length_ofPair {a b : Address} {id : ScanId} (h : ofPair a b = .ok id) :
    id.bytes.length = 43 := by
  obtain ⟨-, -, -, hbytes⟩ := ofPair_eq_ok h
  rw [hbytes]
  split_ifs <;>
    simp [StoreKey.member, StoreKey.collection, a.octets.length_bytes, b.octets.length_bytes]

/-- The key of a meeting is one of the class of meetings. -/
theorem isMember_ofPair {a b : Address} {id : ScanId} (h : ofPair a b = .ok id) :
    StoreKey.isMember StoreKey.scanClass id.bytes = true := by
  obtain ⟨-, -, -, hbytes⟩ := ofPair_eq_ok h
  rw [hbytes]
  exact List.isPrefixOf_iff_prefix.mpr (List.prefix_append _ _)

end ScanId

namespace Row

/-- The first byte of a key tells the class. -/
theorem head?_key {r : Row} (h : r.WellPlaced) : r.key.head? = some r.cls := by
  cases r with
  | meeting x =>
    obtain ⟨a, b, hid⟩ := h
    obtain ⟨-, -, -, hbytes⟩ := ScanId.ofPair_eq_ok hid
    rw [key, hbytes]
    rfl
  | _ => rfl

/-- A row of another class is elsewhere. -/
theorem key_ne {r : Row} (h : r.WellPlaced) {k : Bytes} {c : UInt8} (hk : k.head? = some c)
    (hc : r.cls ≠ c) : r.key ≠ k := by
  intro heq
  rw [← heq, head?_key h] at hk
  exact hc (Option.some.inj hk)

end Row

/-- An address is determined by its bytes. -/
theorem Address.bytes_inj {a b : Address} : a.octets.bytes = b.octets.bytes ↔ a = b := by
  constructor
  · intro h
    obtain ⟨⟨_, _⟩⟩ := a
    obtain ⟨⟨_, _⟩⟩ := b
    subst h
    rfl
  · exact congrArg fun c : Address => c.octets.bytes

/-- Either of two different addresses is below the other. -/
theorem Address.lt_or_lt {a b : Address} (h : a ≠ b) : a < b ∨ b < a := by
  have hbytes : a.octets.bytes ≠ b.octets.bytes := fun heq => h (bytes_inj.mp heq)
  rcases key_trichotomy a.octets.bytes b.octets.bytes with hlt | heq | hgt
  · exact Or.inl hlt
  · exact absurd heq hbytes
  · exact Or.inr hgt

/-- The identifier of a pair does not depend on who comes first. -/
theorem ScanId.ofPair_comm (a b : Address) : ofPair a b = ofPair b a := by
  unfold ofPair
  rw [Bool.or_comm]
  by_cases hempty : (b.isEmpty || a.isEmpty) = true
  · rw [if_pos hempty, if_pos hempty]
  · rw [if_neg hempty, if_neg hempty]
    by_cases hsame : a = b
    · rw [if_pos hsame, if_pos hsame.symm]
    · rw [if_neg hsame, if_neg (Ne.symm hsame)]
      rcases Address.lt_or_lt hsame with hlt | hgt
      · have hnot : ¬b < a := List.lt_asymm hlt
        rw [if_neg hnot, if_pos hlt]
      · have hnot : ¬a < b := List.lt_asymm hgt
        rw [if_pos hgt, if_neg hnot]

/-- The bytes of two addresses one after the other tell both. -/
theorem Address.append_inj {a b c d : Address}
    (h : a.octets.bytes ++ b.octets.bytes = c.octets.bytes ++ d.octets.bytes) : a = c ∧ b = d := by
  have hlength : a.octets.bytes.length = c.octets.bytes.length := by
    rw [a.octets.length_bytes, c.octets.length_bytes]
  obtain ⟨hfirst, hsecond⟩ := List.append_inj h hlength
  exact ⟨bytes_inj.mp hfirst, bytes_inj.mp hsecond⟩

namespace StoreKey

/-- Members of a collection with the same key have the same bytes. -/
theorem member_inj {cls : UInt8} {a b : Bytes} : member cls a = member cls b ↔ a = b :=
  List.append_right_inj _

/-- Attendees with the same key have the same address. -/
theorem attendee_inj {a b : Address} : attendee a = attendee b ↔ a = b := by
  rw [attendee, attendee, member_inj, Address.bytes_inj]

/-- Accounts with the same key have the same address. -/
theorem account_inj {a b : Address} : account a = account b ↔ a = b := by
  rw [account, account, member_inj, Address.bytes_inj]

/-- Prizes with the same key have the same tier. -/
theorem prize_inj {a b : UInt8} : prize a = prize b ↔ a = b := by
  rw [prize, prize, member_inj, List.singleton_inj]

/-- The key of an attendee is none of an account. -/
theorem attendee_ne_account (a b : Address) : attendee a ≠ account b := by
  intro h
  have hhead : some attendeeClass = some accountClass := congrArg List.head? h
  cases hhead

/-- The keys of a collection begin with the byte of its class. -/
theorem head?_of_isMember {cls : UInt8} {k : Bytes} (h : isMember cls k = true) :
    k.head? = some cls := by
  obtain ⟨raw, hk⟩ := List.isPrefixOf_iff_prefix.mp h
  rw [← hk]
  rfl

end StoreKey

/-- Only the same two attendees have the same meeting. -/
theorem ScanId.ofPair_inj {a b c d : Address} {id : ScanId} (h : ofPair a b = .ok id)
    (h' : ofPair c d = .ok id) : (a = c ∧ b = d) ∨ (a = d ∧ b = c) := by
  obtain ⟨-, -, -, hbytes⟩ := ofPair_eq_ok h
  obtain ⟨-, -, -, hbytes'⟩ := ofPair_eq_ok h'
  rw [hbytes, StoreKey.member_inj] at hbytes'
  split_ifs at hbytes'
  · exact Or.inl (Address.append_inj hbytes')
  · obtain ⟨had, hbc⟩ := Address.append_inj hbytes'
    exact Or.inr ⟨had, hbc⟩
  · obtain ⟨hbc, had⟩ := Address.append_inj hbytes'
    exact Or.inr ⟨had, hbc⟩
  · obtain ⟨hbd, hac⟩ := Address.append_inj hbytes'
    exact Or.inl ⟨hac, hbd⟩

namespace Store

/-- The record under a key, if there is one and it can be read. -/
def record? (α : Type) [Binary α] (s : Store) (key : Bytes) : Option α :=
  (s.get? key).bind fun b => (Binary.decode b : Except CodecError α).toOption

/-- The attendee of an address. -/
def attendee (s : Store) (a : Address) : Option Attendee := s.record? Attendee (StoreKey.attendee a)

/-- The meeting of an identifier. -/
def meeting (s : Store) (id : ScanId) : Option Scan :=
  if StoreKey.isMember StoreKey.scanClass id.bytes then s.record? Scan id.bytes else none

/-- The attendees, by ascending address. -/
def attendees (s : Store) : List Attendee :=
  (s.scan (StoreKey.collection StoreKey.attendeeClass)).filterMap fun e =>
    (Binary.decode e.2 : Except CodecError Attendee).toOption

/-- The prize of a tier. -/
def prize (s : Store) (tier : UInt8) : Option Prize := s.record? Prize (StoreKey.prize tier)

/-- The prizes, by ascending tier. -/
def prizes (s : Store) : List Prize :=
  (s.scan (StoreKey.collection StoreKey.prizeClass)).filterMap fun e =>
    (Binary.decode e.2 : Except CodecError Prize).toOption

/-- The address of the service that keys attendees. -/
def master (s : Store) : Option Address := s.record? Address StoreKey.master

/-- The address of the service that redeems prizes. -/
def redeem (s : Store) : Option Address := s.record? Address StoreKey.redeem

/-- The account of an address. -/
def account (s : Store) (a : Address) : Option Account := s.record? Account (StoreKey.account a)

/-- The number that the next account gets. -/
def nextNumber (s : Store) : UInt64 := (s.record? UInt64 StoreKey.accountNumber).getD 0

/-- The store with a row at its place. -/
def file (s : Store) (r : Row) : Store := s.set r.key r.value

/-- The store with rows at their places, filed in order. -/
def fileAll (s : Store) (rows : List Row) : Store := rows.foldl file s

/-- Filing no rows leaves the store. -/
@[simp] theorem fileAll_nil (s : Store) : s.fileAll [] = s := rfl

/-- Rows are filed one after the other. -/
@[simp] theorem fileAll_cons (s : Store) (r : Row) (rows : List Row) :
    s.fileAll (r :: rows) = (s.file r).fileAll rows := rfl

/-- A store whose entries are all rows at their places, and rows of one kind. -/
def Holds (P : Row → Prop) (s : Store) : Prop :=
  ∀ k v, s.get? k = some v → ∃ r : Row, r.WellPlaced ∧ P r ∧ r.key = k ∧ r.value = v

section Filing

variable {α : Type} [Binary α] {s : Store} {r : Row} {P Q : Row → Prop}

/-- A record that was written is read back if it fits. -/
theorem record?_of_get? [LawfulBinary α] {key : Bytes} {a : α} (h : Fits a)
    (hget : s.get? key = some (put a)) : s.record? α key = some a := by
  rw [record?, hget, Option.bind_some, LawfulBinary.decode_put h]
  rfl

/-- Rows leave the entries of other places. -/
theorem get?_fileAll_of_ne {rows : List Row} {k : Bytes} (h : ∀ r ∈ rows, r.key ≠ k) :
    (s.fileAll rows).get? k = s.get? k := by
  induction rows generalizing s with
  | nil => rfl
  | cons r rows ih =>
    have hrest := ih (s := s.file r) fun q hq => h q (List.mem_cons_of_mem r hq)
    exact hrest.trans (get?_set_ne _ _ (h r List.mem_cons_self))

/-- A row leaves the records of other places. -/
theorem record?_file_ne {k : Bytes} (h : r.key ≠ k) : (s.file r).record? α k = s.record? α k := by
  rw [record?, file, get?_set_ne _ _ h, record?]

/-- A row leaves the records of other classes. -/
theorem record?_file_of_cls_ne (h : r.WellPlaced) {k : Bytes} {c : UInt8}
    (hk : k.head? = some c) (hc : r.cls ≠ c) : (s.file r).record? α k = s.record? α k :=
  record?_file_ne (Row.key_ne h hk hc)

/-- Rows of other classes leave a record. -/
theorem record?_fileAll_of_cls_ne {rows : List Row} {k : Bytes} {c : UInt8}
    (hk : k.head? = some c) (h : ∀ r ∈ rows, r.WellPlaced ∧ r.cls ≠ c) :
    (s.fileAll rows).record? α k = s.record? α k := by
  induction rows generalizing s with
  | nil => rfl
  | cons r rows ih =>
    obtain ⟨hplaced, hc⟩ := h r List.mem_cons_self
    have hrest := ih (s := s.file r) fun q hq => h q (List.mem_cons_of_mem r hq)
    exact hrest.trans (record?_file_of_cls_ne hplaced hk hc)

/-- A filed account replaces that of its address. -/
theorem account_file_account (x : Account) (a : Address) :
    (s.file (.account x)).account a = if x.address = a then some x else s.account a := by
  by_cases ha : x.address = a
  · rw [if_pos ha, ← ha]
    exact record?_of_get? (α := Account) trivial (get?_set_self _ _ _)
  · rw [if_neg ha]
    exact record?_file_ne fun hk => ha (StoreKey.account_inj.mp hk)

/-- A filed attendee that fits replaces that of its address. -/
theorem attendee_file_attendee {x : Attendee} (h : Fits x) (a : Address) :
    (s.file (.attendee x)).attendee a = if x.address = a then some x else s.attendee a := by
  by_cases ha : x.address = a
  · rw [if_pos ha, ← ha]
    exact record?_of_get? (α := Attendee) h (get?_set_self _ _ _)
  · rw [if_neg ha]
    exact record?_file_ne fun hk => ha (StoreKey.attendee_inj.mp hk)

/-- A filed meeting that fits replaces that of its identifier. -/
theorem meeting_file_meeting {x : Scan} (h : (Row.meeting x).WellPlaced) (hx : Fits x)
    (id : ScanId) :
    (s.file (.meeting x)).meeting id = if x.id = id then some x else s.meeting id := by
  obtain ⟨a, b, hpair⟩ := h
  by_cases hid : x.id = id
  · rw [if_pos hid, ← hid, meeting, if_pos (ScanId.isMember_ofPair hpair)]
    exact record?_of_get? (α := Scan) hx (get?_set_self _ _ _)
  · have hne : x.id.bytes ≠ id.bytes := fun hbytes => hid (congrArg ScanId.mk hbytes)
    have hkept : (s.file (.meeting x)).record? Scan id.bytes = s.record? Scan id.bytes :=
      record?_file_ne (r := .meeting x) hne
    rw [if_neg hid, meeting, hkept, meeting]

/-- A row of another class leaves the meetings. -/
theorem meeting_file_of_cls_ne (h : r.WellPlaced) (hc : r.cls ≠ StoreKey.scanClass)
    (id : ScanId) : (s.file r).meeting id = s.meeting id := by
  rw [meeting, meeting]
  by_cases hid : StoreKey.isMember StoreKey.scanClass id.bytes = true
  · rw [if_pos hid, if_pos hid]
    exact record?_file_of_cls_ne h (StoreKey.head?_of_isMember hid) hc
  · rw [if_neg hid, if_neg hid]

/-- A filed prize that fits replaces that of its tier. -/
theorem prize_file_prize {p : Prize} (h : Fits p) (tier : UInt8) :
    (s.file (.prize p)).prize tier = if p.tier = tier then some p else s.prize tier := by
  by_cases ht : p.tier = tier
  · rw [if_pos ht, ← ht]
    exact record?_of_get? (α := Prize) h (get?_set_self _ _ _)
  · rw [if_neg ht]
    exact record?_file_ne fun hk => ht (StoreKey.prize_inj.mp hk)

/-- Prizes that fit are filed one after the other, so the last one of a tier counts. -/
theorem prize_fileAll {l : List Prize} (h : ∀ p ∈ l, Fits p) (tier : UInt8) :
    (s.fileAll (l.map .prize)).prize tier =
      (l.filter (·.tier = tier)).getLast?.or (s.prize tier) := by
  induction l generalizing s with
  | nil => rfl
  | cons p l ih =>
    rw [List.map_cons, fileAll_cons, ih fun q hq => h q (List.mem_cons_of_mem p hq),
      prize_file_prize (h p List.mem_cons_self)]
    by_cases ht : p.tier = tier
    · rw [if_pos ht, List.filter_cons_of_pos (by simpa using ht), List.getLast?_cons]
      cases (l.filter (·.tier = tier)).getLast? <;> rfl
    · rw [if_neg ht, List.filter_cons_of_neg (by simpa using ht)]

/-- A filed attendee leaves the accounts. -/
@[simp] theorem account_file_attendee (x : Attendee) (a : Address) :
    (s.file (.attendee x)).account a = s.account a :=
  record?_file_of_cls_ne (r := .attendee x) trivial rfl (by simp)

/-- A filed account leaves the attendees. -/
@[simp] theorem attendee_file_account (x : Account) (a : Address) :
    (s.file (.account x)).attendee a = s.attendee a :=
  record?_file_of_cls_ne (r := .account x) trivial rfl (by simp)

/-- A store of rows of one kind stays one when a row of the kind is filed. -/
theorem Holds.file (hs : s.Holds P) (h : r.WellPlaced) (hr : P r) : (s.file r).Holds P := by
  intro k v hget
  rw [Store.file, get?_set] at hget
  by_cases hk : r.key = k
  · rw [if_pos hk] at hget
    exact ⟨r, h, hr, hk, Option.some.inj hget⟩
  · rw [if_neg hk] at hget
    exact hs k v hget

/-- A store of rows of one kind stays one when rows of the kind are filed. -/
theorem Holds.fileAll {rows : List Row} (hs : s.Holds P)
    (h : ∀ r ∈ rows, r.WellPlaced ∧ P r) : (s.fileAll rows).Holds P := by
  induction rows generalizing s with
  | nil => exact hs
  | cons r rows ih =>
    obtain ⟨hplaced, hr⟩ := h r List.mem_cons_self
    exact ih (hs.file hplaced hr) fun q hq => h q (List.mem_cons_of_mem r hq)

/-- Rows of one kind are rows of a wider kind. -/
theorem Holds.mono (hs : s.Holds P) (h : ∀ r, P r → Q r) : s.Holds Q := by
  intro k v hget
  obtain ⟨r, hplaced, hr, hkey, hvalue⟩ := hs k v hget
  exact ⟨r, hplaced, h r hr, hkey, hvalue⟩

/-- A store without entries holds rows of any kind. -/
theorem holds_empty : empty.Holds P := by
  intro k v hget
  cases hget

end Filing

end Store

end ConferenceLedger

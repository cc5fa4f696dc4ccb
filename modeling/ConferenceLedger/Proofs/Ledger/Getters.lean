import ConferenceLedger.Proofs.Ledger.Reading
import ConferenceLedger.Proofs.Ledger.Schema
import ConferenceLedger.Proofs.Store.Ranges
import Mathlib.Data.List.Induction

/-!
# Setters and getters

Every record is stored by a setter and found by getters. What a getter answers depends on the
values under the keys that it reads, and because the keys of records are apart, a setter changes
the answers of the getters of its own record only: those with the same argument, which then find the
record, and the listing of its collection. A collection is listed as the records that were stored
last for each argument, in ascending order.
-/

namespace ConferenceLedger

namespace Access

variable {ε α : Type}

/-- A program that answers and leaves the store has this answer as its result. -/
theorem eval_of_run {x : Access ε α} {s t : Store} {r : Except ε α} (h : x.run s = (r, t)) :
    x.eval s = r := by
  rw [eval, h]

end Access

namespace Records

variable {α : Type} [Binary α] {s t : Store} {key : Bytes}

/-- The record that is read is the one the store holds. -/
theorem eval_read_eq_some_iff {a : α} :
    (read (α := α) key).eval s = .ok (some a) ↔ s.record? α key = some a := by
  constructor
  · intro h
    exact (read_run_ok (t := s) (Prod.ext h (by rw [read_run_eq]))).2.symm
  · intro h
    obtain ⟨v, hget, hdecode⟩ := Store.get?_of_record? h
    rw [Access.eval_of_run (read_run_eq key s), hget]
    dsimp only
    rw [decodeRecord, hdecode]
    rfl

/-- A record that was written is read if it fits. -/
theorem read_run_put [LawfulBinary α] {a : α} (h : Fits a) (hget : s.get? key = some (put a)) :
    (read (α := α) key).run s = (.ok (some a), s) := by
  rw [read_run_eq, hget]
  dsimp only
  rw [decodeRecord, LawfulBinary.decode_put h]
  rfl

/-- What is read under a key depends on the value under it. -/
theorem eval_read_congr (h : t.get? key = s.get? key) :
    (read (α := α) key).eval t = (read (α := α) key).eval s := by
  rw [Access.eval_of_run (read_run_eq key t), Access.eval_of_run (read_run_eq key s), h]

/-- What is read of a collection depends on the values under its keys. -/
theorem eval_readAll_congr {cls : UInt8}
    (h : ∀ k, StoreKey.isMember cls k = true → t.get? k = s.get? k) :
    (readAll (α := α) cls).eval t = (readAll (α := α) cls).eval s := by
  rw [Access.eval_of_run (readAll_run_eq cls t), Access.eval_of_run (readAll_run_eq cls s),
    Store.scan_congr h]

end Records

/-- What can be asked for in a store. -/
inductive Getter where
  /-- The account of an address. -/
  | account (a : Address)
  /-- The attendee of an address. -/
  | attendee (a : Address)
  /-- The attendee with a ticket id. -/
  | attendeeOfTicket (id : String)
  /-- Every attendee. -/
  | attendees
  /-- The meeting of an identifier. -/
  | meeting (id : ScanId)
  /-- The prize of a tier. -/
  | prize (tier : UInt8)
  /-- Every prize. -/
  | prizes
  /-- The address of the service that keys attendees. -/
  | master
  /-- The address of the service that redeems prizes. -/
  | redeem
  /-- The number of the next account. -/
  | counter

namespace Getter

/-- The type of the answers of a getter. -/
abbrev Answer : Getter → Type
  | account _ => Option Account
  | attendee _ | attendeeOfTicket _ => Option Attendee
  | attendees => List Attendee
  | meeting _ => Option Scan
  | prize _ => Option Prize
  | prizes => List Prize
  | master | redeem => Option Address
  | counter => Option UInt64

/-- The program that answers. -/
def program : (q : Getter) → LedgerAccess q.Answer
  | account a => Records.account a
  | attendee a => Records.attendee a
  | attendeeOfTicket id => Records.attendeeOfTicket id
  | attendees => Records.attendees
  | meeting id => Records.scan id
  | prize tier => Records.prize tier
  | prizes => Records.prizes
  | master => Records.master
  | redeem => Records.redeem
  | counter => Records.read StoreKey.accountNumber

/-- The keys under which a getter looks. -/
def Reads : Getter → Bytes → Prop
  | account a, k => k = StoreKey.account a
  | attendee a, k => k = StoreKey.attendee a
  | attendeeOfTicket id, k => k = StoreKey.attendee (.ofTicket id)
  | attendees, k => StoreKey.isMember StoreKey.attendeeClass k = true
  | meeting id, k => StoreKey.isMember StoreKey.scanClass id.bytes = true ∧ k = id.bytes
  | prize tier, k => k = StoreKey.prize tier
  | prizes, k => StoreKey.isMember StoreKey.prizeClass k = true
  | master, k => k = StoreKey.master
  | redeem, k => k = StoreKey.redeem
  | counter, k => k = StoreKey.accountNumber

/-- What a getter answers when a row is there that it asks for. -/
inductive Finds : (q : Getter) → Row → q.Answer → Prop where
  /-- An account is found by its address. -/
  | account (x : Account) : Finds (.account x.address) (.account x) (some x)
  /-- An attendee is found by its address. -/
  | attendee (x : Attendee) : Finds (.attendee x.address) (.attendee x) (some x)
  /-- An attendee is found by a ticket id that its address is made from. -/
  | attendeeOfTicket {id : String} {x : Attendee} (h : x.address = .ofTicket id) :
    Finds (.attendeeOfTicket id) (.attendee x) (some x)
  /-- A meeting is found by its identifier. -/
  | meeting (x : Scan) : Finds (.meeting x.id) (.meeting x) (some x)
  /-- A prize is found by its tier. -/
  | prize (p : Prize) : Finds (.prize p.tier) (.prize p) (some p)
  /-- The address of the service that keys attendees is found. -/
  | master (a : Address) : Finds .master (.master a) (some a)
  /-- The address of the service that redeems prizes is found. -/
  | redeem (a : Address) : Finds .redeem (.redeem a) (some a)
  /-- The number of the next account is found. -/
  | counter (n : UInt64) : Finds .counter (.counter n) (some n)

/-- Whether a getter lists the collection of a row. -/
inductive Lists : Getter → Row → Prop where
  /-- The attendees are listed. -/
  | attendees (x : Attendee) : Lists .attendees (.attendee x)
  /-- The prizes are listed. -/
  | prizes (p : Prize) : Lists .prizes (.prize p)

/-- What a getter answers depends on the values under the keys where it looks. -/
theorem eval_congr (q : Getter) {s t : Store} (h : ∀ k, q.Reads k → t.get? k = s.get? k) :
    q.program.eval t = q.program.eval s := by
  cases q with
  | attendees | prizes => exact Records.eval_readAll_congr h
  | meeting id =>
    rw [program, Records.scan]
    by_cases hid : StoreKey.isMember StoreKey.scanClass id.bytes = true
    · rw [if_pos hid]
      exact Records.eval_read_congr (h id.bytes ⟨hid, rfl⟩)
    · rw [if_neg hid]
      rfl
  | _ => exact Records.eval_read_congr (h _ rfl)

end Getter

/-- The order of the keys of attendees is that of their addresses. -/
theorem StoreKey.lt_of_attendee_lt {a b : Address} (h : attendee a < attendee b) : a < b := by
  have hbytes : a.octets.bytes < b.octets.bytes := by
    simpa [attendee, member, collection, List.cons_lt_cons_iff] using h
  exact hbytes

namespace Row

/-- Whether every length in the record of a row fits the bytes it is written in. -/
def Storable : Row → Prop
  | attendee x => Fits x
  | meeting x => Fits x
  | prize p => Fits p
  | master _ | redeem _ | account _ | counter _ => True

/-- The program that stores a row. -/
def set : Row → LedgerAccess Unit
  | attendee x => Records.setAttendee x
  | meeting x => Records.setScan x
  | prize p => Records.setPrize p
  | master a => Records.setMaster a
  | redeem a => Records.setRedeem a
  | account x => Records.setAccount x
  | counter n => Records.write StoreKey.accountNumber n

/-- To store a row is to file it. -/
theorem set_run (r : Row) (s : Store) : r.set.run s = (.ok (), s.file r) := by
  cases r <;> rfl

/-- To store rows one after another is to file them in order. -/
theorem forM_set_run (rows : List Row) (s : Store) :
    (rows.forM set).run s = (.ok (), s.fileAll rows) := by
  induction rows generalizing s with
  | nil => rfl
  | cons r rows ih => exact (Access.run_bind_of_ok (set_run r s) _).trans (ih (s.file r))

/-- The key of a row tells its class. -/
theorem cls_eq_of_key {r : Row} (h : r.WellPlaced) {k : Bytes} (hk : r.key = k) {c : UInt8}
    (hc : k.head? = some c) : r.cls = c := by
  rw [← hk, head?_key h] at hc
  exact Option.some.inj hc

end Row

namespace Getter

variable {q : Getter} {r : Row} {v : q.Answer}

/-- What a row puts at its place is found by the getters of the row. -/
theorem run_of_finds (hr : r.WellPlaced) (hfits : r.Storable) (h : q.Finds r v) {t : Store}
    (hget : t.get? r.key = some r.value) : q.program.run t = (.ok v, t) := by
  cases h with
  | account x => exact Records.read_run_put (a := x) trivial hget
  | attendee x => exact Records.read_run_put (a := x) hfits hget
  | @attendeeOfTicket id x h =>
    rw [Row.key, h] at hget
    exact Records.read_run_put (a := x) hfits hget
  | meeting x =>
    obtain ⟨a, b, hpair⟩ := hr
    rw [program, Records.scan, if_pos (ScanId.isMember_ofPair hpair)]
    exact Records.read_run_put (a := x) hfits hget
  | prize p => exact Records.read_run_put (a := p) hfits hget
  | master a => exact Records.read_run_put (a := a) trivial hget
  | redeem a => exact Records.read_run_put (a := a) trivial hget
  | counter n => exact Records.read_run_put (a := n) trivial hget

/-- A getter that looks under the key of a row either asks for the row or lists its collection. -/
theorem finds_or_lists_of_reads (hr : r.WellPlaced) (h : q.Reads r.key) :
    (∃ v, q.Finds r v) ∨ q.Lists r := by
  cases q with
  | account a =>
    have hcls : r.cls = StoreKey.accountClass := Row.cls_eq_of_key hr h rfl
    cases r with
    | account x =>
      obtain rfl := StoreKey.account_inj.mp h
      exact Or.inl ⟨_, .account x⟩
    | _ => simp at hcls
  | attendee a =>
    have hcls : r.cls = StoreKey.attendeeClass := Row.cls_eq_of_key hr h rfl
    cases r with
    | attendee x =>
      obtain rfl := StoreKey.attendee_inj.mp h
      exact Or.inl ⟨_, .attendee x⟩
    | _ => simp at hcls
  | attendeeOfTicket id =>
    have hcls : r.cls = StoreKey.attendeeClass := Row.cls_eq_of_key hr h rfl
    cases r with
    | attendee x => exact Or.inl ⟨_, .attendeeOfTicket (StoreKey.attendee_inj.mp h)⟩
    | _ => simp at hcls
  | attendees =>
    have hcls : r.cls = StoreKey.attendeeClass :=
      Row.cls_eq_of_key hr rfl (StoreKey.head?_of_isMember h)
    cases r with
    | attendee x => exact Or.inr (.attendees x)
    | _ => simp at hcls
  | meeting id =>
    obtain ⟨hid, hkey⟩ := h
    have hcls : r.cls = StoreKey.scanClass :=
      Row.cls_eq_of_key hr hkey (StoreKey.head?_of_isMember hid)
    cases r with
    | meeting x =>
      have hx : x.id = id := congrArg ScanId.mk hkey
      subst hx
      exact Or.inl ⟨_, .meeting x⟩
    | _ => simp at hcls
  | prize tier =>
    have hcls : r.cls = StoreKey.prizeClass := Row.cls_eq_of_key hr h rfl
    cases r with
    | prize p =>
      obtain rfl := StoreKey.prize_inj.mp h
      exact Or.inl ⟨_, .prize p⟩
    | _ => simp at hcls
  | prizes =>
    have hcls : r.cls = StoreKey.prizeClass :=
      Row.cls_eq_of_key hr rfl (StoreKey.head?_of_isMember h)
    cases r with
    | prize p => exact Or.inr (.prizes p)
    | _ => simp at hcls
  | master =>
    have hcls : r.cls = StoreKey.masterClass := Row.cls_eq_of_key hr h rfl
    cases r with
    | master a => exact Or.inl ⟨_, .master a⟩
    | _ => simp at hcls
  | redeem =>
    have hcls : r.cls = StoreKey.redeemClass := Row.cls_eq_of_key hr h rfl
    cases r with
    | redeem a => exact Or.inl ⟨_, .redeem a⟩
    | _ => simp at hcls
  | counter =>
    have hcls : r.cls = StoreKey.accountNumberClass := Row.cls_eq_of_key hr h rfl
    cases r with
    | counter n => exact Or.inl ⟨_, .counter n⟩
    | _ => simp at hcls

end Getter

/-- What storing a row does to a store, and what the getters answer after it. -/
structure Row.Stores (r : Row) (s t : Store) : Prop where
  /-- The row is stored. -/
  run : r.set.run s = (.ok (), t)
  /-- It is written at a place, and nothing else is written. -/
  written : ∃ x : Place, t = s.set x.key r.value
  /-- If its record fits, the getters of the row find it. -/
  found : r.Storable → ∀ {q : Getter} {v : q.Answer}, q.Finds r v → q.program.run t = (.ok v, t)
  /-- Every getter that neither asks for the row nor lists its collection answers as before. -/
  kept : ∀ {q : Getter}, (∀ v, ¬q.Finds r v) → ¬q.Lists r →
    q.program.eval t = q.program.eval s

/-- A row is found after it was stored, and nothing else is changed. -/
theorem Row.stores (r : Row) (hr : r.WellPlaced) (s : Store) : r.Stores s (s.file r) where
  run := r.set_run s
  written := by
    obtain ⟨x, hx⟩ := Row.exists_place hr
    exact ⟨x, by rw [hx, Store.file]⟩
  found hfits _ _ hv := Getter.run_of_finds hr hfits hv (Store.get?_set_self _ _ _)
  kept {q} hfinds hlists := by
    apply q.eval_congr
    intro k hk
    apply Store.get?_set_ne
    rintro rfl
    rcases Getter.finds_or_lists_of_reads hr hk with ⟨v, hv⟩ | hl
    · exact hfinds v hv
    · exact hlists hl

/-- Whether a record was stored, and no other with the same argument was stored after it. -/
def StoredLast {α κ : Type} (row : α → Row) (arg : α → κ) (rows : List Row) (x : α) : Prop :=
  ∃ before after, rows = before ++ row x :: after ∧ ∀ y, row y ∈ after → arg y ≠ arg x

/-- When one more row is stored, the record stored last is that of the row, or the one before if
the row has another argument. -/
theorem storedLast_append_singleton {α κ : Type} {row : α → Row} {arg : α → κ} {rows : List Row}
    {r : Row} {x : α} : StoredLast row arg (rows ++ [r]) x ↔
      r = row x ∨ (StoredLast row arg rows x ∧ ∀ y, r = row y → arg y ≠ arg x) := by
  constructor
  · rintro ⟨before, after, hrows, hafter⟩
    rcases List.eq_nil_or_concat after with rfl | ⟨after, r', rfl⟩
    · obtain ⟨-, hr⟩ := List.append_inj' hrows rfl
      exact Or.inl (List.singleton_inj.mp hr)
    · rw [List.concat_eq_append, ← List.cons_append, ← List.append_assoc] at hrows
      obtain ⟨rfl, hr⟩ := List.append_inj' hrows rfl
      obtain rfl := List.singleton_inj.mp hr
      refine Or.inr ⟨⟨before, after, rfl, fun y hy => hafter y ?_⟩, fun y hy => hafter y ?_⟩
      · simp [hy]
      · simp [hy]
  · rintro (rfl | ⟨⟨before, after, rfl, hafter⟩, hr⟩)
    · exact ⟨rows, [], rfl, fun _ hy => by cases hy⟩
    · refine ⟨before, after ++ [r], by simp, fun y hy => ?_⟩
      rcases List.mem_append.mp hy with hy | hy
      · exact hafter y hy
      · exact hr y (List.mem_singleton.mp hy).symm

/-- A kind of records that can be found one by one and listed. -/
structure Collection (α κ : Type) [Binary α] [LawfulBinary α] [LT κ] where
  /-- The class of their places. -/
  cls : UInt8
  /-- The row of a record. -/
  row : α → Row
  /-- The argument by which a record is found. -/
  arg : α → κ
  /-- The key of an argument. -/
  key : κ → Bytes
  /-- The rows of the class are those of the records. -/
  exists_row : ∀ r : Row, r.cls = cls → ∃ x, r = row x
  /-- A record is under the key of its argument. -/
  row_key : ∀ x, (row x).key = key (arg x)
  /-- There is the binary form of the record. -/
  row_value : ∀ x, (row x).value = put x
  /-- The record fits if the row is storable. -/
  fits_of_row : ∀ x, (row x).Storable → Fits x
  /-- The keys are those of a collection. -/
  isMember_key : ∀ k, StoreKey.isMember cls (key k) = true
  /-- Different arguments have different keys. -/
  key_inj : ∀ {j k}, key j = key k → j = k
  /-- The order of the keys is that of the arguments. -/
  lt_of_key_lt : ∀ {j k}, key j < key k → j < k

/-- What it means that a listing gives the records that were stored last, in order. -/
structure ListsLast {α κ : Type} [LT κ] (list : LedgerAccess (List α))
    (get : κ → LedgerAccess (Option α)) (row : α → Row) (arg : α → κ) (rows : List Row) (t : Store)
    (l : List α) : Prop where
  /-- They are listed. -/
  run : list.run t = (.ok l, t)
  /-- They are in strictly ascending order of arguments, so each is there once. -/
  ascending : l.Pairwise (arg · < arg ·)
  /-- They are those that were stored last with their arguments. -/
  mem_iff_storedLast : ∀ x, x ∈ l ↔ StoredLast row arg rows x
  /-- They are those that are found. -/
  mem_iff_found : ∀ x, x ∈ l ↔ (get (arg x)).eval t = .ok (some x)

namespace Collection

variable {α κ : Type} [Binary α] [LawfulBinary α] [LT κ] (c : Collection α κ) {rows : List Row}

/-- A record that was stored is found with its argument. -/
theorem eval_file_row {x : α} (h : (c.row x).Storable) (s : Store) :
    (Records.read (c.key (c.arg x))).eval (s.file (c.row x)) = .ok (some x) := by
  have hget : (s.file (c.row x)).get? (c.row x).key = some (c.row x).value :=
    Store.get?_set_self _ _ _
  rw [c.row_key, c.row_value] at hget
  exact Access.eval_of_run (Records.read_run_put (c.fits_of_row x h) hget)

/-- Other rows leave what is found with an argument. -/
theorem eval_file_other {r : Row} (hr : r.WellPlaced) {k : κ}
    (h : ∀ x, r = c.row x → c.arg x ≠ k) (s : Store) :
    (Records.read (α := α) (c.key k)).eval (s.file r) = (Records.read (c.key k)).eval s := by
  have hkey : r.key ≠ c.key k := by
    intro hk
    have hcls := Row.cls_eq_of_key hr hk (StoreKey.head?_of_isMember (c.isMember_key k))
    obtain ⟨x, rfl⟩ := c.exists_row r hcls
    rw [c.row_key] at hk
    exact h x rfl (c.key_inj hk)
  exact Records.eval_read_congr (Store.get?_set_ne _ _ hkey)

/-- What is found is the record that was stored last. -/
theorem found_iff_storedLast (h : ∀ r ∈ rows, r.WellPlaced ∧ r.Storable) (x : α) :
    (Records.read (c.key (c.arg x))).eval (Store.empty.fileAll rows) = .ok (some x) ↔
      StoredLast c.row c.arg rows x := by
  induction rows using List.reverseRecOn with
  | nil =>
    constructor
    · intro hread
      cases hread
    · rintro ⟨before, after, hnil, -⟩
      simp at hnil
  | append_singleton rows r ih =>
    have hlast := ih fun q hq => h q (List.mem_append_left _ hq)
    obtain ⟨hr, hfits⟩ := h r (List.mem_append_right _ List.mem_cons_self)
    have hfile : Store.empty.fileAll (rows ++ [r]) = (Store.empty.fileAll rows).file r :=
      List.foldl_append
    rw [storedLast_append_singleton, ← hlast, hfile]
    by_cases hy : ∃ y, r = c.row y ∧ c.arg y = c.arg x
    · -- the row replaces what was stored with the argument
      obtain ⟨y, rfl, harg⟩ := hy
      constructor
      · intro hx
        rw [← harg, c.eval_file_row hfits] at hx
        cases hx
        exact Or.inl rfl
      · rintro (hx | ⟨-, hx⟩)
        · rw [hx] at hfits ⊢
          exact c.eval_file_row hfits _
        · exact absurd harg (hx y rfl)
    · -- the row is another
      have hother : ∀ y, r = c.row y → c.arg y ≠ c.arg x := fun y hry harg => hy ⟨y, hry, harg⟩
      rw [c.eval_file_other hr hother]
      constructor
      · intro hx
        exact Or.inr ⟨hx, hother⟩
      · rintro (hx | ⟨hx, -⟩)
        · exact absurd rfl (hother x hx)
        · exact hx

/-- The values under the keys of the collection are the records that were stored. -/
theorem collects {s : Store} (hs : s.Holds Row.Storable) :
    s.Collects c.cls fun x => c.key (c.arg x) := by
  intro k v hget hk
  obtain ⟨r, hcls, -, hfits, rfl, rfl⟩ := hs.get?_of_head? hget (StoreKey.head?_of_isMember hk)
  obtain ⟨x, rfl⟩ := c.exists_row r hcls
  exact ⟨x, c.fits_of_row x hfits, c.row_key x, c.row_value x⟩

/-- The records that were stored last are listed in order. -/
theorem listsLast (h : ∀ r ∈ rows, r.WellPlaced ∧ r.Storable) :
    ∃ l, ListsLast (Records.readAll c.cls) (fun k => Records.read (c.key k)) c.row c.arg rows
      (Store.empty.fileAll rows) l := by
  have hcollects := c.collects (Store.holds_empty.fileAll h)
  obtain ⟨l, -, hrun, hascending, hmem⟩ := hcollects.records fun x => c.isMember_key (c.arg x)
  have hfound : ∀ x, x ∈ l ↔
      (Records.read (c.key (c.arg x))).eval (Store.empty.fileAll rows) = .ok (some x) := by
    intro x
    rw [hmem, Records.eval_read_eq_some_iff]
  exact ⟨l, hrun, hascending.imp c.lt_of_key_lt,
    fun x => (hfound x).trans (c.found_iff_storedLast h x), hfound⟩

/-- The attendees, by address. -/
def attendees : Collection Attendee Address where
  cls := StoreKey.attendeeClass
  row := .attendee
  arg := Attendee.address
  key := StoreKey.attendee
  exists_row r hr := by
    cases r with
    | attendee x => exact ⟨x, rfl⟩
    | _ => simp at hr
  row_key _ := rfl
  row_value _ := rfl
  fits_of_row _ := id
  isMember_key _ := StoreKey.isMember_member _ _
  key_inj := StoreKey.attendee_inj.mp
  lt_of_key_lt := StoreKey.lt_of_attendee_lt

/-- The prizes, by tier. -/
def prizes : Collection Prize UInt8 where
  cls := StoreKey.prizeClass
  row := .prize
  arg := Prize.tier
  key := StoreKey.prize
  exists_row r hr := by
    cases r with
    | prize p => exact ⟨p, rfl⟩
    | _ => simp at hr
  row_key _ := rfl
  row_value _ := rfl
  fits_of_row _ := id
  isMember_key _ := StoreKey.isMember_member _ _
  key_inj := StoreKey.prize_inj.mp
  lt_of_key_lt := StoreKey.prize_lt

end Collection

/-- The key schema keeps records apart. Every pair has an identifier; the keys of two places are the
same if the places are, and else neither starts with the other; and a key is in the collection of
its place only. So what a setter stores is found by its own getter, every other getter answers as
before, and whatever is stored, the attendees are listed by address and the prizes by tier, each
as it was stored last. -/
theorem Place.keepsRecordsApart :
    (∀ p : Pair, ScanId.ofPair p.first p.second = .ok p.id) ∧
      (∀ x y : Place, (x.key = y.key ↔ x.Same y) ∧ (x.key <+: y.key → x.key = y.key)) ∧
      (∀ (x : Place) (c : UInt8), StoreKey.isMember c x.key = true ↔ x.collection? = some c) ∧
      (∀ (s : Store) (r : Row), r.WellPlaced → ∃ t, r.Stores s t) ∧
      ∀ rows : List Row, (∀ r ∈ rows, r.WellPlaced ∧ r.Storable) →
        ∃ t, (rows.forM Row.set).run .empty = (.ok (), t) ∧
          (∃ l, ListsLast Records.attendees Records.attendee .attendee (·.address) rows t l) ∧
          ∃ l, ListsLast Records.prizes Records.prize .prize (·.tier) rows t l := by
  refine ⟨Pair.ofPair_eq, fun x y => ⟨key_eq_iff, key_eq_of_prefix⟩, fun x c => isMember_key_iff,
    fun s r hr => ⟨s.file r, r.stores hr s⟩, fun rows h => ?_⟩
  exact ⟨Store.empty.fileAll rows, Row.forM_set_run rows .empty, Collection.attendees.listsLast h,
    Collection.prizes.listsLast h⟩

namespace SmallLedger

/-- The address whose bytes are all the same. -/
def addressOf (b : UInt8) : Address := ⟨⟨List.replicate 20 b, List.length_replicate⟩⟩

/-- The meeting of two attendees. -/
def meetingOf : Scan where
  id := ⟨StoreKey.member StoreKey.scanClass
    ((addressOf 9).octets.bytes ++ (addressOf 4).octets.bytes)⟩
  first := ⟨addressOf 4, ⟨[7]⟩, 1⟩
  second := ⟨addressOf 9, .empty, 2⟩
  time := 5

/-- Rows of every kind, in no order, with an attendee and a prize stored twice. -/
def mixedRows : List Row := [
  .attendee (.blank (addressOf 9)),
  .prize ⟨2, 20, "T-shirt", 200⟩,
  .counter 1,
  .account ⟨addressOf 9, 0, 0, none⟩,
  .master (addressOf 1),
  .attendee (.blank (addressOf 4)),
  .meeting meetingOf,
  .prize ⟨1, 5, "Sticker pack", 500⟩,
  .redeem (addressOf 2),
  .attendee { Attendee.blank (addressOf 9) with name := "Ada" },
  .prize ⟨2, 20, "T-shirt", 199⟩]

/-- The rows are at their places and fit. -/
theorem placed_mixedRows : ∀ r ∈ mixedRows, r.WellPlaced ∧ r.Storable := by
  have htext : (Bytes.ofText "").length < UInt64.size := by decide
  have hname : (Bytes.ofText "Ada").length < UInt64.size := by decide
  have hscans : Fits ([] : List ScanId) := ⟨by decide, by simp⟩
  have hwins : Fits ([] : List Win) := ⟨by decide, by simp⟩
  have hinfo : 2 * Blob.empty.bytes.length < UInt64.size := by decide
  have hshared : 2 * ([7] : Bytes).length < UInt64.size := by decide
  have hid : ScanId.ofPair (addressOf 4) (addressOf 9) = .ok meetingOf.id := by decide
  have hidFits : 2 * meetingOf.id.bytes.length < UInt64.size := by decide
  have hshirt : (Bytes.ofText "T-shirt").length < UInt64.size := by decide
  have hsticker : (Bytes.ofText "Sticker pack").length < UInt64.size := by decide
  simp only [mixedRows, List.forall_mem_cons]
  exact ⟨⟨trivial, htext, htext, htext, htext, hinfo, hscans, hwins⟩, ⟨trivial, hshirt⟩,
    ⟨trivial, trivial⟩, ⟨trivial, trivial⟩, ⟨trivial, trivial⟩,
    ⟨trivial, htext, htext, htext, htext, hinfo, hscans, hwins⟩,
    ⟨⟨_, _, hid⟩, hidFits, hshared, hinfo⟩, ⟨trivial, hsticker⟩, ⟨trivial, trivial⟩,
    ⟨trivial, htext, htext, hname, htext, hinfo, hscans, hwins⟩, ⟨trivial, hshirt⟩, by simp⟩

end SmallLedger

open SmallLedger in
/-- Rows of every kind are stored, in no order. The attendees and the prizes are listed in order,
each as it was stored last. -/
theorem Place.keepsRecordsApart_mixed :
    (∃ t, (Row.meeting meetingOf).Stores .empty t) ∧
      (∀ r ∈ mixedRows, r.WellPlaced ∧ r.Storable) ∧
      (∃ t, (mixedRows.forM Row.set).run .empty = (.ok (), t) ∧
        (∃ l, ListsLast Records.attendees Records.attendee .attendee (·.address) mixedRows t l) ∧
        ∃ l, ListsLast Records.prizes Records.prize .prize (·.tier) mixedRows t l) ∧
      (Records.attendees.eval (Store.empty.fileAll mixedRows)).toOption =
        some [.blank (addressOf 4), { Attendee.blank (addressOf 9) with name := "Ada" }] ∧
      (Records.prizes.eval (Store.empty.fileAll mixedRows)).toOption =
        some [⟨1, 5, "Sticker pack", 500⟩, ⟨2, 20, "T-shirt", 199⟩] := by
  obtain ⟨-, -, -, hstores, hlists⟩ := Place.keepsRecordsApart
  have hmeeting : (Row.meeting meetingOf).WellPlaced :=
    (placed_mixedRows (.meeting meetingOf) (by simp [mixedRows])).1
  exact ⟨hstores .empty _ hmeeting, placed_mixedRows, hlists mixedRows placed_mixedRows,
    by decide +kernel, by decide +kernel⟩

end ConferenceLedger

import ConferenceLedger.Proofs.Ledger.Execution
import ConferenceLedger.Proofs.Ledger.Legibility
import ConferenceLedger.Proofs.Ledger.Replay
import Mathlib.Data.List.Induction
import Mathlib.Data.List.Nodup

/-!
# Accounts are numbered in order

The number of an account is bound into every signature, so no two accounts may share one. A genesis
asks for the accounts of its services and of its roster, and more can be asked for later; whoever
has an account keeps it. The accounts then carry the numbers from zero on, in the order in which
they were first asked for, and the counter is how many they are. Operations, which change only the
keys of accounts, leave the numbers and the counter alone.
-/

namespace ConferenceLedger

section FirstOccurrences

variable {α : Type} [DecidableEq α]

/-- One more element occurs already or is a new one. -/
theorem eraseDups_concat (as : List α) (a : α) :
    (as ++ [a]).eraseDups = if a ∈ as then as.eraseDups else as.eraseDups ++ [a] := by
  rw [List.eraseDups_append]
  split_ifs with ha
  · have hnone : [a].removeAll as = [] := by simp [List.removeAll, ha]
    rw [hnone, List.eraseDups_nil, List.append_nil]
  · have hall : [a].removeAll as = [a] := by simp [List.removeAll, ha]
    rw [hall]
    rfl

/-- First occurrences are without repetition. -/
theorem nodup_eraseDups (as : List α) : as.eraseDups.Nodup := by
  induction as using List.reverseRecOn with
  | nil => exact List.nodup_nil
  | append_singleton as a ih =>
    rw [eraseDups_concat]
    split_ifs with ha
    · exact ih
    · rw [← List.concat_eq_append]
      exact ih.concat fun h => ha (List.mem_eraseDups.mp h)

/-- A part has fewer first occurrences than a number if the whole has. -/
theorem length_eraseDups_lt_of_append {as bs : List α} {n : Nat}
    (h : (as ++ bs).eraseDups.length < n) : as.eraseDups.length < n := by
  rw [List.eraseDups_append, List.length_append] at h
  exact Nat.lt_of_le_of_lt (Nat.le_add_right _ _) h

end FirstOccurrences

/-- Something that a store is asked to do after its genesis. -/
inductive StoreCall where
  /-- To create an account. -/
  | create (a : Address) (pubKey : Option PublicKey)
  /-- To carry out an operation at a block time. -/
  | operation (op : Operation) (time : Int64)

namespace StoreCall

/-- The store after a call. -/
def serve (s : Store) : StoreCall → Store
  | create a pubKey => ((Records.createAccount a pubKey).run s).2
  | operation op time => (op.execute time s).2

/-- The address whose account a call asks for. -/
def creates? : StoreCall → Option Address
  | create a _ => some a
  | operation _ _ => none

end StoreCall

/-- The addresses that get accounts, in the order in which the accounts were first asked for. -/
def Genesis.order (g : Genesis) (calls : List StoreCall) : List Address :=
  (g.members ++ calls.filterMap StoreCall.creates?).eraseDups

namespace Store

/-- The number that was filed is the next one. -/
theorem nextNumber_file_counter (s : Store) (n : UInt64) :
    (s.file (.counter n)).nextNumber = n := by
  have hread : (s.file (.counter n)).record? UInt64 StoreKey.accountNumber = some n :=
    record?_of_get? trivial (get?_set_self _ _ _)
  rw [nextNumber, hread, Option.getD_some]

/-- Rows other than the counter leave the next number. -/
theorem nextNumber_file_of_cls_ne {s : Store} {r : Row} (hr : r.WellPlaced)
    (hc : r.cls ≠ StoreKey.accountNumberClass) : (s.file r).nextNumber = s.nextNumber :=
  congrArg (Option.getD · 0) (record?_file_of_cls_ne hr rfl hc)

/-- A store of rows whose accounts are those of some addresses, numbered by their first
occurrences. -/
structure Counts (s : Store) (asked : List Address) : Prop where
  /-- Every record is at its place. -/
  placed : s.Placed
  /-- An account is that of an address that was asked for, and its number is the position. -/
  position : ∀ a x, s.account a = some x → asked.eraseDups[x.number.toNat]? = some a
  /-- Every address that was asked for has an account. -/
  isSome : ∀ a ∈ asked, (s.account a).isSome = true
  /-- The next number is how many there are. -/
  next : s.nextNumber.toNat = asked.eraseDups.length

namespace Counts

variable {s t : Store} {asked : List Address}

/-- At first nobody has an account. -/
theorem empty : Store.empty.Counts [] where
  placed := holds_empty
  position a x h := by cases h
  isSome a h := by cases h
  next := rfl

/-- An address with an account was asked for. -/
theorem mem_of_account (hs : s.Counts asked) {a : Address} {x : Account}
    (h : s.account a = some x) : a ∈ asked :=
  List.mem_eraseDups.mp (List.mem_of_getElem? (hs.position a x h))

/-- A store that keeps the numbers of accounts and the counter still counts. -/
theorem of_kept (hs : s.Counts asked) (ht : t.Placed)
    (haccount : ∀ a, (t.account a).map Account.number = (s.account a).map Account.number)
    (hnext : t.nextNumber = s.nextNumber) : t.Counts asked where
  placed := ht
  position a x hx := by
    have hnumber := haccount a
    rw [hx] at hnumber
    obtain ⟨y, hy, hyx⟩ := Option.map_eq_some_iff.mp hnumber.symm
    rw [← hyx]
    exact hs.position a y hy
  isSome a ha := by
    have hnumber := congrArg Option.isSome (haccount a)
    rw [Option.isSome_map, Option.isSome_map] at hnumber
    rw [hnumber]
    exact hs.isSome a ha
  next := by rw [hnext, hs.next]

/-- Accounts can be read. -/
theorem eval_account (hs : s.Counts asked) (a : Address) :
    (Records.account a).eval s = .ok (s.account a) :=
  congrArg Prod.fst (hs.placed.account_run a)

/-- A row that is neither an account nor the counter changes nothing. -/
theorem file (hs : s.Counts asked) {r : Row} (hr : r.WellPlaced)
    (haccount : r.cls ≠ StoreKey.accountClass) (hcounter : r.cls ≠ StoreKey.accountNumberClass) :
    (s.file r).Counts asked := by
  apply hs.of_kept (hs.placed.file hr trivial)
  · intro a
    exact congrArg (Option.map Account.number) (record?_file_of_cls_ne hr rfl haccount)
  · exact nextNumber_file_of_cls_ne hr hcounter

/-- Prizes change nothing. -/
theorem fileAll_prize (hs : s.Counts asked) (l : List Prize) :
    (s.fileAll (l.map .prize)).Counts asked := by
  induction l generalizing s with
  | nil => exact hs
  | cons p l ih => exact ih (hs.file (r := .prize p) trivial (by simp) (by simp))

/-- An operation changes nothing, whether it succeeds or fails. -/
theorem execute (hs : s.Counts asked) (op : Operation) (time : Int64) :
    (op.execute time s).2.Counts asked := by
  rcases op.execute_cases time s with ⟨t, hrun, hexecute⟩ | ⟨e, t, -, hexecute⟩
  · rw [hexecute]
    apply hs.of_kept (Operation.placed_of_run_ok hs.placed hrun)
    · intro a
      rw [Operation.account_of_run_ok hs.placed hrun, Option.map_map]
      congr 1
      funext x
      exact op.number_rekey a x
    · have hcounter : t.record? UInt64 StoreKey.accountNumber =
          s.record? UInt64 StoreKey.accountNumber :=
        Operation.record?_of_run_ok hs.placed hrun rfl (by simp [Operation.classes])
      exact congrArg (Option.getD · 0) hcounter
  · rw [hexecute]
    exact hs

/-- The account of an address that has one is given as it is, and nothing changes. -/
theorem createAccount_of_mem (hs : s.Counts asked) {a : Address} (ha : a ∈ asked)
    (pubKey : Option PublicKey) :
    ∃ x, s.account a = some x ∧ (Records.createAccount a pubKey).run s = (.ok x, s) := by
  obtain ⟨x, hx⟩ := Option.isSome_iff_exists.mp (hs.isSome a ha)
  have hread := hs.placed.account_run a
  rw [hx] at hread
  exact ⟨x, hx, Access.run_bind_of_ok hread _⟩

/-- An address that was asked for may be asked for again. -/
theorem repeated (hs : s.Counts asked) {a : Address} (ha : a ∈ asked) :
    s.Counts (asked ++ [a]) := by
  have horder : (asked ++ [a]).eraseDups = asked.eraseDups := by
    rw [eraseDups_concat, if_pos ha]
  refine ⟨hs.placed, ?_, ?_, ?_⟩
  · rw [horder]
    exact hs.position
  · intro b hb
    rcases List.mem_append.mp hb with hb | hb
    · exact hs.isSome b hb
    · exact hs.isSome b (List.mem_singleton.mp hb ▸ ha)
  · rw [horder]
    exact hs.next

/-- A new account gets the next number, and the counter is one more. -/
theorem extended (hs : s.Counts asked) {a : Address} (ha : s.account a = none)
    (hroom : (asked ++ [a]).eraseDups.length < UInt64.size) (pubKey : Option PublicKey)
    (ht : (s.fileAll [.counter (s.nextNumber + 1), .account ⟨a, s.nextNumber, 0, pubKey⟩]).Placed) :
    (s.fileAll [.counter (s.nextNumber + 1), .account ⟨a, s.nextNumber, 0, pubKey⟩]).Counts
      (asked ++ [a]) := by
  have hnew : a ∉ asked := by
    intro hmem
    have hsome := hs.isSome a hmem
    rw [ha] at hsome
    cases hsome
  have horder : (asked ++ [a]).eraseDups = asked.eraseDups ++ [a] := by
    rw [eraseDups_concat, if_neg hnew]
  have hcounted : ∀ b, (s.file (.counter (s.nextNumber + 1))).account b = s.account b := fun b =>
    record?_file_of_cls_ne (r := .counter _) trivial rfl (by simp)
  rw [fileAll_cons, fileAll_cons, fileAll_nil] at ht ⊢
  refine ⟨ht, ?_, ?_, ?_⟩
  · intro b x hx
    rw [account_file_account, hcounted] at hx
    rw [horder]
    split_ifs at hx with hab
    · -- the next number is the first position that is free
      cases hx
      rw [hs.next, List.getElem?_concat_length]
      exact congrArg some hab
    · have hposition := hs.position b x hx
      rw [List.getElem?_append_left (List.getElem?_eq_some_iff.mp hposition).1, hposition]
  · intro b hb
    rw [account_file_account, hcounted]
    split_ifs with hab
    · rfl
    · rcases List.mem_append.mp hb with hb | hb
      · exact hs.isSome b hb
      · exact absurd (List.mem_singleton.mp hb).symm hab
  · have hnext : ((s.file (.counter (s.nextNumber + 1))).file
        (.account ⟨a, s.nextNumber, 0, pubKey⟩)).nextNumber = s.nextNumber + 1 := by
      rw [nextNumber_file_of_cls_ne (r := .account _) trivial (by simp), nextNumber_file_counter]
    have hlength : (asked ++ [a]).eraseDups.length = asked.eraseDups.length + 1 := by
      rw [horder, List.length_append, List.length_singleton]
    rw [hlength, ← hs.next] at hroom ⊢
    rw [hnext, toNat_add_one hroom]

/-- Asking for an account succeeds. An address that has none gets the next number. -/
theorem createAccount (hs : s.Counts asked) (a : Address) (pubKey : Option PublicKey)
    (hroom : (asked ++ [a]).eraseDups.length < UInt64.size) :
    ∃ x t, (Records.createAccount a pubKey).run s = (.ok x, t) ∧ t.Counts (asked ++ [a]) := by
  obtain ⟨x, t, hrun, ht⟩ := Genesis.createAccount_run hs.placed a pubKey
  refine ⟨x, t, hrun, ?_⟩
  rcases Records.createAccount_run_ok hrun with ⟨hx, rfl⟩ | ⟨hnone, rfl, rfl⟩
  · exact hs.repeated (hs.mem_of_account hx)
  · exact hs.extended hnone hroom pubKey ht

/-- Enrolling a service succeeds and asks for its account. -/
theorem enrolService (hs : s.Counts asked) (k : PublicKey)
    (hroom : (asked ++ [Address.ofPublicKey k]).eraseDups.length < UInt64.size) :
    ∃ t, (Genesis.enrolService k).run s = (.ok (.ofPublicKey k), t) ∧
      t.Counts (asked ++ [.ofPublicKey k]) := by
  obtain ⟨x, t, hrun, ht⟩ := hs.createAccount (.ofPublicKey k) (some k) hroom
  exact ⟨t, Access.run_bind_of_ok hrun _, ht⟩

/-- Enrolling a roster succeeds and asks for the accounts of its tickets. -/
theorem forM_enrolAttendee (hs : s.Counts asked) (l : List RosterEntry)
    (hroom : (asked ++ l.map fun e => Address.ofTicket e.id).eraseDups.length < UInt64.size) :
    ∃ t, (l.forM Genesis.enrolAttendee).run s = (.ok (), t) ∧
      t.Counts (asked ++ l.map fun e => .ofTicket e.id) := by
  induction l generalizing s asked with
  | nil =>
    rw [List.map_nil, List.append_nil]
    exact ⟨s, rfl, hs⟩
  | cons e l ih =>
    rw [List.map_cons, List.append_cons] at hroom ⊢
    have hfirst := length_eraseDups_lt_of_append hroom
    obtain ⟨x, t, hcreate, ht⟩ := hs.createAccount (.ofTicket e.id) none hfirst
    have hone : (Genesis.enrolAttendee e).run s =
        (.ok (), t.file (.attendee (.ofTicket e.id e.ticketClass))) :=
      Access.run_bind_of_ok hcreate _
    obtain ⟨u, hrest, hu⟩ :=
      ih (ht.file (r := .attendee (.ofTicket e.id e.ticketClass)) trivial (by simp) (by simp)) hroom
    exact ⟨u, (Access.run_bind_of_ok hone _).trans hrest, hu⟩

/-- A genesis succeeds and asks for the accounts of its members. -/
theorem program (g : Genesis) (hroom : g.members.eraseDups.length < UInt64.size) :
    ∃ s, g.program.run .empty = (.ok (), s) ∧ s.Counts g.members := by
  have hparts : g.members = ([.ofPublicKey g.keyService] ++ [.ofPublicKey g.redeemService]) ++
      g.attendees.map fun e => .ofTicket e.id := rfl
  rw [hparts] at hroom ⊢
  have hsecond := length_eraseDups_lt_of_append hroom
  have hfirst := length_eraseDups_lt_of_append hsecond
  obtain ⟨t, hmaster, ht⟩ := empty.enrolService g.keyService hfirst
  have htm := ht.file (r := .master (.ofPublicKey g.keyService)) trivial (by simp) (by simp)
  obtain ⟨u, hredeem, hu⟩ := htm.enrolService g.redeemService hsecond
  have hur := hu.file (r := .redeem (.ofPublicKey g.redeemService)) trivial (by simp) (by simp)
  obtain ⟨v, hroster, hv⟩ := hur.forM_enrolAttendee g.attendees hroom
  exact ⟨v.fileAll (g.prizes.map .prize), Genesis.run_program hmaster hredeem hroster,
    hv.fileAll_prize g.prizes⟩

/-- Calls ask for the accounts that they name. -/
theorem serve (hs : s.Counts asked) (calls : List StoreCall)
    (hroom : (asked ++ calls.filterMap StoreCall.creates?).eraseDups.length < UInt64.size) :
    (calls.foldl StoreCall.serve s).Counts (asked ++ calls.filterMap StoreCall.creates?) := by
  induction calls generalizing s asked with
  | nil =>
    rw [List.filterMap_nil, List.append_nil]
    exact hs
  | cons call calls ih =>
    cases call with
    | create a pubKey =>
      have hcreates : (StoreCall.create a pubKey :: calls).filterMap StoreCall.creates? =
        a :: calls.filterMap StoreCall.creates? := rfl
      rw [hcreates, List.append_cons] at hroom ⊢
      have hfirst := length_eraseDups_lt_of_append hroom
      obtain ⟨x, t, hrun, ht⟩ := hs.createAccount a pubKey hfirst
      have hserved : StoreCall.serve s (.create a pubKey) = t := congrArg Prod.snd hrun
      rw [List.foldl_cons, hserved]
      exact ih ht hroom
    | operation op time => exact ih (hs.execute op time) hroom

end Counts

/-- What it means that the accounts of a store are numbered in an order: the stored accounts are
those of the addresses, each with its position for a number. -/
structure Numbers (s : Store) (order : List Address) : Prop where
  /-- No address is in the order twice. -/
  nodup : order.Nodup
  /-- The address at a position has an account, with the position for a number. -/
  numbered : ∀ i a, order[i]? = some a → ∃ x, (Records.account a).eval s = .ok (some x) ∧
    x.address = a ∧ x.number.toNat = i
  /-- No other address has an account. -/
  others : ∀ a, a ∉ order → (Records.account a).eval s = .ok none
  /-- What is stored of accounts is, in some order, one for each address, with its position for a
  number. -/
  stored : ∃ l : List Account, (Records.readAll StoreKey.accountClass).eval s = .ok l ∧
    (l.map fun x => (x.address, x.number.toNat)).Perm order.zipIdx
  /-- The stored counter is how many they are. -/
  counter : (Records.read StoreKey.accountNumber).eval s = .ok (some (UInt64.ofNat order.length))

namespace Counts

variable {s : Store} {asked : List Address}

/-- The address at a position has an account, with the position for a number. -/
theorem account_of_position (hs : s.Counts asked) {i : Nat} {a : Address}
    (h : asked.eraseDups[i]? = some a) :
    ∃ x, s.account a = some x ∧ x.address = a ∧ x.number.toNat = i := by
  have ha : a ∈ asked := List.mem_eraseDups.mp (List.mem_of_getElem? h)
  obtain ⟨x, hx⟩ := Option.isSome_iff_exists.mp (hs.isSome a ha)
  have hi : i < asked.eraseDups.length := (List.getElem?_eq_some_iff.mp h).1
  have hsame : asked.eraseDups[i]? = asked.eraseDups[x.number.toNat]? := by
    rw [h, hs.position a x hx]
  have hnumber := (List.getElem?_inj hi (nodup_eraseDups asked)).mp hsame
  exact ⟨x, hx, (hs.placed.of_account hx).2.1, hnumber.symm⟩

/-- The stored accounts are those of the addresses, each with its position. -/
theorem readAll_account (hs : s.Counts asked) :
    ∃ l : List Account, (Records.readAll StoreKey.accountClass).eval s = .ok l ∧
      (l.map fun x => (x.address, x.number.toNat)).Perm asked.eraseDups.zipIdx := by
  have hcollects : s.Collects StoreKey.accountClass fun x : Account =>
      StoreKey.account x.address := by
    intro k v hget hk
    obtain ⟨x, -, rfl, rfl⟩ := hs.placed.account_of_get? hget (StoreKey.head?_of_isMember hk)
    exact ⟨x, trivial, rfl, rfl⟩
  obtain ⟨l, -, hrun, hascending, hmem⟩ := hcollects.records fun x =>
    List.isPrefixOf_iff_prefix.mpr (List.prefix_append _ _)
  refine ⟨l, congrArg Prod.fst hrun, (List.perm_ext_iff_of_nodup ?_ ?_).mpr ?_⟩
  · have haddresses : (l.map Account.address).Nodup := by
      refine List.pairwise_map.mpr (hascending.imp fun {x y} hlt heq => ?_)
      rw [heq] at hlt
      exact List.lt_irrefl _ hlt
    apply List.Nodup.of_map Prod.fst
    rwa [List.map_map]
  · apply List.Nodup.of_map Prod.fst
    rw [List.zipIdx_map_fst]
    exact nodup_eraseDups asked
  · rintro ⟨a, i⟩
    rw [List.mem_zipIdx_iff_getElem?, List.mem_map]
    constructor
    · rintro ⟨x, hx, heq⟩
      cases heq
      exact hs.position _ x ((hmem x).mp hx)
    · intro h
      obtain ⟨x, hx, rfl, rfl⟩ := hs.account_of_position h
      exact ⟨x, (hmem x).mpr hx, rfl⟩

/-- The counter is stored once there is an account. -/
theorem read_counter (hs : s.Counts asked) (hasked : asked ≠ []) :
    (Records.read StoreKey.accountNumber).eval s =
      .ok (some (UInt64.ofNat asked.eraseDups.length)) := by
  have hread : (Records.read StoreKey.accountNumber).eval s =
      .ok (s.record? UInt64 StoreKey.accountNumber) :=
    congrArg Prod.fst (Genesis.counter_run hs.placed)
  obtain ⟨a, ha⟩ := List.exists_mem_of_ne_nil asked hasked
  have hpos : 0 < asked.eraseDups.length := List.length_pos_of_mem (List.mem_eraseDups.mpr ha)
  have hnext := hs.next
  rw [nextNumber] at hnext
  rw [hread]
  cases hcounter : s.record? UInt64 StoreKey.accountNumber with
  | none =>
    rw [hcounter] at hnext
    exact absurd hnext (Nat.ne_of_lt hpos)
  | some n =>
    rw [hcounter, Option.getD_some] at hnext
    rw [← hnext, UInt64.ofNat_toNat]

/-- A store that counts has its accounts numbered. -/
theorem numbers (hs : s.Counts asked) (hasked : asked ≠ []) : s.Numbers asked.eraseDups where
  nodup := nodup_eraseDups asked
  numbered i a h := by
    obtain ⟨x, hx, haddress, hnumber⟩ := hs.account_of_position h
    exact ⟨x, hx ▸ hs.eval_account a, haddress, hnumber⟩
  others a ha := by
    rw [hs.eval_account]
    cases hx : s.account a with
    | none => rfl
    | some x => exact absurd (List.mem_eraseDups.mpr (hs.mem_of_account hx)) ha
  stored := hs.readAll_account
  counter := hs.read_counter hasked

end Counts

end Store

namespace Genesis

/-- Every genesis succeeds, and after it and any calls, as long as there are fewer accounts than
numbers, the accounts are numbered from zero on in the order in which they were first asked for, and
the counter is how many they are. Asking for an account that is there gives it as it is and leaves
the store. -/
theorem numbersInOrder (g : Genesis) (calls : List StoreCall)
    (h : (g.order calls).length < UInt64.size) :
    ∃ s, g.program.run .empty = (.ok (), s) ∧
      (calls.foldl StoreCall.serve s).Numbers (g.order calls) ∧
      ∀ a ∈ g.order calls, ∀ pubKey, ∃ x,
        (Records.account a).eval (calls.foldl StoreCall.serve s) = .ok (some x) ∧
        (Records.createAccount a pubKey).run (calls.foldl StoreCall.serve s) =
          (.ok x, calls.foldl StoreCall.serve s) := by
  have hgenesis : g.members.eraseDups.length < UInt64.size := length_eraseDups_lt_of_append h
  obtain ⟨s, hrun, hs⟩ := Store.Counts.program g hgenesis
  have hserved := hs.serve calls h
  refine ⟨s, hrun, hserved.numbers (by simp [members]), fun a ha pubKey => ?_⟩
  obtain ⟨x, hx, hcreate⟩ := hserved.createAccount_of_mem (List.mem_eraseDups.mp ha) pubKey
  exact ⟨x, hx ▸ hserved.eval_account a, hcreate⟩

end Genesis

namespace SmallLedger

/-- A genesis of one service for both tasks, and a roster with a ticket on it twice. -/
def doubled : Genesis :=
  (((Genesis.new masterKey masterKey).withAttendee "1" "GA").withAttendee "2" "GA").withAttendee
    "1" "VIP"

/-- Two accounts are asked for, one of them twice and one that is there, and in between the first
attendee is keyed. -/
def accountCalls : List StoreCall := [
  .create (.ofTicket "3") none,
  .operation keyGrant.tx.op 0,
  .create (.ofTicket "1") none,
  .create (.ofTicket "3") (some attendeeKey)]

/-- There are four accounts. -/
theorem order_doubled : doubled.order accountCalls =
    [.ofPublicKey masterKey, .ofTicket "1", .ofTicket "2", .ofTicket "3"] := by
  decide +kernel

end SmallLedger

open SmallLedger in
/-- The service and three tickets have accounts with the numbers zero to three, and the keyed
account has kept its number. -/
theorem Genesis.numbersInOrder_doubled :
    (doubled.order accountCalls).length < UInt64.size ∧
      ∃ s, doubled.program.run .empty = (.ok (), s) ∧
        (accountCalls.foldl StoreCall.serve s).Numbers
          [.ofPublicKey masterKey, .ofTicket "1", .ofTicket "2", .ofTicket "3"] ∧
        ((accountCalls.foldl StoreCall.serve s).account (.ofTicket "1")).bind Account.pubKey =
          some attendeeKey := by
  have hroom : (doubled.order accountCalls).length < UInt64.size := by
    rw [order_doubled]
    decide
  obtain ⟨s, hrun, hnumbers, -⟩ := doubled.numbersInOrder accountCalls hroom
  have hkeyed : ((accountCalls.foldl StoreCall.serve (doubled.program.run .empty).2).account
      (.ofTicket "1")).bind Account.pubKey = some attendeeKey := by decide +kernel
  rw [hrun] at hkeyed
  exact ⟨hroom, s, hrun, order_doubled ▸ hnumbers, hkeyed⟩

end ConferenceLedger

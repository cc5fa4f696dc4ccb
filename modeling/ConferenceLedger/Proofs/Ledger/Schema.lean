import ConferenceLedger.Proofs.Ledger.Contents

/-!
# The places of records

Seven kinds of records have their places in the store, and each place has its key: a bare byte, or
a byte, a separator and the bytes of an address, of a tier or of two addresses. The first byte tells
the kind and with it the length of the key. So places with the same key are the same, where the
place of a meeting is that of two attendees in either order, and no key is the start of another.
-/

namespace ConferenceLedger

/-- Two different addresses, each of which names somebody. -/
structure Pair where
  /-- One of them. -/
  first : Address
  /-- The other. -/
  second : Address
  /-- They differ. -/
  ne : first ≠ second
  /-- The first names somebody. -/
  first_named : first.isEmpty = false
  /-- The second names somebody. -/
  second_named : second.isEmpty = false

namespace Pair

/-- Whether two pairs are of the same addresses, in either order. -/
def Same (p q : Pair) : Prop :=
  (p.first = q.first ∧ p.second = q.second) ∨ (p.first = q.second ∧ p.second = q.first)

/-- The identifier of the meeting of a pair. -/
def id (p : Pair) : ScanId := (ScanId.ofPair p.first p.second).toOption.getD ⟨[]⟩

/-- Every pair has an identifier. -/
theorem ofPair_eq (p : Pair) : ScanId.ofPair p.first p.second = .ok p.id := by
  have hnamed : ¬(p.first.isEmpty || p.second.isEmpty) = true := by
    rw [p.first_named, p.second_named]
    exact Bool.false_ne_true
  unfold id ScanId.ofPair
  rw [if_neg hnamed, if_neg p.ne]
  rfl

/-- Pairs have the same identifier if they are of the same addresses, and only then. -/
theorem id_eq_iff {p q : Pair} : p.id = q.id ↔ p.Same q := by
  constructor
  · intro h
    exact ScanId.ofPair_inj p.ofPair_eq (h ▸ q.ofPair_eq)
  · intro h
    have hsame : ScanId.ofPair p.first p.second = ScanId.ofPair q.first q.second := by
      rcases h with ⟨hfirst, hsecond⟩ | ⟨hfirst, hsecond⟩
      · rw [hfirst, hsecond]
      · rw [hfirst, hsecond, ScanId.ofPair_comm]
    rw [p.ofPair_eq, q.ofPair_eq] at hsame
    exact Except.ok.inj hsame

end Pair

namespace StoreKey

/-- A key of a collection has three bytes before its own. -/
theorem length_member (c : UInt8) (raw : Bytes) : (member c raw).length = raw.length + 3 := by
  rw [member, List.length_append, Nat.add_comm]
  rfl

/-- A key of a collection is one of it. -/
theorem isMember_member (c : UInt8) (raw : Bytes) : isMember c (member c raw) = true :=
  List.isPrefixOf_iff_prefix.mpr (List.prefix_append _ _)

end StoreKey

/-- The place of a record. -/
inductive Place where
  /-- That of an attendee. -/
  | attendee (a : Address)
  /-- That of the meeting of a pair. -/
  | meeting (p : Pair)
  /-- That of a prize. -/
  | prize (tier : UInt8)
  /-- That of the address of the service that keys attendees. -/
  | master
  /-- That of the address of the service that redeems prizes. -/
  | redeem
  /-- That of an account. -/
  | account (a : Address)
  /-- That of the number of the next account. -/
  | counter

namespace Place

/-- The key of a place. -/
def key : Place → Bytes
  | attendee a => StoreKey.attendee a
  | meeting p => p.id.bytes
  | prize tier => StoreKey.prize tier
  | master => StoreKey.master
  | redeem => StoreKey.redeem
  | account a => StoreKey.account a
  | counter => StoreKey.accountNumber

/-- Whether two places are the same. Those of two meetings are if the pairs have the same
addresses. -/
def Same : Place → Place → Prop
  | meeting p, meeting q => p.Same q
  | x, y => x = y

/-- The class of a place. -/
def cls : Place → UInt8
  | attendee _ => StoreKey.attendeeClass
  | meeting _ => StoreKey.scanClass
  | prize _ => StoreKey.prizeClass
  | master => StoreKey.masterClass
  | redeem => StoreKey.redeemClass
  | account _ => StoreKey.accountClass
  | counter => StoreKey.accountNumberClass

/-- The collection that a place belongs to, if it is not the only one of its class. -/
def collection? : Place → Option UInt8
  | attendee _ => some StoreKey.attendeeClass
  | meeting _ => some StoreKey.scanClass
  | prize _ => some StoreKey.prizeClass
  | account _ => some StoreKey.accountClass
  | master | redeem | counter => none

attribute [simp] cls

/-- The first byte of a key is the class. -/
theorem head?_key (x : Place) : x.key.head? = some x.cls := by
  cases x with
  | meeting p => exact StoreKey.head?_of_isMember (ScanId.isMember_ofPair p.ofPair_eq)
  | _ => rfl

/-- A key that is the start of another is of the same class. -/
theorem cls_eq_of_prefix {x y : Place} (h : x.key <+: y.key) : x.cls = y.cls := by
  have hx := head?_key x
  have hy := head?_key y
  obtain ⟨rest, hrest⟩ := h
  rw [← hrest, List.head?_append, hx] at hy
  exact Option.some.inj hy

/-- How long the keys of a class are. -/
def keyLength (c : UInt8) : Nat :=
  if c = StoreKey.attendeeClass ∨ c = StoreKey.accountClass then 23
  else if c = StoreKey.scanClass then 43
  else if c = StoreKey.prizeClass then 4
  else 1

/-- The class of a place tells the length of its key. -/
theorem length_key (x : Place) : x.key.length = keyLength x.cls := by
  cases x with
  | attendee a =>
    rw [key, StoreKey.attendee, StoreKey.length_member, a.octets.length_bytes]
    rfl
  | account a =>
    rw [key, StoreKey.account, StoreKey.length_member, a.octets.length_bytes]
    rfl
  | meeting p => exact ScanId.length_ofPair p.ofPair_eq
  | _ => rfl

/-- No key is the start of another. -/
theorem key_eq_of_prefix {x y : Place} (h : x.key <+: y.key) : x.key = y.key := by
  apply h.eq_of_length
  rw [length_key, length_key, cls_eq_of_prefix h]

/-- Places have the same key if they are the same, and only then. -/
theorem key_eq_iff {x y : Place} : x.key = y.key ↔ x.Same y := by
  constructor
  · intro h
    have hcls : x.cls = y.cls := cls_eq_of_prefix (h ▸ List.prefix_rfl)
    cases x with
    | attendee a =>
      cases y with
      | attendee b => exact congrArg attendee (StoreKey.attendee_inj.mp h)
      | _ => simp at hcls
    | meeting p =>
      cases y with
      | meeting q => exact Pair.id_eq_iff.mp (congrArg ScanId.mk h)
      | _ => simp at hcls
    | prize tier =>
      cases y with
      | prize tier' => exact congrArg prize (StoreKey.prize_inj.mp h)
      | _ => simp at hcls
    | account a =>
      cases y with
      | account b => exact congrArg account (StoreKey.account_inj.mp h)
      | _ => simp at hcls
    | master =>
      cases y with
      | master => rfl
      | _ => simp at hcls
    | redeem =>
      cases y with
      | redeem => rfl
      | _ => simp at hcls
    | counter =>
      cases y with
      | counter => rfl
      | _ => simp at hcls
  · intro h
    cases x with
    | meeting p =>
      cases y with
      | meeting q => exact congrArg ScanId.bytes (Pair.id_eq_iff.mpr h)
      | _ => cases h
    | _ => exact congrArg key h

/-- The key of a place of a collection is one of the collection. -/
theorem isMember_of_collection? {x : Place} {c : UInt8} (h : x.collection? = some c) :
    StoreKey.isMember c x.key = true := by
  cases x with
  | meeting p =>
    cases h
    exact ScanId.isMember_ofPair p.ofPair_eq
  | attendee _ | prize _ | account _ =>
    cases h
    exact StoreKey.isMember_member _ _
  | _ => cases h

/-- The key of a place of a collection is one of this collection, and of no other. The key of a
place that is the only one of its class is one of no collection. -/
theorem isMember_key_iff {x : Place} {c : UInt8} :
    StoreKey.isMember c x.key = true ↔ x.collection? = some c := by
  constructor
  · intro h
    have hcls : x.cls = c := by
      have hhead := StoreKey.head?_of_isMember h
      rw [head?_key] at hhead
      exact Option.some.inj hhead
    have hlength : 3 ≤ x.key.length := (List.isPrefixOf_iff_prefix.mp h).length_le
    rw [← hcls]
    cases x with
    | master | redeem | counter => exact absurd hlength (by decide)
    | _ => rfl
  · exact isMember_of_collection?

end Place

/-- A well-placed row goes to a place. -/
theorem Row.exists_place {r : Row} (h : r.WellPlaced) : ∃ x : Place, x.key = r.key := by
  cases r with
  | meeting x =>
    obtain ⟨a, b, hpair⟩ := h
    obtain ⟨hne, ha, hb, -⟩ := ScanId.ofPair_eq_ok hpair
    let p : Pair := ⟨a, b, hne, ha, hb⟩
    have hid : p.id = x.id := Except.ok.inj (p.ofPair_eq.symm.trans hpair)
    exact ⟨.meeting p, congrArg ScanId.bytes hid⟩
  | attendee x => exact ⟨.attendee x.address, rfl⟩
  | prize p => exact ⟨.prize p.tier, rfl⟩
  | master _ => exact ⟨.master, rfl⟩
  | redeem _ => exact ⟨.redeem, rfl⟩
  | account x => exact ⟨.account x.address, rfl⟩
  | counter _ => exact ⟨.counter, rfl⟩

end ConferenceLedger

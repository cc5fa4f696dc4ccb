import ConferenceLedger.Ledger.Genesis
import ConferenceLedger.Proofs.Ledger.Reading

/-!
# What a genesis leaves

A genesis creates accounts, enrols attendees and lays out prizes. Every entry that it leaves is
a row of the genesis, every attendee on the roster has an account, and the two services are
named.
-/

namespace ConferenceLedger

namespace Genesis

/-- The addresses that have accounts: the two services and the roster. -/
def members (g : Genesis) : List Address :=
  .ofPublicKey g.keyService :: .ofPublicKey g.redeemService ::
    g.attendees.map fun e => .ofTicket e.id

/-- The members are the two services and the roster. -/
theorem length_members (g : Genesis) : g.members.length = g.attendees.length + 2 := by
  simp only [members, List.length_cons, List.length_map]

/-- An account that a genesis may create: a service has its own key, an attendee none. -/
structure Opens (g : Genesis) (x : Account) : Prop where
  /-- The account is one of a service or of the roster. -/
  member : x.address ∈ g.members
  /-- No transaction was executed for it. -/
  sequence : x.sequence = 0
  /-- A key is that of a service, at the address made from it. -/
  key : ∀ k, x.pubKey = some k →
    x.address = .ofPublicKey k ∧ (k = g.keyService ∨ k = g.redeemService)

end Genesis

/-- The rows that a genesis may leave. -/
def Row.OfGenesis (g : Genesis) : Row → Prop
  | attendee x => ∃ e ∈ g.attendees, x = .ofTicket e.id e.ticketClass
  | meeting _ => False
  | prize p => p ∈ g.prizes
  | master a => a = .ofPublicKey g.keyService
  | redeem a => a = .ofPublicKey g.redeemService
  | account x => g.Opens x
  | counter _ => True

namespace Genesis

/-- A store that others became by creating accounts, enrolling attendees who have accounts and
laying out prizes. -/
inductive Founding (g : Genesis) : Store → Store → Prop where
  /-- Nothing was done. -/
  | none (s : Store) : Founding g s s
  /-- One more account was created. -/
  | account {s t : Store} (h : Founding g s t) {x : Account} (hx : g.Opens x)
    (hnew : t.account x.address = .none) :
    Founding g s (t.fileAll [.counter (t.nextNumber + 1), .account x])
  /-- One more attendee was enrolled. -/
  | attendee {s t : Store} (h : Founding g s t) {e : RosterEntry} (he : e ∈ g.attendees)
    (haccount : (t.account (.ofTicket e.id)).isSome = true) :
    Founding g s (t.file (.attendee (.ofTicket e.id e.ticketClass)))
  /-- One more prize was laid out. -/
  | prize {s t : Store} (h : Founding g s t) {p : Prize} (hp : p ∈ g.prizes) :
    Founding g s (t.file (.prize p))

namespace Founding

variable {g : Genesis} {s t u : Store}

/-- What was done after something else was done with it. -/
theorem append (h : Founding g s t) (h' : Founding g t u) : Founding g s u := by
  induction h' with
  | none => exact h
  | account _ hx hnew ih => exact ih.account hx hnew
  | attendee _ he haccount ih => exact ih.attendee he haccount
  | prize _ hp ih => exact ih.prize hp

/-- A store of rows of a genesis stays one. -/
theorem holds (h : Founding g s t) (hs : s.Holds (Row.OfGenesis g)) :
    t.Holds (Row.OfGenesis g) := by
  induction h with
  | none => exact hs
  | account _ hx hnew ih =>
    exact (ih.file (r := .counter _) trivial trivial).file (r := .account _) trivial hx
  | attendee _ he haccount ih => exact ih.file (r := .attendee _) trivial ⟨_, he, rfl⟩
  | prize _ hp ih => exact ih.file (r := .prize _) trivial hp

/-- Founding leaves the records of other classes. -/
theorem record? {α : Type} [Binary α] (h : Founding g s t) {k : Bytes} {c : UInt8}
    (hk : k.head? = some c)
    (hc : c ∉ [StoreKey.accountNumberClass, StoreKey.accountClass, StoreKey.attendeeClass,
      StoreKey.prizeClass]) :
    t.record? α k = s.record? α k := by
  simp only [List.mem_cons, List.not_mem_nil, or_false, not_or] at hc
  obtain ⟨hcounter, haccount, hattendee, hprize⟩ := hc
  induction h with
  | none => rfl
  | account _ hx hnew ih =>
    rw [Store.fileAll_cons, Store.fileAll_cons, Store.fileAll_nil,
      Store.record?_file_of_cls_ne (r := .account _) trivial hk (Ne.symm haccount),
      Store.record?_file_of_cls_ne (r := .counter _) trivial hk (Ne.symm hcounter), ih]
  | attendee _ he haccount ih =>
    rw [Store.record?_file_of_cls_ne (r := .attendee _) trivial hk (Ne.symm hattendee), ih]
  | prize _ hp ih =>
    rw [Store.record?_file_of_cls_ne (r := .prize _) trivial hk (Ne.symm hprize), ih]

end Founding

end Genesis

namespace Records

/-- An account is created, with the next number, unless the address has one. -/
theorem createAccount_run_ok {a : Address} {k : Option PublicKey} {x : Account} {s t : Store}
    (h : (createAccount a k).run s = (.ok x, t)) :
    (s.account a = some x ∧ t = s) ∨
      (s.account a = none ∧ x = ⟨a, s.nextNumber, 0, k⟩ ∧
        t = s.fileAll [.counter (s.nextNumber + 1), .account x]) := by
  obtain ⟨found, u, hread, h⟩ := Access.run_bind_ok.mp h
  obtain ⟨rfl, rfl⟩ := read_run_ok hread
  cases haccount : s.record? Account (StoreKey.account a) with
  | some y =>
    rw [haccount] at h
    cases h
    exact Or.inl ⟨haccount, rfl⟩
  | none =>
    rw [haccount] at h
    obtain ⟨counter, u, hcounter, h⟩ := Access.run_bind_ok.mp h
    obtain ⟨rfl, rfl⟩ := read_run_ok hcounter
    cases h
    exact Or.inr ⟨haccount, rfl, rfl⟩

end Records

namespace Genesis

variable {g : Genesis} {s t : Store}

/-- Enrolling a service creates its account unless it is there. -/
theorem enrolService_founding {k : PublicKey} {a : Address}
    (hk : k = g.keyService ∨ k = g.redeemService)
    (h : (enrolService k).run s = (.ok a, t)) : a = .ofPublicKey k ∧ Founding g s t := by
  obtain ⟨x, u, hcreate, h⟩ := Access.run_bind_ok.mp h
  cases h
  refine ⟨rfl, ?_⟩
  rcases Records.createAccount_run_ok hcreate with ⟨-, rfl⟩ | ⟨hnew, rfl, rfl⟩
  · exact .none t
  · have hopens : g.Opens ⟨.ofPublicKey k, s.nextNumber, 0, some k⟩ := by
      constructor
      · rcases hk with rfl | rfl <;> simp [members]
      · rfl
      · intro k' hk'
        cases hk'
        exact ⟨rfl, hk⟩
    exact (Founding.none s).account hopens hnew

/-- Enrolling an attendee creates the account unless it is there, and then the record. -/
theorem enrolAttendee_founding {e : RosterEntry} (he : e ∈ g.attendees)
    (h : (enrolAttendee e).run s = (.ok (), t)) : Founding g s t := by
  obtain ⟨x, u, hcreate, h⟩ := Access.run_bind_ok.mp h
  cases h
  rcases Records.createAccount_run_ok hcreate with ⟨hfound, rfl⟩ | ⟨hnew, rfl, rfl⟩
  · have haccount : (u.account (.ofTicket e.id)).isSome = true :=
      Option.isSome_of_eq_some hfound
    exact (Founding.none u).attendee he haccount
  · have hopens : g.Opens ⟨.ofTicket e.id, s.nextNumber, 0, none⟩ := by
      constructor
      · simp only [members, List.mem_cons, List.mem_map]
        exact Or.inr (Or.inr ⟨e, he, rfl⟩)
      · rfl
      · intro k hk
        cases hk
    refine Founding.attendee ((Founding.none s).account hopens hnew) he ?_
    rw [Store.fileAll_cons, Store.fileAll_cons, Store.fileAll_nil,
      Store.account_file_account]
    simp

/-- A roster is enrolled one by one. -/
theorem forM_enrolAttendee_founding {l : List RosterEntry} (hl : ∀ e ∈ l, e ∈ g.attendees)
    (h : (l.forM enrolAttendee).run s = (.ok (), t)) : Founding g s t := by
  induction l generalizing s with
  | nil =>
    cases h
    exact .none _
  | cons e l ih =>
    obtain ⟨⟨⟩, u, hone, hrest⟩ := Access.run_bind_ok.mp h
    have hfirst := enrolAttendee_founding (hl e List.mem_cons_self) hone
    exact hfirst.append (ih (fun f hf => hl f (List.mem_cons_of_mem e hf)) hrest)

/-- Prizes are laid out one by one. -/
theorem forM_setPrize_run (l : List Prize) (s : Store) :
    (l.forM Records.setPrize).run s = (.ok (), s.fileAll (l.map .prize)) := by
  induction l generalizing s with
  | nil => rfl
  | cons p l ih => exact ih (s.file (.prize p))

/-- Laying out prizes of a genesis is founding. -/
theorem fileAll_prize_founding {l : List Prize} (hl : ∀ p ∈ l, p ∈ g.prizes) :
    Founding g s (s.fileAll (l.map .prize)) := by
  induction l generalizing s with
  | nil => exact .none s
  | cons p l ih =>
    have hfirst := (Founding.none s).prize (hl p List.mem_cons_self)
    exact hfirst.append (ih fun q hq => hl q (List.mem_cons_of_mem p hq))

/-- A genesis names the keying service after the first account and the redeeming service after
the second, and then enrols the roster and lays out the prizes. -/
theorem program_founding (h : g.program.run .empty = (.ok (), s)) :
    ∃ t u, Founding g .empty t ∧
      Founding g (t.file (.master (.ofPublicKey g.keyService))) u ∧
      Founding g (u.file (.redeem (.ofPublicKey g.redeemService))) s := by
  obtain ⟨master, t, hfirst, h⟩ := Access.run_bind_ok.mp h
  obtain ⟨rfl, ht⟩ := enrolService_founding (g := g) (Or.inl rfl) hfirst
  obtain ⟨⟨⟩, t', hmaster, h⟩ := Access.run_bind_ok.mp h
  cases hmaster
  obtain ⟨redeem, u, hsecond, h⟩ := Access.run_bind_ok.mp h
  obtain ⟨rfl, hu⟩ := enrolService_founding (g := g) (Or.inr rfl) hsecond
  obtain ⟨⟨⟩, u', hredeem, h⟩ := Access.run_bind_ok.mp h
  cases hredeem
  obtain ⟨⟨⟩, v, hroster, hprizes⟩ := Access.run_bind_ok.mp h
  have hv := forM_enrolAttendee_founding (g := g) (fun _ he => he) hroster
  have hs := fileAll_prize_founding (g := g) (s := v) fun _ hp => hp
  rw [forM_setPrize_run] at hprizes
  cases hprizes
  exact ⟨t, u, ht, hu, hv.append hs⟩

/-- A genesis names the addresses of its services. -/
theorem services_of_run (h : g.program.run .empty = (.ok (), s)) :
    s.master = some (.ofPublicKey g.keyService) ∧
      s.redeem = some (.ofPublicKey g.redeemService) := by
  obtain ⟨t, u, -, hu, hs⟩ := program_founding h
  constructor
  · have hlast : s.master = (u.file (.redeem (.ofPublicKey g.redeemService))).master :=
      hs.record? rfl (by simp)
    have hnamed : u.master = (t.file (.master (.ofPublicKey g.keyService))).master :=
      hu.record? rfl (by simp)
    have hfiled : (t.file (.master (.ofPublicKey g.keyService))).master =
        some (.ofPublicKey g.keyService) :=
      Store.record?_of_get? (α := Address) trivial (Store.get?_set_self _ _ _)
    have hkept : (u.file (.redeem (.ofPublicKey g.redeemService))).master = u.master :=
      Store.record?_file_of_cls_ne (r := .redeem _) trivial rfl (by simp)
    rw [hlast, hkept, hnamed, hfiled]
  · have hlast : s.redeem = (u.file (.redeem (.ofPublicKey g.redeemService))).redeem :=
      hs.record? rfl (by simp)
    rw [hlast]
    exact Store.record?_of_get? (α := Address) trivial (Store.get?_set_self _ _ _)

/-- Every entry that a genesis leaves is a row of the genesis. -/
theorem holds_of_run (h : g.program.run .empty = (.ok (), s)) : s.Holds (Row.OfGenesis g) := by
  obtain ⟨t, u, ht, hu, hs⟩ := program_founding h
  have htrows := ht.holds Store.holds_empty
  have hurows := hu.holds (htrows.file (r := .master _) trivial rfl)
  exact hs.holds (hurows.file (r := .redeem _) trivial rfl)

/-- The prizes of a genesis are laid out last. -/
theorem program_prizes (h : g.program.run .empty = (.ok (), s)) :
    ∃ t, ({ g with prizes := [] } : Genesis).program.run .empty = (.ok (), t) ∧
      s = t.fileAll (g.prizes.map .prize) := by
  obtain ⟨master, u, hfirst, h⟩ := Access.run_bind_ok.mp h
  obtain ⟨⟨⟩, u', hmaster, h⟩ := Access.run_bind_ok.mp h
  obtain ⟨redeem, v, hsecond, h⟩ := Access.run_bind_ok.mp h
  obtain ⟨⟨⟩, v', hredeem, h⟩ := Access.run_bind_ok.mp h
  obtain ⟨⟨⟩, t, hroster, hprizes⟩ := Access.run_bind_ok.mp h
  refine ⟨t, ?_, ?_⟩
  · rw [program, Access.run_bind_of_ok hfirst, Access.run_bind_of_ok hmaster,
      Access.run_bind_of_ok hsecond, Access.run_bind_of_ok hredeem, Access.run_bind_of_ok hroster]
    rfl
  · have hlaid := forM_setPrize_run g.prizes t
    rw [hprizes] at hlaid
    exact congrArg Prod.snd hlaid

/-- The prize of a tier that a genesis leaves is the last one of the tier in the table. -/
theorem prize_of_run (hfits : ∀ p ∈ g.prizes, Fits p) (h : g.program.run .empty = (.ok (), s))
    (tier : UInt8) : s.prize tier = (g.prizes.filter (·.tier = tier)).getLast? := by
  obtain ⟨t, ht, rfl⟩ := program_prizes h
  have hempty : ∀ p, ¬(Row.prize p).OfGenesis { g with prizes := [] } := fun _ => List.not_mem_nil
  have hnone : t.prize tier = none := by
    cases hp : t.prize tier with
    | none => rfl
    | some p =>
      have hfound := (holds_of_run ht).of_prize (fun q hq => absurd hq (hempty q)) hp
      exact absurd hfound.1 (hempty p)
  rw [Store.prize_fileAll hfits, hnone, Option.or_none]

end Genesis

end ConferenceLedger

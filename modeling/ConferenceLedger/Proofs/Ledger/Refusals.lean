import ConferenceLedger.Proofs.Ledger.Outcome

/-!
# A handler that fails has written nothing

A handler reads and checks what it needs before it writes. Only awards read what was written
before, the prizes, and the prizes that awards write can be read. So if a handler fails it has left
the store as it was, whatever values stand there.
-/

namespace ConferenceLedger

namespace Store

variable {s : Store}

/-- Every value of the class of prizes can be read as a prize. -/
def PrizesLegible (s : Store) : Prop :=
  ∀ k v, s.get? k = some v → StoreKey.isMember StoreKey.prizeClass k = true →
    ∃ p : Prize, Binary.decode v = .ok p

/-- The prizes are read if and only if every value of their class can be. -/
theorem prizes_run_iff : Records.prizes.run s = (.ok s.prizes, s) ↔ s.PrizesLegible := by
  constructor
  · intro h k v hget hk
    rw [Records.prizes, Records.readAll_run_eq] at h
    have hmem : (k, v) ∈ s.scan (StoreKey.collection StoreKey.prizeClass) :=
      mem_scan_iff.mpr ⟨hget, hk⟩
    obtain ⟨p, hp⟩ := Except.exists_of_mapM (congrArg Prod.fst h) (k, v) hmem
    rw [Records.decodeRecord] at hp
    split at hp
    · next q hq => exact ⟨q, hq⟩
    · cases hp
  · intro h
    refine Records.readAll_run fun e he => ?_
    obtain ⟨hget, hk⟩ := mem_scan_iff.mp he
    exact h e.1 e.2 hget hk

/-- A prize that was read fits. -/
theorem fits_of_mem_prizes {p : Prize} (hp : p ∈ s.prizes) : Fits p := by
  obtain ⟨e, -, hdecode⟩ := List.mem_filterMap.mp hp
  cases hvalue : (Binary.decode e.2 : Except CodecError Prize) with
  | error d =>
    rw [hvalue] at hdecode
    cases hdecode
  | ok q =>
    rw [hvalue] at hdecode
    cases hdecode
    exact LawfulBinary.fits_of_decode_prize hvalue

/-- Prizes that fit may be filed. -/
theorem PrizesLegible.fileAll (hs : s.PrizesLegible) {rows : List Row}
    (hrows : ∀ r ∈ rows, ∃ p : Prize, Fits p ∧ r = .prize p) : (s.fileAll rows).PrizesLegible := by
  induction rows generalizing s with
  | nil => exact hs
  | cons r rows ih =>
    obtain ⟨p, hp, rfl⟩ := hrows r List.mem_cons_self
    refine ih ?_ fun q hq => hrows q (List.mem_cons_of_mem _ hq)
    intro k v hget hk
    have hset : (s.file (.prize p)).get? k = if StoreKey.prize p.tier = k then some (put p)
        else s.get? k := get?_set s _ _ k
    rw [hset] at hget
    split_ifs at hget with hkey
    · cases hget
      exact ⟨p, LawfulBinary.decode_put hp⟩
    · exact hs k v hget hk

/-- An award leaves prizes that can be read. -/
theorem PrizesLegible.handOut (hs : s.PrizesLegible) (points : UInt64) (a : Attendee) :
    (s.handOut points a).PrizesLegible := by
  refine hs.fileAll fun r hr => ?_
  obtain ⟨p, hp, rfl⟩ := mem_stockRows hr
  have hfits : Fits p := fits_of_mem_prizes hp
  exact ⟨p.taken, hfits, rfl⟩

end Store

namespace Access

variable {ε α β : Type} {s : Store}

/-- A program that leaves a store as it is, also when it fails. -/
def Leaves (x : Access ε α) (s : Store) : Prop := (x.run s).2 = s

/-- A program that, if it fails on a store, has written nothing by then. -/
def FailsUnwritten (x : Access ε α) (s : Store) : Prop := ∀ e t, x.run s = (.error e, t) → t = s

/-- What a program that leaves the store leaves is the store. -/
theorem Leaves.eq {x : Access ε α} {r : Except ε α} {t : Store} (h : x.Leaves s)
    (hrun : x.run s = (r, t)) : t = s := by
  rw [Leaves, hrun] at h
  exact h

/-- A program that leaves the store writes nothing. -/
theorem Leaves.failsUnwritten {x : Access ε α} (h : x.Leaves s) : x.FailsUnwritten s :=
  fun _ _ hrun => h.eq hrun

/-- A plain computation leaves the store. -/
theorem leaves_ofExcept (x : Except ε α) : (ofExcept x).Leaves s := by
  rw [Leaves, run_ofExcept]

/-- Programs that leave the store do so one after another. -/
theorem Leaves.bind {x : Access ε α} {f : α → Access ε β} (h : x.Leaves s)
    (hf : ∀ a, (f a).Leaves s) : (x >>= f).Leaves s := by
  rcases hx : x.run s with ⟨r, t⟩
  have ht := h.eq hx
  cases r with
  | ok a =>
    rw [Leaves, run_bind_of_ok hx, ht]
    exact hf a
  | error e =>
    rw [Leaves, run_bind_of_error hx]
    exact ht

/-- A program that succeeds does not fail. -/
theorem failsUnwritten_of_ok {x : Access ε α} {a : α} {t : Store} (h : x.run s = (.ok a, t)) :
    x.FailsUnwritten s := by
  intro e u hrun
  rw [h] at hrun
  cases hrun

/-- A guard writes nothing. -/
theorem failsUnwritten_guard {c : Prop} [Decidable c] {e : ε} {x : Access ε α}
    (h : x.FailsUnwritten s) : (if c then fail e else x).FailsUnwritten s := by
  split_ifs
  · exact Leaves.failsUnwritten rfl
  · exact h

/-- Of two programs one after the other the second may fail only if the first has written
nothing. -/
theorem FailsUnwritten.bind {x : Access ε α} {f : α → Access ε β} (h : x.FailsUnwritten s)
    (hf : ∀ a t, x.run s = (.ok a, t) →
      t = s ∧ (f a).FailsUnwritten s ∨ ∃ b u, (f a).run t = (.ok b, u)) :
    (x >>= f).FailsUnwritten s := by
  intro e u hrun
  rcases run_bind_error hrun with hfirst | ⟨a, t, hfirst, hsecond⟩
  · exact h e u hfirst
  · rcases hf a t hfirst with ⟨rfl, hrest⟩ | ⟨b, v, hok⟩
    · exact hrest e u hsecond
    · rw [hok] at hsecond
      cases hsecond

/-- After a program that leaves the store another may fail that has written nothing. -/
theorem Leaves.before {x : Access ε α} {f : α → Access ε β} (h : x.Leaves s)
    (hf : ∀ a, (f a).FailsUnwritten s) : (x >>= f).FailsUnwritten s :=
  h.failsUnwritten.bind fun a _ hrun => Or.inl ⟨h.eq hrun, hf a⟩

end Access

open Access

namespace Records

variable {s : Store}

/-- Reading leaves the store. -/
theorem leaves_read {α : Type} [Binary α] (key : Bytes) : (read (α := α) key).Leaves s := by
  rw [Leaves, read_run_eq]

/-- Reading an attendee who must be there leaves the store. -/
theorem leaves_knownAttendee (a : Address) : (knownAttendee a).Leaves s := by
  refine (leaves_read _).bind fun found => ?_
  cases found <;> rfl

/-- Reading a meeting leaves the store. -/
theorem leaves_scan (id : ScanId) : (scan id).Leaves s := by
  unfold scan
  split_ifs
  · exact leaves_read _
  · rfl

/-- Reading the prizes leaves the store. -/
theorem leaves_prizes : prizes.Leaves s := by
  rw [Leaves, prizes, readAll_run_eq]

end Records

namespace Award

variable {s : Store} {points : UInt64} {a : Attendee}

/-- An award fails only if the prizes cannot be read. -/
theorem failsUnwritten_awardPoints : (awardPoints points a).FailsUnwritten s := by
  intro e t hrun
  rcases run_bind_error hrun with hprizes | ⟨prizes, u, hprizes, -⟩
  · exact Records.leaves_prizes.eq hprizes
  · obtain ⟨rfl, rfl⟩ := Records.prizes_run_ok hprizes
    rw [awardPoints_run hprizes] at hrun
    cases hrun

/-- After an award the prizes can be read. -/
theorem prizesLegible_of_run_ok {b : Attendee} {t : Store}
    (h : (awardPoints points a).run s = (.ok b, t)) : t.PrizesLegible := by
  obtain ⟨-, rfl⟩ := awardPoints_run_ok h
  obtain ⟨prizes, u, hprizes, -⟩ := run_bind_ok.mp h
  obtain ⟨rfl, rfl⟩ := Records.prizes_run_ok hprizes
  exact (Store.prizes_run_iff.mp hprizes).handOut points a

end Award

namespace Custody

/-- A keying that fails has written nothing. -/
theorem failsUnwritten_grantKey (m : KeyGrant) (s : Store) : (grantKey m).FailsUnwritten s := by
  refine (Records.leaves_read _).before fun master => failsUnwritten_guard ?_
  refine (Records.leaves_read _).before fun account => ?_
  cases account with
  | none => exact Leaves.failsUnwritten rfl
  | some account =>
    refine (Records.leaves_read _).before fun known => failsUnwritten_guard ?_
    exact failsUnwritten_of_ok rfl

/-- A claim that fails has written nothing. -/
theorem failsUnwritten_claimKey (m : KeyClaim) (s : Store) : (claimKey m).FailsUnwritten s := by
  refine (Records.leaves_knownAttendee _).before fun x => ?_
  refine failsUnwritten_guard (failsUnwritten_guard ?_)
  refine (Records.leaves_read _).before fun account => ?_
  exact Award.failsUnwritten_awardPoints.bind fun b t _ => Or.inr ⟨_, _, rfl⟩

end Custody

namespace Meeting

variable {s : Store}

/-- After a meeting the store is as before or the prizes can be read. -/
theorem eq_or_prizesLegible_of_meet {sender : Address} {time : Int64} {id : ScanId} {a b : Attendee}
    {p : Parties} {t : Store} (h : (meet sender time id a b).run s = (.ok p, t)) :
    t = s ∨ t.PrizesLegible := by
  obtain ⟨found, u, hread, h⟩ := run_bind_ok.mp h
  obtain rfl := (Records.leaves_scan id).eq hread
  cases found with
  | some scan =>
    cases h
    exact Or.inl rfl
  | none =>
    obtain ⟨scan, u, -, h⟩ := run_bind_ok.mp h
    obtain ⟨a', u, -, h⟩ := run_bind_ok.mp h
    obtain ⟨b', u, hsecond, h⟩ := run_bind_ok.mp h
    cases h
    exact Or.inr (Award.prizesLegible_of_run_ok hsecond)

/-- A meeting that fails has written nothing: the second award reads what the first one left. -/
theorem failsUnwritten_meet (sender : Address) (time : Int64) (id : ScanId) (a b : Attendee) :
    (meet sender time id a b).FailsUnwritten s := by
  refine (Records.leaves_scan id).before fun found => ?_
  cases found with
  | some scan => exact failsUnwritten_of_ok rfl
  | none =>
    refine (leaves_ofExcept _).before fun scan => ?_
    refine Award.failsUnwritten_awardPoints.bind fun a' t hfirst => Or.inr ?_
    have hprizes := Store.prizes_run_iff.mpr (Award.prizesLegible_of_run_ok hfirst)
    rw [run_bind_of_ok (Award.awardPoints_run hprizes _ _)]
    exact ⟨_, _, rfl⟩

/-- Sharing data fails only if the prizes cannot be read. -/
theorem failsUnwritten_share (sender : Address) (data : Blob) (p : Parties) :
    (share sender data p).FailsUnwritten s := by
  unfold share
  split_ifs
  · exact Award.failsUnwritten_awardPoints.bind fun a t _ => Or.inr ⟨_, _, rfl⟩
  · exact failsUnwritten_of_ok rfl

/-- Sharing data succeeds if the prizes can be read. -/
theorem exists_share_run (h : s.PrizesLegible) (sender : Address) (data : Blob) (p : Parties) :
    ∃ q t, (share sender data p).run s = (.ok q, t) := by
  unfold share
  split_ifs
  · rw [run_bind_of_ok (Award.awardPoints_run (Store.prizes_run_iff.mpr h) _ _)]
    exact ⟨_, _, rfl⟩
  · exact ⟨_, _, rfl⟩

/-- A scan that fails has written nothing. -/
theorem failsUnwritten_scanBadge (time : Int64) (m : BadgeScan) (s : Store) :
    (scanBadge time m).FailsUnwritten s := by
  refine (Records.leaves_knownAttendee _).before fun scanned => ?_
  refine (leaves_ofExcept _).before fun id => ?_
  refine (Records.leaves_knownAttendee _).before fun sender => ?_
  refine (failsUnwritten_meet _ _ _ _ _).bind fun met t hmeet => ?_
  rcases eq_or_prizesLegible_of_meet hmeet with heq | hprizes
  · refine Or.inl ⟨heq, ?_⟩
    exact (failsUnwritten_share _ _ _).bind fun shared u _ => Or.inr ⟨_, _, rfl⟩
  · obtain ⟨shared, u, hshare⟩ := exists_share_run hprizes m.sender m.data met.listed
    exact Or.inr ⟨(), u.fileAll shared.rows, run_bind_of_ok hshare _⟩

end Meeting

/-- A redemption that fails has written nothing. -/
theorem Booth.failsUnwritten_collect (m : Redemption) (s : Store) :
    (collect m).FailsUnwritten s := by
  refine (Records.leaves_read _).before fun redeem => failsUnwritten_guard ?_
  refine (Records.leaves_knownAttendee _).before fun x => failsUnwritten_guard ?_
  exact failsUnwritten_of_ok rfl

/-- A handler that fails has written nothing. -/
theorem Operation.failsUnwritten_program (op : Operation) (time : Int64) (s : Store) :
    (op.program time).FailsUnwritten s := by
  cases op with
  | key m => exact Custody.failsUnwritten_grantKey m s
  | claimKey m => exact Custody.failsUnwritten_claimKey m s
  | scanQr m => exact Meeting.failsUnwritten_scanBadge time m s
  | redeem m => exact Booth.failsUnwritten_collect m s

end ConferenceLedger

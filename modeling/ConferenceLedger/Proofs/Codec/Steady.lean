import ConferenceLedger.Proofs.Codec.RoundTrip

/-!
# Readers that more bytes do not mislead

A reader takes what it needs from the front, so more bytes behind change neither what it reads nor
what it finds wrong. The only answer that more bytes can change is that the bytes end too early.
Hence a reader that uses up all of some bytes fails on every shorter beginning of them, and says
that they end too early.
-/

namespace ConferenceLedger

/-- Whether a fault is that the bytes end too early. -/
def CodecError.endsEarly : CodecError → Bool
  | cut => true
  | short => true
  | _ => false

namespace Reader

variable {α β : Type}

/-- A reader whose answer stays when more bytes follow, unless the bytes ended too early. -/
structure Steady (r : Reader α) : Prop where
  /-- What was read is read again, and the bytes that follow are left too. -/
  ok : ∀ {b rest : Bytes} {a : α}, r b = .ok (a, rest) →
    ∀ more, r (b ++ more) = .ok (a, rest ++ more)
  /-- What was found wrong is found wrong again. -/
  error : ∀ {b : Bytes} {e : CodecError}, r b = .error e → e.endsEarly = false →
    ∀ more, r (b ++ more) = .error e

namespace Steady

/-- Reading nothing is steady. -/
theorem pure (a : α) : Steady (Pure.pure a : Reader α) := by
  constructor
  · intro b rest c h more
    cases h
    rfl
  · intro b e h
    cases h

/-- Finding fault with what was read before is steady. -/
theorem throw (e : CodecError) : Steady (MonadExcept.throw e : Reader α) := by
  constructor
  · intro b rest a h
    cases h
  · intro b d h _ more
    cases h
    rfl

/-- Steady readers one after the other are steady. -/
theorem bind {r : Reader α} {f : α → Reader β} (h : r.Steady) (hf : ∀ a, (f a).Steady) :
    (r >>= f).Steady := by
  constructor
  · intro b rest c hread more
    obtain ⟨a, left, hfirst, hsecond⟩ := bind_eq_ok hread
    rw [bind_ok (h.ok hfirst more)]
    exact (hf a).ok hsecond more
  · intro b e hread he more
    change (r b >>= fun p => f p.1 p.2) = _ at hread
    cases hr : r b with
    | error d =>
      rw [hr] at hread
      cases hread
      change (r (b ++ more) >>= fun p => f p.1 p.2) = _
      rw [h.error hr he more]
      rfl
    | ok p =>
      rw [hr] at hread
      rw [bind_ok (h.ok hr more)]
      exact (hf p.1).error hread he more

/-- Taking bytes is steady if too few of them count as ending too early. -/
theorem take (n : Nat) {tooFew : CodecError} (hfew : tooFew.endsEarly = true) :
    Steady (Reader.take n tooFew) := by
  constructor
  · intro b rest a h more
    unfold Reader.take at h ⊢
    split_ifs at h with hlt
    cases h
    have hle : n ≤ b.length := Nat.le_of_not_lt hlt
    have hlonger : ¬(b ++ more).length < n := by
      rw [List.length_append]
      omega
    rw [if_neg hlonger, List.take_append_of_le_length hle, List.drop_append_of_le_length hle]
  · intro b e h he
    unfold Reader.take at h
    split_ifs at h
    cases h
    rw [hfew] at he
    cases he

/-- Reading an integer is steady. -/
theorem natLE (width : Nat) : Steady (Reader.natLE width) :=
  bind (take width rfl) fun _ => pure _

/-- Reading so many values is steady if reading one is. -/
theorem times {r : Reader α} (h : r.Steady) (count : Nat) : Steady (r.times count) := by
  induction count with
  | zero => exact pure []
  | succ count ih => exact h.bind fun _ => ih.bind fun _ => pure _

/-- A steady reader that uses up all of some bytes fails on every shorter beginning of them: with
the missing bytes it would leave these. -/
theorem fails_of_prefix {r : Reader α} (h : r.Steady) {w b : Bytes} {a : α}
    (hread : r w = .ok (a, [])) (hb : b <+: w) (hne : b ≠ w) :
    ∃ e : CodecError, e.endsEarly = true ∧ r b = .error e := by
  obtain ⟨more, rfl⟩ := hb
  cases hr : r b with
  | ok p =>
    rw [h.ok hr more] at hread
    obtain ⟨-, hempty⟩ := Prod.mk.inj (Except.ok.inj hread)
    rw [(List.append_eq_nil_iff.mp hempty).2, List.append_nil] at hne
    exact absurd rfl hne
  | error e =>
    refine ⟨e, ?_, rfl⟩
    cases he : e.endsEarly with
    | true => rfl
    | false =>
      rw [h.error hr he more] at hread
      cases hread

end Steady

end Reader

/-- A type whose reader is steady. -/
class SteadyBinary (α : Type) [Binary α] : Prop where
  /-- More bytes do not change what is read. -/
  steady : (Binary.get : Reader α).Steady

namespace SteadyBinary

open Reader

variable {α β : Type} [Binary α] [SteadyBinary α]

/-- Reading a value and going on with a steady reader is steady. -/
theorem get_bind {f : α → Reader β} (h : ∀ a, (f a).Steady) :
    ((Binary.get : Reader α) >>= f).Steady :=
  steady.bind h

instance : SteadyBinary UInt8 := ⟨(Steady.natLE 1).bind fun _ => .pure _⟩

instance : SteadyBinary UInt32 := ⟨(Steady.natLE 4).bind fun _ => .pure _⟩

instance : SteadyBinary UInt64 := ⟨(Steady.natLE 8).bind fun _ => .pure _⟩

instance : SteadyBinary Int64 := ⟨(Steady.natLE 8).bind fun _ => .pure _⟩

instance : SteadyBinary Bool where
  steady := by
    refine get_bind (α := UInt8) fun n => ?_
    split_ifs
    · exact .pure false
    · exact .pure true
    · exact .throw _

instance : SteadyBinary String where
  steady := by
    refine (Steady.natLE 8).bind fun length => (Steady.take length rfl).bind fun b => ?_
    split
    · exact .pure _
    · exact .throw _

instance : SteadyBinary (Option α) where
  steady := by
    refine get_bind (α := UInt8) fun n => ?_
    split_ifs
    · exact .pure none
    · exact get_bind fun a => .pure (some a)
    · exact .throw _

instance : SteadyBinary (List α) := ⟨(Steady.natLE 8).bind fun count => steady.times count⟩

instance {n : Nat} : SteadyBinary (Octets n) where
  steady := by
    refine get_bind (α := String) fun s => ?_
    split
    · exact .pure _
    · exact .throw _

instance : SteadyBinary Blob where
  steady := by
    refine get_bind (α := String) fun s => ?_
    split
    · exact .pure _
    · exact .throw _

/-- The index of a case is read steadily. -/
theorem getCase (cases : Nat) : (Binary.getCase cases).Steady := by
  refine get_bind (α := UInt32) fun index => ?_
  split_ifs
  · exact .pure _
  · exact .throw _

end SteadyBinary

end ConferenceLedger

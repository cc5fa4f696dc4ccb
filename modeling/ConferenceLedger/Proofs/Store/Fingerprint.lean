import ConferenceLedger.Proofs.Store.Lookup
import Mathlib.Data.List.Induction

/-!
# The fingerprint tells the contents

The fingerprint is the digest of a text of bytes in which every key and every value stands behind
its length. So no byte can be taken from one of them and given to its neighbour: two stores have the
same text only if they have the same entries. How the entries came to be there, and in which order,
leaves no trace. A length is written in eight bytes, so keys and values must have fewer than 2^64
bytes each. The entries need not be counted for this: where the text ends, they do.
-/

namespace ConferenceLedger

/-- Numbers that fit the width are told by their digits. -/
theorem Bytes.ofNatLE_inj {width m n : Nat} (hm : m < Nat.pow 256 width)
    (hn : n < Nat.pow 256 width) (h : ofNatLE width m = ofNatLE width n) : m = n := by
  have hread := toNatLE_ofNatLE width m hm
  rwa [h, toNatLE_ofNatLE width n hn, eq_comm] at hread

/-- An entry whose lengths fit the eight bytes that they are written in. -/
def Entry.Sized (e : Entry) : Prop := e.1.length < UInt64.size ∧ e.2.length < UInt64.size

/-- The value that a key was given last, among writes one after another. -/
def lastWritten (writes : List Entry) (key : Bytes) : Option Bytes := findEntry? key writes.reverse

namespace Store

/-- A store whose keys and values have lengths that fit. -/
def Sized (s : Store) : Prop := ∀ e ∈ s.entries, e.Sized

/-- An entry as the fingerprint takes it. -/
def stampEntry (e : Entry) : Bytes := stampBytes e.1 ++ stampBytes e.2

/-- Where two byte strings behind their lengths begin equal bytes, they are equal, and so is what
follows them. -/
theorem stampBytes_append_inj {a b rest rest' : Bytes} (ha : a.length < UInt64.size)
    (hb : b.length < UInt64.size) (h : stampBytes a ++ rest = stampBytes b ++ rest') :
    a = b ∧ rest = rest' := by
  simp only [stampBytes, List.append_assoc] at h
  have hwidth : (stampNumber a.length).length = (stampNumber b.length).length := by
    rw [stampNumber, stampNumber, Bytes.length_ofNatLE, Bytes.length_ofNatLE]
  obtain ⟨hnumber, hafter⟩ := List.append_inj h hwidth
  have hfits : a.length < Nat.pow 256 8 ∧ b.length < Nat.pow 256 8 := ⟨ha, hb⟩
  have hlength : a.length = b.length := Bytes.ofNatLE_inj hfits.1 hfits.2 hnumber
  exact List.append_inj hafter hlength

/-- Where two entries begin equal bytes, they are equal, and so is what follows them. -/
theorem stampEntry_append_inj {e f : Entry} {rest rest' : Bytes} (he : e.Sized) (hf : f.Sized)
    (h : stampEntry e ++ rest = stampEntry f ++ rest') : e = f ∧ rest = rest' := by
  simp only [stampEntry, List.append_assoc] at h
  obtain ⟨hkey, hafter⟩ := stampBytes_append_inj he.1 hf.1 h
  obtain ⟨hvalue, hrest⟩ := stampBytes_append_inj he.2 hf.2 hafter
  exact ⟨Prod.ext hkey hvalue, hrest⟩

/-- An entry takes bytes. -/
theorem stampEntry_ne_nil (e : Entry) : stampEntry e ≠ [] := by
  have hlength : (stampEntry e).length = 8 + (e.1.length + (8 + e.2.length)) := by
    simp [stampEntry, stampBytes, stampNumber]
  intro hnil
  rw [hnil, List.length_nil] at hlength
  omega

/-- Entries one after another are told by their bytes. -/
theorem flatMap_stampEntry_inj {entries others : List Entry} (he : ∀ e ∈ entries, e.Sized)
    (ho : ∀ e ∈ others, e.Sized) (h : entries.flatMap stampEntry = others.flatMap stampEntry) :
    entries = others := by
  induction entries generalizing others with
  | nil =>
    cases others with
    | nil => rfl
    | cons f fs =>
      rw [List.flatMap_nil, List.flatMap_cons] at h
      exact absurd (List.append_eq_nil_iff.mp h.symm).1 (stampEntry_ne_nil f)
  | cons e es ih =>
    cases others with
    | nil =>
      rw [List.flatMap_nil, List.flatMap_cons] at h
      exact absurd (List.append_eq_nil_iff.mp h).1 (stampEntry_ne_nil e)
    | cons f fs =>
      rw [List.flatMap_cons, List.flatMap_cons] at h
      obtain ⟨hef, hrest⟩ := stampEntry_append_inj (he e List.mem_cons_self)
        (ho f List.mem_cons_self) h
      have htail := ih (fun g hg => he g (List.mem_cons_of_mem e hg))
        (fun g hg => ho g (List.mem_cons_of_mem f hg)) hrest
      rw [hef, htail]

/-- Stores of lengths that fit are told by the bytes that the fingerprint is the digest of. -/
theorem stamp_inj {s t : Store} (hs : s.Sized) (ht : t.Sized) : s.stamp = t.stamp ↔ s = t := by
  constructor
  · intro h
    simp only [stamp, List.append_assoc] at h
    have hafter := List.append_cancel_left h
    have hwidth : (stampNumber s.size).length = (stampNumber t.size).length := by
      rw [stampNumber, stampNumber, Bytes.length_ofNatLE, Bytes.length_ofNatLE]
    have hentries := flatMap_stampEntry_inj hs ht (List.append_inj hafter hwidth).2
    obtain ⟨entries, _⟩ := s
    obtain ⟨others, _⟩ := t
    subst hentries
    rfl
  · exact congrArg stamp

/-- Stores are the same if they hold the same entries. -/
theorem eq_iff_mem_entries {s t : Store} : s = t ↔ ∀ e, e ∈ s.entries ↔ e ∈ t.entries := by
  constructor
  · rintro rfl e
    exact Iff.rfl
  · intro h
    apply ext_get?
    intro k
    apply Option.ext
    intro v
    rw [get?, s.ascending.find_eq_some_iff, h, get?, t.ascending.find_eq_some_iff]

/-- After writes to the empty store, every key has the value that it was given last. -/
theorem get?_setAll_empty (writes : List Entry) (k : Bytes) :
    (empty.setAll writes).get? k = lastWritten writes k := by
  induction writes using List.reverseRecOn with
  | nil => rfl
  | append_singleton writes e ih =>
    have hlast : empty.setAll (writes ++ [e]) = (empty.setAll writes).set e.1 e.2 :=
      List.foldl_append
    rw [hlast, get?_set, ih]
    simp [lastWritten, findEntry?]

/-- The fingerprint is the digest of bytes that two stores of lengths that fit have in common exactly
if they hold the same entries. In whatever order these were written and overwritten, this is so
exactly if every key was given the same value last. -/
theorem stamp_tells_contents {s t : Store} (hs : s.Sized) (ht : t.Sized) :
    (s.fingerprint = sha256 s.stamp ∧ t.fingerprint = sha256 t.stamp) ∧
      (s.stamp = t.stamp ↔ ∀ e, e ∈ s.entries ↔ e ∈ t.entries) ∧
      ∀ writes others, empty.setAll writes = s → empty.setAll others = t →
        (s.stamp = t.stamp ↔ ∀ k, lastWritten writes k = lastWritten others k) := by
  refine ⟨⟨rfl, rfl⟩, ?_, ?_⟩
  · rw [stamp_inj hs ht, eq_iff_mem_entries]
  · rintro writes others rfl rfl
    rw [stamp_inj hs ht]
    constructor
    · intro h k
      rw [← get?_setAll_empty, h, get?_setAll_empty]
    · intro h
      apply ext_get?
      intro k
      rw [get?_setAll_empty, get?_setAll_empty, h]

/-- Two entries in either order, one of them overwritten, have the same bytes. A byte that is moved
from a value to its key gives others. -/
theorem stamp_tells_contents_reordered :
    (empty.setAll [([1], [7]), ([2], [8, 9])]).Sized ∧
      (empty.setAll [([2], [3]), ([1], [7]), ([2], [8, 9])]).Sized ∧
      (empty.setAll [([1], [7]), ([2, 8], [9])]).Sized ∧
      (empty.setAll [([1], [7]), ([2], [8, 9])]).stamp =
        (empty.setAll [([2], [3]), ([1], [7]), ([2], [8, 9])]).stamp ∧
      (empty.setAll [([1], [7]), ([2], [8, 9])]).stamp ≠
        (empty.setAll [([1], [7]), ([2, 8], [9])]).stamp := by
  have hfirst : (empty.setAll [([1], [7]), ([2], [8, 9])]).Sized := by unfold Sized Entry.Sized; decide
  have hagain : (empty.setAll [([2], [3]), ([1], [7]), ([2], [8, 9])]).Sized := by
    unfold Sized Entry.Sized; decide
  have hmoved : (empty.setAll [([1], [7]), ([2, 8], [9])]).Sized := by
    unfold Sized Entry.Sized; decide
  obtain ⟨-, hsame, -⟩ := stamp_tells_contents hfirst hagain
  obtain ⟨-, hother, -⟩ := stamp_tells_contents hfirst hmoved
  refine ⟨hfirst, hagain, hmoved, hsame.mpr fun e => Iff.rfl, fun h => ?_⟩
  have hentry : (([2], [8, 9]) : Entry) ∈ (empty.setAll [([1], [7]), ([2, 8], [9])]).entries :=
    (hother.mp h _).mp (by decide)
  revert hentry
  decide

end Store

end ConferenceLedger

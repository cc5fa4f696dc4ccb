import ConferenceLedger.Proofs.Store.Overlay
import Mathlib.Data.List.Nodup

/-!
# Listings are exact

In byte order the keys with a given start stand together, from the start itself on, whatever
their lengths. A listing begins at the start and ends before the first key without it, and so it
cuts out of the store the one stretch of entries whose keys have the start. This holds of every
start: the empty one, which every key has, and one of highest bytes, which no byte string of its
length exceeds.
-/

namespace ConferenceLedger

namespace Bytes

/-- To have a start is to have it as a prefix. -/
theorem startsWith_iff {start b : Bytes} : startsWith start b = true ↔ start <+: b :=
  List.isPrefixOf_iff_prefix

/-- A byte string that is not below a start and does not have it is above the start. -/
theorem lt_of_not_startsWith {start b : Bytes} (hlo : ¬b < start)
    (hb : ¬startsWith start b = true) : start < b := by
  rcases key_trichotomy b start with hlt | heq | hgt
  · exact absurd hlt hlo
  · exact absurd (startsWith_iff.mpr (heq ▸ List.prefix_rfl)) hb
  · exact hgt

end Bytes

/-- When a condition that holds of an element holds of all before it, it holds of none after the
first that fails it. -/
theorem not_of_mem_dropWhile {α : Type} {p : α → Bool} {l : List α}
    (h : l.Pairwise fun a b => p b = true → p a = true) {a : α} (ha : a ∈ l.dropWhile p) :
    ¬p a = true := by
  induction l with
  | nil => cases ha
  | cons b rest ih =>
    obtain ⟨hb, hrest⟩ := List.pairwise_cons.mp h
    by_cases hp : p b = true
    · rw [List.dropWhile_cons_of_pos hp] at ha
      exact ih hrest ha
    · rw [List.dropWhile_cons_of_neg hp] at ha
      rcases List.mem_cons.mp ha with rfl | ha
      · exact hp
      · exact fun hpa => hp (hb a ha hpa)

/-- Among entries in ascending order, what remains from a key on is not below it. -/
theorem Ascending.not_lt_of_mem_dropWhile {entries : List Entry} (h : Ascending entries)
    {start : Bytes} {e : Entry} (he : e ∈ entries.dropWhile fun e => e.1 < start) :
    ¬e.1 < start := by
  have hdown : entries.Pairwise fun a b =>
      decide (b.1 < start) = true → decide (a.1 < start) = true :=
    h.imp fun hab hb => decide_eq_true (List.lt_trans hab (of_decide_eq_true hb))
  exact fun hlt => not_of_mem_dropWhile hdown he (decide_eq_true hlt)

/-- Among entries in ascending order from a start on, none has the start after the first that
does not. -/
theorem Ascending.not_startsWith_of_mem_dropWhile {entries : List Entry} (h : Ascending entries)
    {start : Bytes} (hlo : ∀ e ∈ entries, ¬e.1 < start) {e : Entry}
    (he : e ∈ entries.dropWhile fun e => Bytes.startsWith start e.1) :
    ¬Bytes.startsWith start e.1 = true := by
  have hdown : entries.Pairwise fun a b =>
      Bytes.startsWith start b.1 = true → Bytes.startsWith start a.1 = true :=
    h.imp_of_mem fun ha _ hab hb => Bytes.startsWith_of_between (hlo _ ha) hab hb
  exact not_of_mem_dropWhile hdown he

/-- No key occurs twice among entries in ascending order. -/
theorem Ascending.nodup {entries : List Entry} (h : Ascending entries) : entries.Nodup := by
  apply h.imp
  rintro a b hlt rfl
  exact List.lt_irrefl a.1 hlt

namespace Store

/-- What it means that a list is exactly what a store holds under the keys with a start. -/
structure ListsExactly (s : Store) (start : Bytes) (listed : List Entry) : Prop where
  /-- Every entry whose key has the start is listed, and no other is. -/
  mem : ∀ e, e ∈ listed ↔ e ∈ s.entries ∧ start <+: e.1
  /-- Each is listed once. -/
  once : ∀ e ∈ listed, listed.count e = 1
  /-- The keys are in strictly ascending byte order. -/
  ascending : listed.Pairwise fun a b => a.1 < b.1
  /-- The entries stand together in the store: those before them are below the start, and those
  after them are above it and do not have it. -/
  together : ∃ before after, s.entries = before ++ listed ++ after ∧
    (∀ e ∈ before, e.1 < start) ∧ ∀ e ∈ after, start < e.1 ∧ ¬start <+: e.1

/-- A listing stands together in the store. -/
theorem together_scan (s : Store) (start : Bytes) :
    ∃ before after, s.entries = before ++ s.scan start ++ after ∧
      (∀ e ∈ before, e.1 < start) ∧ ∀ e ∈ after, start < e.1 ∧ ¬start <+: e.1 := by
  -- the part from the start on is what the listing is the first stretch of
  have hfrom : Ascending (s.entries.dropWhile fun e => e.1 < start) :=
    s.ascending.sublist (List.dropWhile_sublist _)
  have hlo : ∀ e ∈ s.entries.dropWhile fun e => e.1 < start, ¬e.1 < start := fun e he =>
    s.ascending.not_lt_of_mem_dropWhile he
  refine ⟨s.entries.takeWhile fun e => e.1 < start,
    (s.entries.dropWhile fun e => e.1 < start).dropWhile fun e => Bytes.startsWith start e.1,
    ?_, ?_, ?_⟩
  · rw [scan, List.append_assoc, List.takeWhile_append_dropWhile, List.takeWhile_append_dropWhile]
  · intro e he
    exact of_decide_eq_true (List.all_eq_true.mp List.all_takeWhile e he)
  · intro e he
    have hnot := hfrom.not_startsWith_of_mem_dropWhile hlo he
    have hmem := (List.dropWhile_sublist _).subset he
    exact ⟨Bytes.lt_of_not_startsWith (hlo e hmem) hnot,
      fun hp => hnot (Bytes.startsWith_iff.mpr hp)⟩

/-- A listing is exactly what the store holds under the keys with the start. -/
theorem listsExactly_scan (s : Store) (start : Bytes) : s.ListsExactly start (s.scan start) where
  mem e := by rw [scan_eq_filter, List.mem_filter, Bytes.startsWith_iff]
  once _ he := List.count_eq_one_of_mem (s.ascending_scan start).nodup he
  ascending := s.ascending_scan start
  together := s.together_scan start

/-- Only one list is exactly what the store holds under the keys with a start. -/
theorem ListsExactly.unique {s : Store} {start : Bytes} {listed others : List Entry}
    (h : s.ListsExactly start listed) (h' : s.ListsExactly start others) : listed = others := by
  apply Ascending.ext h.ascending h'.ascending
  intro k
  apply Option.ext
  intro v
  rw [Ascending.find_eq_some_iff h.ascending, Ascending.find_eq_some_iff h'.ascending, h.mem,
    h'.mem]

/-- A list is exactly what the store holds under the keys with a start if it is the listing. -/
theorem listsExactly_iff {s : Store} {start : Bytes} {listed : List Entry} :
    s.ListsExactly start listed ↔ listed = s.scan start := by
  constructor
  · intro h
    exact h.unique (s.listsExactly_scan start)
  · rintro rfl
    exact s.listsExactly_scan start

/-- Stores that hold the same under every key with a start list the same under it. -/
theorem scan_congr {s t : Store} {start : Bytes}
    (h : ∀ k, Bytes.startsWith start k = true → t.get? k = s.get? k) :
    t.scan start = s.scan start := by
  apply (t.ascending_scan start).ext (s.ascending_scan start)
  intro k
  rw [scan_eq_filter, scan_eq_filter, findEntry?_filter (Bytes.startsWith start),
    findEntry?_filter (Bytes.startsWith start)]
  split_ifs with hk
  · exact h k hk
  · rfl

/-- Whatever the start, the listing of a store is exactly what it holds under the keys with the
start, and no other list is. The listing of a view is that of the store with every pending write
put into it. -/
theorem scan_exact (start : Bytes) (listed : List Entry) :
    (∀ s : Store, s.ListsExactly start listed ↔ listed = s.scan start) ∧
      ∀ v : View, v.flat.ListsExactly start listed ↔ listed = v.scan start := by
  constructor
  · intro s
    exact listsExactly_iff
  · intro v
    rw [← View.scan_flat]
    exact listsExactly_iff

/-- Every key starts with the empty one, and of the keys `ff`, `fffe`, `ffff`, `ffff00` and
`ffff80` the last three start with `ffff`. -/
example :
    let s := empty.setAll [([255, 255, 128], [5]), ([255], [1]), ([255, 255], [3]),
      ([255, 254], [2]), ([255, 255, 0], [4])]
    s.scan [] = [([255], [1]), ([255, 254], [2]), ([255, 255], [3]), ([255, 255, 0], [4]),
        ([255, 255, 128], [5])] ∧
      s.scan [255, 255] = [([255, 255], [3]), ([255, 255, 0], [4]), ([255, 255, 128], [5])] := by
  decide

end Store

end ConferenceLedger

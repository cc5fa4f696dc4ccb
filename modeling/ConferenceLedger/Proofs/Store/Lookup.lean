import ConferenceLedger.Store.Basic
import Mathlib.Tactic.SplitIfs

/-!
# What a store holds

A store is determined by the value of every key. Putting a value under a key changes what is
found there and nothing else, putting many entries lets the last one count, and a listing is
exactly the entries whose keys have the given start.
-/

namespace ConferenceLedger

/-- Any two keys are equal or one is below the other. -/
theorem key_trichotomy (a b : Bytes) : a < b ∨ a = b ∨ b < a :=
  Std.Trichotomous.rel_or_eq_or_rel_swap

/-- A value that was put under a key is found there, and other keys keep theirs. -/
theorem findEntry?_insertEntry (key value k : Bytes) (entries : List Entry) :
    findEntry? k (insertEntry key value entries) =
      if key = k then some value else findEntry? k entries := by
  induction entries with
  | nil => rfl
  | cons e rest ih =>
    simp only [insertEntry]
    by_cases hlt : key < e.1
    · rw [if_pos hlt]
      rfl
    · rw [if_neg hlt]
      by_cases heq : key = e.1
      · rw [if_pos heq]
        simp only [ findEntry?, ← heq]
        split_ifs <;> rfl
      · rw [if_neg heq]
        simp only [ findEntry?, ih]
        by_cases hk : e.1 = k
        · have hne : key ≠ k := fun h => heq (h.trans hk.symm)
          rw [if_pos hk, if_neg hne, if_pos hk]
        · rw [if_neg hk, if_neg hk]

/-- A key below all others is not there. -/
theorem findEntry?_of_lt {k : Bytes} {entries : List Entry} (h : ∀ e ∈ entries, k < e.1) :
    findEntry? k entries = none := by
  induction entries with
  | nil => rfl
  | cons e rest ih =>
    have hne : e.1 ≠ k := fun heq => List.lt_irrefl k (heq ▸ h e List.mem_cons_self)
    rw [ findEntry?, if_neg hne]
    exact ih fun f hf => h f (List.mem_cons_of_mem e hf)

/-- Among entries in ascending order, the value of a key is that of its only entry. -/
theorem Ascending.find_eq_some_iff {entries : List Entry} (h : Ascending entries)
    {k v : Bytes} : findEntry? k entries = some v ↔ (k, v) ∈ entries := by
  induction entries with
  | nil => simp [ findEntry?]
  | cons e rest ih =>
    obtain ⟨hhead, hrest⟩ := List.pairwise_cons.mp h
    rw [ findEntry?]
    by_cases hk : e.1 = k
    · have hnot : (k, v) ∉ rest := fun hmem => List.lt_irrefl k (hk ▸ hhead (k, v) hmem)
      rw [if_pos hk, List.mem_cons]
      constructor
      · intro hv
        exact Or.inl (Prod.ext hk.symm (Option.some.inj hv).symm)
      · rintro (heq | hmem)
        · rw [← heq]
        · exact absurd hmem hnot
    · rw [if_neg hk, ih hrest, List.mem_cons]
      constructor
      · exact Or.inr
      · rintro (heq | hmem)
        · exact absurd (congrArg Prod.fst heq).symm hk
        · exact hmem

/-- Entries in ascending order are determined by the value of every key. -/
theorem Ascending.ext {entries others : List Entry} (h : Ascending entries)
    (h' : Ascending others) (hfind : ∀ k, findEntry? k entries = findEntry? k others) :
    entries = others := by
  induction entries generalizing others with
  | nil =>
    cases others with
    | nil => rfl
    | cons f fs =>
      have hf := hfind f.1
      rw [ findEntry?, findEntry?, if_pos rfl] at hf
      cases hf
  | cons e es ih =>
    obtain ⟨he, hes⟩ := List.pairwise_cons.mp h
    cases others with
    | nil =>
      have hf := hfind e.1
      rw [ findEntry?, findEntry?, if_pos rfl] at hf
      cases hf
    | cons f fs =>
      obtain ⟨hf, hfs⟩ := List.pairwise_cons.mp h'
      have hkey : e.1 = f.1 := by
        rcases key_trichotomy e.1 f.1 with hlt | heq | hgt
        · -- the lesser first key would be missing from the other side
          have hnone : findEntry? e.1 (f :: fs) = none := findEntry?_of_lt fun g hg => by
            rcases List.mem_cons.mp hg with rfl | hg
            · exact hlt
            · exact List.lt_trans hlt (hf g hg)
          rw [← hfind e.1, findEntry?, if_pos rfl] at hnone
          cases hnone
        · exact heq
        · have hnone : findEntry? f.1 (e :: es) = none := findEntry?_of_lt fun g hg => by
            rcases List.mem_cons.mp hg with rfl | hg
            · exact hgt
            · exact List.lt_trans hgt (he g hg)
          rw [hfind f.1, findEntry?, if_pos rfl] at hnone
          cases hnone
      have hvalue : e.2 = f.2 := by
        have hv := hfind e.1
        rw [ findEntry?, findEntry?, if_pos rfl, if_pos hkey.symm] at hv
        exact Option.some.inj hv
      have htail : es = fs := ih hes hfs fun k => by
        by_cases hk : e.1 = k
        · have hnone : findEntry? k es = none := findEntry?_of_lt (hk ▸ he)
          have hnone' : findEntry? k fs = none := findEntry?_of_lt (hk ▸ hkey ▸ hf)
          rw [hnone, hnone']
        · have hk' : f.1 ≠ k := hkey ▸ hk
          have hv := hfind k
          rwa [ findEntry?, findEntry?, if_neg hk, if_neg hk'] at hv
      rw [htail, Prod.ext hkey hvalue]

/-- The value of a key among the entries that a condition on keys keeps. -/
theorem findEntry?_filter (p : Bytes → Bool) (k : Bytes) (entries : List Entry) :
    findEntry? k (entries.filter fun e => p e.1) =
      if p k then findEntry? k entries else none := by
  induction entries with
  | nil => split_ifs <;> rfl
  | cons e rest ih =>
    by_cases hk : e.1 = k
    · by_cases hp : p k
      · rw [List.filter_cons_of_pos (by rwa [hk]), findEntry?, findEntry?, if_pos hk, if_pos hp,
          if_pos hk]
      · rw [List.filter_cons_of_neg (by rwa [hk]), ih, if_neg hp, if_neg hp]
    · by_cases hp : p e.1 = true
      · simp only [List.filter_cons, if_pos hp, findEntry?, if_neg hk, ih]
      · simp only [List.filter_cons, if_neg hp, findEntry?, if_neg hk, ih]

/-- Putting entries among others lets the last value of a key count. -/
theorem findEntry?_foldl_insertEntry {writes : List Entry} (h : Ascending writes)
    (k : Bytes) (entries : List Entry) :
    findEntry? k (writes.foldl (fun entries e => insertEntry e.1 e.2 entries) entries) =
      ( findEntry? k writes).or ( findEntry? k entries) := by
  induction writes generalizing entries with
  | nil => rfl
  | cons e rest ih =>
    obtain ⟨he, hrest⟩ := List.pairwise_cons.mp h
    rw [List.foldl_cons, ih hrest, findEntry?_insertEntry, findEntry?]
    by_cases hk : e.1 = k
    · have hnone : findEntry? k rest = none := findEntry?_of_lt (hk ▸ he)
      rw [if_pos hk, if_pos hk, hnone]
      rfl
    · rw [if_neg hk, if_neg hk]

/-- Putting entries among others keeps ascending order. -/
theorem Ascending.foldl_insertEntry {entries : List Entry} (h : Ascending entries)
    (writes : List Entry) :
    Ascending (writes.foldl (fun entries e => ConferenceLedger.insertEntry e.1 e.2 entries)
      entries) := by
  induction writes generalizing entries with
  | nil => exact h
  | cons e rest ih => exact ih (h.insertEntry e.1 e.2)

namespace Bytes

/-- No byte string is below a start of itself. -/
theorem not_lt_of_startsWith {start b : Bytes} (h : startsWith start b = true) : ¬b < start := by
  induction start generalizing b with
  | nil => exact List.not_lt_nil b
  | cons x xs ih =>
    cases b with
    | nil => cases h
    | cons y ys =>
      obtain ⟨hxy, hrest⟩ := Bool.and_eq_true_iff.mp h
      rw [List.cons_lt_cons_iff]
      rintro (hlt | ⟨-, hlt⟩)
      · exact absurd hlt (eq_of_beq hxy ▸ UInt8.lt_irrefl x)
      · exact ih hrest hlt

/-- What lies between a start and a byte string with that start has it too. -/
theorem startsWith_of_between {start a b : Bytes} (hlo : ¬a < start) (hhi : a < b)
    (hb : startsWith start b = true) : startsWith start a = true := by
  induction start generalizing a b with
  | nil => rfl
  | cons x xs ih =>
    cases b with
    | nil => cases hb
    | cons z zs =>
      obtain ⟨hxz, hrest⟩ := Bool.and_eq_true_iff.mp hb
      have hz : x = z := eq_of_beq hxz
      subst hz
      cases a with
      | nil => exact absurd (List.nil_lt_cons x xs) hlo
      | cons y ys =>
        rw [List.cons_lt_cons_iff] at hlo hhi
        rcases hhi with hlt | ⟨rfl, hlt⟩
        · exact absurd (Or.inl hlt) hlo
        · have htail : startsWith xs ys = true := ih (fun h => hlo (Or.inr ⟨rfl, h⟩)) hlt hrest
          exact Bool.and_eq_true_iff.mpr ⟨beq_self_eq_true y, htail⟩

end Bytes

/-- Among entries in ascending order from a start on, those with the start come first. -/
theorem takeWhile_startsWith_eq_filter {start : Bytes} {entries : List Entry}
    (h : Ascending entries) (hlo : ∀ e ∈ entries, ¬e.1 < start) :
    (entries.takeWhile fun e => Bytes.startsWith start e.1) =
      entries.filter fun e => Bytes.startsWith start e.1 := by
  induction entries with
  | nil => rfl
  | cons e rest ih =>
    obtain ⟨he, hrest⟩ := List.pairwise_cons.mp h
    by_cases hp : Bytes.startsWith start e.1 = true
    · have htail := ih hrest fun f hf => hlo f (List.mem_cons_of_mem e hf)
      simp only [List.takeWhile_cons, List.filter_cons, hp, if_true, htail]
    · have hnone : ∀ f ∈ rest, ¬Bytes.startsWith start f.1 = true := fun f hf hfp =>
        hp (Bytes.startsWith_of_between (hlo e List.mem_cons_self) (he f hf) hfp)
      have hnil := List.filter_eq_nil_iff.mpr hnone
      simp only [List.takeWhile_cons, List.filter_cons, hp, Bool.false_eq_true, if_false, hnil]

namespace Store

/-- Two stores with the same value under every key are the same store. -/
theorem ext_get? {s t : Store} (h : ∀ k, s.get? k = t.get? k) : s = t := by
  obtain ⟨entries, hs⟩ := s
  obtain ⟨others, ht⟩ := t
  have heq : entries = others := hs.ext ht h
  subst heq
  rfl

/-- What a store holds after a write. -/
theorem get?_set (s : Store) (key value k : Bytes) :
    (s.set key value).get? k = if key = k then some value else s.get? k :=
  findEntry?_insertEntry key value k s.entries

/-- A value that was written is found. -/
@[simp] theorem get?_set_self (s : Store) (key value : Bytes) :
    (s.set key value).get? key = some value := by
  rw [get?_set, if_pos rfl]

/-- A write leaves the values of other keys. -/
theorem get?_set_ne (s : Store) {key k : Bytes} (value : Bytes) (h : key ≠ k) :
    (s.set key value).get? k = s.get? k := by
  rw [get?_set, if_neg h]

/-- Putting back the value that stands under a key leaves the store. -/
theorem set_of_get? {s : Store} {key value : Bytes} (h : s.get? key = some value) :
    s.set key value = s := by
  apply ext_get?
  intro k
  rw [get?_set]
  split_ifs with hk
  · rw [← hk, h]
  · rfl

/-- The entries of a store with writes put into it. -/
theorem entries_setAll (s : Store) (writes : List Entry) :
    (s.setAll writes).entries =
      writes.foldl (fun entries e => insertEntry e.1 e.2 entries) s.entries := by
  induction writes generalizing s with
  | nil => rfl
  | cons e rest ih => exact ih (s.set e.1 e.2)

/-- What a store holds after the writes of another were put into it. -/
theorem get?_setAll (s w : Store) (k : Bytes) :
    (s.setAll w.entries).get? k = (w.get? k).or (s.get? k) := by
  rw [get?, entries_setAll, findEntry?_foldl_insertEntry w.ascending]
  rfl

/-- A listing is exactly the entries whose keys have the given start. -/
theorem scan_eq_filter (s : Store) (start : Bytes) :
    s.scan start = s.entries.filter fun e => Bytes.startsWith start e.1 := by
  obtain ⟨entries, h⟩ := s
  rw [scan]
  dsimp only
  induction entries with
  | nil => rfl
  | cons e rest ih =>
    obtain ⟨he, hrest⟩ := List.pairwise_cons.mp h
    by_cases hlt : e.1 < start
    · have hp : ¬Bytes.startsWith start e.1 = true := fun hp => Bytes.not_lt_of_startsWith hp hlt
      simp only [List.dropWhile_cons, List.filter_cons, hlt, hp, decide_true, if_true,
        Bool.false_eq_true, if_false, ih hrest]
    · have hlo : ∀ f ∈ e :: rest, ¬f.1 < start := by
        intro f hf
        rcases List.mem_cons.mp hf with rfl | hf
        · exact hlt
        · exact fun h' => hlt (List.lt_trans (he f hf) h')
      simp only [List.dropWhile_cons, hlt, decide_false]
      exact takeWhile_startsWith_eq_filter h hlo

/-- The entries of a store are in a listing if their keys have the given start. -/
theorem mem_scan_iff {s : Store} {start k v : Bytes} :
    (k, v) ∈ s.scan start ↔ s.get? k = some v ∧ Bytes.startsWith start k = true := by
  rw [scan_eq_filter, List.mem_filter, get?, s.ascending.find_eq_some_iff]

/-- A listing is in ascending order of keys. -/
theorem ascending_scan (s : Store) (start : Bytes) : Ascending (s.scan start) := by
  rw [scan_eq_filter]
  exact s.ascending.filter _

end Store

end ConferenceLedger

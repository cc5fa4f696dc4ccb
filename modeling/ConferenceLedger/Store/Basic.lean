import ConferenceLedger.Digest.Sha2

/-!
# The ordered store

The store maps keys to values and keeps its entries in ascending byte order of keys. Its
fingerprint is a digest of the number of entries and of every key and value in that order,
each preceded by its length, so that it depends on the contents alone.
-/

namespace ConferenceLedger

/-- A key and its value. -/
abbrev Entry := Bytes × Bytes

/-- Entries in strictly ascending order of keys. -/
def Ascending (entries : List Entry) : Prop := entries.Pairwise fun a b => a.1 < b.1

/-- Put a value under a key, among entries in ascending order. -/
def insertEntry (key value : Bytes) : List Entry → List Entry
  | [] => [(key, value)]
  | e :: rest =>
    if key < e.1 then (key, value) :: e :: rest
    else if key = e.1 then (key, value) :: rest
    else e :: insertEntry key value rest

/-- An inserted list holds the new entry and old ones only. -/
theorem mem_insertEntry {key value : Bytes} {entries : List Entry} {e : Entry}
    (h : e ∈ insertEntry key value entries) : e = (key, value) ∨ e ∈ entries := by
  induction entries with
  | nil => simpa [insertEntry] using h
  | cons d rest ih =>
    simp only [insertEntry] at h
    split at h
    · simpa using h
    · split at h
      · rcases List.mem_cons.mp h with h | h
        · exact Or.inl h
        · exact Or.inr (List.mem_cons_of_mem _ h)
      · rcases List.mem_cons.mp h with h | h
        · exact Or.inr (h ▸ List.mem_cons_self)
        · exact (ih h).imp id (List.mem_cons_of_mem _)

/-- Insertion keeps entries in ascending order. -/
theorem Ascending.insertEntry {entries : List Entry} (h : Ascending entries)
    (key value : Bytes) : Ascending (insertEntry key value entries) := by
  induction entries with
  | nil => simp [ConferenceLedger.insertEntry, Ascending]
  | cons d rest ih =>
    obtain ⟨hd, hr⟩ := List.pairwise_cons.mp h
    simp only [ConferenceLedger.insertEntry]
    split
    · next hlt =>
      refine List.pairwise_cons.mpr ⟨fun e he => ?_, h⟩
      rcases List.mem_cons.mp he with he | he
      · exact he ▸ hlt
      · exact List.lt_trans hlt (hd e he)
    · next hnlt =>
      split
      · next heq => exact List.pairwise_cons.mpr ⟨fun e he => heq ▸ hd e he, hr⟩
      · next hne =>
        refine List.pairwise_cons.mpr ⟨fun e he => ?_, ih hr⟩
        rcases mem_insertEntry he with he | he
        · subst he
          rcases (Std.Trichotomous.rel_or_eq_or_rel_swap : d.1 < key ∨ d.1 = key ∨ key < d.1) with
            h | h | h
          · exact h
          · exact absurd h.symm hne
          · exact absurd h hnlt
        · exact hd e he

/-- The value of a key among entries. -/
def findEntry? (key : Bytes) : List Entry → Option Bytes
  | [] => none
  | e :: rest => if e.1 = key then some e.2 else findEntry? key rest

/-- A map from keys to values. -/
structure Store where
  /-- Its entries. -/
  entries : List Entry
  /-- The entries are in ascending order of keys. -/
  ascending : Ascending entries

namespace Store

/-- The store without entries. -/
def empty : Store := ⟨[], List.Pairwise.nil⟩

/-- The value of a key. -/
def get? (s : Store) (key : Bytes) : Option Bytes := findEntry? key s.entries

/-- Whether a key has a value. -/
def contains (s : Store) (key : Bytes) : Bool := (s.get? key).isSome

/-- The store with a value put under a key. -/
def set (s : Store) (key value : Bytes) : Store :=
  ⟨insertEntry key value s.entries, s.ascending.insertEntry key value⟩

/-- The store with every entry of a list put into it, in order. -/
def setAll (s : Store) (entries : List Entry) : Store :=
  entries.foldl (fun s e => s.set e.1 e.2) s

/-- The entries whose keys begin with `start`: those from `start` on, as long as they do. -/
def scan (s : Store) (start : Bytes) : List Entry :=
  (s.entries.dropWhile fun e => e.1 < start).takeWhile fun e => Bytes.startsWith start e.1

/-- How many entries there are. -/
def size (s : Store) : Nat := s.entries.length

/-- A number as the fingerprint takes it: eight bytes, least significant first. -/
def stampNumber (n : Nat) : Bytes := Bytes.ofNatLE 8 n

/-- A byte string as the fingerprint takes it: its length, then its bytes. -/
def stampBytes (b : Bytes) : Bytes := stampNumber b.length ++ b

/-- What tells a fingerprint of the store from digests of other things. -/
def fingerprintTag : Bytes := Bytes.ofText "LINKEDUP_STATE_V1"

/-- The bytes that the fingerprint is the digest of. -/
def stamp (s : Store) : Bytes :=
  fingerprintTag ++ stampNumber s.size ++
    s.entries.flatMap fun e => stampBytes e.1 ++ stampBytes e.2

/-- The fingerprint of the contents. -/
def fingerprint (s : Store) : Octets 32 := sha256 s.stamp

end Store

end ConferenceLedger

import ConferenceLedger.Json.Form
import ConferenceLedger.Proofs.Json.Values

/-!
# Reading back JSON forms

A type has a lawful JSON form if every value is read back from it and the form can be written as
text. The forms of records follow from those of their fields: an object that gives each field of the
record once, in order, gives just these values. A choice whose tag comes first is told by its name,
and what is left are the other fields.
-/

namespace ConferenceLedger

/-- A type whose values are read back from their JSON forms, also when these are written as text. -/
class LawfulJson (α : Type) [JsonForm α] where
  /-- How many arrays and objects stand around the innermost value of a form, at most. -/
  height : Nat
  /-- The form of a value can be written as text. -/
  plain (a : α) : (toJson a).Plain height
  /-- A value is read back from its form. -/
  ofJson?_toJson (a : α) : ofJson? (toJson a) = some a

/-- A type of which no value is written as `null`. -/
class NeverNull (α : Type) [JsonForm α] : Prop where
  /-- No value is written as `null`. -/
  ne_null (a : α) : toJson a ≠ .null

namespace Json

/-- A value is plain where a record may nest at least as deep. -/
theorem plain_toJson {α : Type} [JsonForm α] [LawfulJson α] {d : Nat} (a : α)
    (h : LawfulJson.height α ≤ d) : (toJson a).Plain d :=
  (LawfulJson.plain a).mono h

/-- A value is read back from the text of its form. -/
theorem ofJsonText?_render {α : Type} [JsonForm α] [LawfulJson α] (a : α) :
    ofJsonText? (toJson a).render = some a := by
  rw [ofJsonText?, (LawfulJson.plain a).ofText?_render]
  exact LawfulJson.ofJson?_toJson a

/-! ### Records -/

/-- A field in front is given once if no field behind it has its name. -/
theorem valuesOf_cons {name : String} {j : Json} {fields : List (String × Json)}
    (h : name ∉ fields.map (·.1)) : valuesOf name ((name, j) :: fields) = [j] := by
  have hnone : fields.filter (fun f => decide (f.1 = name)) = [] := by
    refine List.filter_eq_nil_iff.mpr fun f hf hname => h ?_
    rw [← of_decide_eq_true hname]
    exact List.mem_map_of_mem hf
  simp only [valuesOf, List.filter_cons, hnone, decide_true, if_true, List.map_cons, List.map_nil]

/-- A field is given once if no two fields have one name. -/
theorem valuesOf_of_mem {fields : List (String × Json)} (hnodup : (fields.map (·.1)).Nodup)
    {f : String × Json} (hf : f ∈ fields) : valuesOf f.1 fields = [f.2] := by
  induction fields with
  | nil => cases hf
  | cons g rest ih =>
    rw [List.map_cons, List.nodup_cons] at hnodup
    obtain ⟨hg, hrest⟩ := hnodup
    rcases List.mem_cons.mp hf with rfl | hf
    · exact valuesOf_cons hg
    · have hne : g.1 ≠ f.1 := by
        intro heq
        rw [heq] at hg
        exact hg (List.mem_map_of_mem hf)
      rw [valuesOf, List.filter_cons_of_neg (by simpa using hne)]
      exact ih hrest hf

/-- An object that gives the fields of a record in order gives their values. -/
theorem slots?_obj {names : List String} {fields : List (String × Json)}
    (hnames : fields.map (·.1) = names) (hnodup : names.Nodup) :
    slots? names (.obj fields) = some (fields.map fun f => .given f.2) := by
  subst hnames
  have hgiven : ∀ f ∈ fields, slotOf? fields f.1 = some (.given f.2) := by
    intro f hf
    rw [slotOf?, valuesOf_of_mem hnodup hf]
  have hall : ∀ those : List (String × Json), (∀ f ∈ those, f ∈ fields) →
      (those.map (·.1)).mapM (slotOf? fields) = some (those.map fun f => .given f.2) := by
    intro those hthose
    induction those with
    | nil => rfl
    | cons f rest ih =>
      rw [List.map_cons, List.mapM_cons, hgiven f (hthose f List.mem_cons_self),
        ih fun g hg => hthose g (List.mem_cons_of_mem f hg)]
      rfl
  exact hall fields fun _ hf => hf

/-- A field that is given is read back. -/
theorem required_given {α : Type} [JsonForm α] [LawfulJson α] (a : α) :
    (Slot.given (toJson a)).required ofJson? = some a :=
  LawfulJson.ofJson?_toJson a

/-- What follows a field that is given goes on with its value. -/
theorem required_bind {α β : Type} [JsonForm α] [LawfulJson α] (a : α) (f : α → Option β) :
    ((Slot.given (toJson a)).required ofJson?).bind f = f a := by
  rw [required_given, Option.bind_some]

/-! ### Choices -/

/-- A choice whose tag comes first is told by its name, and what is left are the other fields. -/
theorem tagged?_obj {tag name : String} {cases : List String} {origin : Origin} {i : Nat}
    {fields : List (String × Json)}
    (hbuffer : origin = .direct → (obj ((tag, .str name) :: fields)).bufferable 0 = true)
    (hcase : caseNamed? cases name = some i) (hother : tag ∉ fields.map (·.1)) :
    tagged? tag cases origin (.obj ((tag, .str name) :: fields)) = some (i, .obj fields) := by
  have hguard : ¬(origin = .direct ∧
      (!(obj ((tag, .str name) :: fields)).bufferable 0) = true) := by
    rintro ⟨horigin, hnot⟩
    rw [hbuffer horigin] at hnot
    cases hnot
  have hne : ∀ f ∈ fields, f.1 ≠ tag := by
    intro f hf htag
    rw [← htag] at hother
    exact hother (List.mem_map_of_mem hf)
  have hfields : ((tag, .str name) :: fields).filter (fun f => decide (f.1 ≠ tag)) = fields := by
    rw [List.filter_cons_of_neg (by simp)]
    exact List.filter_eq_self.mpr fun f hf => decide_eq_true (hne f hf)
  simp only [tagged?, if_neg hguard, valuesOf_cons hother, hfields, caseOfTag?, hcase, Option.map_some]

end Json

namespace LawfulJson

open Json (Plain)

variable {α : Type} [JsonForm α] [LawfulJson α]

instance : LawfulJson Bool where
  height := 0
  plain b := .bool b
  ofJson?_toJson _ := rfl

instance : LawfulJson String where
  height := 0
  plain s := .str s
  ofJson?_toJson _ := rfl

/-- An integer below a bound is read back. -/
theorem natBelow?_nat {n bound : Nat} (h : n < bound) : Json.natBelow? bound (.nat n) = some n :=
  if_pos h

instance : LawfulJson UInt8 where
  height := 0
  plain n := .nat (Nat.lt_trans n.toNat_lt (by decide))
  ofJson?_toJson n := by
    change (Json.natBelow? UInt8.size (.nat n.toNat)).map UInt8.ofNat = some n
    rw [natBelow?_nat n.toNat_lt, Option.map_some, UInt8.ofNat_toNat]

instance : LawfulJson UInt32 where
  height := 0
  plain n := .nat (Nat.lt_trans n.toNat_lt (by decide))
  ofJson?_toJson n := by
    change (Json.natBelow? UInt32.size (.nat n.toNat)).map UInt32.ofNat = some n
    rw [natBelow?_nat n.toNat_lt, Option.map_some, UInt32.ofNat_toNat]

instance : LawfulJson UInt64 where
  height := 0
  plain n := .nat n.toNat_lt
  ofJson?_toJson n := by
    change (Json.natBelow? UInt64.size (.nat n.toNat)).map UInt64.ofNat = some n
    rw [natBelow?_nat n.toNat_lt, Option.map_some, UInt64.ofNat_toNat]

instance : LawfulJson Int64 where
  height := 0
  plain n := by
    have hlow := n.le_toInt
    have hhigh := n.toInt_lt
    change (Json.ofInt n.toInt).Plain 0
    unfold Json.ofInt
    split_ifs with h
    · exact .nat (by simp only [UInt64.size]; omega)
    · exact .negative (by omega) (by simp only [UInt64.size]; omega)
  ofJson?_toJson n := by
    have hhigh := n.toInt_lt
    change Json.int64? (Json.ofInt n.toInt) = some n
    unfold Json.ofInt
    split_ifs with h
    · have hlt : n.toInt.toNat < UInt64.size / 2 := by simp only [UInt64.size]; omega
      rw [Json.int64?, if_pos hlt, ← Int64.ofInt_eq_ofNat, Int.toNat_of_nonneg h, Int64.ofInt_toInt]
    · have hneg : -((-n.toInt).toNat : Int) = n.toInt := by omega
      rw [Json.int64?, hneg, Int64.ofInt_toInt]

instance : LawfulJson (List α) where
  height := height α + 1
  plain as := .arr fun j hj => by
    obtain ⟨a, -, rfl⟩ := List.mem_map.mp hj
    exact plain a
  ofJson?_toJson as := by
    change (as.map toJson).mapM ofJson? = some as
    induction as with
    | nil => rfl
    | cons a as ih =>
      rw [List.map_cons, List.mapM_cons, ofJson?_toJson a, ih]
      rfl

instance [NeverNull α] : LawfulJson (Option α) where
  height := height α
  plain o := by
    cases o with
    | none => exact .null
    | some a => exact plain a
  ofJson?_toJson o := by
    cases o with
    | none => rfl
    | some a =>
      have hread := ofJson?_toJson a
      change Json.orNull ofJson? (toJson a) = some (some a)
      unfold Json.orNull
      split
      next heq => exact absurd heq (NeverNull.ne_null a)
      · rw [hread]
        rfl

instance {n : Nat} : LawfulJson (Octets n) where
  height := 0
  plain _ := .str _
  ofJson?_toJson o := by
    change (Octets.ofHex n (Hex.encode o.bytes)).toOption = some o
    rw [Octets.ofHex_encode]
    rfl

instance : LawfulJson Blob where
  height := 0
  plain _ := .str _
  ofJson?_toJson b := by
    change (Hex.decode (Hex.encode b.bytes)).toOption.map Blob.mk = some b
    rw [Hex.decode_encode]
    rfl

instance : NeverNull String := ⟨fun _ h => by cases h⟩

instance {n : Nat} : NeverNull (Octets n) := ⟨fun _ h => by cases h⟩

end LawfulJson

namespace Json

/-- What follows a field that may be missing goes on with its value, if any. -/
theorem optional_bind {α β : Type} [JsonForm α] [LawfulJson α] [NeverNull α] (o : Option α)
    (f : Option α → Option β) : ((Slot.given (toJson o)).optional ofJson?).bind f = f o := by
  have hgiven : (Slot.given (toJson o)).optional ofJson? = some o := LawfulJson.ofJson?_toJson o
  rw [hgiven, Option.bind_some]

end Json

end ConferenceLedger

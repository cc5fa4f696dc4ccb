import ConferenceLedger.Json.Shape
import ConferenceLedger.Proofs.Json.Tokens

/-!
# Reading back JSON values

A value without fractions is read back from its compact text, arrays and objects to any depth. What
stands behind it is left, as long as no number goes on with it. The reader is given as many steps as
the text has bytes, and each array, object, item and field begins with a byte of its own, so the
steps suffice.
-/

namespace ConferenceLedger.Json

open Bytes (ofChars ofChars_cons ofChars_append)

/-- The values that records are written with: integers are in range, there are no other numbers,
and at most `d` arrays and objects stand around the innermost value. -/
inductive Plain : (d : Nat) → Json → Prop where
  /-- The literal `null`. -/
  | null {d : Nat} : Plain d .null
  /-- A truth value. -/
  | bool {d : Nat} (b : Bool) : Plain d (.bool b)
  /-- An integer below 2^64. -/
  | nat {d n : Nat} (h : n < UInt64.size) : Plain d (.nat n)
  /-- An integer from -1 down to -2^63. -/
  | negative {d n : Nat} (hpos : 0 < n) (h : n ≤ UInt64.size / 2) : Plain d (.negative n)
  /-- A string. -/
  | str {d : Nat} (s : String) : Plain d (.str s)
  /-- An array of plain values. -/
  | arr {d : Nat} {items : List Json} (h : ∀ j ∈ items, Plain d j) : Plain (d + 1) (.arr items)
  /-- An object of plain values. -/
  | obj {d : Nat} {fields : List (String × Json)} (h : ∀ f ∈ fields, Plain d f.2) :
      Plain (d + 1) (.obj fields)

/-- An array is readable if its items are. -/
theorem itemsReadable_of_forall {items : List Json} (h : ∀ j ∈ items, j.readable = true) :
    itemsReadable items = true := by
  induction items with
  | nil => rfl
  | cons j rest ih =>
    rw [itemsReadable, h j List.mem_cons_self, ih fun k hk => h k (List.mem_cons_of_mem j hk)]
    rfl

/-- An object is readable if its fields are. -/
theorem fieldsReadable_of_forall {fields : List (String × Json)}
    (h : ∀ f ∈ fields, f.2.readable = true) : fieldsReadable fields = true := by
  induction fields with
  | nil => rfl
  | cons f rest ih =>
    rw [fieldsReadable, h f List.mem_cons_self, ih fun g hg => h g (List.mem_cons_of_mem f hg)]
    rfl

/-- The items of an array nest as deep as each of them. -/
theorem itemsDepth_le {items : List Json} {d : Nat} (h : ∀ j ∈ items, j.depth ≤ d) :
    itemsDepth items ≤ d := by
  induction items with
  | nil => exact Nat.zero_le d
  | cons j rest ih =>
    have hrest := ih fun k hk => h k (List.mem_cons_of_mem j hk)
    exact Nat.max_le.mpr ⟨h j List.mem_cons_self, hrest⟩

/-- The fields of an object nest as deep as each of them. -/
theorem fieldsDepth_le {fields : List (String × Json)} {d : Nat}
    (h : ∀ f ∈ fields, f.2.depth ≤ d) : fieldsDepth fields ≤ d := by
  induction fields with
  | nil => exact Nat.zero_le d
  | cons f rest ih =>
    have hrest := ih fun g hg => h g (List.mem_cons_of_mem f hg)
    exact Nat.max_le.mpr ⟨h f List.mem_cons_self, hrest⟩

namespace Plain

/-- A plain value is plain where it may nest deeper. -/
theorem mono {d e : Nat} {j : Json} (h : Plain d j) (hle : d ≤ e) : Plain e j := by
  induction h generalizing e with
  | null => exact .null
  | bool b => exact .bool b
  | nat h => exact .nat h
  | negative hpos h => exact .negative hpos h
  | str s => exact .str s
  | arr _ ih =>
    cases e with
    | zero => exact absurd hle (Nat.not_succ_le_zero _)
    | succ e => exact .arr fun j hj => ih j hj (Nat.le_of_succ_le_succ hle)
  | obj _ ih =>
    cases e with
    | zero => exact absurd hle (Nat.not_succ_le_zero _)
    | succ e => exact .obj fun f hf => ih f hf (Nat.le_of_succ_le_succ hle)

/-- Every part of a plain value denotes a value. -/
theorem readable {d : Nat} {j : Json} (h : Plain d j) : j.readable = true := by
  induction h with
  | null | bool | nat | negative | str => rfl
  | arr _ ih => exact itemsReadable_of_forall ih
  | obj _ ih => exact fieldsReadable_of_forall ih

/-- A plain value nests as deep as it says. -/
theorem depth_le {d : Nat} {j : Json} (h : Plain d j) : j.depth ≤ d := by
  induction h with
  | null | bool | nat | negative | str => exact Nat.zero_le _
  | arr _ ih => exact Nat.succ_le_succ (itemsDepth_le ih)
  | obj _ ih => exact Nat.succ_le_succ (fieldsDepth_le ih)

/-- A plain value may be read before its kind is known if it does not nest too deep. -/
theorem bufferable {d outer : Nat} {j : Json} (h : Plain d j) (hd : d + outer ≤ maxDepth) :
    j.bufferable outer = true := by
  have hdepth := h.depth_le
  rw [Json.bufferable, h.readable, Bool.true_and, decide_eq_true_eq]
  omega

end Plain

/-- The text of a value. -/
def bytes (j : Json) : Bytes := ofChars j.chars

/-- The text of a value is read back in as many steps as it has bytes, whatever follows that no
number goes on with. -/
def ReadsBack (j : Json) : Prop :=
  ∀ fuel rest, j.bytes.length ≤ fuel → endsNumber rest = true →
    value? fuel (j.bytes ++ rest) = some (j, rest)

/-- A text that begins with a byte that is no space and closes no array. -/
def begins : Bytes → Bool
  | [] => false
  | b :: _ => !isSpace b && b != 93

/-- There is no space in front of such a text. -/
theorem skip_of_begins {b : Bytes} (h : begins b = true) : skip b = b := by
  cases b with
  | nil => rfl
  | cons c rest =>
    simp only [begins, Bool.and_eq_true, Bool.not_eq_true'] at h
    rw [skip, List.dropWhile_cons_of_neg (by rw [h.1]; exact Bool.false_ne_true)]

/-- What follows does not change how a text begins. -/
theorem begins_append {b : Bytes} (h : begins b = true) (rest : Bytes) : begins (b ++ rest) = true := by
  cases b with
  | nil => cases h
  | cons c b => exact h

/-- A digit is no space, and no other value than a number begins with it. -/
theorem begins_of_isDigit {b : UInt8} (h : isDigit b = true) (rest : Bytes) :
    begins (b :: rest) = true := by
  simp only [isDigit, Bool.and_eq_true, decide_eq_true_eq, UInt8.le_iff_toNat_le] at h
  have hne : ∀ c : UInt8, c.toNat < 48 ∨ 57 < c.toNat → (b == c) = false := by
    intro c hc
    refine beq_false_of_ne ?_
    rintro rfl
    rcases hc with hc | hc
    · exact absurd h.1 (Nat.not_le_of_lt hc)
    · exact absurd h.2 (Nat.not_le_of_lt hc)
  simp only [begins, isSpace, bne, hne 32 (by decide), hne 9 (by decide), hne 10 (by decide),
    hne 13 (by decide), hne 93 (by decide)]
  rfl

/-- The text of a plain value begins with a byte that is no space and closes no array. -/
theorem begins_bytes {d : Nat} {j : Json} (h : Plain d j) : begins j.bytes = true := by
  cases h with
  | null => rfl
  | bool b => cases b <;> rfl
  | @nat _ n h =>
    obtain ⟨c, cs, hc⟩ := List.exists_cons_of_ne_nil (decimalBytes_ne_nil n)
    have hdigit := isDigit_of_mem (n := n) c (by rw [hc]; exact List.mem_cons_self)
    change begins (decimalBytes n) = true
    rw [hc]
    exact begins_of_isDigit hdigit cs
  | negative hpos h => rfl
  | str s => rfl
  | arr h => rfl
  | obj h => rfl

/-- A value that begins with a digit is a number. -/
theorem value?_digit {b : UInt8} (h : isDigit b = true) (fuel : Nat) (rest : Bytes) :
    value? (fuel + 1) (b :: rest) = number? (b :: rest) := by
  have hskip := skip_of_begins (begins_of_isDigit h rest)
  unfold value?
  rw [hskip]
  split
  all_goals rename_i heq; try cases heq
  all_goals first | rfl | cases h

/-- Behind a value, a separator or a closing sign is not taken for a space. -/
theorem skip_cons {b : UInt8} (h : isSpace b = false) (rest : Bytes) : skip (b :: rest) = b :: rest := by
  rw [skip, List.dropWhile_cons_of_neg (by rw [h]; exact Bool.false_ne_true)]

/-- The quote that opens a string, its body and the quote that closes it. -/
theorem ofChars_quoted (s : String) (rest : Bytes) :
    ofChars (quoted s) ++ rest = 34 :: (ofChars (s.toList.flatMap escape) ++ 34 :: rest) := by
  rw [quoted, ofChars_append, ofChars_cons, List.append_assoc]
  rfl

/-- A string is read as one. -/
theorem value?_quoted (fuel : Nat) (s : String) (rest : Bytes) :
    value? (fuel + 1) (ofChars (quoted s) ++ rest) = some (.str s, rest) := by
  rw [ofChars_quoted]
  simp only [value?, skip_cons (by decide : isSpace 34 = false), string?_quoted, Option.map_some,
    Body.value, Body.text?_read]

/-- The items of an array are read back up to its closing bracket. -/
theorem items?_chars {items : List Json} (h : ∀ j ∈ items, ReadsBack j) (hne : items ≠ [])
    (fuel : Nat) (rest : Bytes) (hfuel : (ofChars (itemChars items)).length < fuel) :
    items? fuel (ofChars (itemChars items) ++ 93 :: rest) = some (items, rest) := by
  induction items generalizing fuel with
  | nil => exact absurd rfl hne
  | cons j more ih =>
    obtain ⟨fuel, rfl⟩ := Nat.exists_eq_succ_of_ne_zero (Nat.ne_zero_of_lt hfuel)
    have hj := h j List.mem_cons_self
    cases more with
    | nil =>
      have hread := hj fuel (93 :: rest) (Nat.le_of_lt_succ hfuel) rfl
      simp only [bytes] at hread
      simp only [items?, itemChars, hread, skip_cons (by decide : isSpace 93 = false)]
    | cons k more =>
      simp only [itemChars, ofChars_append, ofChars_cons, List.length_append] at hfuel
      have hcomma : String.utf8EncodeChar ',' = [44] := rfl
      have hread := hj fuel (44 :: (ofChars (itemChars (k :: more)) ++ 93 :: rest))
        (by simp only [bytes]; omega) rfl
      have hmore := ih (fun l hl => h l (List.mem_cons_of_mem j hl)) (List.cons_ne_nil k more) fuel
        (by rw [hcomma] at hfuel; simp only [List.length_cons, List.length_nil] at hfuel; omega)
      simp only [bytes] at hread
      simp only [items?, itemChars, ofChars_append, ofChars_cons, hcomma, List.append_assoc,
        List.cons_append, List.nil_append, hread, skip_cons (by decide : isSpace 44 = false), hmore,
        Option.map_some]

/-- The last field of an object is read back with the closing brace. -/
theorem members?_last (name : String) {j : Json} (hj : ReadsBack j) (fuel : Nat) (rest : Bytes)
    (hfuel : j.bytes.length ≤ fuel) :
    members? (fuel + 1) (ofChars (quoted name) ++ 58 :: (j.bytes ++ 125 :: rest)) =
      some ([(some name, j)], rest) := by
  rw [ofChars_quoted]
  simp only [members?, skip_cons (by decide : isSpace 34 = false), string?_quoted,
    skip_cons (by decide : isSpace 58 = false), hj fuel (125 :: rest) hfuel rfl,
    skip_cons (by decide : isSpace 125 = false), Body.text?_read]

/-- A field of an object is read back with the comma behind it, and then the other fields. -/
theorem members?_comma (name : String) {j : Json} (hj : ReadsBack j) (fuel : Nat) (rest : Bytes)
    (hfuel : j.bytes.length ≤ fuel) :
    members? (fuel + 1) (ofChars (quoted name) ++ 58 :: (j.bytes ++ 44 :: rest)) =
      (members? fuel rest).map fun p => ((some name, j) :: p.1, p.2) := by
  rw [ofChars_quoted]
  simp only [members?, skip_cons (by decide : isSpace 34 = false), string?_quoted,
    skip_cons (by decide : isSpace 58 = false), hj fuel (44 :: rest) hfuel rfl,
    skip_cons (by decide : isSpace 44 = false), Body.text?_read]

/-- The fields of an object are read back up to its closing brace, each with the name that was
read. -/
theorem members?_chars {fields : List (String × Json)} (h : ∀ f ∈ fields, ReadsBack f.2)
    (hne : fields ≠ []) (fuel : Nat) (rest : Bytes)
    (hfuel : (ofChars (fieldChars fields)).length < fuel) :
    members? fuel (ofChars (fieldChars fields) ++ 125 :: rest) =
      some (fields.map fun f => (some f.1, f.2), rest) := by
  have hcolon : String.utf8EncodeChar ':' = [58] := rfl
  have hcomma : String.utf8EncodeChar ',' = [44] := rfl
  induction fields generalizing fuel with
  | nil => exact absurd rfl hne
  | cons f more ih =>
    obtain ⟨fuel, rfl⟩ := Nat.exists_eq_succ_of_ne_zero (Nat.ne_zero_of_lt hfuel)
    obtain ⟨name, j⟩ := f
    have hj : ReadsBack j := h (name, j) List.mem_cons_self
    cases more with
    | nil =>
      simp only [fieldChars, ofChars_append, ofChars_cons, hcolon, List.length_append] at hfuel
      have hread := members?_last name hj fuel rest (by simp only [bytes]; omega)
      simp only [fieldChars, ofChars_append, ofChars_cons, hcolon, List.append_assoc,
        List.cons_append, List.nil_append]
      exact hread
    | cons g more =>
      simp only [fieldChars, ofChars_append, ofChars_cons, hcolon, hcomma,
        List.length_append, List.length_cons, List.length_nil] at hfuel
      have hmore := ih (fun f hf => h f (List.mem_cons_of_mem _ hf)) (List.cons_ne_nil g more) fuel
        (by omega)
      have hread := members?_comma name hj fuel
        (ofChars (fieldChars (g :: more)) ++ 125 :: rest) (by simp only [bytes]; omega)
      rw [hmore] at hread
      simp only [fieldChars, ofChars_append, ofChars_cons, hcolon, hcomma, List.append_assoc,
        List.cons_append, List.nil_append]
      exact hread

/-- Fields whose names denote strings are gathered as they are. -/
theorem gather_map (fields : List (String × Json)) :
    gather (fields.map fun f => (some f.1, f.2)) = some fields := by
  induction fields with
  | nil => rfl
  | cons f rest ih =>
    rw [List.map_cons, gather, ih]
    rfl

/-- The text of the items of an array begins like the first of them. -/
theorem begins_itemChars {d : Nat} {j : Json} (h : Plain d j) (more : List Json) :
    begins (ofChars (itemChars (j :: more))) = true := by
  have hj := begins_bytes h
  cases more with
  | nil => exact hj
  | cons k more =>
    simp only [itemChars, ofChars_append]
    exact begins_append hj _

/-- An array is read back if its items are. -/
theorem readsBack_arr {d : Nat} {items : List Json} (hplain : ∀ j ∈ items, Plain d j)
    (h : ∀ j ∈ items, ReadsBack j) : ReadsBack (.arr items) := by
  intro fuel rest hfuel _
  have hbytes : bytes (.arr items) = 91 :: (ofChars (itemChars items) ++ [93]) := by
    rw [bytes, chars, ofChars_append, ofChars_cons]
    rfl
  rw [hbytes, List.length_cons, List.length_append, List.length_singleton] at hfuel
  obtain ⟨fuel, rfl⟩ := Nat.exists_eq_succ_of_ne_zero (Nat.ne_zero_of_lt hfuel)
  rw [hbytes, List.cons_append, List.append_assoc, List.singleton_append]
  cases items with
  | nil => rfl
  | cons j more =>
    have hread := items?_chars h (List.cons_ne_nil j more) fuel rest (by omega)
    have hbegins := begins_append (begins_itemChars (hplain j List.mem_cons_self) more) (93 :: rest)
    simp only [value?, skip_cons (by decide : isSpace 91 = false), skip_of_begins hbegins]
    split
    next heq =>
      rw [heq] at hbegins
      cases hbegins
    · rw [hread]
      rfl

/-- An object is read back if the values of its fields are. -/
theorem readsBack_obj {fields : List (String × Json)} (h : ∀ f ∈ fields, ReadsBack f.2) :
    ReadsBack (.obj fields) := by
  intro fuel rest hfuel _
  have hbytes : bytes (.obj fields) = 123 :: (ofChars (fieldChars fields) ++ [125]) := by
    rw [bytes, chars, ofChars_append, ofChars_cons]
    rfl
  rw [hbytes, List.length_cons, List.length_append, List.length_singleton] at hfuel
  obtain ⟨fuel, rfl⟩ := Nat.exists_eq_succ_of_ne_zero (Nat.ne_zero_of_lt hfuel)
  rw [hbytes, List.cons_append, List.append_assoc, List.singleton_append]
  cases fields with
  | nil => rfl
  | cons f more =>
    have hread := members?_chars h (List.cons_ne_nil f more) fuel rest (by omega)
    have hquote : ∃ tail, ofChars (fieldChars (f :: more)) = 34 :: tail := by
      cases more <;> exact ⟨_, rfl⟩
    obtain ⟨tail, htail⟩ := hquote
    rw [htail, List.cons_append] at hread ⊢
    simp only [value?, skip_cons (by decide : isSpace 123 = false),
      skip_cons (by decide : isSpace 34 = false)]
    change (members? fuel (34 :: (tail ++ 125 :: rest))).map _ = _
    rw [hread]
    simp only [Option.map_some, gather_map]

/-- A plain value is read back from its text. The induction is on the value: the items of an array
and the fields of an object are read back one after the other. -/
theorem Plain.readsBack {d : Nat} {j : Json} (h : Plain d j) : ReadsBack j := by
  induction h with
  | null =>
    intro fuel rest hfuel _
    obtain ⟨fuel, rfl⟩ := Nat.exists_eq_succ_of_ne_zero (Nat.ne_zero_of_lt hfuel)
    rfl
  | bool b =>
    intro fuel rest hfuel _
    cases b <;> obtain ⟨fuel, rfl⟩ := Nat.exists_eq_succ_of_ne_zero (Nat.ne_zero_of_lt hfuel) <;> rfl
  | @nat _ n h =>
    intro fuel rest hfuel hrest
    obtain ⟨c, cs, hc⟩ := List.exists_cons_of_ne_nil (decimalBytes_ne_nil n)
    have hdigit := isDigit_of_mem (n := n) c (by rw [hc]; exact List.mem_cons_self)
    have hread := number?_decimalBytes h hrest
    change (decimalBytes n).length ≤ fuel at hfuel
    change value? fuel (decimalBytes n ++ rest) = _
    rw [hc] at hfuel hread ⊢
    obtain ⟨fuel, rfl⟩ := Nat.exists_eq_succ_of_ne_zero (Nat.ne_zero_of_lt hfuel)
    exact (value?_digit hdigit fuel _).trans hread
  | @negative _ n hpos h =>
    intro fuel rest hfuel hrest
    change (45 :: decimalBytes n).length ≤ fuel at hfuel
    obtain ⟨fuel, rfl⟩ := Nat.exists_eq_succ_of_ne_zero (Nat.ne_zero_of_lt hfuel)
    exact number?_minus hpos h hrest
  | str s =>
    intro fuel rest hfuel _
    obtain ⟨fuel, rfl⟩ := Nat.exists_eq_succ_of_ne_zero (Nat.ne_zero_of_lt hfuel)
    exact value?_quoted fuel s rest
  | arr h ih => exact readsBack_arr h ih
  | obj _ ih => exact readsBack_obj ih

/-- A plain value is read back from its text as a whole. -/
theorem Plain.ofText?_render {d : Nat} {j : Json} (h : Plain d j) : ofText? j.render = some j := by
  have hbytes : Bytes.ofText j.render = j.bytes := by
    rw [Bytes.ofText_eq, render, String.toList_ofList]
    rfl
  have hread := h.readsBack (j.bytes.length + 1) [] (Nat.le_succ _) rfl
  rw [List.append_nil] at hread
  rw [ofText?, ofBytes?, hbytes, hread]
  rfl

end ConferenceLedger.Json

import ConferenceLedger.Json.Reader
import ConferenceLedger.Proofs.Text.Hex

/-!
# Reading back strings and numbers of JSON text

The body of a string is read one character at a time: what writes a character is read as the
bytes of that character again, whether it stands for itself or is escaped. The digits of an integer
are read up to the first byte that no number has, so the integer is read back if such a byte
follows or nothing.
-/

namespace ConferenceLedger

/-- The UTF-8 bytes of characters. -/
def Bytes.ofChars (cs : List Char) : Bytes := cs.flatMap String.utf8EncodeChar

namespace Bytes

/-- The bytes of a character in front. -/
@[simp] theorem ofChars_cons (c : Char) (cs : List Char) :
    ofChars (c :: cs) = String.utf8EncodeChar c ++ ofChars cs := List.flatMap_cons

/-- The bytes of characters one after the other. -/
@[simp] theorem ofChars_append (cs ds : List Char) :
    ofChars (cs ++ ds) = ofChars cs ++ ofChars ds := List.flatMap_append

end Bytes

namespace Json

open Bytes (ofChars ofChars_cons ofChars_append)

/-! ### Strings -/

/-- What the body of a string has denoted when it wrote these characters. -/
def Body.read (cs : List Char) : Body := ⟨(ofChars cs).reverse, none, true⟩

/-- A body that wrote the characters of a text denotes that text. -/
theorem Body.text?_read (s : String) : (Body.read s.toList).text? = some s := by
  have hbytes : ofChars s.toList = Bytes.ofText s := (Bytes.ofText_eq s).symm
  simp only [Body.text?, Body.read, Option.isNone_none, Bool.and_self, if_true,
    List.reverse_reverse, hbytes, Utf8.decode_ofText]
  rfl

/-- A byte that is none of those that a string escapes. -/
def isPlain (b : UInt8) : Bool := b != 34 && b != 92 && 32 ≤ b

/-- A character that needs no escape has plain bytes only. -/
theorem isPlain_of_mem {c : Char} (hquote : c ≠ '"') (hslash : c ≠ '\\') (hlow : 32 ≤ c.toNat) :
    ∀ b ∈ String.utf8EncodeChar c, isPlain b = true := by
  have hq : c.toNat ≠ 34 := fun h => hquote (Char.toNat_inj.mp h)
  have hs : c.toNat ≠ 92 := fun h => hslash (Char.toNat_inj.mp h)
  have hplain : ∀ n, n % 256 ≠ 34 → n % 256 ≠ 92 → 32 ≤ n % 256 →
      isPlain (UInt8.ofNat n) = true := by
    intro n h34 h92 h32
    simp only [isPlain, bne_iff_ne, Bool.and_eq_true, decide_eq_true_eq, UInt8.le_iff_toNat_le, ne_eq,
      ← UInt8.toNat_inj, UInt8.toNat_ofNat']
    exact ⟨⟨h34, h92⟩, h32⟩
  change c.val.toNat ≠ 34 at hq
  change c.val.toNat ≠ 92 at hs
  change 32 ≤ c.val.toNat at hlow
  unfold String.utf8EncodeChar
  generalize c.val.toNat = v at hq hs hlow ⊢
  intro b hb
  dsimp only at hb
  split_ifs at hb with h1 h2 h3 <;> simp only [List.mem_cons, List.not_mem_nil, or_false] at hb
  · subst hb
    exact hplain v (by omega) (by omega) (by omega)
  · rcases hb with rfl | rfl <;> exact hplain _ (by omega) (by omega) (by omega)
  · rcases hb with rfl | rfl | rfl <;> exact hplain _ (by omega) (by omega) (by omega)
  · rcases hb with rfl | rfl | rfl | rfl <;> exact hplain _ (by omega) (by omega) (by omega)

/-- Plain bytes are read as they stand. -/
theorem string?_plain {bs : Bytes} (h : ∀ b ∈ bs, isPlain b = true) (fuel : Nat)
    (rest reversed : Bytes) :
    string? (bs.length + fuel) (bs ++ rest) ⟨reversed, none, true⟩ =
      string? fuel rest ⟨bs.reverse ++ reversed, none, true⟩ := by
  induction bs generalizing reversed with
  | nil => rw [List.length_nil, Nat.zero_add]; rfl
  | cons b bs ih =>
    have hb := h b List.mem_cons_self
    simp only [isPlain, Bool.and_eq_true, bne_iff_ne, decide_eq_true_eq] at hb
    have hlow : ¬b < 32 := UInt8.not_lt.mpr hb.2
    have hrest := ih (fun c hc => h c (List.mem_cons_of_mem b hc)) (b :: reversed)
    rw [List.length_cons, Nat.add_right_comm, List.cons_append]
    simp only [string?, if_neg hb.1.1, if_neg hb.1.2, if_neg hlow]
    change string? (bs.length + fuel) (bs ++ rest) ⟨b :: reversed, none, true⟩ = _
    rw [hrest, List.reverse_cons, List.append_assoc]
    rfl

/-- An escaped control character is read as its number. -/
theorem unit?_control {n : Nat} (h : n < 32) (rest : Bytes) :
    unit? (48 :: 48 :: Hex.digitByte (n / 16) :: Hex.digitByte (n % 16) :: rest) =
      some (n, rest) := by
  have hhi : hexValue? (Hex.digitByte (n / 16)) = some (n / 16) :=
    (Hex.digitByte_spec (by omega)).2.1
  have hlo : hexValue? (Hex.digitByte (n % 16)) = some (n % 16) :=
    (Hex.digitByte_spec (by omega)).2.1
  have hzero : hexValue? 48 = some 0 := rfl
  have hn : 0 * 4096 + 0 * 256 + n / 16 * 16 + n % 16 = n := by omega
  simp only [unit?, hhi, hlo, hzero, Option.bind_eq_bind, Option.bind_some, Option.pure_def, hn]

/-- A one-letter escape is read as the byte it stands for. -/
theorem string?_letter {e b : UInt8} (he : plainEscape? e = some b) (fuel : Nat)
    (rest reversed : Bytes) :
    string? (fuel + 1) (92 :: e :: rest) ⟨reversed, none, true⟩ =
      string? fuel rest ⟨b :: reversed, none, true⟩ := by
  have hu : e ≠ 117 := by
    rintro rfl
    cases he
  simp only [string?, (by decide : ¬(92 : UInt8) = 34), if_false, if_true, if_neg hu, he,
    Option.bind_eq_bind, Option.bind_some]
  rfl

/-- An escaped control character is read as the byte of that character. -/
theorem string?_control {n : Nat} (h : n < 32) (fuel : Nat) (rest reversed : Bytes) :
    string? (fuel + 1)
        (92 :: 117 :: 48 :: 48 :: Hex.digitByte (n / 16) :: Hex.digitByte (n % 16) :: rest)
        ⟨reversed, none, true⟩ =
      string? fuel rest
        ⟨(String.utf8EncodeChar (Char.ofNat n)).reverse ++ reversed, none, true⟩ := by
  have hhigh : ¬(0xD800 ≤ n ∧ n < 0xDC00) := by omega
  have hlow : ¬(0xDC00 ≤ n ∧ n < 0xE000) := by omega
  simp only [string?, (by decide : ¬(92 : UInt8) = 34), if_false, if_true, unit?_control h,
    Option.bind_eq_bind, Option.bind_some, Body.pushUnit, if_neg hhigh, if_neg hlow]
  rfl

/-- Reading on behind a character. -/
theorem Body.read_append (done : List Char) (c : Char) :
    Body.read (done ++ [c]) =
      ⟨(String.utf8EncodeChar c).reverse ++ (ofChars done).reverse, none, true⟩ := by
  simp only [Body.read, ofChars_append, ofChars_cons, List.reverse_append]
  rfl

/-- A character that is escaped by one letter is read in one step. -/
theorem string?_escape_letter {c : Char} {e b : UInt8} (hescape : ofChars (escape c) = [92, e])
    (he : plainEscape? e = some b) (hc : String.utf8EncodeChar c = [b]) (done : List Char)
    {fuel : Nat} (rest : Bytes) (h : (ofChars (escape c)).length ≤ fuel) :
    ∃ left, fuel ≤ left + (ofChars (escape c)).length ∧
      string? fuel (ofChars (escape c) ++ rest) (.read done) =
        string? left rest (.read (done ++ [c])) := by
  rw [hescape] at h ⊢
  cases fuel with
  | zero => exact absurd h (Nat.not_succ_le_zero _)
  | succ left =>
    refine ⟨left, by simp only [List.length_cons, List.length_nil]; omega, ?_⟩
    rw [Body.read_append, hc]
    exact string?_letter he left rest _

/-- What writes a character is read as that character. The cases are the escapes of one letter, the
other control characters and the characters that stand for themselves. -/
theorem string?_escape (c : Char) (done : List Char) (fuel : Nat) (rest : Bytes)
    (h : (ofChars (escape c)).length ≤ fuel) :
    ∃ left, fuel ≤ left + (ofChars (escape c)).length ∧
      string? fuel (ofChars (escape c) ++ rest) (.read done) =
        string? left rest (.read (done ++ [c])) := by
  by_cases hquote : c = '"'
  · subst hquote
    exact string?_escape_letter (e := 34) (b := 34) rfl rfl rfl done rest h
  by_cases hslash : c = '\\'
  · subst hslash
    exact string?_escape_letter (e := 92) (b := 92) rfl rfl rfl done rest h
  by_cases hback : c = '\x08'
  · subst hback
    exact string?_escape_letter (e := 98) (b := 8) rfl rfl rfl done rest h
  by_cases hfeed : c = '\x0c'
  · subst hfeed
    exact string?_escape_letter (e := 102) (b := 12) rfl rfl rfl done rest h
  by_cases hline : c = '\n'
  · subst hline
    exact string?_escape_letter (e := 110) (b := 10) rfl rfl rfl done rest h
  by_cases hreturn : c = '\r'
  · subst hreturn
    exact string?_escape_letter (e := 114) (b := 13) rfl rfl rfl done rest h
  by_cases htab : c = '\t'
  · subst htab
    exact string?_escape_letter (e := 116) (b := 9) rfl rfl rfl done rest h
  by_cases hlow : c.toNat < 32
  · have hescape : ofChars (escape c) =
        [92, 117, 48, 48, Hex.digitByte (c.toNat / 16), Hex.digitByte (c.toNat % 16)] := by
      have hchars : escape c =
          ['\\', 'u', '0', '0', Hex.digit (c.toNat / 16), Hex.digit (c.toNat % 16)] := by
        simp only [escape, if_neg hquote, if_neg hslash, if_neg hback, if_neg hfeed, if_neg hline,
          if_neg hreturn, if_neg htab, if_pos hlow]
        rfl
      rw [hchars]
      simp only [ofChars_cons, (Hex.digitByte_spec (n := c.toNat / 16) (by omega)).1,
        (Hex.digitByte_spec (n := c.toNat % 16) (by omega)).1]
      rfl
    rw [hescape] at h ⊢
    cases fuel with
    | zero => exact absurd h (Nat.not_succ_le_zero _)
    | succ left =>
      refine ⟨left, by simp only [List.length_cons, List.length_nil]; omega, ?_⟩
      have hcontrol := string?_control hlow left rest (ofChars done).reverse
      rw [Char.ofNat_toNat] at hcontrol
      rw [Body.read_append]
      exact hcontrol
  · have hescape : ofChars (escape c) = String.utf8EncodeChar c := by
      simp only [escape, if_neg hquote, if_neg hslash, if_neg hback, if_neg hfeed, if_neg hline,
        if_neg hreturn, if_neg htab, if_neg hlow, ofChars_cons]
      exact List.append_nil _
    rw [hescape] at h ⊢
    have hplain := isPlain_of_mem hquote hslash (Nat.le_of_not_lt hlow)
    obtain ⟨left, rfl⟩ := Nat.exists_eq_add_of_le h
    refine ⟨left, by omega, ?_⟩
    rw [Body.read_append]
    exact string?_plain hplain left rest _

/-- The body of a string is read as its characters, up to the closing quote. -/
theorem string?_chars (cs done : List Char) {fuel : Nat} (rest : Bytes)
    (h : (ofChars (cs.flatMap escape)).length < fuel) :
    string? fuel (ofChars (cs.flatMap escape) ++ 34 :: rest) (.read done) =
      some (.read (done ++ cs), rest) := by
  induction cs generalizing done fuel with
  | nil =>
    cases fuel with
    | zero => exact absurd h (Nat.not_lt_zero _)
    | succ fuel =>
      rw [List.append_nil]
      rfl
  | cons c cs ih =>
    rw [List.flatMap_cons, ofChars_append, List.length_append] at h
    rw [List.flatMap_cons, ofChars_append, List.append_assoc]
    obtain ⟨left, hleft, hstep⟩ := string?_escape c done fuel
      (ofChars (cs.flatMap escape) ++ 34 :: rest) (by omega)
    have hfuel : (ofChars (cs.flatMap escape)).length < left := by omega
    rw [hstep, ih (done ++ [c]) hfuel, List.append_assoc]
    rfl

/-- What follows the opening quote of a string is read as the string. -/
theorem string?_quoted (s : String) (rest : Bytes) :
    string? ((ofChars (s.toList.flatMap escape) ++ 34 :: rest).length + 1)
      (ofChars (s.toList.flatMap escape) ++ 34 :: rest) .empty = some (.read s.toList, rest) := by
  refine string?_chars s.toList [] rest ?_
  rw [List.length_append]
  omega

/-! ### Integers -/

/-- The bytes of an integer. -/
def decimalBytes (n : Nat) : Bytes := ofChars (Nat.toDigits 10 n)

/-- The byte of a decimal digit. -/
def decimalByte (d : Nat) : UInt8 := UInt8.ofNat (48 + d)

/-- A decimal digit is one byte. -/
theorem decimalByte_spec {d : Nat} (h : d < 10) :
    String.utf8EncodeChar d.digitChar = [decimalByte d] ∧ isDigit (decimalByte d) = true ∧
      (decimalByte d).toNat - 48 = d ∧ (0 < d → decimalByte d ≠ 48) := by
  revert d
  decide

/-- An integer below ten is one digit. -/
theorem decimalBytes_of_lt {n : Nat} (h : n < 10) : decimalBytes n = [decimalByte n] := by
  rw [decimalBytes, Nat.toDigits_of_lt_base h, ofChars_cons, (decimalByte_spec h).1]
  rfl

/-- The last digit of a longer integer stands behind the others. -/
theorem decimalBytes_of_le {n : Nat} (h : 10 ≤ n) :
    decimalBytes n = decimalBytes (n / 10) ++ [decimalByte (n % 10)] := by
  have hlast := (decimalByte_spec (Nat.mod_lt n (by decide))).1
  rw [decimalBytes, Nat.toDigits_of_base_le (by decide) h, ofChars_append, ofChars_cons, hlast]
  rfl

/-- An integer has a digit. -/
theorem decimalBytes_ne_nil (n : Nat) : decimalBytes n ≠ [] := by
  rcases Nat.lt_or_ge n 10 with hlt | hge
  · rw [decimalBytes_of_lt hlt]
    exact List.cons_ne_nil _ _
  · rw [decimalBytes_of_le hge]
    exact List.append_ne_nil_of_right_ne_nil _ (List.cons_ne_nil _ _)

/-- An integer has digits only. -/
theorem isDigit_of_mem {n : Nat} : ∀ b ∈ decimalBytes n, isDigit b = true := by
  induction n using Nat.strongRecOn with
  | ind n ih =>
    rcases Nat.lt_or_ge n 10 with hlt | hge
    · rw [decimalBytes_of_lt hlt]
      intro b hb
      rw [List.mem_singleton.mp hb]
      exact (decimalByte_spec hlt).2.1
    · rw [decimalBytes_of_le hge]
      intro b hb
      rcases List.mem_append.mp hb with hfront | hlast
      · exact ih (n / 10) (by omega) b hfront
      · rw [List.mem_singleton.mp hlast]
        exact (decimalByte_spec (Nat.mod_lt n (by decide))).2.1

/-- A positive integer does not begin with a zero. -/
theorem head?_decimalBytes {n : Nat} (h : 0 < n) : (decimalBytes n).head? ≠ some 48 := by
  induction n using Nat.strongRecOn with
  | ind n ih =>
    rcases Nat.lt_or_ge n 10 with hlt | hge
    · rw [decimalBytes_of_lt hlt, List.head?_cons]
      intro hzero
      exact (decimalByte_spec hlt).2.2.2 h (Option.some.inj hzero)
    · have hfront := ih (n / 10) (by omega) (by omega)
      obtain ⟨d, ds, hd⟩ := List.exists_cons_of_ne_nil (decimalBytes_ne_nil (n / 10))
      rw [hd] at hfront
      rw [decimalBytes_of_le hge, hd]
      exact hfront

/-- The digits of an integer that fits 64 bits are taken up one after the other. -/
theorem extend_decimalBytes {n : Nat} (h : n < UInt64.size) (rest : Bytes) :
    extend 0 (decimalBytes n ++ rest) = extend n rest := by
  induction n using Nat.strongRecOn generalizing rest with
  | ind n ih =>
    rcases Nat.lt_or_ge n 10 with hlt | hge
    · have hlonger : 10 * 0 + ((decimalByte n).toNat - 48) = n := by
        rw [(decimalByte_spec hlt).2.2.1]
        omega
      rw [decimalBytes_of_lt hlt, List.cons_append, extend, hlonger, if_pos h]
      rfl
    · have hlonger : 10 * (n / 10) + ((decimalByte (n % 10)).toNat - 48) = n := by
        rw [(decimalByte_spec (Nat.mod_lt n (by decide))).2.2.1]
        omega
      have hfront := ih (n / 10) (by omega) (by omega) (decimalByte (n % 10) :: rest)
      rw [decimalBytes_of_le hge, List.append_assoc, List.singleton_append, hfront, extend, hlonger,
        if_pos h]

/-- Whether no number goes on with these bytes. -/
def endsNumber : Bytes → Bool
  | [] => true
  | b :: _ => !isDigit b && b != 46 && b != 101 && b != 69

/-- The digits of an integer end where no number goes on. -/
theorem digitSpan_decimalBytes (n : Nat) {rest : Bytes} (h : endsNumber rest = true) :
    digitSpan (decimalBytes n ++ rest) = (decimalBytes n, rest) := by
  have hrest : rest.takeWhile isDigit = [] ∧ rest.dropWhile isDigit = rest := by
    cases rest with
    | nil => exact ⟨rfl, rfl⟩
    | cons b rest =>
      simp only [endsNumber, Bool.and_eq_true, Bool.not_eq_true'] at h
      have hb : ¬isDigit b = true := by
        rw [h.1.1.1]
        exact Bool.false_ne_true
      exact ⟨List.takeWhile_cons_of_neg hb, List.dropWhile_cons_of_neg hb⟩
  rw [digitSpan, List.takeWhile_append_of_pos isDigit_of_mem,
    List.dropWhile_append_of_pos isDigit_of_mem, hrest.1, hrest.2, List.append_nil]

/-- There is no fraction where no number goes on. -/
theorem fraction?_of_endsNumber {rest : Bytes} (h : endsNumber rest = true) :
    fraction? rest = some (none, rest) := by
  unfold fraction?
  split
  · simp [endsNumber] at h
  · rfl

/-- There is no exponent where no number goes on. -/
theorem exponent?_of_endsNumber {rest : Bytes} (h : endsNumber rest = true) :
    exponent? rest = some (none, rest) := by
  cases rest with
  | nil => rfl
  | cons b rest =>
    simp only [endsNumber, Bool.and_eq_true, bne_iff_ne] at h
    have hb : ¬(b = 101 ∨ b = 69) := not_or.mpr ⟨h.1.2, h.2⟩
    simp only [exponent?, if_neg hb]

/-- An integer is written as JSON writes integers: with a digit, and no zero before others. -/
theorem wellFormed_decimalBytes (n : Nat) :
    ((decimalBytes n).isEmpty ||
      ((decimalBytes n).head? == some 48 && (decimalBytes n).length != 1)) = false := by
  have hempty : (decimalBytes n).isEmpty = false := by
    rw [List.isEmpty_eq_false_iff]
    exact decimalBytes_ne_nil n
  rw [hempty, Bool.false_or]
  rcases Nat.eq_zero_or_pos n with rfl | hpos
  · rfl
  · rw [beq_false_of_ne (head?_decimalBytes hpos), Bool.false_and]

/-- An integer without sign is read back. -/
theorem number?_decimalBytes {n : Nat} (hn : n < UInt64.size) {rest : Bytes}
    (h : endsNumber rest = true) :
    number? (decimalBytes n ++ rest) = some (nat n, rest) := by
  have hvalue : Numeral.value ⟨false, decimalBytes n, none, none⟩ = nat n := by
    have hextend := extend_decimalBytes hn []
    rw [List.append_nil] at hextend
    simp only [Numeral.value, hextend]
    rfl
  have hsign : ∀ r, decimalBytes n ++ rest ≠ 45 :: r := by
    intro r heq
    obtain ⟨d, ds, hd⟩ := List.exists_cons_of_ne_nil (decimalBytes_ne_nil n)
    have hdigit := isDigit_of_mem (n := n) d (by rw [hd]; exact List.mem_cons_self)
    rw [hd] at heq
    cases heq
    cases hdigit
  unfold number?
  split
  next minus unsigned hmatch =>
  split at hmatch
  next r heq => exact absurd heq (hsign r)
  cases hmatch
  simp only [digitSpan_decimalBytes n h, wellFormed_decimalBytes, if_false,
    Bool.false_eq_true, fraction?_of_endsNumber h, exponent?_of_endsNumber h, hvalue,
    Option.bind_eq_bind, Option.bind_some, Option.pure_def]

/-- An integer with a minus sign is read back. -/
theorem number?_minus {n : Nat} (hpos : 0 < n) (hn : n ≤ UInt64.size / 2) {rest : Bytes}
    (h : endsNumber rest = true) :
    number? (45 :: decimalBytes n ++ rest) = some (negative n, rest) := by
  have hvalue : Numeral.value ⟨true, decimalBytes n, none, none⟩ = negative n := by
    have hextend := extend_decimalBytes (n := n) (by omega) []
    rw [List.append_nil] at hextend
    have hrange : 0 < n ∧ n ≤ UInt64.size / 2 := ⟨hpos, hn⟩
    simp only [Numeral.value, hextend]
    simp [hrange, extend]
  simp only [number?, List.cons_append, digitSpan_decimalBytes n h, wellFormed_decimalBytes,
    if_false, Bool.false_eq_true, fraction?_of_endsNumber h, exponent?_of_endsNumber h, hvalue,
    Option.bind_eq_bind, Option.bind_some, Option.pure_def]

end Json

end ConferenceLedger

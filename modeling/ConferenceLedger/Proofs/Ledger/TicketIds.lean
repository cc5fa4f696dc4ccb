import ConferenceLedger.Ledger.Operation
import ConferenceLedger.Text.Decimal
import Mathlib.Data.List.Basic

/-!
# Ticket ids

A text of decimal digits that does not begin with a zero is the decimal text of a positive number of
whatever size, and the decimal text of a positive number is such a text. Ticket ids are these.
-/

namespace ConferenceLedger

/-- Whether a character is a digit is decided by its number. -/
theorem isDecimalDigit_iff {c : Char} :
    isDecimalDigit c = true ↔ 48 ≤ c.toNat ∧ c.toNat ≤ 57 := by
  rw [isDecimalDigit, Bool.and_eq_true, decide_eq_true_iff, decide_eq_true_iff]
  exact Iff.rfl

/-- A decimal digit is that of its value. -/
theorem digitChar_of_isDecimalDigit {c : Char} (h : isDecimalDigit c = true) :
    c.toNat - 48 < 10 ∧ Nat.digitChar (c.toNat - 48) = c := by
  obtain ⟨hlo, hhi⟩ := isDecimalDigit_iff.mp h
  have hvalue : c.toNat - 48 < 10 := by omega
  refine ⟨hvalue, Char.toNat_inj.mp ?_⟩
  rw [Nat.toNat_digitChar_of_lt_ten hvalue]
  omega

/-- The digit of a value is a decimal digit. -/
theorem isDecimalDigit_digitChar {d : Nat} (h : d < 10) : isDecimalDigit d.digitChar = true := by
  rw [isDecimalDigit_iff, Nat.toNat_digitChar_of_lt_ten h]
  omega

/-- More digits after the digits of a positive number are the digits of a positive number. -/
theorem toDigits_append_digits {cs : List Char} (hcs : cs.all isDecimalDigit = true) {n : Nat}
    (hn : 0 < n) : ∃ m, 0 < m ∧ Nat.toDigits 10 n ++ cs = Nat.toDigits 10 m := by
  induction cs generalizing n with
  | nil => exact ⟨n, hn, List.append_nil _⟩
  | cons c cs ih =>
    obtain ⟨hc, hrest⟩ := Bool.and_eq_true_iff.mp hcs
    obtain ⟨hvalue, hchar⟩ := digitChar_of_isDecimalDigit hc
    have hone : Nat.toDigits 10 n ++ [c] = Nat.toDigits 10 (10 * n + (c.toNat - 48)) := by
      rw [← Nat.toDigits_append_toDigits (by decide) hn hvalue, Nat.toDigits_of_lt_base hvalue,
        hchar]
    obtain ⟨m, hm, hdigits⟩ := ih hrest (n := 10 * n + (c.toNat - 48)) (by omega)
    refine ⟨m, hm, ?_⟩
    rw [← hdigits, ← hone, List.append_assoc, List.singleton_append]

/-- The digits of a positive number are digits, the first of which is not zero. -/
theorem toDigits_spec {n : Nat} (hn : 0 < n) :
    (Nat.toDigits 10 n).all isDecimalDigit = true ∧ (Nat.toDigits 10 n).head? ≠ some '0' := by
  induction n using Nat.strongRecOn with
  | ind n ih =>
    by_cases hlt : n < 10
    · rw [Nat.toDigits_of_lt_base hlt, List.all_cons, List.all_nil, Bool.and_true]
      refine ⟨isDecimalDigit_digitChar hlt, ?_⟩
      rw [List.head?_cons, ne_eq, Option.some.injEq, Nat.digitChar_eq_zero]
      omega
    · -- the last digit is put after those of the tenth part
      obtain ⟨hall, hhead⟩ := ih (n / 10) (by omega) (by omega)
      rw [Nat.toDigits_of_base_le (by decide) (by omega), List.all_append, hall,
        List.all_cons, List.all_nil, isDecimalDigit_digitChar (Nat.mod_lt n (by decide)),
        List.head?_append_of_ne_nil _ Nat.toDigits_ne_nil]
      exact ⟨rfl, hhead⟩

/-- A ticket id has characters, all of them digits, the first of which is not zero. -/
theorem isTicketId_iff_chars {s : String} : isTicketId s = true ↔
    s.toList ≠ [] ∧ s.toList.all isDecimalDigit = true ∧ s.toList.head? ≠ some '0' := by
  simp [isTicketId, isDecimalDigit, and_assoc]

/-- Ticket ids are the decimal texts of positive numbers. -/
theorem isTicketId_iff {s : String} : isTicketId s = true ↔ ∃ n : Nat, 0 < n ∧ s = toString n := by
  have htext : ∀ n : Nat, s = toString n ↔ s.toList = Nat.toDigits 10 n := by
    intro n
    rw [Nat.toString_eq_repr, ← Nat.toList_repr, String.toList_inj]
  simp only [isTicketId_iff_chars, htext]
  constructor
  · rintro ⟨hne, hall, hhead⟩
    cases hs : s.toList with
    | nil => exact absurd hs hne
    | cons c cs =>
      rw [hs] at hall hhead
      obtain ⟨hc, hrest⟩ := Bool.and_eq_true_iff.mp hall
      obtain ⟨hvalue, hchar⟩ := digitChar_of_isDecimalDigit hc
      have hpositive : 0 < c.toNat - 48 := by
        apply Nat.pos_of_ne_zero
        intro hzero
        rw [hzero] at hchar
        exact hhead (congrArg some hchar.symm)
      obtain ⟨m, hm, hdigits⟩ := toDigits_append_digits hrest hpositive
      rw [Nat.toDigits_of_lt_base hvalue, hchar, List.singleton_append] at hdigits
      exact ⟨m, hm, hdigits⟩
  · rintro ⟨n, hn, hs⟩
    rw [hs]
    exact ⟨Nat.toDigits_ne_nil, toDigits_spec hn⟩

end ConferenceLedger

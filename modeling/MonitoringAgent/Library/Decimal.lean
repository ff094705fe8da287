import Mathlib.Tactic

/-! # Decimal numbers as they are written

A number's decimal digits are the only digits without a leading zero that read as it. -/

namespace MonitoringAgent.Library

/-- Digits with no leading zero, but for zero itself. -/
def CanonicalDigits (digits : List Char) : Prop :=
  digits ≠ [] ∧ digits.all Char.isDigit = true ∧ (digits = ['0'] ∨ digits.head? ≠ some '0')

instance (digits : List Char) : Decidable (CanonicalDigits digits) :=
  inferInstanceAs (Decidable (_ ∧ _))

theorem all_isDigit_toDigits (n : ℕ) : (Nat.toDigits 10 n).all Char.isDigit = true :=
  List.all_eq_true.mpr fun _ hc => Nat.isDigit_of_mem_toDigits (by norm_num) le_rfl hc

theorem digitChar_toNat {c : Char} (h : c.isDigit = true) :
    Nat.digitChar (c.toNat - '0'.toNat) = c ∧
    c.toNat - '0'.toNat < 10 := by
  rw [Char.isDigit_iff_toNat] at h
  have hzero : '0'.toNat = 48 := rfl
  have hnine : '9'.toNat = 57 := rfl
  refine ⟨Char.toNat_inj.mp ?_, by omega⟩
  rw [hzero, Nat.toNat_digitChar_of_lt_ten (by omega)]
  omega

theorem toDigits_head (n : ℕ) :
    Nat.toDigits 10 n = ['0'] ∨ (Nat.toDigits 10 n).head? ≠ some '0' := by
  induction n using Nat.strong_induction_on with
  | _ n ih =>
      rw [Nat.toDigits_eq_if (by norm_num)]
      split_ifs with hn
      · interval_cases n <;> simp [Nat.digitChar]
      · right
        rcases ih (n / 10) (by omega) with hzero | hhead
        · -- Only zero is written so, and what is left of ten or more is not zero.
          have hvalue := Nat.ofDigitChars_ten_toDigits (n := n / 10)
          rw [hzero] at hvalue
          have : n / 10 = 0 := hvalue.symm
          omega
        · rwa [List.head?_append_of_ne_nil _ Nat.toDigits_ne_nil]

theorem canonicalDigits_toDigits (n : ℕ) : CanonicalDigits (Nat.toDigits 10 n) :=
  ⟨Nat.toDigits_ne_nil, all_isDigit_toDigits n, toDigits_head n⟩

theorem toDigits_append_digits {n : ℕ} (hn : 0 < n) {digits : List Char}
    (h : digits.all Char.isDigit = true) :
    Nat.toDigits 10 n ++ digits = Nat.toDigits 10 (Nat.ofDigitChars 10 digits n) := by
  induction digits generalizing n with
  | nil => simp
  | cons c digits ih =>
      rw [List.all_cons, Bool.and_eq_true] at h
      obtain ⟨hchar, hlt⟩ := digitChar_toNat h.1
      have hstep := Nat.toDigits_append_toDigits (b := 10) (by norm_num) hn hlt
      rw [Nat.toDigits_of_lt_base hlt, hchar] at hstep
      rw [Nat.ofDigitChars_cons, ← ih (by omega) h.2, ← hstep, List.append_assoc,
        List.singleton_append]

/-- Digits without a leading zero are how the number they read as is written. -/
theorem toDigits_of_canonical {digits : List Char} (h : CanonicalDigits digits) :
    Nat.toDigits 10 (Nat.ofDigitChars 10 digits 0) = digits := by
  obtain ⟨hne, hdigits, hhead⟩ := h
  obtain ⟨c, digits, rfl⟩ := List.exists_cons_of_ne_nil hne
  rcases hhead with hzero | hhead
  · rw [hzero]
    rfl
  · rw [List.all_cons, Bool.and_eq_true] at hdigits
    obtain ⟨hchar, hlt⟩ := digitChar_toNat hdigits.1
    have hpos : 0 < c.toNat - '0'.toNat := by
      refine Nat.pos_of_ne_zero fun hzero => hhead ?_
      rw [hzero] at hchar
      rw [← hchar]
      rfl
    rw [Nat.ofDigitChars_cons, Nat.mul_zero, Nat.zero_add, ← toDigits_append_digits hpos hdigits.2,
      Nat.toDigits_of_lt_base hlt, hchar, List.singleton_append]

theorem toList_toString (n : ℕ) : (toString n).toList = Nat.toDigits 10 n := Nat.toList_repr

end MonitoringAgent.Library

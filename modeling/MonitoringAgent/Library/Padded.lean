import MonitoringAgent.Library.Decimal

/-! # Numbers in fields of fixed width

Numbers written in decimal with leading zeros, each with a character after it, read back; and while
they fit their widths, the texts are ordered as the numbers are. -/

namespace MonitoringAgent.Library

/-- `n` in decimal, with leading zeros up to `width` digits. -/
def zeroPadded (width n : ℕ) : List Char := (Nat.toDigits 10 n).leftpad width '0'

/-- Numbers of the given widths, each with the character after it. -/
def written : List (ℕ × Char) → List ℕ → List Char
  | (width, sep) :: fields, n :: ns => zeroPadded width n ++ sep :: written fields ns
  | _, _ => []

/-- The numbers a text is of. -/
def readFields : List (ℕ × Char) → List Char → Option (List ℕ)
  | [], text => if text = [] then some [] else none
  | (width, sep) :: fields, text =>
    let digits := text.takeWhile Char.isDigit
    let n := Nat.ofDigitChars 10 digits 0
    match text.dropWhile Char.isDigit with
    | [] => none
    | c :: rest => if c = sep ∧ digits = zeroPadded width n then (readFields fields rest).map
        (n :: ·) else none

/-! ### Reading -/

theorem all_isDigit_zeroPadded (width n : ℕ) : ∀ c ∈ zeroPadded width n, c.isDigit = true := by
  intro c hc
  rw [zeroPadded, List.leftpad, List.mem_append, List.mem_replicate] at hc
  rcases hc with ⟨-, rfl⟩ | hc
  · rfl
  · exact List.all_eq_true.mp (all_isDigit_toDigits n) c hc

theorem ofDigitChars_zeroPadded (width n : ℕ) : Nat.ofDigitChars 10 (zeroPadded width n) 0 = n := by
  have hzeros (k : ℕ) : Nat.ofDigitChars 10 (List.replicate k '0') 0 = 0 := by
    induction k with
    | zero => rfl
    | succ k ih => rwa [List.replicate_succ, Nat.ofDigitChars_cons]
  rw [zeroPadded, List.leftpad, Nat.ofDigitChars_append, hzeros, Nat.ofDigitChars_ten_toDigits]

theorem readFields_written {fields : List (ℕ × Char)} {ns : List ℕ}
    (hlength : fields.length = ns.length) (hsep : ∀ field ∈ fields, field.2.isDigit = false) :
    readFields fields (written fields ns) = some ns := by
  induction fields generalizing ns with
  | nil =>
      rw [List.eq_nil_of_length_eq_zero hlength.symm]
      rfl
  | cons field fields ih =>
      obtain ⟨width, sep⟩ := field
      cases ns with
      | nil => cases hlength
      | cons n ns =>
          have hdigits := all_isDigit_zeroPadded width n
          have hsep' : ¬sep.isDigit = true := Bool.eq_false_iff.mp
            (hsep (width, sep) List.mem_cons_self)
          rw [written, readFields, List.takeWhile_append_of_pos hdigits,
            List.dropWhile_append_of_pos hdigits, List.takeWhile_cons_of_neg hsep',
            List.dropWhile_cons_of_neg hsep', List.append_nil, ofDigitChars_zeroPadded]
          dsimp only
          rw [if_pos ⟨rfl, rfl⟩, ih (Nat.succ.inj hlength) fun field hfield => hsep field
            (List.mem_cons_of_mem _ hfield)]
          rfl

/-! ### Order -/

/-- The last `width` digits of `n`. -/
def lastDigits : ℕ → ℕ → List Char
  | 0, _ => []
  | width + 1, n => lastDigits width (n / 10) ++ [Nat.digitChar (n % 10)]

theorem lastDigits_zero (width : ℕ) : lastDigits width 0 = List.replicate width '0' := by
  induction width with
  | zero => rfl
  | succ width ih =>
      rw [lastDigits, Nat.zero_div, ih, List.replicate_succ']
      rfl

theorem zeroPadded_eq {width n : ℕ} (hn : n < 10 ^ (width + 1)) :
    zeroPadded (width + 1) n = lastDigits (width + 1) n := by
  induction width generalizing n with
  | zero =>
      rw [zeroPadded, Nat.toDigits_of_lt_base (by omega), lastDigits, lastDigits,
        Nat.mod_eq_of_lt (by omega)]
      rfl
  | succ width ih =>
      rw [zeroPadded, Nat.toDigits_eq_if (by norm_num), lastDigits]
      split_ifs with hsmall
      · rw [Nat.div_eq_of_lt hsmall, lastDigits_zero, Nat.mod_eq_of_lt hsmall]
        rfl
      · rw [← ih (by omega), zeroPadded, List.leftpad, List.leftpad, List.length_append,
          ← List.append_assoc]
        rw [List.length_singleton, Nat.add_sub_add_right]

theorem digitChar_lt {a b : ℕ} (hab : a < b) (hb : b < 10) : Nat.digitChar a < Nat.digitChar b := by
  interval_cases b <;> interval_cases a <;> decide

/-- Of two numbers that fit the width, what starts with the lesser is less. -/
theorem lastDigits_append_lt {width a b : ℕ} (hab : a < b) (hb : b < 10 ^ width) (s t : List Char) :
    lastDigits width a ++ s < lastDigits width b ++ t := by
  induction width generalizing a b s t with
  | zero => omega
  | succ width ih =>
      rw [lastDigits, lastDigits, List.append_assoc, List.append_assoc]
      rcases Nat.lt_or_eq_of_le (Nat.div_le_div_right (c := 10) hab.le) with hdiv | hdiv
      · exact ih hdiv (by omega) _ _
      · rw [hdiv]
        refine List.append_left_lt (List.cons_lt_cons_iff.mpr (.inl ?_))
        exact digitChar_lt (by omega) (Nat.mod_lt _ (by norm_num))

/-- While the numbers fit their widths, the texts are ordered as the numbers. -/
theorem written_lt {fields : List (ℕ × Char)} {ns ms : List ℕ}
    (hwidth : ∀ field ∈ fields, 0 < field.1)
    (hns : List.Forall₂ (fun field n => n < 10 ^ field.1) fields ns)
    (hms : List.Forall₂ (fun field m => m < 10 ^ field.1) fields ms) (hlt : ns < ms) :
    written fields ns < written fields ms := by
  induction hms generalizing ns with
  | nil => exact absurd hlt (List.not_lt_nil _)
  | @cons field m fields ms hm hms ih =>
      obtain ⟨width, sep⟩ := field
      cases hns with
      | @cons _ n _ ns hn hns =>
          obtain ⟨width, rfl⟩ := Nat.exists_eq_succ_of_ne_zero
            (hwidth (width, sep) List.mem_cons_self).ne'
          rw [written, written, zeroPadded_eq hn, zeroPadded_eq hm]
          rcases List.cons_lt_cons_iff.mp hlt with hlt' | ⟨rfl, hlt'⟩
          · exact lastDigits_append_lt hlt' hm _ _
          · refine List.append_left_lt (List.cons_lt_cons_iff.mpr (.inr ⟨rfl, ?_⟩))
            exact ih (fun field hfield => hwidth field (List.mem_cons_of_mem _ hfield)) hns hlt'

end MonitoringAgent.Library

import MonitoringAgent.Library.Text

/-! # UUIDs

128 bits and their hyphenated text, as both programs write them. -/

namespace MonitoringAgent

open MonitoringAgent.Library

/-- A UUID, by its bits. -/
structure Uuid where
  bits : BitVec 128
  deriving DecidableEq, Repr

/-- A lower-case hexadecimal digit. -/
def hexDigit (n : ℕ) : Char := "0123456789abcdef".toList.getD n '0'

namespace Uuid

/-- The 32 digits, the highest first. -/
def digits (u : Uuid) : List Char :=
  (List.range 32).map fun i => hexDigit (u.bits.toNat / 16 ^ (31 - i) % 16)

/-- The text: 8, 4, 4, 4 and 12 digits between hyphens. -/
def hyphenated (u : Uuid) : String :=
  let d := u.digits
  String.ofList (d.take 8 ++ '-' :: (d.drop 8).take 4 ++ '-' :: (d.drop 12).take 4 ++
    '-' :: (d.drop 16).take 4 ++ '-' :: (d.drop 20).take 12)

theorem length_digits (u : Uuid) : u.digits.length = 32 := by simp [digits]

theorem hexDigit_mem (n : ℕ) : hexDigit n ∈ "0123456789abcdef".toList := by
  rw [hexDigit, List.getD_eq_getElem?_getD]
  cases hn : "0123456789abcdef".toList[n]? with
  | none => decide
  | some c => exact List.mem_of_getElem? hn

theorem mem_hyphenated {u : Uuid} {c : Char} (h : c ∈ u.hyphenated.toList) :
    c ∈ "-0123456789abcdef".toList := by
  have hdigit : ∀ c ∈ u.digits, c ∈ "-0123456789abcdef".toList := by
    intro c hc
    obtain ⟨i, -, rfl⟩ := List.mem_map.mp hc
    exact List.mem_cons_of_mem _ (hexDigit_mem _)
  rw [hyphenated, String.toList_ofList] at h
  simp only [List.mem_append, List.mem_cons] at h
  rcases h with (((h | rfl | h) | rfl | h) | rfl | h) | rfl | h
  · exact hdigit c (List.mem_of_mem_take h)
  · decide
  · exact hdigit c (List.mem_of_mem_drop (List.mem_of_mem_take h))
  · decide
  · exact hdigit c (List.mem_of_mem_drop (List.mem_of_mem_take h))
  · decide
  · exact hdigit c (List.mem_of_mem_drop (List.mem_of_mem_take h))
  · decide
  · exact hdigit c (List.mem_of_mem_drop (List.mem_of_mem_take h))

theorem length_hyphenated (u : Uuid) : u.hyphenated.toList.length = 36 := by
  rw [hyphenated, String.toList_ofList]
  simp [length_digits]

/-- Each character of the text is one byte. -/
theorem utf8ByteSize_hyphenated (u : Uuid) : u.hyphenated.utf8ByteSize = 36 := by
  have hone : ∀ c ∈ "-0123456789abcdef".toList, c.utf8Size = 1 :=
    List.all_iff_forall_prop.mp (by decide)
  rw [utf8ByteSize_of_one fun c hc => hone c (mem_hyphenated hc), length_hyphenated]

theorem trimAscii_hyphenated (u : Uuid) : trimAscii u.hyphenated = u.hyphenated :=
  trimAscii_of_forall fun c hc => by
    have hplain : ∀ c ∈ "-0123456789abcdef".toList, isAsciiWhitespace c = false :=
      List.all_iff_forall_prop.mp (by decide)
    exact hplain c (mem_hyphenated hc)

/-! ### Reading it back -/

/-- The value of a lower-case hexadecimal digit. -/
def digitValue (c : Char) : ℕ := "0123456789abcdef".toList.idxOf c

/-- Reads the hyphenated text. -/
def ofHyphenated (text : String) : Option Uuid :=
  if text.toList.length = 36 then
    some ⟨.ofNat 128 ((text.toList.filter (· ≠ '-')).foldl (fun n c => 16 * n + digitValue c) 0)⟩
  else none

theorem digitValue_hexDigit {n : ℕ} (h : n < 16) : digitValue (hexDigit n) = n := by
  interval_cases n <;> decide

theorem hexDigit_ne_hyphen (n : ℕ) : hexDigit n ≠ '-' := by
  intro h
  have hmem := hexDigit_mem n
  rw [h] at hmem
  revert hmem
  decide

theorem filter_hyphenated (u : Uuid) : u.hyphenated.toList.filter (· ≠ '-') = u.digits := by
  have hdigits : ∀ l : List Char, l.Sublist u.digits → l.filter (· ≠ '-') = l := by
    intro l hl
    rw [List.filter_eq_self]
    intro c hc
    obtain ⟨i, -, rfl⟩ := List.mem_map.mp (hl.subset hc)
    simpa using hexDigit_ne_hyphen _
  have hpart : ∀ k n, ((u.digits.drop k).take n).filter (· ≠ '-') =
      (u.digits.drop k).take n := fun k n =>
    hdigits _ ((List.take_sublist n _).trans (List.drop_sublist k _))
  have hfirst := hdigits (u.digits.take 8) (List.take_sublist 8 _)
  rw [hyphenated, String.toList_ofList]
  simp only [List.filter_append, List.filter_cons, hfirst, hpart]
  simp only [ne_eq, not_true_eq_false, decide_false, Bool.false_eq_true, if_false]
  have hlast : (u.digits.drop 20).take 12 = u.digits.drop 20 :=
    List.take_of_length_le (by simp [length_digits])
  rw [hlast]
  simp only [List.append_assoc]
  have h4 : ∀ k, (u.digits.drop k).take 4 ++ u.digits.drop (k + 4) = u.digits.drop k := by
    intro k
    rw [← List.drop_drop, List.take_append_drop]
  rw [h4 16, h4 12, h4 8, List.take_append_drop]

theorem foldl_hexDigit (n k : ℕ) :
    ((List.range k).map fun i => hexDigit (n / 16 ^ (k - 1 - i) % 16)).foldl
      (fun n c => 16 * n + digitValue c) 0 =
      n % 16 ^ k := by
  induction k generalizing n with
  | zero => simp [Nat.mod_one]
  | succ k ih =>
      rw [List.range_succ, List.map_append, List.foldl_append, List.map_singleton,
        List.foldl_cons, List.foldl_nil]
      have hstep : (List.range k).map (fun i => hexDigit (n / 16 ^ (k + 1 - 1 - i) % 16)) =
          (List.range k).map fun i => hexDigit (n / 16 / 16 ^ (k - 1 - i) % 16) := by
        apply List.map_congr_left
        intro i hi
        rw [List.mem_range] at hi
        rw [Nat.div_div_eq_div_mul, ← pow_succ']
        congr 4
        omega
      rw [hstep, ih, digitValue_hexDigit (Nat.mod_lt _ (by norm_num)), Nat.add_sub_cancel,
        Nat.sub_self, pow_zero, Nat.div_one, pow_succ', Nat.mod_mul]
      ring

theorem ofHyphenated_hyphenated (u : Uuid) : ofHyphenated u.hyphenated = some u := by
  have hfold := foldl_hexDigit u.bits.toNat 32
  rw [ofHyphenated, if_pos u.length_hyphenated, filter_hyphenated, digits, hfold,
    Nat.mod_eq_of_lt (lt_of_lt_of_eq u.bits.isLt (by norm_num)),
    BitVec.ofNat_toNat, BitVec.setWidth_eq]

end Uuid

end MonitoringAgent

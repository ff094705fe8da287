import MonitoringAgent.Library.Text

/-! # The bytes of a character

A character below 128 is one byte; any other starts with a byte that is no continuation and goes on
with continuations only. -/

namespace MonitoringAgent.Library

/-- Whether the byte goes on with a character. -/
def isContinuation (b : UInt8) : Bool := 0x80 ≤ b && b < 0xc0

/-- Whether a character starts where these bytes do, or they have ended. -/
def isCharBoundary : List UInt8 → Bool
  | [] => true
  | b :: _ => !isContinuation b

def isAscii (c : Char) : Prop := c.toNat < 128

instance (c : Char) : Decidable (isAscii c) := inferInstanceAs (Decidable (_ < _))

theorem utf8_eq_flatMap (s : String) : utf8 s = s.toList.flatMap String.utf8EncodeChar := by
  have h := String.ofList_toList (s := s)
  rw [utf8]
  conv_lhs => rw [← h]
  rw [String.toByteArray_ofList, List.utf8Encode, List.data_toByteArray]

theorem utf8EncodeChar_ascii {c : Char} (h : isAscii c) :
    String.utf8EncodeChar c = [UInt8.ofNat c.toNat] :=
  if_pos (Nat.lt_succ_iff.mp h)

theorem isContinuation_ofNat (n : ℕ) : isContinuation (UInt8.ofNat (n % 64 + 0x80)) = true := by
  rw [isContinuation, Bool.and_eq_true, decide_eq_true_eq, decide_eq_true_eq, UInt8.le_iff_toNat_le,
    UInt8.lt_iff_toNat_lt, UInt8.toNat_ofNat']
  have h80 : (0x80 : UInt8).toNat = 128 := rfl
  have hc0 : (0xc0 : UInt8).toNat = 192 := rfl
  omega

theorem lead_le {n lead : ℕ} (hlead : 0xc0 ≤ lead) (hn : n + lead < 256) :
    0xc0 ≤ UInt8.ofNat (n + lead) := by
  rw [UInt8.le_iff_toNat_le, UInt8.toNat_ofNat']
  have hc0 : (0xc0 : UInt8).toNat = 192 := rfl
  omega

/-- A character past ASCII is a byte from 0xc0 on and continuations. -/
theorem utf8EncodeChar_wide {c : Char} (h : ¬isAscii c) :
    ∃ lead conts, String.utf8EncodeChar c = lead :: conts ∧
    0xc0 ≤ lead ∧ conts ≠ [] ∧ conts.length + 1 = c.utf8Size ∧
    ∀ b ∈ conts, isContinuation b = true := by
  have hascii : ¬c.val.toNat ≤ 0x7f := fun hle => h (Nat.lt_succ_iff.mpr hle)
  have hlength := String.length_utf8EncodeChar c
  rw [String.utf8EncodeChar] at hlength ⊢
  rw [if_neg hascii] at hlength ⊢
  split_ifs at hlength ⊢ with htwo hthree
  · refine ⟨_, _, rfl, lead_le (by norm_num) (by omega), List.cons_ne_nil _ _, hlength, ?_⟩
    simp only [List.forall_mem_cons, isContinuation_ofNat, List.not_mem_nil, false_implies,
      implies_true, and_self]
  · refine ⟨_, _, rfl, lead_le (by norm_num) (by omega), List.cons_ne_nil _ _, hlength, ?_⟩
    simp only [List.forall_mem_cons, isContinuation_ofNat, List.not_mem_nil, false_implies,
      implies_true, and_self]
  · refine ⟨_, _, rfl, lead_le (by norm_num) (by omega), List.cons_ne_nil _ _, hlength, ?_⟩
    simp only [List.forall_mem_cons, isContinuation_ofNat, List.not_mem_nil, false_implies,
      implies_true, and_self]

theorem isContinuation_of_lt {b : UInt8} (h : b < 0x80) : isContinuation b = false := by
  rw [isContinuation, decide_eq_false (UInt8.not_le.mpr h), Bool.false_and]

theorem isContinuation_of_le {b : UInt8} (h : 0xc0 ≤ b) : isContinuation b = false := by
  rw [isContinuation, decide_eq_false (UInt8.not_lt.mpr h), Bool.and_false]

theorem ofNat_lt {c : Char} (h : isAscii c) : UInt8.ofNat c.toNat < 0x80 := by
  rw [UInt8.lt_iff_toNat_lt, UInt8.toNat_ofNat']
  exact (Nat.mod_le _ _).trans_lt h

/-! ### Text as the bytes of its characters -/

/-- The bytes of the characters. -/
def encoded (cs : List Char) : List UInt8 := cs.flatMap String.utf8EncodeChar

theorem encoded_cons_ascii {c : Char} (h : isAscii c) (cs : List Char) :
    encoded (c :: cs) = UInt8.ofNat c.toNat :: encoded cs := by
  rw [encoded, List.flatMap_cons, utf8EncodeChar_ascii h]
  rfl

theorem encoded_cons_wide {c : Char} (h : ¬isAscii c) (cs : List Char) : ∃ lead conts,
    encoded (c :: cs) = lead :: (conts ++ encoded cs) ∧ 0xc0 ≤ lead ∧ conts ≠ [] ∧
      conts.length + 1 = c.utf8Size ∧
      ∀ b ∈ conts, isContinuation b = true := by
  obtain ⟨lead, conts, henc, hlead⟩ := utf8EncodeChar_wide h
  refine ⟨lead, conts, ?_, hlead⟩
  rw [encoded, List.flatMap_cons, henc]
  rfl

theorem isCharBoundary_encoded (cs : List Char) : isCharBoundary (encoded cs) = true := by
  cases cs with
  | nil => rfl
  | cons c cs =>
      by_cases hc : isAscii c
      · rw [encoded_cons_ascii hc, isCharBoundary, isContinuation_of_lt (ofNat_lt hc)]
        rfl
      · obtain ⟨lead, conts, henc, hlead, -⟩ := encoded_cons_wide hc cs
        rw [henc, isCharBoundary, isContinuation_of_le hlead]
        rfl

theorem isCharBoundary_conts {conts : List UInt8} (hne : conts ≠ [])
    (h : ∀ b ∈ conts, isContinuation b = true) (rest : List UInt8) :
    isCharBoundary (conts ++ rest) = false := by
  obtain ⟨b, conts, rfl⟩ := List.exists_cons_of_ne_nil hne
  rw [List.cons_append, isCharBoundary, h b List.mem_cons_self]
  rfl

/-- A byte below 128 is a character of its own. -/
theorem encoded_eq_cons {cs : List Char} {b : UInt8} {rest : List UInt8}
    (h : encoded cs = b :: rest) (hb : b < 0x80) :
    ∃ c cs', cs = c :: cs' ∧ isAscii c ∧ b = UInt8.ofNat c.toNat ∧ rest = encoded cs' := by
  cases cs with
  | nil => cases h
  | cons c cs =>
      by_cases hc : isAscii c
      · rw [encoded_cons_ascii hc, List.cons.injEq] at h
        exact ⟨c, cs, rfl, hc, h.1.symm, h.2.symm⟩
      · obtain ⟨lead, conts, henc, hlead, -⟩ := encoded_cons_wide hc cs
        rw [henc, List.cons.injEq] at h
        rw [h.1] at hlead
        exact absurd (UInt8.lt_of_le_of_lt hlead hb) (by decide)

end MonitoringAgent.Library

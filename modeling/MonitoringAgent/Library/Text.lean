import Mathlib.Data.Bool.AllAny
import Mathlib.Data.List.DropRight
import Mathlib.Data.String.Basic
import Mathlib.Tactic

/-! # Text as bytes

UTF-8 as lists of bytes, whitespace trimmed from both ends, and decimal numbers. -/

namespace MonitoringAgent.Library

/-- What a check of each finds of all. -/
theorem forall_mem_of_all {α : Type} {p : α → Prop} [DecidablePred p] {l : List α}
    (h : (l.all fun a => decide (p a)) = true) : ∀ a ∈ l, p a := fun a ha =>
  of_decide_eq_true (List.all_eq_true.mp h a ha)

/-! ### UTF-8 -/

/-- The bytes of a string. -/
def utf8 (s : String) : List UInt8 := s.toByteArray.data.toList

/-- The string the bytes encode, none when they aren't UTF-8. -/
def fromUtf8 (bytes : List UInt8) : Option String := String.fromUTF8? ⟨bytes.toArray⟩

theorem fromUtf8_eq_some {bytes : List UInt8} {s : String} :
    fromUtf8 bytes = some s ↔ utf8 s = bytes := by
  rw [fromUtf8, String.fromUTF8?]
  constructor
  · intro h
    obtain ⟨hvalid, hs⟩ := Option.dite_none_right_eq_some.mp h
    rw [← Option.some.inj hs]
    rfl
  · rintro rfl
    have hbytes : (⟨(utf8 s).toArray⟩ : ByteArray) = s.toByteArray := by
      rw [utf8, Array.toArray_toList]
    rw [hbytes, dif_pos s.isValidUTF8]
    rfl

@[simp] theorem fromUtf8_utf8 (s : String) : fromUtf8 (utf8 s) = some s := fromUtf8_eq_some.mpr rfl

theorem utf8_injective : Function.Injective utf8 := by
  intro s t h
  have hs := fromUtf8_utf8 s
  rw [h, fromUtf8_utf8] at hs
  exact (Option.some.inj hs).symm

@[simp] theorem length_utf8 (s : String) : (utf8 s).length = s.utf8ByteSize := rfl

theorem utf8ByteSize_ofList (cs : List Char) :
    (String.ofList cs).utf8ByteSize = (cs.map Char.utf8Size).sum := by
  induction cs with
  | nil => rfl
  | cons c cs ih =>
      have happend : String.ofList (c :: cs) = String.ofList [c] ++ String.ofList cs := by
        rw [← String.ofList_append]
        rfl
      rw [happend, String.utf8ByteSize_append, ih, List.map_cons, List.sum_cons]
      simp

/-- A text of one-byte characters has as many bytes as characters. -/
theorem utf8ByteSize_of_one {s : String} (h : ∀ c ∈ s.toList, c.utf8Size = 1) :
    s.utf8ByteSize = s.toList.length := by
  have hsize := utf8ByteSize_ofList s.toList
  rw [String.ofList_toList, List.map_eq_replicate_iff.mpr h, List.sum_replicate] at hsize
  simpa using hsize

theorem utf8ByteSize_toString (n : ℕ) : (toString n).utf8ByteSize = (toString n).length := by
  have hdigits : ∀ c ∈ (toString n).toList, c.utf8Size = 1 := by
    intro c hc
    have hdigit : c.isDigit = true := by
      refine Nat.isDigit_of_mem_toDigits (b := 10) (n := n) (by decide) (by decide) ?_
      simpa [Nat.repr_eq_ofList_toDigits] using hc
    rw [Char.isDigit, Bool.and_eq_true, decide_eq_true_iff, decide_eq_true_iff] at hdigit
    exact Char.utf8Size_eq_one_iff.mpr (UInt32.le_trans hdigit.2 (by decide))
  exact utf8ByteSize_of_one hdigits

theorem length_toString_le {n k : ℕ} (hk : 0 < k) (h : n < 10 ^ k) : (toString n).length ≤ k :=
  (Nat.length_repr_le_iff hk).mpr h

theorem utf8ByteSize_zeros (n : ℕ) : ("".pushn '0' n).utf8ByteSize = n := by
  rw [String.pushn_eq_repeat_push]
  induction n with
  | zero => rfl
  | succ n ih =>
      rw [Nat.repeat, String.utf8ByteSize_push, ih]
      rfl

/-! ### Splitting -/

/-- A list splits at an occurrence of the pattern that no other starts before. -/
theorem dropInfix_append {α : Type} [DecidableEq α] {pattern before after : List α}
    (hfirst : ∀ k < before.length, ¬ pattern <+: before.drop k ++ (pattern ++ after)) :
    (before ++ (pattern ++ after)).dropInfix? pattern = some (before, after) := by
  rw [List.dropInfix?_eq_some_iff]
  refine ⟨⟨pattern, by rw [List.append_assoc], beq_self_eq_true pattern⟩, ?_⟩
  intro earlier found later heq hfound
  obtain rfl := eq_of_beq hfound
  by_contra hlt
  have hlt : earlier.length < before.length := not_le.mp hlt
  refine hfirst earlier.length hlt ⟨later, ?_⟩
  -- What is left after the earlier part starts with the pattern.
  calc found ++ later = (earlier ++ found ++ later).drop earlier.length := by
        rw [List.append_assoc, List.drop_left]
    _ = (before ++ (found ++ after)).drop earlier.length := by rw [heq]
    _ = before.drop earlier.length ++ (found ++ after) := List.drop_append_of_le_length hlt.le

/-! ### Trimming -/

section Trim

variable {α : Type} (p : α → Bool)

/-- The list without the elements at both ends that satisfy `p`. -/
def trim (l : List α) : List α := (l.dropWhile p).rdropWhile p

variable {p} {l : List α}

/-- A list that is trimmed starts and ends with an element that stays. -/
theorem trim_eq_self (h : trim p l = l) : l.dropWhile p = l ∧ l.rdropWhile p = l := by
  have hdrop : l.dropWhile p = l := by
    refine (List.dropWhile_suffix p).eq_of_length
      (le_antisymm (List.dropWhile_suffix p).length_le ?_)
    calc l.length = (trim p l).length := by rw [h]
      _ ≤ (l.dropWhile p).length := (List.rdropWhile_prefix p _).length_le
  refine ⟨hdrop, ?_⟩
  rwa [trim, hdrop] at h

theorem trim_trim (l : List α) : trim p (trim p l) = trim p l := by
  have hstart : (trim p l).dropWhile p = trim p l := by
    cases htrim : trim p l with
    | nil => rfl
    | cons x xs =>
        obtain ⟨rest, hrest⟩ := List.rdropWhile_prefix p (l.dropWhile p)
        rw [trim] at htrim
        rw [htrim] at hrest
        -- The first element left is the one `dropWhile` stopped at.
        have hidem := List.dropWhile_idempotent (p := p) (l := l)
        rw [← hrest, List.cons_append, List.dropWhile_cons] at hidem
        split_ifs at hidem with hx
        · have hlen := congrArg List.length hidem
          have hle := (List.dropWhile_suffix p (l := xs ++ rest)).length_le
          simp only [List.length_cons] at hlen
          omega
        · exact List.dropWhile_cons_of_neg hx
  rw [trim, hstart]
  exact List.rdropWhile_idempotent _ _

/-- What is trimmed after a trimmed list goes. -/
theorem trim_append (h : trim p l = l) (hne : l ≠ []) {more : List α}
    (hmore : ∀ x ∈ more, p x = true) : trim p (l ++ more) = l := by
  obtain ⟨hdrop, hrdrop⟩ := trim_eq_self h
  have hkeep : (l ++ more).dropWhile p = l ++ more := by
    rw [List.dropWhile_append, hdrop, if_neg (by simpa using hne)]
  rw [trim, hkeep]
  induction more using List.reverseRecOn with
  | nil => rwa [List.append_nil]
  | append_singleton more x ih =>
      have hx := hmore x (List.mem_append_right _ (List.mem_singleton_self x))
      rw [← List.append_assoc, List.rdropWhile_concat_pos _ _ _ hx]
      refine ih (fun y hy => hmore y (List.mem_append_left _ hy)) ?_
      rw [List.dropWhile_append, hdrop, if_neg (by simpa using hne)]

end Trim

/-- Space, tab, line feed, form feed and carriage return. -/
def isAsciiWhitespace (c : Char) : Bool :=
  c = ' ' || c = '\t' || c = '\n' || c = '\x0c' || c = '\r'

/-- The text without its ASCII whitespace at both ends. -/
def trimAscii (s : String) : String := String.ofList (trim isAsciiWhitespace s.toList)

theorem trimAscii_trimAscii (s : String) : trimAscii (trimAscii s) = trimAscii s := by
  rw [trimAscii, trimAscii, String.toList_ofList, trim_trim]

theorem trimAscii_eq_self_iff {s : String} :
    trimAscii s = s ↔ trim isAsciiWhitespace s.toList = s.toList := by
  rw [trimAscii]
  constructor
  · intro h
    rw [← h, String.toList_ofList]
    exact trim_trim _
  · intro h
    rw [h, String.ofList_toList]

/-- Whitespace after a trimmed text is trimmed away. -/
theorem trimAscii_append {s t : String} (hs : trimAscii s = s) (hne : s ≠ "")
    (ht : ∀ c ∈ t.toList, isAsciiWhitespace c = true) : trimAscii (s ++ t) = s := by
  have hnil : s.toList ≠ [] := by simpa using hne
  rw [trimAscii, String.toList_append, trim_append (trimAscii_eq_self_iff.mp hs) hnil ht,
    String.ofList_toList]

/-- A text without whitespace is trimmed. -/
theorem trimAscii_of_forall {s : String} (h : ∀ c ∈ s.toList, isAsciiWhitespace c = false) :
    trimAscii s = s := by
  rw [trimAscii_eq_self_iff, trim]
  have hdrop : s.toList.dropWhile isAsciiWhitespace = s.toList := by
    cases hs : s.toList with
    | nil => rfl
    | cons c cs => exact List.dropWhile_cons_of_neg (by rw [h c (hs ▸ List.mem_cons_self)]; simp)
  rw [hdrop, List.rdropWhile_eq_self_iff]
  intro hne
  rw [h _ (List.getLast_mem hne)]
  simp

/-- Unicode's `White_Space`. -/
def isWhitespace (c : Char) : Bool :=
  let n := c.toNat
  (9 ≤ n && n ≤ 13) || n = 0x20 || n = 0x85 || n = 0xa0 || n =
    0x1680 || (0x2000 ≤ n && n ≤ 0x200a) ||
    n = 0x2028 || n = 0x2029 || n = 0x202f || n = 0x205f || n = 0x3000

/-- The text without its whitespace at both ends. -/
def trimWhitespace (s : String) : String := String.ofList (trim isWhitespace s.toList)

/-! ### Numbers -/

/-- A `u64` in decimal digits, after an optional plus sign. -/
def parseU64 (s : String) : Option ℕ :=
  let digits := if s.toList.head? = some '+' then s.toList.tail else s.toList
  if digits ≠ [] ∧ digits.all Char.isDigit = true then
    let n := digits.foldl (fun n c => 10 * n + (c.toNat - '0'.toNat)) 0
    if n < 2 ^ 64 then some n else none
  else none

end MonitoringAgent.Library

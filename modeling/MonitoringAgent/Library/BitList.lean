import Mathlib.Data.Nat.Bitwise
import Mathlib.Tactic

/-! # Bit lists

Fixed-width fields as lists of bits, most significant first, and the bits of a byte list
in the same order. -/

namespace MonitoringAgent.Library

open List

/-- The low `width` bits of `value`, most significant first. -/
def toBits : ℕ → ℕ → List Bool
  | 0, _ => []
  | width + 1, value => value.testBit width :: toBits width value

/-- The number whose bits, most significant first, are given. -/
def ofBits (bits : List Bool) : ℕ :=
  bits.foldl (fun acc bit => 2 * acc + bit.toNat) 0

/-- The bits of a byte list, most significant first within each byte. -/
def byteBits (bytes : List UInt8) : List Bool :=
  bytes.flatMap fun byte => toBits 8 byte.toNat

/-! ### Fields -/

@[simp] theorem toBits_zero (value : ℕ) : toBits 0 value = [] := rfl

theorem toBits_succ (width value : ℕ) :
    toBits (width + 1) value = value.testBit width :: toBits width value := rfl

@[simp] theorem length_toBits (width value : ℕ) : (toBits width value).length = width := by
  induction width with
  | zero => rfl
  | succ width ih => simp [toBits_succ, ih]

theorem getElem?_toBits {width i : ℕ} (value : ℕ) (hi : i < width) :
    (toBits width value)[i]? = some (value.testBit (width - 1 - i)) := by
  induction width generalizing i with
  | zero => omega
  | succ width ih =>
      cases i with
      | zero => simp [toBits_succ]
      | succ i =>
          rw [toBits_succ, List.getElem?_cons_succ, ih (by omega)]
          congr 2
          omega

theorem ofBits_foldl (bits : List Bool) (acc : ℕ) :
    bits.foldl (fun acc bit => 2 * acc + bit.toNat) acc =
      acc * 2 ^ bits.length + ofBits bits := by
  induction bits generalizing acc with
  | nil => simp [ofBits]
  | cons bit bits ih =>
      have h0 := ih (2 * 0 + bit.toNat)
      have h1 := ih (2 * acc + bit.toNat)
      simp only [ofBits, List.foldl_cons, List.length_cons] at *
      rw [h1, h0]
      ring

@[simp] theorem ofBits_nil : ofBits [] = 0 := rfl

theorem ofBits_cons (bit : Bool) (bits : List Bool) :
    ofBits (bit :: bits) = bit.toNat * 2 ^ bits.length + ofBits bits := by
  have h := ofBits_foldl bits (2 * 0 + bit.toNat)
  simpa [ofBits] using h

theorem ofBits_lt (bits : List Bool) : ofBits bits < 2 ^ bits.length := by
  induction bits with
  | nil => simp
  | cons bit bits ih =>
      rw [ofBits_cons, List.length_cons, pow_succ]
      cases bit <;> simp <;> omega

/-- A field read back is its value's low bits. -/
theorem ofBits_toBits (width value : ℕ) : ofBits (toBits width value) = value % 2 ^ width := by
  induction width with
  | zero => simp [Nat.mod_one]
  | succ width ih =>
      have hbit : (value.testBit width).toNat = value / 2 ^ width % 2 := by
        rw [Nat.toNat_testBit]
      rw [toBits_succ, ofBits_cons, ih, length_toBits, hbit, Nat.mod_pow_succ]
      ring

theorem toBits_mod (width value : ℕ) : toBits width (value % 2 ^ width) = toBits width value := by
  apply List.ext_getElem?
  intro i
  by_cases hi : i < width
  · rw [getElem?_toBits _ hi, getElem?_toBits _ hi, Nat.testBit_mod_two_pow]
    simp [show width - 1 - i < width by omega]
  · rw [List.getElem?_eq_none (by simp; omega), List.getElem?_eq_none (by simp; omega)]

/-! ### Bytes -/

@[simp] theorem byteBits_nil : byteBits [] = [] := rfl

@[simp] theorem byteBits_append (xs ys : List UInt8) :
    byteBits (xs ++ ys) = byteBits xs ++ byteBits ys := by
  simp [byteBits]

theorem byteBits_cons (byte : UInt8) (bytes : List UInt8) :
    byteBits (byte :: bytes) = toBits 8 byte.toNat ++ byteBits bytes := rfl

theorem byteBits_singleton (byte : UInt8) : byteBits [byte] = toBits 8 byte.toNat := by
  simp [byteBits_cons]

@[simp] theorem length_byteBits (bytes : List UInt8) :
    (byteBits bytes).length = 8 * bytes.length := by
  induction bytes with
  | nil => rfl
  | cons byte bytes ih => simp [byteBits_cons, ih]; ring

/-- Bit `i` of a byte list is bit `7 - i % 8` of byte `i / 8`. -/
theorem getElem?_byteBits (bytes : List UInt8) {i : ℕ} (hi : i < 8 * bytes.length) :
    (byteBits bytes)[i]? = some ((bytes.getD (i / 8) 0).toNat.testBit (7 - i % 8)) := by
  induction bytes generalizing i with
  | nil => simp at hi
  | cons byte bytes ih =>
      rw [byteBits_cons]
      by_cases h8 : i < 8
      · rw [List.getElem?_append_left (by simpa using h8), getElem?_toBits _ h8]
        simp [Nat.div_eq_of_lt h8, Nat.mod_eq_of_lt h8]
      · have hi' : i - 8 < 8 * bytes.length := by simp at hi; omega
        rw [List.getElem?_append_right (by simpa using h8), length_toBits, ih hi']
        have hd : i / 8 = (i - 8) / 8 + 1 := by omega
        have hm : (i - 8) % 8 = i % 8 := by omega
        simp [hd, hm]

/-- Setting bit `7 - k` of a byte sets position `k` of its bits. -/
theorem toBits_or_two_pow (byte k : ℕ) (hk : k < 8) :
    toBits 8 (byte ||| 2 ^ (7 - k)) = (toBits 8 byte).set k true := by
  apply List.ext_getElem?
  intro i
  by_cases hi : i < 8
  · rw [getElem?_toBits _ hi, List.getElem?_set, Nat.testBit_or, Nat.testBit_two_pow]
    by_cases hki : k = i
    · subst hki
      simp [hk]
    · have hne : ¬ 7 - k = 8 - 1 - i := by omega
      simp [hki, hne, getElem?_toBits _ hi]
  · rw [List.getElem?_eq_none (by simp; omega), List.getElem?_eq_none (by simp; omega)]

end MonitoringAgent.Library

import Mathlib.Tactic

/-! # Big-endian numbers -/

namespace MonitoringAgent.Library

/-- The low `width` bytes of a number, most significant first. -/
def beBytes : ℕ → ℕ → List UInt8
  | 0, _ => []
  | width + 1, value => UInt8.ofNat (value / 256 ^ width) :: beBytes width value

/-- The number whose bytes, most significant first, are given. -/
def ofBeBytes (bytes : List UInt8) : ℕ := bytes.foldl (fun acc byte => acc * 256 + byte.toNat) 0

@[simp] theorem length_beBytes (width value : ℕ) : (beBytes width value).length = width := by
  induction width with
  | zero => rfl
  | succ width ih => simp [beBytes, ih]

theorem ofBeBytes_foldl (bytes : List UInt8) (acc : ℕ) :
    bytes.foldl (fun acc byte => acc * 256 + byte.toNat) acc =
      acc * 256 ^ bytes.length + ofBeBytes bytes := by
  induction bytes generalizing acc with
  | nil => simp [ofBeBytes]
  | cons byte bytes ih =>
      have h0 := ih (0 * 256 + byte.toNat)
      have h1 := ih (acc * 256 + byte.toNat)
      simp only [ofBeBytes, List.foldl_cons, List.length_cons] at *
      rw [h1, h0]
      ring

theorem ofBeBytes_lt (bytes : List UInt8) : ofBeBytes bytes < 256 ^ bytes.length := by
  induction bytes with
  | nil => norm_num [ofBeBytes]
  | cons byte bytes ih =>
      have hbyte : byte.toNat + 1 ≤ 256 := byte.toNat_lt
      have hsplit : ofBeBytes (byte :: bytes) = (0 * 256 + byte.toNat) *
          256 ^ bytes.length + ofBeBytes bytes :=
        ofBeBytes_foldl bytes _
      calc ofBeBytes (byte :: bytes) < (byte.toNat + 1) * 256 ^ bytes.length := by
            rw [hsplit, Nat.zero_mul, Nat.zero_add, Nat.succ_mul]
            exact Nat.add_lt_add_left ih _
        _ ≤ 256 * 256 ^ bytes.length := Nat.mul_le_mul_right _ hbyte
        _ = 256 ^ (byte :: bytes).length := by rw [List.length_cons, pow_succ, Nat.mul_comm]

theorem ofBeBytes_beBytes (width value : ℕ) :
    ofBeBytes (beBytes width value) = value % 256 ^ width := by
  induction width with
  | zero => simp [beBytes, ofBeBytes, Nat.mod_one]
  | succ width ih =>
      have hbyte : (UInt8.ofNat (value / 256 ^ width)).toNat = value / 256 ^ width % 256 := by simp
      have hfold := ofBeBytes_foldl (beBytes width value) (value / 256 ^ width % 256)
      rw [beBytes, ofBeBytes, List.foldl_cons, hbyte, zero_mul, zero_add, hfold, ih, length_beBytes,
        Nat.mod_pow_succ]
      ring

theorem beBytes_mod (width value : ℕ) :
    beBytes width (value % 256 ^ width) = beBytes width value := by
  induction width generalizing value with
  | zero => rfl
  | succ width ih =>
      have hhigh : value % 256 ^ (width + 1) / 256 ^ width = value / 256 ^ width % 256 := by
        rw [pow_succ, Nat.mod_mul_right_div_self]
      have hlow : value % 256 ^ (width + 1) % 256 ^ width = value % 256 ^ width :=
        Nat.mod_mod_of_dvd value (pow_dvd_pow 256 (Nat.le_succ width))
      rw [beBytes, beBytes, hhigh, ← ih (value % 256 ^ (width + 1)), hlow, ih]
      congr 1
      apply UInt8.toNat_inj.mp
      simp

theorem beBytes_ofBeBytes (bytes : List UInt8) :
    beBytes bytes.length (ofBeBytes bytes) = bytes := by
  induction bytes with
  | nil => rfl
  | cons byte bytes ih =>
      have hlt := ofBeBytes_lt bytes
      have hsplit : ofBeBytes (byte :: bytes) = (0 * 256 + byte.toNat) *
          256 ^ bytes.length + ofBeBytes bytes :=
        ofBeBytes_foldl bytes _
      rw [Nat.zero_mul, Nat.zero_add] at hsplit
      have hhigh : ofBeBytes (byte :: bytes) / 256 ^ bytes.length = byte.toNat := by
        rw [hsplit, Nat.add_comm, Nat.add_mul_div_right _ _ (by positivity),
          Nat.div_eq_of_lt hlt, Nat.zero_add]
      have hlow : ofBeBytes (byte :: bytes) % 256 ^ bytes.length = ofBeBytes bytes := by
        rw [hsplit, Nat.add_comm, Nat.add_mul_mod_self_right, Nat.mod_eq_of_lt hlt]
      rw [List.length_cons, beBytes, hhigh, ← beBytes_mod, hlow, ih]
      simp

theorem beBytes_inj {width a b : ℕ} (ha : a < 256 ^ width) (hb : b < 256 ^ width) :
    beBytes width a = beBytes width b ↔ a = b := by
  refine ⟨fun h => ?_, congrArg _⟩
  have hvalue := congrArg ofBeBytes h
  rwa [ofBeBytes_beBytes, ofBeBytes_beBytes, Nat.mod_eq_of_lt ha, Nat.mod_eq_of_lt hb] at hvalue

/-- A signed number as its two's-complement bytes. -/
def beBytesInt (width : ℕ) (value : ℤ) : List UInt8 :=
  beBytes width (BitVec.ofInt (8 * width) value).toNat

/-- The signed number of two's-complement bytes. -/
def ofBeBytesInt (width : ℕ) (bytes : List UInt8) : ℤ :=
  (BitVec.ofNat (8 * width) (ofBeBytes bytes)).toInt

theorem ofBeBytesInt_bounds (width : ℕ) (bytes : List UInt8) :
    -2 ^ (8 * width - 1) ≤ ofBeBytesInt width bytes ∧
    ofBeBytesInt width bytes < 2 ^ (8 * width - 1) :=
  ⟨BitVec.le_toInt _, BitVec.toInt_lt⟩

theorem ofBeBytesInt_beBytesInt {width : ℕ} {value : ℤ} (hwidth : 0 < width)
    (hlow : -2 ^ (8 * width - 1) ≤ value) (hhigh : value < 2 ^ (8 * width - 1)) :
    ofBeBytesInt width (beBytesInt width value) = value := by
  have hpow : (256 : ℕ) ^ width = 2 ^ (8 * width) := by
    rw [pow_mul]; norm_num
  have hlt := (BitVec.ofInt (8 * width) value).isLt
  have hdouble : 2 * 2 ^ (8 * width - 1) = 2 ^ (8 * width) := by
    rw [← pow_succ']
    congr 1
    omega
  have hdoubleZ : (2 : ℤ) * 2 ^ (8 * width - 1) = 2 ^ (8 * width) := by exact_mod_cast hdouble
  rw [ofBeBytesInt, beBytesInt, ofBeBytes_beBytes, hpow, Nat.mod_eq_of_lt hlt, BitVec.ofNat_toNat,
    BitVec.setWidth_eq, BitVec.toInt_ofInt]
  apply Int.bmod_eq_of_le
  · push_cast
    omega
  · push_cast
    omega

end MonitoringAgent.Library

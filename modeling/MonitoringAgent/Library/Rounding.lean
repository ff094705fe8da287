import Mathlib.Data.Rat.Floor
import Mathlib.Tactic

/-! # Rounding half away from zero -/

namespace MonitoringAgent.Library

/-- The nearest integer, exact halves away from zero. -/
def roundHalfAway (q : ℚ) : ℤ := if 0 ≤ q then ⌊q + 1 / 2⌋ else ⌈q - 1 / 2⌉

theorem roundHalfAway_neg (q : ℚ) : roundHalfAway (-q) = -roundHalfAway q := by
  rcases lt_trichotomy q 0 with h | rfl | h
  · rw [roundHalfAway, roundHalfAway, if_pos (by linarith), if_neg (by linarith), ← Int.floor_neg]
    congr 1
    ring
  · norm_num [roundHalfAway]
  · rw [roundHalfAway, roundHalfAway, if_neg (by linarith), if_pos h.le, ← Int.ceil_neg]
    congr 1
    ring

/-- Rounding a non-negative quotient in integer arithmetic: the distance from half the
divisor, rounded up, is added before dividing. -/
theorem roundHalfAway_div {sum : ℤ} {count : ℕ} (hsum : 0 ≤ sum) (hcount : 0 < count) :
    roundHalfAway (sum / count) =
      (sum + count - ((count : ℤ) / 2 + (count : ℤ) % 2)) / (count : ℤ) := by
  have hc : (0 : ℤ) < count := by exact_mod_cast hcount
  have hcq : (0 : ℚ) < count := by exact_mod_cast hcount
  have hsumq : (0 : ℚ) ≤ sum := by exact_mod_cast hsum
  rw [roundHalfAway, if_pos (by positivity), Int.floor_eq_iff]
  set n := sum + count - ((count : ℤ) / 2 + (count : ℤ) % 2) with hn
  have hlow : 2 * n ≤ 2 * sum + count := by omega
  have hhigh : 2 * sum + count ≤ 2 * n + 1 := by omega
  have hmod := Int.emod_add_mul_ediv n count
  have hnonneg := Int.emod_nonneg n hc.ne'
  have hlt := Int.emod_lt_of_pos n hc
  have hdown : 2 * (count * (n / count)) ≤ 2 * sum + count := by linarith
  have hup : 2 * sum + count < 2 * (count * (n / count + 1)) := by
    have : count * (n / count + 1) = count * (n / count) + count := by ring
    omega
  have hdownq : 2 * ((count : ℚ) * (n / count : ℤ)) ≤ 2 * sum + count := by exact_mod_cast hdown
  have hupq : (2 : ℚ) * sum + count < 2 * ((count : ℚ) * ((n / count : ℤ) + 1)) := by
    exact_mod_cast hup
  have hsplit : (sum : ℚ) / count + 1 / 2 = (2 * sum + count) / (2 * count) := by
    field_simp
  rw [hsplit]
  constructor
  · rw [le_div_iff₀ (by positivity)]
    linarith
  · rw [div_lt_iff₀ (by positivity)]
    linarith

theorem le_roundHalfAway {q : ℚ} {n : ℤ} (h : (n : ℚ) ≤ q) : n ≤ roundHalfAway q := by
  rw [roundHalfAway]
  split
  · rw [Int.le_floor]
    linarith
  next hneg =>
    have : (n - 1 : ℚ) < (⌈q - 1 / 2⌉ : ℤ) := lt_of_lt_of_le (by linarith) (Int.le_ceil _)
    have : n - 1 < ⌈q - 1 / 2⌉ := by exact_mod_cast this
    omega

theorem roundHalfAway_le {q : ℚ} {n : ℤ} (h : q ≤ n) : roundHalfAway q ≤ n := by
  have := le_roundHalfAway (q := -q) (n := -n) (by push_cast; linarith)
  rw [roundHalfAway_neg] at this
  omega

end MonitoringAgent.Library

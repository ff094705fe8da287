import Mathlib.Algebra.Order.Field.Basic
import Mathlib.Data.List.Basic
import Mathlib.Tactic.Linarith

/-! # The exact token bucket

A level that grows at a constant rate up to a capacity, and from which each success takes one. A
refusal leaves nothing behind but the passing of time, and a window lets through what the bucket
held at its start and what it gained over it. -/

namespace MonitoringAgent.Library

/-! ### Counting successes -/

section Successes

variable {α : Type}

/-- The number of successes among the times that satisfy `p`. -/
def successes (p : α → Prop) [DecidablePred p] : List α → List Bool → ℕ
  | [], _ => 0
  | _ :: _, [] => 0
  | t :: ts, ok :: oks => (if ok = true ∧ p t then 1 else 0) + successes p ts oks

theorem successes_eq_zero {p : α → Prop} [DecidablePred p] {ts : List α} (oks : List Bool)
    (h : ∀ t ∈ ts, ¬p t) : successes p ts oks = 0 := by
  induction ts generalizing oks with
  | nil => rfl
  | cons t ts ih =>
      cases oks with
      | nil => rfl
      | cons ok oks =>
          rw [successes, if_neg fun hok => h t List.mem_cons_self hok.2,
            ih oks fun s hs => h s (List.mem_cons_of_mem t hs)]

theorem successes_congr {p q : α → Prop} [DecidablePred p] [DecidablePred q] {ts : List α}
    (oks : List Bool) (h : ∀ t ∈ ts, (p t ↔ q t)) : successes p ts oks = successes q ts oks := by
  induction ts generalizing oks with
  | nil => rfl
  | cons t ts ih =>
      cases oks with
      | nil => rfl
      | cons ok oks =>
          rw [successes, successes, ih oks fun s hs => h s (List.mem_cons_of_mem t hs)]
          simp only [h t List.mem_cons_self]

theorem successes_map {β : Type} {p : α → Prop} [DecidablePred p] {q : β → Prop} [DecidablePred q]
    {f : β → α} (h : ∀ b, p (f b) ↔ q b) (ts : List β) (oks : List Bool) :
    successes p (ts.map f) oks = successes q ts oks := by
  induction ts generalizing oks with
  | nil => rfl
  | cons t ts ih =>
      cases oks with
      | nil => rfl
      | cons ok oks =>
          rw [List.map_cons, successes, successes, ih]
          simp only [h]

theorem head_le [Preorder α] {t : α} {ts : List α} (hsorted : (t :: ts).Pairwise (· ≤ ·)) :
    ∀ s ∈ t :: ts, t ≤ s := by
  intro s hs
  rcases List.mem_cons.mp hs with rfl | hs
  · exact le_rfl
  · exact (List.pairwise_cons.mp hsorted).1 s hs

end Successes

/-! ### The bucket -/

variable {K : Type} [Field K] [LinearOrder K]

/-- What a bucket holds at an instant. -/
structure Bucket (K : Type) where
  level : K
  clock : K

namespace Bucket

/-- By `t` it has gained one per period, up to the capacity. -/
def advance (capacity period : K) (b : Bucket K) (t : K) : Bucket K :=
  ⟨min capacity (b.level + (t - b.clock) / period), t⟩

def spend (b : Bucket K) : Bucket K := ⟨b.level - 1, b.clock⟩

/-- What is left after asking for one at `t`. -/
def after (capacity period : K) (b : Bucket K) (t : K) : Bucket K :=
  let full := b.advance capacity period t
  if 1 ≤ full.level then full.spend else full

/-- For each time in turn, whether the bucket held one. -/
def outcomes (capacity period : K) (b : Bucket K) : List K → List Bool
  | [] => []
  | t :: ts => decide (1 ≤ (b.advance capacity period t).level) :: outcomes capacity period
      (b.after capacity period t) ts

variable {capacity period : K} {b : Bucket K}

@[simp] theorem advance_clock (t : K) : (b.advance capacity period t).clock = t := rfl

@[simp] theorem after_clock (t : K) : (b.after capacity period t).clock = t := by
  rw [after]
  split_ifs <;> rfl

theorem advance_level_le (t : K) : (b.advance capacity period t).level ≤ capacity := min_le_left _ _

theorem after_of_success {t : K} (h : 1 ≤ (b.advance capacity period t).level) :
    b.after capacity period t = (b.advance capacity period t).spend :=
  if_pos h

theorem after_of_refusal {t : K} (h : ¬1 ≤ (b.advance capacity period t).level) :
    b.after capacity period t = b.advance capacity period t :=
  if_neg h

/-- Asking costs what it lets through. -/
theorem after_level (t : K) : (b.after capacity period t).level =
    (b.advance capacity period t).level - if 1 ≤ (b.advance capacity period t).level
      then 1 else 0 := by
  rw [after]
  split_ifs
  · rfl
  · exact (sub_zero _).symm

variable [IsStrictOrderedRing K]

/-! ### A refusal leaves nothing behind -/

/-- Gaining in two steps is gaining in one. -/
theorem advance_advance (hperiod : 0 < period) {s t : K} (hst : s ≤ t) :
    (b.advance capacity period s).advance capacity period t = b.advance capacity period t := by
  have hgain : 0 ≤ (t - s) / period := div_nonneg (sub_nonneg.mpr hst) hperiod.le
  have hsplit : b.level + (s - b.clock) / period + (t - s) / period =
      b.level + (t - b.clock) / period := by
    rw [add_assoc, ← add_div, sub_add_sub_cancel']
  rw [advance, advance, advance, Bucket.mk.injEq]
  dsimp only
  refine ⟨?_, rfl⟩
  rw [← min_add_add_right, hsplit, ← min_assoc, min_eq_left (le_add_of_nonneg_right hgain)]

theorem outcomes_advance (hperiod : 0 < period) {s : K} {ts : List K} (hts : ∀ t ∈ ts, s ≤ t) :
    (b.advance capacity period s).outcomes capacity period ts = b.outcomes capacity period ts := by
  cases ts with
  | nil => rfl
  | cons t ts =>
      rw [outcomes, outcomes, after, after, advance_advance hperiod (hts t List.mem_cons_self)]

/-- Not asking where it was refused leaves every other outcome. -/
theorem outcomes_eraseIdx (hperiod : 0 < period) {ts : List K} (hsorted : ts.Pairwise (· ≤ ·))
    {i : ℕ} (hrefused : (b.outcomes capacity period ts)[i]? = some false) :
    b.outcomes capacity period (ts.eraseIdx i) = (b.outcomes capacity period ts).eraseIdx i := by
  induction ts generalizing b i with
  | nil => cases hrefused
  | cons t ts ih =>
      obtain ⟨hhead, htail⟩ := List.pairwise_cons.mp hsorted
      cases i with
      | zero =>
          rw [outcomes, List.getElem?_cons_zero, Option.some_inj,
            decide_eq_false_iff_not] at hrefused
          rw [List.eraseIdx_cons_zero, outcomes, List.eraseIdx_cons_zero, after_of_refusal hrefused,
            outcomes_advance hperiod hhead]
      | succ i =>
          rw [outcomes, List.getElem?_cons_succ] at hrefused
          rw [List.eraseIdx_cons_succ, outcomes, outcomes,
            List.eraseIdx_cons_succ, ih htail hrefused]

/-! ### What a window lets through -/

theorem after_level_nonneg (hcapacity : 0 ≤ capacity) (hperiod : 0 < period) (hlevel : 0 ≤ b.level)
    {t : K} (ht : b.clock ≤ t) : 0 ≤ (b.after capacity period t).level := by
  have hgain : 0 ≤ (t - b.clock) / period := div_nonneg (sub_nonneg.mpr ht) hperiod.le
  have hadvance : 0 ≤ (b.advance capacity period t).level :=
    le_min hcapacity (add_nonneg hlevel hgain)
  rw [after_level]
  split_ifs <;> linarith

/-- Up to an instant, no more succeed than what it held and what it gained. -/
theorem successes_le (hcapacity : 0 ≤ capacity) (hperiod : 0 < period) {ts : List K}
    (hsorted : (b.clock :: ts).Pairwise (· ≤ ·)) (hlevel : 0 ≤ b.level) {last : K}
    (hlast : b.clock ≤ last) :
    (successes (· ≤ last) ts (b.outcomes capacity period ts) : K) ≤ b.level +
      (last - b.clock) / period := by
  induction ts generalizing b with
  | nil =>
      rw [successes, Nat.cast_zero]
      exact add_nonneg hlevel (div_nonneg (sub_nonneg.mpr hlast) hperiod.le)
  | cons t ts ih =>
      obtain ⟨hhead, htail⟩ := List.pairwise_cons.mp hsorted
      have ht : b.clock ≤ t := hhead t List.mem_cons_self
      by_cases hle : t ≤ last
      · have hrest := ih (b := b.after capacity period t) (by rwa [after_clock])
          (after_level_nonneg hcapacity hperiod hlevel ht) (by rwa [after_clock])
        have hgained : (b.advance capacity period t).level ≤ b.level + (t - b.clock) / period :=
          min_le_right _ _
        have hsplit : (t - b.clock) / period + (last - t) / period = (last - b.clock) / period := by
          rw [← add_div, sub_add_sub_cancel']
        rw [after_level, after_clock] at hrest
        rw [outcomes, successes, Nat.cast_add]
        simp only [decide_eq_true_eq, hle, and_true]
        split_ifs at hrest ⊢ <;> push_cast <;> linarith
      · rw [successes_eq_zero _ fun s hs hslast => hle ((head_le htail s hs).trans hslast),
          Nat.cast_zero]
        exact add_nonneg hlevel (div_nonneg (sub_nonneg.mpr hlast) hperiod.le)

/-- A window lets through what the bucket holds at most and what it gains over the window. -/
theorem successes_window_le (hcapacity : 0 ≤ capacity) (hperiod : 0 < period) {ts : List K}
    (hsorted : (b.clock :: ts).Pairwise (· ≤ ·)) (hlevel : 0 ≤ b.level) (start : K) {width : K}
    (hwidth : 0 ≤ width) :
    (successes (fun t => start ≤ t ∧ t ≤ start + width) ts (b.outcomes capacity period ts) : K) ≤
      capacity + width / period := by
  induction ts generalizing b with
  | nil =>
      rw [successes, Nat.cast_zero]
      exact add_nonneg hcapacity (div_nonneg hwidth hperiod.le)
  | cons t ts ih =>
      obtain ⟨hhead, htail⟩ := List.pairwise_cons.mp hsorted
      have ht : b.clock ≤ t := hhead t List.mem_cons_self
      by_cases hstart : start ≤ t
      · -- From the first time in the window on, only its end matters.
        rw [successes_congr _ fun s hs => and_iff_right (hstart.trans (head_le htail s hs))]
        by_cases hlast : t ≤ start + width
        · have hfull : 0 ≤ (b.advance capacity period t).level :=
            le_min hcapacity (add_nonneg hlevel (div_nonneg (sub_nonneg.mpr ht) hperiod.le))
          have hsorted : ((b.advance capacity period t).clock :: t :: ts).Pairwise (· ≤ ·) :=
            List.pairwise_cons.mpr ⟨head_le htail, htail⟩
          have huntil := successes_le hcapacity hperiod hsorted hfull hlast
          have hgained : (start + width - t) / period ≤ width / period :=
            div_le_div_of_nonneg_right (by linarith) hperiod.le
          rw [outcomes_advance hperiod (head_le htail), advance_clock] at huntil
          have hadvance : (b.advance capacity period t).level ≤ capacity := b.advance_level_le t
          linarith
        · rw [successes_eq_zero _ fun s hs hslast => hlast ((head_le htail s hs).trans hslast),
            Nat.cast_zero]
          exact add_nonneg hcapacity (div_nonneg hwidth hperiod.le)
      · rw [outcomes, successes, if_neg fun h => hstart h.2.1, Nat.zero_add]
        exact ih (by rwa [after_clock]) (after_level_nonneg hcapacity hperiod hlevel ht)

end Bucket

end MonitoringAgent.Library

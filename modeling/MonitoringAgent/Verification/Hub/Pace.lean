import MonitoringAgent.Model.Hub.Applications

/-! # What a token bucket allows

Whatever a bucket lets through in a window of time is at most its capacity, and one more for each
period of the window. -/

namespace MonitoringAgent.Hub.TokenBucket

/-- How many of the times are in the window of `width` from `start`, its ends included. -/
def inWindow (times : List ℕ) (start width : ℕ) : ℕ :=
  (times.filter fun time => start ≤ time ∧ time ≤ start + width).length

/-- How many of the times are at or after `start`. -/
def since (times : List ℕ) (start : ℕ) : ℕ := (times.filter fun time => start ≤ time).length

/-- The bucket after it let the times through, the last at `clock` at the latest. -/
structure Paced (b : TokenBucket) (times : List ℕ) (clock : ℕ) : Prop where
  tokens_le : b.tokens ≤ b.refill.capacity
  lastRefill_le : b.lastRefill ≤ clock
  times_le : ∀ time ∈ times, time ≤ clock
  /-- What was let through since the first of them was refilled since, but for a full bucket. -/
  budget : ∀ start, 0 < since times start →
    b.refill.period * (since times start + b.tokens) + start ≤
      b.refill.period * b.refill.capacity + b.lastRefill
  window : ∀ start width, inWindow times start width ≤ b.refill.capacity + width / b.refill.period

theorem since_append (times : List ℕ) (now start : ℕ) :
    since (times ++ [now]) start = since times start + if start ≤ now then 1 else 0 := by
  rw [since, List.filter_append, List.length_append, since]
  split_ifs with h
  · rw [List.filter_cons_of_pos (by simpa using h)]
    rfl
  · rw [List.filter_cons_of_neg (by simpa using h)]
    rfl

theorem inWindow_append (times : List ℕ) (now start width : ℕ) :
    inWindow (times ++ [now]) start width =
      inWindow times start width + if start ≤ now ∧ now ≤ start + width then 1 else 0 := by
  rw [inWindow, List.filter_append, List.length_append, inWindow]
  split_ifs with h
  · rw [List.filter_cons_of_pos (by simpa using h)]
    rfl
  · rw [List.filter_cons_of_neg (by simpa using h)]
    rfl

theorem inWindow_le_since (times : List ℕ) (start width : ℕ) :
    inWindow times start width ≤ since times start := by
  refine (List.monotone_filter_right times fun time h => ?_).length_le
  simp only [decide_eq_true_eq] at h ⊢
  exact h.1

theorem since_eq_zero {times : List ℕ} {start : ℕ} (h : ∀ time ∈ times, time < start) :
    since times start = 0 := by
  rw [since, List.length_eq_zero_iff, List.filter_eq_nil_iff]
  intro time htime
  simpa using h time htime

theorem paced_full (refill : Refill) (now : ℕ) : Paced (full refill now) [] now where
  tokens_le := le_rfl
  lastRefill_le := le_rfl
  times_le := by simp
  budget start h := absurd h (by simp [since])
  window start width := Nat.zero_le _

theorem Paced.mono {b : TokenBucket} {times : List ℕ} {clock clock' : ℕ} (h : Paced b times clock)
    (hle : clock ≤ clock') : Paced b times clock' :=
  { h with
    lastRefill_le := h.lastRefill_le.trans hle
    times_le := fun time htime => (h.times_le time htime).trans hle }

/-- A refill adds at most a token for each period since the last, and at most fills the bucket. -/
theorem refilled_spec {b : TokenBucket} {now : ℕ} (htokens : b.tokens ≤ b.refill.capacity)
    (hlast : b.lastRefill ≤ now) (hperiod : 0 < b.refill.period) :
    (b.refilled now).refill = b.refill ∧ (b.refilled now).tokens ≤ b.refill.capacity ∧
      (b.refilled now).lastRefill ≤ now ∧
      b.refill.period * (b.refilled now).tokens + b.lastRefill ≤
        b.refill.period * b.tokens + (b.refilled now).lastRefill ∧
      b.refill.period * (b.refilled now).tokens + now ≤
        b.refill.period * b.refill.capacity + (b.refilled now).lastRefill := by
  have hwhole := Nat.mul_div_le (now - b.lastRefill) b.refill.period
  have hpart := Nat.lt_mul_div_succ (now - b.lastRefill) hperiod
  have hcapacity := b.refill.capacityPos.2
  rw [refilled]
  -- An instant is a number of nanoseconds.
  unfold Instant at *
  generalize hperiods : (now - b.lastRefill) / b.refill.period = periods at hwhole hpart ⊢
  have hmissing : b.refill.period * (b.refill.capacity - b.tokens) + b.refill.period * b.tokens =
      b.refill.period * b.refill.capacity := by
    rw [← Nat.mul_add, Nat.sub_add_cancel htokens]
  split_ifs with hfew
  · obtain ⟨-, -, hfew⟩ := hfew
    have hroom : b.refill.period * (periods + 1) ≤
        b.refill.period * (b.refill.capacity - b.tokens) :=
      Nat.mul_le_mul_left b.refill.period hfew
    dsimp only
    rw [Nat.mul_add]
    refine ⟨rfl, by omega, by omega, by omega, by omega⟩
  · have hfilled : b.refill.capacity - b.tokens ≤ periods := by omega
    have hroom := Nat.mul_le_mul_left b.refill.period hfilled
    dsimp only
    refine ⟨rfl, le_rfl, by omega, by omega, by omega⟩

/-- A time that is let through keeps the pace. -/
theorem Paced.take {b b' : TokenBucket} {times : List ℕ} {clock now : ℕ} (h : Paced b times clock)
    (hperiod : 0 < b.refill.period) (hclock : clock ≤ now) (htake : b.take now = some b') :
    b'.refill = b.refill ∧ Paced b' (times ++ [now]) now := by
  obtain ⟨hrefill, htokens, hlast, hgained, hfull⟩ :=
    refilled_spec h.tokens_le (h.lastRefill_le.trans hclock) hperiod
  rw [TokenBucket.take] at htake
  split_ifs at htake with hempty
  obtain rfl := Option.some.inj htake
  refine ⟨hrefill, ?_⟩
  have hle : ∀ time ∈ times ++ [now], time ≤ now := by
    intro time htime
    rcases List.mem_append.mp htime with htime | htime
    · exact (h.times_le time htime).trans hclock
    · exact (List.mem_singleton.mp htime).le
  -- What was spent and what is left is what the refills since the first spending gave.
  have hbudget : ∀ start, 0 < since (times ++ [now]) start →
      b.refill.period * (since (times ++ [now]) start + ((b.refilled now).tokens - 1)) + start ≤
        b.refill.period * b.refill.capacity + (b.refilled now).lastRefill := by
    intro start hsince
    have hstart : start ≤ now := by
      by_contra hlt
      rw [since_eq_zero fun time htime => lt_of_le_of_lt (hle time htime) (not_le.mp hlt)] at hsince
      exact absurd hsince (lt_irrefl 0)
    rw [since_append, if_pos hstart]
    have hcount : since times start + 1 + ((b.refilled now).tokens - 1) =
        since times start + (b.refilled now).tokens := by omega
    rw [hcount, Nat.mul_add]
    rcases Nat.eq_zero_or_pos (since times start) with hzero | hpos
    · rw [hzero, Nat.mul_zero]
      omega
    · have hbefore := h.budget start hpos
      rw [Nat.mul_add] at hbefore
      omega
  refine ⟨?_, hlast, hle, ?_, ?_⟩
  · dsimp only
    rw [hrefill]
    omega
  · dsimp only
    rw [hrefill]
    exact hbudget
  · dsimp only
    rw [hrefill]
    intro start width
    rw [inWindow_append]
    split_ifs with hin
    · have hsince : since (times ++ [now]) start = since times start + 1 := by
        rw [since_append, if_pos hin.1]
      have hspent := (hbudget start (by omega)).trans (Nat.add_le_add_left hlast _)
      rw [hsince, Nat.mul_add] at hspent
      have hwidth : b.refill.period * (since times start + 1) ≤
          b.refill.period * b.refill.capacity + width := by
        omega
      have hcount : since times start + 1 ≤ b.refill.capacity + width / b.refill.period := by
        rw [← Nat.mul_add_div hperiod, Nat.le_div_iff_mul_le hperiod, Nat.mul_comm]
        exact hwidth
      exact (Nat.add_le_add_right (inWindow_le_since times start width) 1).trans hcount
    · exact h.window start width

end MonitoringAgent.Hub.TokenBucket

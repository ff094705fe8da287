import MonitoringAgent.Model.Hub.Applications

/-! # When a token bucket lets a message through

A bucket is as empty as the time it takes to fill is long: a message gets through when that is at
most all its tokens but one, and puts it off by a period. -/

namespace MonitoringAgent.Hub.TokenBucket

/-- When the bucket is full again, if nothing is taken. -/
def fullAt (b : TokenBucket) : ℕ := b.lastRefill + b.refill.period * (b.refill.capacity - b.tokens)

theorem fullAt_full (refill : Refill) (now : ℕ) : (full refill now).fullAt = now := by
  simp [full, fullAt]

/-- A token spent puts it off by a period. -/
theorem fullAt_spent {b : TokenBucket} (htokens : b.tokens ≤ b.refill.capacity)
    (hsome : b.tokens ≠ 0) :
    fullAt { b with tokens := b.tokens - 1 } = b.fullAt + b.refill.period := by
  have hone : b.refill.capacity - (b.tokens - 1) = b.refill.capacity - b.tokens + 1 := by omega
  simp only [fullAt]
  rw [hone, Nat.mul_add, Nat.mul_one, Nat.add_assoc]

/-- A refill that doesn't fill the bucket leaves less than a period behind it. -/
theorem refilled_cases {b : TokenBucket} (htokens : b.tokens ≤ b.refill.capacity)
    (hperiod : 0 < b.refill.period) (now : ℕ) :
    (b.refilled now).refill = b.refill ∧ (b.refilled now).tokens ≤ b.refill.capacity ∧
      (b.refilled now).fullAt = max now b.fullAt ∧
      ((b.refilled now).tokens = b.refill.capacity ∨
        now < (b.refilled now).lastRefill + b.refill.period) := by
  have hwhole := Nat.mul_div_le (now - b.lastRefill) b.refill.period
  have hpart := Nat.lt_mul_div_succ (now - b.lastRefill) hperiod
  have hcapacity := b.refill.capacityPos.2
  simp only [refilled, fullAt]
  -- An instant is a number of nanoseconds.
  unfold Instant at *
  generalize hperiods : (now - b.lastRefill) / b.refill.period = periods at hwhole hpart ⊢
  split_ifs with hfew
  · obtain ⟨-, -, hfew⟩ := hfew
    have hleft : b.refill.period * (b.refill.capacity - b.tokens) =
        b.refill.period * periods + b.refill.period *
          (b.refill.capacity - (b.tokens + periods)) := by
      rw [← Nat.mul_add]
      congr 1
      omega
    have hroom : b.refill.period * (periods + 1) ≤
        b.refill.period * (b.refill.capacity - b.tokens) :=
      Nat.mul_le_mul_left b.refill.period hfew
    rw [Nat.mul_add] at hpart hroom
    dsimp only
    refine ⟨rfl, by omega, by omega, .inr (by omega)⟩
  · have hfilled : b.refill.capacity - b.tokens ≤ periods := by omega
    have hroom := Nat.mul_le_mul_left b.refill.period hfilled
    dsimp only
    rw [Nat.sub_self, Nat.mul_zero]
    refine ⟨rfl, le_rfl, ?_, .inl rfl⟩
    rcases Nat.eq_zero_or_pos (b.refill.period * (b.refill.capacity - b.tokens)) with hzero | hpos
    · rw [hzero, Nat.add_zero, Nat.add_zero]
    · omega

/-- A message that comes at most a capacity but one of periods before the bucket is full gets
through. -/
theorem take_spec {b : TokenBucket} (htokens : b.tokens ≤ b.refill.capacity)
    (hperiod : 0 < b.refill.period) {now : ℕ}
    (hdue : b.fullAt ≤ now + b.refill.period * (b.refill.capacity - 1)) :
    ∃ b', b.take now = some b' ∧ b'.refill = b.refill ∧ b'.tokens ≤ b.refill.capacity ∧
      b'.fullAt = max now b.fullAt + b.refill.period := by
  obtain ⟨hrefill, hle, hfull, hlast⟩ := refilled_cases htokens hperiod now
  have hcapacity := b.refill.capacityPos.1
  have hsplit : b.refill.period * b.refill.capacity =
      b.refill.period * (b.refill.capacity - 1) + b.refill.period := by
    rw [← Nat.mul_succ, Nat.succ_eq_add_one, Nat.sub_add_cancel hcapacity]
  have hsome : (b.refilled now).tokens ≠ 0 := by
    intro hempty
    rcases hlast with hlast | hlast
    · omega
    · rw [fullAt, hrefill, hempty, Nat.sub_zero] at hfull
      unfold Instant at *
      omega
  refine ⟨{ b.refilled now with tokens := (b.refilled now).tokens - 1 }, ?_, hrefill, by
    dsimp only; omega, ?_⟩
  · rw [take, if_neg hsome]
  · rw [fullAt_spent (by rwa [hrefill]) hsome, hfull, hrefill]

end MonitoringAgent.Hub.TokenBucket

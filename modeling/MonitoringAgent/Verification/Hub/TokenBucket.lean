import Mathlib.Algebra.Order.Floor.Semifield
import Mathlib.Data.Rat.Cast.Order
import Mathlib.Tactic.FieldSimp
import MonitoringAgent.Library.Bucket
import MonitoringAgent.Model.Hub.TokenBucket
import MonitoringAgent.Verification.Hub.Budget
import MonitoringAgent.Verification.Hub.Pace

/-! # The token bucket is the exact one

The bucket in the code holds whole tokens and the instant of its last refill. Taken as an exact
bucket at that instant, it stays one: a refill drops nothing the exact bucket keeps, and on machine
words none of it overflows. -/

namespace MonitoringAgent.Hub.TokenBucket

open MonitoringAgent.Library

/-- The exact bucket at the last refill. -/
def exact (b : TokenBucket) : Bucket ℚ := ⟨b.tokens, b.lastRefill⟩

/-- The exact bucket at `now`. -/
def exactAt (b : TokenBucket) (now : Instant) : Bucket ℚ :=
  b.exact.advance b.refill.capacity b.refill.period now

/-- The outcomes of takes by the exact bucket. -/
def exactOutcomes (b : TokenBucket) (times : List Instant) : List Bool :=
  b.exact.outcomes (b.refill.capacity : ℚ) (b.refill.period : ℚ)
    (times.map fun now : ℕ => (now : ℚ))

/-! ### The exact bucket by when it is full -/

/-- The exact bucket is short of full by the time until it is. -/
theorem exactAt_eq {b : TokenBucket} (htokens : b.tokens ≤ b.refill.capacity)
    (hperiod : 0 < b.refill.period) (now : Instant) :
    b.exactAt now = ⟨b.refill.capacity - ((max now b.fullAt : ℕ) - (now : ℚ)) / b.refill.period,
      now⟩ := by
  have hperiod' : (0 : ℚ) < b.refill.period := by exact_mod_cast hperiod
  have hfull : (b.fullAt : ℚ) = b.lastRefill + b.refill.period *
      (b.refill.capacity - b.tokens) := by
    rw [fullAt, Nat.cast_add, Nat.cast_mul, Nat.cast_sub htokens]
  have hheld : (b.tokens : ℚ) + (now - b.lastRefill) / b.refill.period =
      b.refill.capacity - (b.fullAt - now) / b.refill.period := by
    rw [hfull]
    field_simp
    ring
  rw [exactAt, Bucket.advance, exact]
  dsimp only
  rw [hheld, Nat.cast_max]
  congr 1
  rcases le_total (now : ℚ) b.fullAt with hle | hle
  · rw [max_eq_right hle, min_eq_right
      (sub_le_self _ (div_nonneg (sub_nonneg.mpr hle) hperiod'.le))]
  · rw [max_eq_left hle, sub_self, zero_div, sub_zero, min_eq_left]
    linarith [div_nonpos_of_nonpos_of_nonneg (sub_nonpos.mpr hle) hperiod'.le]

/-- A refill only writes down what was gained. -/
theorem refilled_exactAt {b : TokenBucket} (htokens : b.tokens ≤ b.refill.capacity)
    (hperiod : 0 < b.refill.period) (now : Instant) :
    (b.refilled now).exactAt now = b.exactAt now := by
  obtain ⟨hrefill, hle, hfull, -⟩ := refilled_cases htokens hperiod now
  rw [exactAt_eq (by rwa [hrefill]) (by rwa [hrefill]), exactAt_eq htokens hperiod, hrefill, hfull,
    max_eq_right (le_max_left now b.fullAt)]

/-- A take succeeds when the exact bucket holds one, and leaves the exact bucket with one less. -/
theorem take_exact {b : TokenBucket} (htokens : b.tokens ≤ b.refill.capacity)
    (hperiod : 0 < b.refill.period) {now : Instant} (hlast : b.lastRefill ≤ now) :
    b.take now = none ∧ ¬1 ≤ (b.exactAt now).level ∨
      ∃ b', b.take now = some b' ∧ 1 ≤ (b.exactAt now).level ∧ b'.refill = b.refill ∧
        b'.tokens ≤ b.refill.capacity ∧ b'.lastRefill ≤ now ∧
        b'.exactAt now = (b.exactAt now).spend := by
  obtain ⟨hrefill, hle, hfull, hpart⟩ := refilled_cases htokens hperiod now
  have hlast' := (refilled_spec htokens hlast hperiod).2.2.1
  have hperiod' : (0 : ℚ) < b.refill.period := by exact_mod_cast hperiod
  have hcapacity := b.refill.capacityPos.1
  have helapsed : (0 : ℚ) ≤ (now - (b.refilled now).lastRefill) / b.refill.period :=
    div_nonneg (sub_nonneg.mpr (by exact_mod_cast hlast')) hperiod'.le
  have hlevel : (b.exactAt now).level = min (b.refill.capacity : ℚ)
      ((b.refilled now).tokens + (now - (b.refilled now).lastRefill) / b.refill.period) := by
    rw [← refilled_exactAt htokens hperiod, exactAt, hrefill, Bucket.advance, exact]
  by_cases hempty : (b.refilled now).tokens = 0
  · refine .inl ⟨if_pos hempty, fun hone => ?_⟩
    rw [hlevel, hempty, Nat.cast_zero, zero_add, le_min_iff, le_div_iff₀ hperiod', one_mul,
      le_sub_iff_add_le'] at hone
    have hwhole : (b.refilled now).lastRefill + b.refill.period ≤ now := by exact_mod_cast hone.2
    rcases hpart with hpart | hpart
    · omega
    · exact absurd hwhole (not_le.mpr hpart)
  · have hone : (1 : ℚ) ≤ (b.refilled now).tokens := by
      exact_mod_cast Nat.one_le_iff_ne_zero.mpr hempty
    have hcap : (1 : ℚ) ≤ b.refill.capacity := by exact_mod_cast hcapacity
    refine .inr ⟨_, if_neg hempty, ?_, hrefill, by dsimp only; omega, hlast', ?_⟩
    · rw [hlevel]
      exact le_min hcap (by linarith)
    · have hspent := fullAt_spent (b := b.refilled now) (by rwa [hrefill]) hempty
      rw [hfull] at hspent
      rw [exactAt_eq (by dsimp only; rw [hrefill]; omega) (by dsimp only; rwa [hrefill]),
        exactAt_eq htokens hperiod, hspent, max_eq_right (le_add_right (le_max_left now b.fullAt)),
        Bucket.spend]
      dsimp only
      rw [hrefill, Nat.cast_add, add_sub_right_comm, add_div,
        div_self hperiod'.ne', sub_add_eq_sub_sub]

/-! ### On machine words -/

namespace Checked

/-- No step of a refill leaves its words. -/
theorem refilled_eq {latest : Instant} {b : TokenBucket} {now : Instant}
    (hlatest : latest < durationEnd) (htokens : b.tokens ≤ b.refill.capacity)
    (hlast : b.lastRefill ≤ now) (hnow : now ≤ latest) :
    refilled latest b now = .ok (b.refilled now) := by
  have hcapacity := b.refill.capacityPos.2
  rw [refilled, TokenBucket.refilled, periodsIn]
  by_cases hperiod : b.refill.period = 0
  · rw [if_pos hperiod, if_neg fun h => h.1 hperiod]
  · rw [if_neg hperiod]
    dsimp only
    by_cases hfew : (now - b.lastRefill) / b.refill.period < 2 ^ 8 ∧
        (now - b.lastRefill) / b.refill.period < b.refill.capacity - b.tokens
    · have hwhole := Nat.mul_div_le (now - b.lastRefill) b.refill.period
      unfold Instant at *
      rw [if_pos hfew, if_pos ⟨hperiod, hfew⟩, addWord_eq (by omega), except_ok_bind, mulDuration,
        if_pos (by omega), except_ok_bind, addInstant, if_pos (by omega), except_ok_bind]
      rfl
    · rw [if_neg hfew, if_neg fun h => hfew h.2]

theorem take_eq {latest : Instant} {b : TokenBucket} {now : Instant}
    (hlatest : latest < durationEnd) (htokens : b.tokens ≤ b.refill.capacity)
    (hlast : b.lastRefill ≤ now) (hnow : now ≤ latest) :
    take latest b now = match b.take now with
      | some b' => .ok b'
      | none => .error (.refused .empty) := by
  rw [take, refilled_eq hlatest htokens hlast hnow, TokenBucket.take]
  simp only [except_ok_bind]
  split_ifs <;> rfl

/-! ### Runs -/

/-- The takes succeed as the exact bucket says. -/
theorem takes_exact {latest : Instant} (hlatest : latest < durationEnd) {times : List Instant}
    {b : TokenBucket} (hsorted : (b.lastRefill :: times).Pairwise (· ≤ ·))
    (hle : ∀ now ∈ times, now ≤ latest) (htokens : b.tokens ≤ b.refill.capacity)
    (hperiod : 0 < b.refill.period) : takes latest b times = .ok (b.exactOutcomes times) := by
  have hperiod' : (0 : ℚ) < b.refill.period := by exact_mod_cast hperiod
  induction times generalizing b with
  | nil => rfl
  | cons now times ih =>
      obtain ⟨hhead, htail⟩ := List.pairwise_cons.mp hsorted
      obtain ⟨hnow, htimes⟩ := List.pairwise_cons.mp htail
      have hlast : b.lastRefill ≤ now := hhead now List.mem_cons_self
      have hrest : ∀ t ∈ times.map fun now : ℕ => (now : ℚ), (now : ℚ) ≤ t := by
        intro t ht
        obtain ⟨later, hlater, rfl⟩ := List.mem_map.mp ht
        exact Nat.cast_le.mpr (hnow later hlater)
      have hle' : ∀ now ∈ times, now ≤ latest := fun later hlater =>
        hle later (List.mem_cons_of_mem now hlater)
      rw [takes, take_eq hlatest htokens hlast (hle now List.mem_cons_self), exactOutcomes,
        List.map_cons, Bucket.outcomes]
      rcases take_exact htokens hperiod hlast with ⟨hnone, hempty⟩
        | ⟨b', hsome, hone, hrefill, htokens', hlast', hspent⟩
      · rw [exactAt] at hempty
        rw [hnone, decide_eq_false hempty, Bucket.after_of_refusal hempty,
          Bucket.outcomes_advance hperiod' hrest]
        dsimp only
        rw [ih (List.pairwise_cons.mpr ⟨fun t ht => hhead t (List.mem_cons_of_mem now ht), htimes⟩)
          hle' htokens hperiod hperiod']
        rfl
      · rw [exactAt] at hone hspent
        rw [exactAt, hrefill] at hspent
        rw [hsome, decide_eq_true hone, Bucket.after_of_success hone, ← hspent,
          Bucket.outcomes_advance hperiod' hrest]
        dsimp only
        rw [ih (List.pairwise_cons.mpr ⟨fun t ht => hlast'.trans (hnow t ht), htimes⟩) hle'
          (by rwa [hrefill]) (by rwa [hrefill]) (by rwa [hrefill]), exactOutcomes, hrefill]
        rfl

/-- A bucket with a zero period never refuses. -/
theorem takes_zero (latest : Instant) {b : TokenBucket} (hperiod : b.refill.period = 0)
    (times : List Instant) : takes latest b times = .ok (times.map fun _ => true) := by
  induction times generalizing b with
  | nil => rfl
  | cons now times ih =>
      have hfilled : b.refill.capacity ≠ 0 := b.refill.capacityPos.1.ne'
      have htake : take latest b now =
          .ok { b with tokens := b.refill.capacity - 1, lastRefill := max now b.lastRefill } := by
        rw [take, refilled, periodsIn, if_pos hperiod, except_ok_bind, if_neg hfilled]
        rfl
      have hrest := ih (b :=
        { b with tokens := b.refill.capacity - 1, lastRefill := max now b.lastRefill }) hperiod
      rw [takes, htake]
      dsimp only
      rw [hrest]
      rfl

/-- A window lets through at most the capacity and one for each period of its length. -/
theorem exact_window_le {refill : Refill} {start : Instant} {times : List Instant}
    (hsorted : (start :: times).Pairwise (· ≤ ·)) (hperiod : 0 < refill.period) (first width : ℕ) :
    successes (fun t => first ≤ t ∧ t ≤ first + width) times
      ((full refill start).exactOutcomes times) ≤
      refill.capacity + width / refill.period := by
  have hperiod' : (0 : ℚ) < refill.period := by exact_mod_cast hperiod
  have hsorted' : ((start : ℚ) :: times.map fun now : ℕ => (now : ℚ)).Pairwise (· ≤ ·) := by
    rw [← List.map_cons (f := fun now : ℕ => (now : ℚ)), List.pairwise_map]
    exact hsorted.imp fun h => Nat.cast_le.mpr h
  have hbound := Bucket.successes_window_le (b := (full refill start).exact)
    (Nat.cast_nonneg refill.capacity) hperiod'
    hsorted' (Nat.cast_nonneg _) (first : ℚ) (Nat.cast_nonneg width)
  have hwindow (now : ℕ) : (first : ℚ) ≤ now ∧ (now : ℚ) ≤ first + width ↔ first ≤ now ∧
      now ≤ first + width := by
    norm_cast
  rw [successes_map hwindow, add_comm (refill.capacity : ℚ)] at hbound
  have hfloor := Nat.le_floor hbound
  rw [Nat.floor_add_natCast (by positivity), Nat.floor_div_eq_div] at hfloor
  exact hfloor.trans (Nat.add_comm _ _).le

/-- The token bucket is the exact one: on machine words its takes end without a panic and succeed as
the exact bucket's do, so that no window lets through more than its capacity and its periods; a
refused take leaves every other outcome; and a zero period never refuses. -/
theorem takes_ideal {refill : Refill} {latest start : Instant} {times : List Instant}
    (hlatest : latest < durationEnd) (hsorted : (start :: times).Pairwise (· ≤ ·))
    (hle : ∀ now ∈ times, now ≤ latest) :
    ∃ outs, takes latest (full refill start) times = .ok outs ∧
      (0 < refill.period →
        outs = Bucket.outcomes (refill.capacity : ℚ) refill.period ⟨refill.capacity, start⟩
          (times.map fun now : ℕ => (now : ℚ)) ∧
        ∀ first width, successes (fun t => first ≤ t ∧ t ≤ first + width) times outs ≤
          refill.capacity + width / refill.period) ∧
      (∀ i, outs[i]? = some false → takes latest (full refill start) (times.eraseIdx i) = .ok
        (outs.eraseIdx i)) ∧
      (refill.period = 0 → outs = times.map fun _ => true) := by
  rcases Nat.eq_zero_or_pos refill.period with hzero | hperiod
  · refine ⟨_, takes_zero latest hzero times, fun hpos => absurd hzero hpos.ne',
      fun i hrefused => ?_, fun _ => rfl⟩
    rw [List.getElem?_map, Option.map_eq_some_iff] at hrefused
    obtain ⟨now, -, hfalse⟩ := hrefused
    cases hfalse
  · have hrun {ts : List Instant} (hts : ts.Sublist times) :
        takes latest (full refill start) ts = .ok ((full refill start).exactOutcomes ts) :=
      takes_exact hlatest (hsorted.sublist (hts.cons_cons start))
        (fun now hnow => hle now (hts.subset hnow)) le_rfl
        hperiod
    refine ⟨_, hrun (List.Sublist.refl times), fun _ => ⟨rfl, exact_window_le hsorted hperiod⟩,
      fun i hrefused => ?_, fun hzero => absurd hzero hperiod.ne'⟩
    have hsorted' := (List.pairwise_cons.mp hsorted).2.map (fun now : ℕ => (now : ℚ))
      fun _ _ h => Nat.cast_le.mpr h
    have herased := Bucket.outcomes_eraseIdx (by exact_mod_cast hperiod) hsorted' hrefused
    rw [List.eraseIdx_map] at herased
    rw [hrun (List.eraseIdx_sublist times i)]
    exact congrArg Except.ok herased

theorem takes_ideal_pace :
    ∃ outs, takes (10 ^ 12) (full Hub.pace 0) [0, 0, 10 ^ 9, 8 * 10 ^ 9] = .ok outs ∧
    successes (fun t => 0 ≤ t ∧ t ≤ 0 + 10 ^ 9) [0, 0, 10 ^ 9, 8 * 10 ^ 9] outs ≤ 2 +
      10 ^ 9 / (8 * 10 ^ 9) := by
  obtain ⟨outs, hrun, hperiod, -⟩ := @takes_ideal Hub.pace (10 ^ 12) 0
    [0, 0, 10 ^ 9, 8 * 10 ^ 9] (by decide)
    (by decide) (by decide)
  exact ⟨outs, hrun, (hperiod (by decide)).2 0 (10 ^ 9)⟩

end Checked

end MonitoringAgent.Hub.TokenBucket

import MonitoringAgent.Library.Rounding
import MonitoringAgent.Verification.Series.Open

/-! # Buckets are the rollup of the points

What a rollup tier is for, stated without its state machine: the points grouped by bucket
index, each group with its count, extremes and rounded mean. The tier's closed buckets and
its open one are exactly that. -/

namespace MonitoringAgent.HubStore

open MonitoringAgent.Library

/-! ### The specification -/

/-- The bucket of a group of points. -/
def bucketOf (index : ℕ) (points : List RawPoint) : Bucket where
  index := index
  avg := roundHalfAway (((points.map RawPoint.value).sum : ℤ) / points.length)
  min := (points.map RawPoint.value).min?.getD 0
  max := (points.map RawPoint.value).max?.getD 0
  count := points.length

/-- The points grouped by bucket index: one bucket per index that has a point. -/
def rollupOf (tier : RollupTier) (points : List RawPoint) : List Bucket :=
  (points.map (·.ts / tier.bucketSecs)).dedup.map fun index =>
    bucketOf index (points.filter (·.ts / tier.bucketSecs = index))

theorem mem_rollupOf_index {tier : RollupTier} {points : List RawPoint} {b : Bucket}
    (h : b ∈ rollupOf tier points) : ∃ p ∈ points, p.ts / tier.bucketSecs = b.index := by
  obtain ⟨index, hindex, rfl⟩ := List.mem_map.mp h
  obtain ⟨p, hp, rfl⟩ := List.mem_map.mp (List.mem_dedup.mp hindex)
  exact ⟨p, hp, rfl⟩

/-- A last group after every other one adds its bucket at the end. -/
theorem rollupOf_append {tier : RollupTier} {before group : List RawPoint} {index : ℕ}
    (hne : group ≠ []) (hgroup : ∀ p ∈ group, p.ts / tier.bucketSecs = index)
    (hbefore : ∀ p ∈ before, p.ts / tier.bucketSecs < index) :
    rollupOf tier (before ++ group) = rollupOf tier before ++ [bucketOf index group] := by
  have hmap : group.map (·.ts / tier.bucketSecs) = List.replicate group.length index := by
    rw [List.eq_replicate_iff]
    refine ⟨by simp, ?_⟩
    intro i hi
    obtain ⟨p, hp, rfl⟩ := List.mem_map.mp hi
    exact hgroup p hp
  have hdisjoint : List.Disjoint (before.map (·.ts / tier.bucketSecs))
      (group.map (·.ts / tier.bucketSecs)) := by
    intro i hi hj
    obtain ⟨p, hp, rfl⟩ := List.mem_map.mp hi
    obtain ⟨q, hq, heq⟩ := List.mem_map.mp hj
    have := hbefore p hp
    have := hgroup q hq
    omega
  have hlen : group.length ≠ 0 := by simpa using hne
  rw [rollupOf, List.map_append, hdisjoint.dedup_append, hmap, List.replicate_dedup hlen,
    List.map_append, List.map_singleton]
  congr 1
  · apply List.map_congr_left
    intro i hi
    obtain ⟨p, hp, rfl⟩ := List.mem_map.mp (List.mem_dedup.mp hi)
    congr 1
    rw [List.filter_append, List.append_right_eq_self, List.filter_eq_nil_iff]
    intro q hq
    have := hbefore p hp
    have := hgroup q hq
    simp only [decide_eq_true_eq]
    omega
  · congr 2
    rw [List.filter_append]
    have hnil : before.filter (·.ts / tier.bucketSecs = index) = [] := by
      rw [List.filter_eq_nil_iff]
      intro p hp
      have := hbefore p hp
      simp only [decide_eq_true_eq]
      omega
    have hall : group.filter (·.ts / tier.bucketSecs = index) = group := by
      rw [List.filter_eq_self]
      intro p hp
      simp [hgroup p hp]
    rw [hnil, hall, List.nil_append]

/-! ### Accumulators -/

/-- The accumulator has added exactly `points`, all of its bucket. -/
structure Accumulator.Of (a : Accumulator) (tier : RollupTier) (points : List RawPoint) : Prop where
  index : ∀ p ∈ points, p.ts / tier.bucketSecs = a.index
  sum : a.sum = (points.map RawPoint.value).sum
  count : a.count = points.length
  min_mem : a.min ∈ points.map RawPoint.value
  min_le : ∀ p ∈ points, a.min ≤ p.value
  max_mem : a.max ∈ points.map RawPoint.value
  le_max : ∀ p ∈ points, p.value ≤ a.max

namespace Accumulator

variable {a : Accumulator} {tier : RollupTier} {points : List RawPoint}

theorem of_open (tier : RollupTier) (p : RawPoint) :
    (Accumulator.open tier p.ts p.value).Of tier [p] :=
  ⟨by simp [Accumulator.open], by simp [Accumulator.open], rfl, by simp [Accumulator.open],
    by simp [Accumulator.open], by simp [Accumulator.open], by simp [Accumulator.open]⟩

namespace Of

theorem ne_nil (h : a.Of tier points) : points ≠ [] := by
  intro hnil
  have := h.min_mem
  simp [hnil] at this

/-- Adding a point of the bucket, below the count's saturation. -/
theorem add (h : a.Of tier points) {p : RawPoint} (hp : p.ts / tier.bucketSecs = a.index)
    (hcount : points.length + 1 < 2 ^ 32) : (a.add p.value).Of tier (points ++ [p]) := by
  obtain ⟨hindex, hsum, hlen, hminMem, hmin, hmaxMem, hmax⟩ := h
  refine ⟨?_, ?_, ?_, ?_, ?_, ?_, ?_⟩
  · intro q hq
    rcases List.mem_append.mp hq with hq | hq
    · exact hindex q hq
    · rw [List.mem_singleton.mp hq]
      exact hp
  · simp [Accumulator.add, hsum]
  · simp only [Accumulator.add, hlen, List.length_append, List.length_singleton]
    omega
  · rcases min_choice a.min p.value with hm | hm <;> simp only [Accumulator.add, hm]
    · rw [List.map_append]
      exact List.mem_append_left _ hminMem
    · simp
  · intro q hq
    rcases List.mem_append.mp hq with hq | hq
    · exact (min_le_left _ _).trans (hmin q hq)
    · rw [List.mem_singleton.mp hq]
      exact min_le_right _ _
  · rcases max_choice a.max p.value with hm | hm <;> simp only [Accumulator.add, hm]
    · rw [List.map_append]
      exact List.mem_append_left _ hmaxMem
    · simp
  · intro q hq
    rcases List.mem_append.mp hq with hq | hq
    · exact (hmax q hq).trans (le_max_left _ _)
    · rw [List.mem_singleton.mp hq]
      exact le_max_right _ _

theorem sum_bounds (h : a.Of tier points) :
    (a.count : ℤ) * a.min ≤ a.sum ∧ a.sum ≤ (a.count : ℤ) * a.max := by
  have hlow := List.card_nsmul_le_sum (points.map RawPoint.value) a.min (by
    intro v hv
    obtain ⟨p, hp, rfl⟩ := List.mem_map.mp hv
    exact h.min_le p hp)
  have hhigh := List.sum_le_card_nsmul (points.map RawPoint.value) a.max (by
    intro v hv
    obtain ⟨p, hp, rfl⟩ := List.mem_map.mp hv
    exact h.le_max p hp)
  rw [h.sum, h.count]
  simpa using And.intro hlow hhigh

/-- The rounded mean of a negative sum, by the same formula on the other side of zero. -/
theorem rounded_eq {sum : ℤ} {count : ℕ} (hcount : 0 < count) :
    (if sum ≥ 0 then (sum + count - ((count : ℤ) / 2 + (count : ℤ) % 2)).tdiv count
      else (sum - count + ((count : ℤ) / 2 + (count : ℤ) % 2)).tdiv count) =
      roundHalfAway (sum / count) := by
  have hc : (0 : ℤ) < count := by exact_mod_cast hcount
  have hhalf : (count : ℤ) / 2 + (count : ℤ) % 2 ≤ count := by omega
  split
  next hsum => rw [roundHalfAway_div hsum hcount, Int.tdiv_eq_ediv_of_nonneg (by omega)]
  next hsum =>
    have hneg : sum - count + ((count : ℤ) / 2 + (count : ℤ) % 2) =
        -(-sum + count - ((count : ℤ) / 2 + (count : ℤ) % 2)) := by ring
    have hflip := roundHalfAway_div (show 0 ≤ -sum by omega) hcount
    have hq : (sum : ℚ) / count = -(((-sum : ℤ) : ℚ) / count) := by push_cast; ring
    rw [hneg, Int.neg_tdiv, Int.tdiv_eq_ediv_of_nonneg (by omega), ← hflip, hq, roundHalfAway_neg]

/-- Closing an accumulator gives its points' bucket. -/
theorem close (h : a.Of tier points) : a.close = bucketOf a.index points := by
  have hpos : 0 < a.count := by
    rw [h.count]
    exact List.length_pos_iff.mpr h.ne_nil
  have hmin : (points.map RawPoint.value).min? = some a.min := by
    rw [List.min?_eq_some_iff]
    exact ⟨h.min_mem, by simpa using h.min_le⟩
  have hmax : (points.map RawPoint.value).max? = some a.max := by
    rw [List.max?_eq_some_iff]
    exact ⟨h.max_mem, by simpa using h.le_max⟩
  obtain ⟨hlow, hhigh⟩ := h.sum_bounds
  have hcq : (0 : ℚ) < a.count := by exact_mod_cast hpos
  have hge : a.min ≤ roundHalfAway (a.sum / a.count) := by
    apply le_roundHalfAway
    rw [le_div_iff₀ hcq, mul_comm]
    exact_mod_cast hlow
  have hle : roundHalfAway (a.sum / a.count) ≤ a.max := by
    apply roundHalfAway_le
    rw [div_le_iff₀ hcq, mul_comm]
    exact_mod_cast hhigh
  rw [Accumulator.close]
  simp only [rounded_eq hpos, min_eq_left hle, max_eq_right hge]
  simp [bucketOf, hmin, hmax, h.sum, h.count]

/-- A bucket of `u64` times and `i64` values, of fewer than `2^32` points, is valid. -/
theorem valid_close (h : a.Of tier points) (hvalid : ∀ p ∈ points, p.Valid)
    (hcount : points.length < 2 ^ 32) : a.close.Valid := by
  obtain ⟨p, hp, hpmin⟩ := List.mem_map.mp h.min_mem
  obtain ⟨q, hq, hqmax⟩ := List.mem_map.mp h.max_mem
  have hminle : a.min ≤ a.max := hqmax ▸ h.min_le q hq
  have hindex : a.index < 2 ^ 64 := by
    rw [← h.index p hp]
    exact lt_of_le_of_lt (Nat.div_le_self _ _) (hvalid p hp).1
  refine ⟨hindex, le_max_left _ _, max_le hminle (min_le_right _ _), ?_, ?_, ?_, ?_⟩
  · show -2 ^ 63 ≤ a.min
    exact hpmin ▸ (hvalid p hp).2.1
  · show a.max < 2 ^ 63
    exact hqmax ▸ (hvalid q hq).2.2
  · show 0 < a.count
    rw [h.count]
    exact List.length_pos_iff.mpr h.ne_nil
  · show a.count < 2 ^ 32
    rw [h.count]
    exact hcount

end Of

end Accumulator

/-! ### The tier's state -/

theorem RollupTier.bucketSecs_pos (tier : RollupTier) : 0 < tier.bucketSecs := by
  cases tier <;> decide

theorem RollupTier.bucketSecs_le (tier : RollupTier) : tier.bucketSecs ≤ 3600 := by
  cases tier <;> decide

/-- The points of one bucket are at most its seconds. -/
theorem length_bucket_le {tier : RollupTier} {points : List RawPoint} {index : ℕ}
    (hinc : points.Pairwise fun p q => p.ts < q.ts)
    (hindex : ∀ p ∈ points, p.ts / tier.bucketSecs = index) : points.length ≤ tier.bucketSecs := by
  refine length_le_of_window (tier.bucketSecs * index) hinc ?_
  intro p hp
  have hsplit := Nat.div_add_mod p.ts tier.bucketSecs
  have hmod := Nat.mod_lt p.ts tier.bucketSecs_pos
  rw [hindex p hp] at hsplit
  omega

/-- What the store promises of the points of a series: strictly increasing `u64` times whose
bucket ends do not overflow, and `i64` values. -/
structure PointsInv (points : List RawPoint) : Prop where
  increasing : points.Pairwise fun p q => p.ts < q.ts
  bounded : ∀ p ∈ points, p.ts + 3600 < 2 ^ 64
  values : ∀ p ∈ points, IsI64 p.value

theorem PointsInv.valid {points : List RawPoint} (h : PointsInv points) :
    ∀ p ∈ points, p.Valid := by
  intro p hp
  have := h.bounded p hp
  exact ⟨by omega, h.values p hp⟩

/-- `accepted` points went in, up to hub time `clock`: those before the open bucket are
rolled up into the closed buckets, the rest are in the open bucket. -/
structure RollupInv (tier : RollupTier) (s : RollupState) (sealed : List Sealed)
    (accepted : List RawPoint) (clock : ℕ) : Prop where
  tier_eq : s.tier = tier
  split : ∃ before group, accepted = before ++ group ∧
    OpenRest tier s.open sealed (rollupOf tier before) ∧
    match s.bucket with
    | none => group = [] ∧ ∀ p ∈ before, (p.ts / tier.bucketSecs + 1) * tier.bucketSecs ≤ clock
    | some a => a.Of tier group ∧ ∀ p ∈ before, p.ts / tier.bucketSecs < a.index

namespace RollupInv

variable {tier : RollupTier} {s : RollupState} {sealed : List Sealed} {accepted : List RawPoint}
  {clock : ℕ}

theorem mono (h : RollupInv tier s sealed accepted clock) {later : ℕ} (hle : clock ≤ later) :
    RollupInv tier s sealed accepted later := by
  obtain ⟨htier, before, group, hsplit, hopen, hbucket⟩ := h
  refine ⟨htier, before, group, hsplit, hopen, ?_⟩
  cases hb : s.bucket with
  | none =>
      rw [hb] at hbucket
      exact ⟨hbucket.1, fun p hp => (hbucket.2 p hp).trans hle⟩
  | some a =>
      rw [hb] at hbucket
      exact hbucket

/-- Closing the open bucket rolls up every accepted point. -/
theorem closeBucket (h : RollupInv tier s sealed accepted clock) (hpoints : PointsInv accepted) :
    OpenRest tier s.closeBucket.2.open (sealed ++ s.closeBucket.1) (rollupOf tier accepted) ∧
      s.closeBucket.2.bucket = none ∧ s.closeBucket.2.tier = tier := by
  obtain ⟨htier, before, group, rfl, hopen, hbucket⟩ := h
  cases hb : s.bucket with
  | none =>
      rw [hb] at hbucket
      obtain ⟨rfl, -⟩ := hbucket
      simpa [RollupState.closeBucket, hb, htier] using hopen
  | some a =>
      rw [hb] at hbucket
      obtain ⟨hof, hbefore⟩ := hbucket
      have hgroup : ∀ p ∈ group, p ∈ before ++ group := fun p hp => List.mem_append_right _ hp
      have hcount := length_bucket_le
        (hpoints.increasing.sublist (List.sublist_append_right before group)) hof.index
      have hsecs := tier.bucketSecs_le
      have hvalid : a.close.Valid :=
        hof.valid_close (fun p hp => hpoints.valid p (hgroup p hp)) (by omega)
      have hafter : ∀ x ∈ rollupOf tier before, x.index < a.close.index := by
        intro x hx
        obtain ⟨p, hp, hindex⟩ := mem_rollupOf_index hx
        exact hindex ▸ hbefore p hp
      have hpush := hopen.pushIn (C := RollupChunk) hvalid hafter
      rw [rollupOf_append hof.ne_nil hof.index hbefore, ← hof.close]
      simpa [RollupState.closeBucket, hb, htier] using hpush

/-- A point joins its bucket, or closes the earlier one and opens its own. -/
theorem add (h : RollupInv tier s sealed accepted clock) {p : RawPoint}
    (hpoints : PointsInv (accepted ++ [p])) (hclock : clock ≤ p.ts) :
    RollupInv tier (s.add p.ts p.value).2 (sealed ++ (s.add p.ts p.value).1) (accepted ++ [p])
      clock := by
  have hprev : PointsInv accepted :=
    ⟨hpoints.increasing.sublist (List.sublist_append_left _ _),
      fun q hq => hpoints.bounded q (List.mem_append_left _ hq),
      fun q hq => hpoints.values q (List.mem_append_left _ hq)⟩
  have hlater : ∀ q ∈ accepted, q.ts < p.ts := by
    intro q hq
    exact (List.pairwise_append.mp hpoints.increasing).2.2 q hq p (by simp)
  obtain ⟨htier, before, group, hsplit, hopen, hbucket⟩ := id h
  cases hheld : s.bucket.filter (·.holds s.tier p.ts) with
  | some a =>
      -- The open bucket holds the point's time.
      obtain ⟨hb, hholds⟩ := Option.filter_eq_some_iff.mp hheld
      rw [hb] at hbucket
      obtain ⟨hof, hbefore⟩ := hbucket
      have hindex : p.ts / tier.bucketSecs = a.index := by
        simpa [Accumulator.holds, htier] using hholds
      have hcount := length_bucket_le (hprev.increasing.sublist (by
        rw [hsplit]; exact List.sublist_append_right before group)) hof.index
      have hsecs := tier.bucketSecs_le
      have hadd := hof.add hindex (by omega)
      refine ⟨by simpa [RollupState.add, hheld] using htier, before, group ++ [p], by simp [hsplit],
        by simpa [RollupState.add, hheld] using hopen, ?_⟩
      simpa [RollupState.add, hheld, Accumulator.add] using ⟨hadd, hbefore⟩
  | none =>
      obtain ⟨hclosed, hnone, htier'⟩ := h.closeBucket hprev
      have hopened := Accumulator.of_open tier p
      have hbefore : ∀ q ∈ accepted, q.ts / tier.bucketSecs < p.ts / tier.bucketSecs := by
        intro q hq
        have hle : q.ts / tier.bucketSecs ≤ p.ts / tier.bucketSecs :=
          Nat.div_le_div_right (hlater q hq).le
        refine lt_of_le_of_ne hle fun heq => ?_
        cases hb : s.bucket with
        | none =>
            -- The bucket was closed by a sweep after its end.
            rw [hb] at hbucket
            obtain ⟨rfl, hswept⟩ := hbucket
            have hend := (hswept q (by simpa [hsplit] using hq)).trans hclock
            have := (Nat.le_div_iff_mul_le tier.bucketSecs_pos).mpr hend
            omega
        | some a =>
            rw [hb] at hbucket
            obtain ⟨hof, hbefore⟩ := hbucket
            have hle' : q.ts / tier.bucketSecs ≤ a.index := by
              rw [hsplit] at hq
              rcases List.mem_append.mp hq with hq | hq
              · exact (hbefore q hq).le
              · exact (hof.index q hq).le
            obtain ⟨r, hr⟩ := List.exists_mem_of_ne_nil _ hof.ne_nil
            have hge : a.index ≤ p.ts / tier.bucketSecs := by
              rw [← hof.index r hr]
              exact Nat.div_le_div_right (hlater r (by simp [hsplit, hr])).le
            have hholds : a.holds s.tier p.ts = true := by
              simp only [Accumulator.holds, htier, decide_eq_true_eq]
              omega
            simp [hb, hholds] at hheld
      refine ⟨by simpa [RollupState.add, hheld] using htier', accepted, [p], rfl,
        by simpa [RollupState.add, hheld] using hclosed, ?_⟩
      simp only [RollupState.add, hheld, htier']
      exact ⟨hopened, hbefore⟩

/-- A sweep closes the open bucket only once its end is in the past. -/
theorem sweep (h : RollupInv tier s sealed accepted clock) (hpoints : PointsInv accepted)
    (hubNow : ℕ) :
    RollupInv tier (s.sweep hubNow).2 (sealed ++ (s.sweep hubNow).1) accepted
      (max clock hubNow) := by
  rw [RollupState.sweep]
  split
  next hpast =>
    obtain ⟨hclosed, hnone, htier'⟩ := h.closeBucket hpoints
    refine ⟨htier', accepted, [], by simp, hclosed, ?_⟩
    obtain ⟨htier, before, group, hsplit, -, hbucket⟩ := h
    rw [hnone]
    refine ⟨rfl, ?_⟩
    intro p hp
    cases hb : s.bucket with
    | none => simp [hb] at hpast
    | some a =>
        rw [hb] at hbucket hpast
        obtain ⟨hof, hbefore⟩ := hbucket
        have hle : p.ts / tier.bucketSecs ≤ a.index := by
          rw [hsplit] at hp
          rcases List.mem_append.mp hp with hp | hp
          · exact (hbefore p hp).le
          · exact (hof.index p hp).le
        obtain ⟨r, hr⟩ := List.exists_mem_of_ne_nil _ hof.ne_nil
        have hbound := hpoints.bounded r (by simp [hsplit, hr])
        have hsecs := tier.bucketSecs_le
        have hend : (a.index + 1) * tier.bucketSecs < 2 ^ 64 := by
          have := Nat.div_mul_le_self r.ts tier.bucketSecs
          rw [hof.index r hr] at this
          rw [Nat.add_mul]
          omega
        have hmul : (p.ts / tier.bucketSecs + 1) * tier.bucketSecs ≤
            (a.index + 1) * tier.bucketSecs :=
          Nat.mul_le_mul_right _ (by omega)
        simp only [Option.any_some, htier, Nat.mod_eq_of_lt hend, gt_iff_lt,
          decide_eq_true_eq] at hpast
        omega
  next => simpa using h.mono (le_max_left _ _)

/-- Sealing the tier's open chunk leaves the buckets as they are. -/
theorem of_open (h : RollupInv tier s sealed accepted clock) {o : Open RollupChunk}
    {sealed' : List Sealed}
    (hopen : ∀ buckets, OpenRest tier s.open sealed buckets → OpenRest tier o sealed' buckets) :
    RollupInv tier { s with «open» := o } sealed' accepted clock := by
  obtain ⟨htier, before, group, hsplit, hrest, hbucket⟩ := h
  exact ⟨htier, before, group, hsplit, hopen _ hrest, hbucket⟩

end RollupInv

end MonitoringAgent.HubStore

import MonitoringAgent.Model.Tail
import MonitoringAgent.Verification.Bytes
import MonitoringAgent.Verification.Series.Invariant

/-! # A tail reopens to the state it was taken from -/

namespace MonitoringAgent.HubStore

open MonitoringAgent.Library

/-! ### Fields -/

@[simp] theorem orMalformed_ok {α : Type} (a : α) : orMalformed (.ok a) = .ok a := rfl

theorem readOptionalU64_put {value : Option ℕ} (rest : List UInt8)
    (h : ∀ v, value = some v → v < 2 ^ 64) :
    readOptionalU64 ⟨putOptionalU64 value ++ rest⟩ = .ok (value, ⟨rest⟩) := by
  cases value with
  | none => simp [readOptionalU64, putOptionalU64]
  | some v =>
      have hvalue := Reader.unsigned_append 8 v rest (by
        have := h v rfl
        omega)
      simp [readOptionalU64, putOptionalU64, Reader.u64, hvalue]

/-- An open chunk reads back: its span is on the grid, its seq and its bytes fit their
fields, and its bytes reopen to the chunk. -/
theorem readOpen_put {C Item : Type} [OpenChunk C Item] {o : Open C} {tier : Tier} {empty : C}
    {reopen : List UInt8 → Except DecodeError C} (rest : List UInt8)
    (hspan : ∀ span, o.span = some span → span % tier.spanSecs = 0 ∧ span < 2 ^ 64)
    (hseq : o.nextSeq < 2 ^ 16)
    (hempty : OpenChunk.isEmpty o.chunk = true → o.chunk = empty)
    (hreopen : OpenChunk.isEmpty o.chunk = false → reopen (OpenChunk.encode o.chunk) = .ok o.chunk ∧
      OpenChunk.encode o.chunk ≠ [] ∧ (OpenChunk.encode o.chunk).length < 2 ^ 16) :
    readOpen ⟨putOpen o ++ rest⟩ tier empty reopen = .ok (o, ⟨rest⟩) := by
  have hread : ∀ rest, readSpan ⟨putOptionalU64 o.span ++ rest⟩ tier = .ok (o.span, ⟨rest⟩) := by
    intro rest
    rw [readSpan, readOptionalU64_put rest fun v hv => (hspan v hv).2]
    cases hs : o.span with
    | none => rfl
    | some span => simp [SpanStart.new, (hspan span hs).1]
  have hnext : ∀ rest, Reader.u16 ⟨beBytes 2 o.nextSeq ++ rest⟩ = .ok (o.nextSeq, ⟨rest⟩) :=
    fun rest => Reader.unsigned_append _ _ rest (by omega)
  simp only [putOpen, List.append_assoc, readOpen, hread, hnext, except_ok_bind, orMalformed_ok]
  cases hc : OpenChunk.isEmpty o.chunk with
  | true =>
      have hbytes := Reader.u16Prefixed_append rest
        (show ([] : List UInt8).length < 2 ^ 16 by norm_num)
      simp [hbytes, ← hempty hc]
  | false =>
      obtain ⟨hok, hne, hlen⟩ := hreopen hc
      have hbytes := Reader.u16Prefixed_append rest hlen
      simp [hbytes, hok, hne]

theorem readBucket_put {bucket : Option Accumulator} (rest : List UInt8)
    (h : ∀ a, bucket = some a → a.index < 2 ^ 64 ∧ a.count < 2 ^ 32 ∧ IsI64 a.min ∧ IsI64 a.max ∧
      0 < a.count ∧ a.min ≤ a.max ∧ a.count * a.min ≤ a.sum ∧ a.sum ≤ a.count * a.max) :
    readBucket ⟨putBucket bucket ++ rest⟩ = .ok (bucket, ⟨rest⟩) := by
  cases bucket with
  | none => simp [readBucket, putBucket]
  | some a =>
      obtain ⟨hindex, hcount, hmin, hmax, hpos, hle, hlow, hhigh⟩ := h a rfl
      have hminLow := hmin.1
      have hmaxHigh := hmax.2
      have hsumLow : -2 ^ 127 ≤ a.sum := by nlinarith
      have hsumHigh : a.sum < 2 ^ 127 := by nlinarith
      have h1 := fun rest => Reader.unsigned_append 8 a.index rest (by omega)
      have h2 := fun rest => Reader.signed_append 16 a.sum rest (by norm_num)
        (by norm_num; exact hsumLow) (by norm_num; exact hsumHigh)
      have h3 := fun rest => Reader.unsigned_append 4 a.count rest (by omega)
      have h4 := fun rest => Reader.signed_append 8 a.min rest (by norm_num)
        hmin.1 hmin.2
      have h5 := fun rest => Reader.signed_append 8 a.max rest (by norm_num)
        hmax.1 hmax.2
      simp [readBucket, putBucket, Reader.u64, Reader.i128, Reader.u32, Reader.i64,
        h1, h2, h3, h4, h5, Accumulator.fromParts, hpos, hle, hlow, hhigh]

/-! ### Open chunks -/

section OpenRest

variable {C Item Config : Type} [OpenChunk C Item] [LawfulChunk C Config]
variable {cfg : Config} {o : Open C} {sealed : List Sealed} {items : List Item}

theorem OpenInv.length_inSpan_le (h : OpenInv cfg o sealed items) (span : SpanStart) :
    (inSpan sealed span).length ≤ LawfulChunk.perSpan C cfg := by
  obtain ⟨chunks, unsealed, hchunks, -, rfl, -⟩ := h.split
  exact HubStore.length_inSpan_le hchunks (h.increasing.sublist (List.sublist_append_left _ _)) span

/-- The next seq of an open chunk stays far below the top of a `u16`. -/
theorem OpenRest.nextSeq_le (h : OpenRest cfg o sealed items) : o.nextSeq ≤ 3600 := by
  cases hspan : o.span with
  | none => simp [h.idle hspan]
  | some span =>
      have hlen := h.length_inSpan_le span
      have hper := LawfulChunk.perSpan_le (C := C) cfg
      have hseq := h.nextSeq span hspan
      omega

theorem OpenRest.nextSeq_lt (h : OpenRest cfg o sealed items) : o.nextSeq < 2 ^ 16 :=
  lt_of_le_of_lt h.nextSeq_le (by norm_num)

theorem OpenRest.exists_span (h : OpenRest cfg o sealed items) {span : SpanStart}
    (hspan : o.span = some span) : ∃ x ∈ items, itemSpan C cfg x = span := by
  rw [h.span_eq, Option.map_eq_some_iff] at hspan
  obtain ⟨x, hlast, hx⟩ := hspan
  exact ⟨x, List.mem_of_getLast? hlast, hx⟩

theorem OpenRest.span_grid (h : OpenRest cfg o sealed items)
    (htime : ∀ x ∈ items, itemTime C cfg x < 2 ^ 64) {span : SpanStart}
    (hspan : o.span = some span) :
    span % (LawfulChunk.tierOf C cfg).spanSecs = 0 ∧ span < 2 ^ 64 := by
  obtain ⟨x, hx, rfl⟩ := h.exists_span hspan
  refine ⟨?_, lt_of_le_of_lt (Tier.spanOf_le _ _) (htime x hx)⟩
  rw [itemSpan, Tier.spanOf_eq_mul]
  exact Nat.mul_mod_right _ _

end OpenRest

theorem readOpen_raw {encoding : Encoding} {o : Open RawChunk} {sealed : List Sealed}
    {points : List RawPoint} (h : OpenRest encoding o sealed points) (hpoints : PointsInv points)
    (rest : List UInt8) :
    readOpen ⟨putOpen o ++ rest⟩ .raw (.new encoding) (RawChunk.reopen · encoding) =
      .ok (o, ⟨rest⟩) := by
  obtain ⟨chunks, unsealed, -, hcontents, -, -⟩ := h.split
  have hencoding : o.chunk.encoding = encoding := h.config
  refine readOpen_put rest (fun span hspan => h.span_grid ?_ hspan) h.nextSeq_lt ?_ ?_
  · intro p hp
    have := hpoints.bounded p hp
    show p.ts * 1 < 2 ^ 64
    omega
  · intro hempty
    obtain rfl := (RawChunk.Contents.isEmpty_iff hcontents).mp hempty
    rw [← hencoding]
    exact RawChunk.Contents.eq_new hcontents
  · intro hfull
    have hne : unsealed ≠ [] := by
      rintro rfl
      simp [(RawChunk.Contents.isEmpty_iff hcontents).mpr rfl, OpenChunk.isEmpty] at hfull
    have hlen := RawChunk.Contents.length_encode_le hcontents hne
    have hdecode := RawChunk.Contents.decode hcontents hne
    refine ⟨?_, ?_, ?_⟩
    · rw [← hencoding]
      exact RawChunk.Contents.reopen hcontents hne
    · intro hnil
      have : o.chunk.encode = [] := hnil
      rw [this] at hdecode
      cases hdecode
    · exact lt_of_le_of_lt hlen (by decide)

/-- A bucket starts no later than any of its points. -/
theorem mem_rollupOf_time {tier : RollupTier} {points : List RawPoint} {b : Bucket}
    (h : b ∈ rollupOf tier points) : ∃ p ∈ points, b.index * tier.bucketSecs ≤ p.ts := by
  obtain ⟨p, hp, hindex⟩ := mem_rollupOf_index h
  exact ⟨p, hp, hindex ▸ Nat.div_mul_le_self _ _⟩

theorem readOpen_rollup {tier : RollupTier} {o : Open RollupChunk} {sealed : List Sealed}
    {points : List RawPoint} (h : OpenRest tier o sealed (rollupOf tier points))
    (hpoints : PointsInv points) (rest : List UInt8) :
    readOpen ⟨putOpen o ++ rest⟩ tier.tier (.new tier) (RollupChunk.reopen · tier) =
      .ok (o, ⟨rest⟩) := by
  obtain ⟨chunks, unsealed, -, hcontents, -, -⟩ := h.split
  have htier : o.chunk.tier = tier := h.config
  refine readOpen_put rest (fun span hspan => h.span_grid ?_ hspan) h.nextSeq_lt ?_ ?_
  · intro b hb
    obtain ⟨p, hp, hle⟩ := mem_rollupOf_time hb
    have := hpoints.bounded p hp
    show b.index * tier.bucketSecs < 2 ^ 64
    omega
  · intro hempty
    obtain rfl := (RollupChunk.Contents.isEmpty_iff hcontents).mp hempty
    rw [← htier]
    exact RollupChunk.Contents.eq_new hcontents
  · intro hfull
    have hne : unsealed ≠ [] := by
      rintro rfl
      simp [(RollupChunk.Contents.isEmpty_iff hcontents).mpr rfl, OpenChunk.isEmpty] at hfull
    have hlen := RollupChunk.Contents.length_encode_lt hcontents hne
    have hdecode := RollupChunk.Contents.decode hcontents hne
    refine ⟨?_, ?_, hlen⟩
    · rw [← htier]
      exact RollupChunk.Contents.reopen hcontents hne
    · intro hnil
      have : o.chunk.encode = [] := hnil
      rw [this] at hdecode
      cases hdecode

/-! ### Checks of a tail read back -/

/-- The extremes and the mean of a group stay between any bounds of its values. -/
theorem bucketOf_bounds {index : ℕ} {points : List RawPoint} {low high : ℤ} (hne : points ≠ [])
    (h : ∀ p ∈ points, low ≤ p.value ∧ p.value ≤ high) :
    ∀ v ∈ [(bucketOf index points).min, (bucketOf index points).avg, (bucketOf index points).max],
      low ≤ v ∧ v ≤ high := by
  have hvalue : ∀ v ∈ points.map RawPoint.value, low ≤ v ∧ v ≤ high := by
    intro v hv
    obtain ⟨p, hp, rfl⟩ := List.mem_map.mp hv
    exact h p hp
  have hne' : points.map RawPoint.value ≠ [] := by simpa using hne
  obtain ⟨lowest, hmin⟩ := Option.isSome_iff_exists.mp (List.isSome_min?_of_ne_nil hne')
  obtain ⟨highest, hmax⟩ := Option.isSome_iff_exists.mp (List.isSome_max?_of_ne_nil hne')
  have hlow := List.card_nsmul_le_sum _ low fun v hv => (hvalue v hv).1
  have hhigh := List.sum_le_card_nsmul _ high fun v hv => (hvalue v hv).2
  have hpos : (0 : ℚ) < points.length := by
    exact_mod_cast List.length_pos_iff.mpr hne
  simp only [List.length_map, nsmul_eq_mul] at hlow hhigh
  intro v hv
  simp only [bucketOf, hmin, hmax, Option.getD_some, List.mem_cons,
    List.not_mem_nil, or_false] at hv
  rcases hv with rfl | rfl | rfl
  · exact hvalue _ (List.min?_mem hmin)
  · constructor
    · apply le_roundHalfAway
      rw [le_div_iff₀ hpos, mul_comm]
      exact_mod_cast hlow
    · apply roundHalfAway_le
      rw [div_le_iff₀ hpos, mul_comm]
      exact_mod_cast hhigh
  · exact hvalue _ (List.max?_mem hmax)

theorem mem_rollupOf_bounds {tier : RollupTier} {points : List RawPoint} {b : Bucket} {low high : ℤ}
    (hb : b ∈ rollupOf tier points) (h : ∀ p ∈ points, low ≤ p.value ∧ p.value ≤ high) :
    ∀ v ∈ [b.min, b.avg, b.max], low ≤ v ∧ v ≤ high := by
  obtain ⟨index, hindex, rfl⟩ := List.mem_map.mp hb
  obtain ⟨p, hp, rfl⟩ := List.mem_map.mp (List.mem_dedup.mp hindex)
  refine bucketOf_bounds ?_ fun q hq => h q (List.mem_of_mem_filter hq)
  exact List.ne_nil_of_mem (List.mem_filter.mpr ⟨hp, by simp⟩)

namespace RollupInv

variable {tier : RollupTier} {s : RollupState} {sealed : List Sealed} {accepted : List RawPoint}
  {clock : ℕ}

/-- The unsealed closed buckets are the last ones rolled up, all of the open span. -/
theorem buckets_mem (h : RollupInv tier s sealed accepted clock) :
    ∃ before group, accepted = before ++ group ∧
      (∀ b ∈ s.open.chunk.buckets, b ∈ rollupOf tier before ∧
        s.open.span = some (tier.tier.spanOf (b.index * tier.bucketSecs))) ∧
      ∀ a, s.bucket = some a → a.Of tier group ∧ ∀ p ∈ before,
        p.ts / tier.bucketSecs < a.index := by
  obtain ⟨-, before, group, hsplit, hopen, hbucket⟩ := h
  refine ⟨before, group, hsplit, ?_, ?_⟩
  · obtain ⟨chunks, unsealed, -, hcontents, hitems, hspan⟩ := hopen.split
    have hbuckets : s.open.chunk.buckets = unsealed := RollupChunk.Contents.buckets_eq hcontents
    intro b hb
    rw [hbuckets] at hb
    exact ⟨by rw [hitems]; exact List.mem_append_right _ hb, hspan b hb⟩
  · intro a ha
    rw [ha] at hbucket
    exact hbucket

theorem coherent (h : RollupInv tier s sealed accepted clock) : s.coherent = true := by
  obtain ⟨before, group, -, hbuckets, hbucket⟩ := h.buckets_mem
  have htier := h.tier_eq
  have hspans : timesInSpan s.tier.tier s.open.span s.closedTimes = true := by
    rw [timesInSpan, decide_eq_true_eq]
    by_cases hnil : s.open.chunk.buckets = []
    · left
      simp [RollupState.closedTimes, hnil]
    · right
      obtain ⟨b, hb⟩ := List.exists_mem_of_ne_nil _ hnil
      have hspan := (hbuckets b hb).2
      simp only [hspan, Option.any_some, RollupState.closedTimes, List.all_map, List.all_eq_true,
        Function.comp_apply, decide_eq_true_eq, htier]
      intro c hc
      exact Option.some.inj ((hbuckets c hc).2.symm.trans hspan)
  have hafter : s.bucket.all (fun a => s.closedTimes.getLast?.all (· < a.index * s.tier.bucketSecs))
      = true := by
    cases hb : s.bucket with
    | none => rfl
    | some a =>
        simp only [Option.all_some]
        cases hlast : s.closedTimes.getLast? with
        | none => rfl
        | some time =>
            obtain ⟨b, hmem, rfl⟩ := List.mem_map.mp (List.mem_of_getLast? hlast)
            obtain ⟨p, hp, hindex⟩ := mem_rollupOf_index (hbuckets b hmem).1
            have hlt := (hbucket a hb).2 p hp
            rw [hindex] at hlt
            simpa [htier, tier.bucketSecs_pos] using hlt
  rw [RollupState.coherent, hspans, hafter]
  rfl

theorem times_le (h : RollupInv tier s sealed accepted clock) :
    ∀ t ∈ s.times, ∃ p ∈ accepted, t ≤ p.ts := by
  obtain ⟨before, group, rfl, hbuckets, hbucket⟩ := h.buckets_mem
  have htier := h.tier_eq
  intro t ht
  rcases List.mem_append.mp ht with ht | ht
  · obtain ⟨a, ha, rfl⟩ := List.mem_map.mp ht
    obtain ⟨hof, -⟩ := hbucket a (by simpa using ha)
    obtain ⟨p, hp⟩ := List.exists_mem_of_ne_nil _ hof.ne_nil
    refine ⟨p, List.mem_append_right _ hp, ?_⟩
    rw [← hof.index p hp, htier]
    exact Nat.div_mul_le_self _ _
  · obtain ⟨b, hb, rfl⟩ := List.mem_map.mp ht
    obtain ⟨p, hp, hle⟩ := mem_rollupOf_time (hbuckets b hb).1
    exact ⟨p, List.mem_append_left _ hp, htier ▸ hle⟩

/-- Every value the tier holds stays between any bounds of the accepted values. -/
theorem values_bounds (h : RollupInv tier s sealed accepted clock) {low high : ℤ}
    (hbounds : ∀ p ∈ accepted, low ≤ p.value ∧ p.value ≤ high) :
    (∀ b ∈ s.open.chunk.buckets, ∀ v ∈ [b.min, b.avg, b.max], low ≤ v ∧ v ≤ high) ∧
      ∀ a ∈ s.bucket.toList, ∀ v ∈ [a.min, a.max], low ≤ v ∧ v ≤ high := by
  obtain ⟨before, group, rfl, hbuckets, hbucket⟩ := h.buckets_mem
  constructor
  · intro b hb
    exact mem_rollupOf_bounds (hbuckets b hb).1 fun p hp => hbounds p (List.mem_append_left _ hp)
  · intro a ha v hv
    obtain ⟨hof, -⟩ := hbucket a (by simpa using ha)
    have hmem : v ∈ group.map RawPoint.value := by
      simp only [List.mem_cons, List.not_mem_nil, or_false] at hv
      rcases hv with rfl | rfl
      · exact hof.min_mem
      · exact hof.max_mem
    obtain ⟨p, hp, rfl⟩ := List.mem_map.mp hmem
    exact hbounds p (List.mem_append_right _ hp)

theorem readBucket (h : RollupInv tier s sealed accepted clock) (hpoints : PointsInv accepted)
    (rest : List UInt8) :
    HubStore.readBucket ⟨putBucket s.bucket ++ rest⟩ = .ok (s.bucket, ⟨rest⟩) := by
  obtain ⟨before, group, rfl, -, hbucket⟩ := h.buckets_mem
  refine readBucket_put rest ?_
  intro a ha
  obtain ⟨hof, -⟩ := hbucket a ha
  have hvalid : ∀ p ∈ group, p.Valid := fun p hp => hpoints.valid p (List.mem_append_right _ hp)
  have hcount := length_bucket_le
    (hpoints.increasing.sublist (List.sublist_append_right before group)) hof.index
  have hsecs := tier.bucketSecs_le
  have hclose := hof.valid_close hvalid (by omega)
  have hmin : a.min ≤ a.max := (hclose.min_le).trans hclose.le_max
  exact ⟨hclose.index_lt, hclose.count_lt, ⟨hclose.min_ge, lt_of_le_of_lt hmin hclose.max_lt⟩,
    ⟨hclose.min_ge.trans hmin, hclose.max_lt⟩, hclose.count_pos, hmin, hof.sum_bounds⟩

end RollupInv

theorem ValueKind.fromCode_code (kind : ValueKind) : ValueKind.fromCode kind.code = some kind := by
  cases kind <;> decide

theorem ValueKind.code_lt (kind : ValueKind) : kind.code < 256 ^ 1 := by
  cases kind <;> decide

/-- A value is in a kind's domain. -/
def ValueKind.InDomain (kind : ValueKind) (value : ℤ) : Prop := 0 ≤ value ∧ value ≤ kind.maxScaled

theorem ValueKind.checkScaled_eq_some {kind : ValueKind} {value : ℤ} {scaled : Scaled}
    (h : kind.checkScaled value = some scaled) : kind.InDomain value ∧ scaled.get = value := by
  rw [ValueKind.checkScaled] at h
  split_ifs at h with hdomain
  obtain rfl := Option.some.inj h
  exact ⟨hdomain, rfl⟩

theorem ValueKind.isSome_checkScaled {kind : ValueKind} {value : ℤ} :
    (kind.checkScaled value).isSome = true ↔ kind.InDomain value := by
  rw [ValueKind.checkScaled, ValueKind.InDomain]
  split <;> simp_all

namespace SeriesInv

variable {kind : ValueKind} {s : SeriesState} {sealed : List Sealed} {accepted : List RawPoint}
  {clock : ℕ}

theorem unsealedPoints_mem (h : SeriesInv kind s sealed accepted clock) :
    ∀ p ∈ s.raw.chunk.points, p ∈ accepted ∧ s.raw.span = some (Tier.raw.spanOf p.ts) := by
  obtain ⟨chunks, unsealed, -, hcontents, hitems, hspan⟩ := h.raw.split
  have hpoints : s.raw.chunk.points = unsealed := RawChunk.Contents.points_eq hcontents
  intro p hp
  rw [hpoints] at hp
  refine ⟨by rw [hitems]; exact List.mem_append_right _ hp, ?_⟩
  rw [← itemSpan_point kind.encoding]
  exact hspan p hp

theorem le_last (h : SeriesInv kind s sealed accepted clock) {p : RawPoint} (hp : p ∈ accepted) :
    ∃ last, s.lastTs = some last ∧ p.ts ≤ last := by
  obtain ⟨last, hlast⟩ : ∃ last, accepted.getLast? = some last :=
    ⟨_, List.getLast?_eq_some_getLast (List.ne_nil_of_mem hp)⟩
  refine ⟨last.ts, by rw [h.lastTs, hlast]; rfl, ?_⟩
  obtain ⟨front, rfl⟩ := List.getLast?_eq_some_iff.mp hlast
  rcases List.mem_append.mp hp with hp | hp
  · exact ((List.pairwise_append.mp h.points.increasing).2.2 p hp last (by simp)).le
  · rw [List.mem_singleton.mp hp]

theorem checkDomain (h : SeriesInv kind s sealed accepted clock)
    (hdomain : ∀ p ∈ accepted, kind.InDomain p.value) : s.checkDomain = .ok () := by
  have hminute := h.minute.values_bounds hdomain
  have hhour := h.hour.values_bounds hdomain
  rw [SeriesState.checkDomain, if_pos]
  simp only [List.all_append, Bool.and_eq_true, List.all_eq_true, h.kind_eq,
    ValueKind.isSome_checkScaled, List.mem_map, List.mem_flatMap, List.mem_append]
  refine ⟨⟨?_, ?_⟩, ?_⟩
  · rintro v ⟨p, hp, rfl⟩
    exact hdomain p (h.unsealedPoints_mem p hp).1
  · rintro v ⟨b, hb | hb, hv⟩
    · exact hminute.1 b hb v hv
    · exact hhour.1 b hb v hv
  · rintro v ⟨a, ha | ha, hv⟩
    · exact hminute.2 a ha v hv
    · exact hhour.2 a ha v hv

theorem checkCoherence (h : SeriesInv kind s sealed accepted clock) :
    s.checkCoherence = .ok () := by
  have hspan : timesInSpan .raw s.raw.span (s.raw.chunk.points.map RawPoint.ts) = true := by
    rw [timesInSpan, decide_eq_true_eq]
    by_cases hnil : s.raw.chunk.points = []
    · left
      simp [hnil]
    · right
      obtain ⟨p, hp⟩ := List.exists_mem_of_ne_nil _ hnil
      have hspan := (h.unsealedPoints_mem p hp).2
      simp only [hspan, Option.any_some, List.all_map, List.all_eq_true, Function.comp_apply,
        decide_eq_true_eq]
      intro q hq
      exact Option.some.inj ((h.unsealedPoints_mem q hq).2.symm.trans hspan)
  have htimes : ∀ t ∈ s.raw.chunk.points.map RawPoint.ts ++ s.minute.times ++ s.hour.times,
      ∃ last, s.lastTs = some last ∧ t ≤ last := by
    intro t ht
    obtain ⟨p, hp, hle⟩ : ∃ p ∈ accepted, t ≤ p.ts := by
      rcases List.mem_append.mp ht with ht | ht
      · rcases List.mem_append.mp ht with ht | ht
        · obtain ⟨p, hp, rfl⟩ := List.mem_map.mp ht
          exact ⟨p, (h.unsealedPoints_mem p hp).1, le_rfl⟩
        · exact h.minute.times_le t ht
      · exact h.hour.times_le t ht
    obtain ⟨last, hlast, hle'⟩ := h.le_last hp
    exact ⟨last, hlast, hle.trans hle'⟩
  rw [SeriesState.checkCoherence, if_pos]
  rw [Bool.and_eq_true]
  refine ⟨by rw [hspan, h.minute.coherent, h.hour.coherent]; rfl, ?_⟩
  cases hlast : s.lastTs with
  | none =>
      dsimp only
      rw [List.isEmpty_iff, List.eq_nil_iff_forall_not_mem]
      intro t ht
      obtain ⟨last, hsome, -⟩ := htimes t ht
      simp [hlast] at hsome
  | some last =>
      dsimp only
      rw [List.all_eq_true]
      intro t ht
      obtain ⟨last', hsome, hle⟩ := htimes t ht
      rw [hlast] at hsome
      simpa [Option.some.inj hsome] using hle

/-- The tail of a series whose values are in its kind's domain reopens to the same state. -/
theorem fromTail_toTail (h : SeriesInv kind s sealed accepted clock)
    (hdomain : ∀ p ∈ accepted, kind.InDomain p.value) : SeriesState.fromTail s.toTail = .ok s := by
  have hlast : ∀ v, s.lastTs = some v → v < 2 ^ 64 := by
    intro v hv
    rw [h.lastTs, Option.map_eq_some_iff] at hv
    obtain ⟨p, hp, rfl⟩ := hv
    have := h.points.bounded p (List.mem_of_getLast? hp)
    omega
  obtain ⟨-, minuteBefore, minuteGroup, hminute, hminuteOpen, -⟩ := id h.minute
  obtain ⟨-, hourBefore, hourGroup, hhour, hhourOpen, -⟩ := id h.hour
  have hbefore : ∀ {before group : List RawPoint}, accepted = before ++ group →
      PointsInv before := by
    rintro before group rfl
    exact ⟨h.points.increasing.sublist (List.sublist_append_left _ _),
      fun p hp => h.points.bounded p (List.mem_append_left _ hp),
      fun p hp => h.points.values p (List.mem_append_left _ hp)⟩
  have h0 := fun rest => Reader.unsigned_append 1 tailV1 rest (by decide)
  have h1 := fun rest => Reader.unsigned_append 1 s.kind.code rest
    s.kind.code_lt
  have h2 := fun rest => readOptionalU64_put rest hlast
  have h3 := readOpen_raw h.raw h.points
  have h4 := readOpen_rollup hminuteOpen (hbefore hminute)
  have h5 := readOpen_rollup hhourOpen (hbefore hhour)
  have h6 := h.minute.readBucket h.points
  have h7 := h.hour.readBucket h.points []
  rw [List.append_nil] at h7
  rw [← h.kind_eq] at h3
  have hstate : (⟨s.kind, s.lastTs, s.raw, ⟨.minute, s.minute.bucket, s.minute.open⟩,
      ⟨.hour, s.hour.bucket, s.hour.open⟩⟩ : SeriesState) = s := by
    rw [← h.minute.tier_eq, ← h.hour.tier_eq]
  simp only [SeriesState.fromTail, SeriesState.toTail, Reader.new, List.append_assoc, Reader.u8, h0,
    orMalformed_ok, except_ok_bind, ne_eq, not_true_eq_false, if_false, h1, ValueKind.fromCode_code,
    h2, h3]
  simp only [RollupTier.tier] at h4 h5
  simp only [h4, h5, h6, h7, except_ok_bind, Reader.finish, if_true, orMalformed_ok, hstate,
    h.checkDomain hdomain, h.checkCoherence]

end SeriesInv

end MonitoringAgent.HubStore

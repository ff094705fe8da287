import MonitoringAgent.Verification.Series.History

/-! # Slots: which items of a tier are sealed, and which are still in the head

A tier's items are numbered, raw points by their second and buckets by their index. The slots
of a series' sealed chunks come first, those of its head after them, and a span none of whose
slots is in the head stays that way. -/

namespace MonitoringAgent.HubStore

open MonitoringAgent.Library

namespace Tier

/-- The length of a slot, in seconds: one second of raw points, or one bucket. -/
def slotSecs : Tier → ℕ
  | raw => 1
  | minute => 60
  | hour => 3600

/-- The slot a hub time falls in. -/
def slot (tier : Tier) (ts : ℕ) : ℕ := ts / tier.slotSecs

/-- The span a slot belongs to. -/
def slotSpan (tier : Tier) (slot : ℕ) : SpanStart := tier.spanOf (slot * tier.slotSecs)

theorem slotSpan_slot (tier : Tier) (ts : ℕ) : tier.slotSpan (tier.slot ts) = tier.spanOf ts := by
  rw [slotSpan, slot, spanOf_eq_mul, spanOf_eq_mul]
  congr 1
  cases tier <;> simp only [slotSecs, spanSecs] <;> omega

end Tier

@[simp] theorem RollupTier.slotSecs_tier (tier : RollupTier) :
    tier.tier.slotSecs = tier.bucketSecs := by
  cases tier <;> rfl

/-! ### The slots of chunks, of the head and of points -/

/-- The slots of the items a chunk decodes to. -/
def Sealed.slots (kind : ValueKind) (chunk : Sealed) : List ℕ :=
  match chunk.tier.rollup with
  | none => ((decodeRaw chunk.bytes kind.encoding).toOption.getD []).map RawPoint.ts
  | some rollup => ((decodeRollup chunk.bytes rollup).toOption.getD []).map Bucket.index

/-- The slots of the sealed chunks of a tier, in emission order. -/
def sealedSlots (kind : ValueKind) (sealed : List Sealed) (tier : Tier) : List ℕ :=
  (ofTier sealed tier).flatMap (Sealed.slots kind)

/-- The slots of a tier with an item still in the head, the open bucket's included. -/
def SeriesState.headSlots (s : SeriesState) (tier : Tier) : List ℕ :=
  match tier.rollup with
  | none => s.unsealedPoints.map RawPoint.ts
  | some rollup => (s.bucketsInHead rollup).map Bucket.index

/-- The slots of a tier that points fall in. -/
def slotsOf (tier : Tier) (points : List RawPoint) : List ℕ :=
  match tier.rollup with
  | none => points.map RawPoint.ts
  | some rollup => (rollupOf rollup points).map Bucket.index

@[simp] theorem sealedSlots_append (kind : ValueKind) (xs ys : List Sealed) (tier : Tier) :
    sealedSlots kind (xs ++ ys) tier = sealedSlots kind xs tier ++ sealedSlots kind ys tier := by
  simp [sealedSlots]

theorem mem_slotsOf {tier : Tier} {points : List RawPoint} {n : ℕ} :
    n ∈ slotsOf tier points ↔ ∃ p ∈ points, tier.slot p.ts = n := by
  cases tier <;>
    simp [slotsOf, Tier.rollup, Tier.slot, Tier.slotSecs, rollupOf, bucketOf, RollupTier.bucketSecs,
      Function.comp_def]

theorem slotsOf_increasing (tier : Tier) {points : List RawPoint}
    (h : points.Pairwise fun p q => p.ts < q.ts) : (slotsOf tier points).Pairwise (· < ·) := by
  cases tier with
  | raw => exact List.pairwise_map.mpr h
  | minute => exact List.pairwise_map.mpr (SeriesInv.rollupOf_increasing .minute h)
  | hour => exact List.pairwise_map.mpr (SeriesInv.rollupOf_increasing .hour h)

theorem decodeSealed_flatMap {α : Type} {decode : List UInt8 → Except DecodeError (List α)}
    {sealed : List Sealed} {items : List α} (h : decodeSealed decode sealed = .ok items) :
    sealed.flatMap (fun s => (decode s.bytes).toOption.getD []) = items := by
  induction sealed generalizing items with
  | nil => simpa [decodeSealed, pure, Except.pure] using h
  | cons s sealed ih =>
      rw [decodeSealed, List.mapM_cons] at h
      cases hs : decode s.bytes with
      | error e =>
          rw [hs] at h
          cases h
      | ok xs =>
          cases hrest : sealed.mapM (fun s => decode s.bytes) with
          | error e =>
              rw [hs, hrest] at h
              cases h
          | ok chunks =>
              rw [hs, hrest] at h
              have hchunks : decodeSealed decode sealed = .ok chunks.flatten := by
                rw [decodeSealed, hrest]
                rfl
              rw [List.flatMap_cons, ih hchunks, hs]
              exact Except.ok.inj h

/-! ### What the head holds open -/

/-- Below the top of a `u64`, a span is closed past its end and its tier's grace. -/
theorem SpanStart.isClosed_iff {span : ℕ} {tier : Tier} {hubNow : ℕ} (hnow : hubNow < 2 ^ 64) :
    isClosed span tier hubNow = true ↔ span + tier.spanSecs + tier.graceSecs < hubNow := by
  have hends : isClosed span tier hubNow = true ↔
      hubNow > min (min (span + tier.spanSecs) (2 ^ 64 - 1) + tier.graceSecs) (2 ^ 64 - 1) :=
    decide_eq_true_iff
  rw [hends]
  omega

/-- An open chunk holds a span exactly when an unsealed item lies in it. -/
theorem Open.holds_iff {C Item Config : Type} [OpenChunk C Item] [LawfulChunk C Config]
    {cfg : Config} {o : Open C} {unsealed : List Item}
    (hcontents : LawfulChunk.Contents o.chunk unsealed)
    (hspans : ∀ x ∈ unsealed, o.span = some (itemSpan C cfg x)) {span : SpanStart} :
    o.holds span = true ↔ ∃ x ∈ unsealed, itemSpan C cfg x = span := by
  have hempty := LawfulChunk.isEmpty_iff hcontents
  simp only [Open.holds, Bool.decide_and, Bool.and_eq_true, decide_eq_true_eq]
  constructor
  · rintro ⟨hspan, hfull⟩
    have hne : unsealed ≠ [] := by
      intro hnil
      rw [hempty.mpr hnil] at hfull
      cases hfull
    obtain ⟨x, hx⟩ := List.exists_mem_of_ne_nil _ hne
    exact ⟨x, hx, Option.some.inj ((hspans x hx).symm.trans hspan)⟩
  · rintro ⟨x, hx, rfl⟩
    refine ⟨hspans x hx, ?_⟩
    rw [← Bool.not_eq_true, hempty]
    exact List.ne_nil_of_mem hx

theorem Open.holds_seal {C Item Config : Type} [OpenChunk C Item] [LawfulChunk C Config]
    (o : Open C) (span : SpanStart) : o.seal.2.holds span = false := by
  have hfresh : OpenChunk.isEmpty (OpenChunk.fresh o.chunk) = true :=
    (LawfulChunk.isEmpty_iff (LawfulChunk.contents_fresh o.chunk)).mpr rfl
  rw [Open.seal]
  split
  next hnone => simp [holds, hnone]
  next held hsome =>
    split_ifs with hempty
    · simp [holds, hempty]
    · simp [holds, hfresh]

/-- A chunk still held after its tier's closed chunk was sealed is of a span not closed. -/
theorem Open.not_closed_of_holds {C Item Config : Type} [OpenChunk C Item] [LawfulChunk C Config]
    (o : Open C) {hubNow : ℕ} {span : SpanStart}
    (h : (o.sealIfClosed hubNow).2.holds span = true) :
    span.isClosed (OpenChunk.tier o.chunk) hubNow = false := by
  rw [sealIfClosed] at h
  split_ifs at h with hclosed
  · rw [o.holds_seal span] at h
    cases h
  · have hspan : o.span = some span := by
      simp only [holds, Bool.decide_and, Bool.and_eq_true, decide_eq_true_eq] at h
      exact h.1
    simpa [hspan] using hclosed

/-- A bucket a sweep leaves open is not past its end by more than its length. -/
theorem RollupState.sweep_bucket {s : RollupState} {hubNow : ℕ} {a : Accumulator}
    (h : (s.sweep hubNow).2.bucket = some a) :
    hubNow - (a.index + 1) * s.tier.bucketSecs % 2 ^ 64 ≤ s.tier.bucketSecs := by
  rw [RollupState.sweep] at h
  split_ifs at h with hpast
  · rw [closeBucket] at h
    split at h
    next hnone => simp [hnone] at hpast
    next => cases h
  · have hopen : s.bucket = some a := h
    simpa [hopen] using hpast

namespace SeriesInv

variable {kind : ValueKind} {s : SeriesState} {sealed : List Sealed} {accepted : List RawPoint}
  {clock : ℕ}

/-- The slots of the sealed chunks, then those of the head, are those of the points. -/
theorem slots_eq (h : SeriesInv kind s sealed accepted clock) (tier : Tier) :
    sealedSlots kind sealed tier ++ s.headSlots tier = slotsOf tier accepted := by
  have hslots : ∀ (tier : Tier) (s : Sealed), s ∈ ofTier sealed tier → s.tier = tier := by
    intro tier s hs
    simpa using (List.mem_filter.mp hs).2
  have hrollup : ∀ rollup : RollupTier, sealedSlots kind sealed rollup.tier ++
      (s.bucketsInHead rollup).map Bucket.index = (rollupOf rollup accepted).map Bucket.index := by
    intro rollup
    obtain ⟨buckets, hdecode, heq⟩ := h.decode_rollup rollup
    rw [← heq, List.map_append, ← decodeSealed_flatMap hdecode, List.map_flatMap, sealedSlots]
    congr 1
    apply List.flatMap_congr
    intro c hc
    rw [Sealed.slots, hslots _ c hc]
    cases rollup <;> rfl
  cases tier with
  | raw =>
      obtain ⟨points, hdecode, heq⟩ := h.decode_raw
      rw [slotsOf, Tier.rollup, ← heq, List.map_append, ← decodeSealed_flatMap hdecode,
        List.map_flatMap, sealedSlots]
      congr 1
      apply List.flatMap_congr
      intro c hc
      rw [Sealed.slots, hslots _ c hc]
      rfl
  | minute => exact hrollup .minute
  | hour => exact hrollup .hour

/-- A sealed chunk holds at least one item, and every item of it lies in its span. -/
theorem chunk_slots (h : SeriesInv kind s sealed accepted clock) {c : Sealed} (hc : c ∈ sealed) :
    c.slots kind ≠ [] ∧ ∀ n ∈ c.slots kind, c.tier.slotSpan n = c.span := by
  have hrollup : ∀ rollup : RollupTier, c.tier = rollup.tier → c.slots kind ≠ [] ∧
      ∀ n ∈ c.slots kind, c.tier.slotSpan n = c.span := by
    intro rollup htier
    obtain ⟨-, before, group, -, hopen, -⟩ := h.rollup rollup
    obtain ⟨buckets, hne, hdecode, hspan⟩ :=
      hopen.chunk_items (List.mem_filter.mpr ⟨hc, by simpa using htier⟩)
    have hslots : c.slots kind = buckets.map Bucket.index := by
      have hdecode : decodeRollup c.bytes rollup = .ok buckets := hdecode
      rw [Sealed.slots, htier]
      cases rollup <;> simp only [RollupTier.tier, Tier.rollup, hdecode] <;> rfl
    rw [hslots]
    refine ⟨by simpa using hne, fun n hn => ?_⟩
    obtain ⟨b, hb, rfl⟩ := List.mem_map.mp hn
    rw [← hspan b hb, itemSpan_bucket, Tier.slotSpan, htier, RollupTier.slotSecs_tier]
  cases htier : c.tier with
  | raw =>
      obtain ⟨points, hne, hdecode, hspan⟩ :=
        h.raw.chunk_items (List.mem_filter.mpr ⟨hc, by simpa using htier⟩)
      have hslots : c.slots kind = points.map RawPoint.ts := by
        have hdecode : decodeRaw c.bytes kind.encoding = .ok points := hdecode
        rw [Sealed.slots, htier]
        simp only [Tier.rollup, hdecode]
        rfl
      rw [hslots]
      refine ⟨by simpa using hne, fun n hn => ?_⟩
      obtain ⟨p, hp, rfl⟩ := List.mem_map.mp hn
      rw [← hspan p hp, itemSpan_point, Tier.slotSpan, Tier.slotSecs, mul_one]
  | minute => exact htier ▸ hrollup .minute htier
  | hour => exact htier ▸ hrollup .hour htier

/-- A span is held open exactly when a slot of it is in the head. -/
theorem holdsOpen_iff (h : SeriesInv kind s sealed accepted clock) (tier : Tier)
    (span : SpanStart) :
    s.holdsOpen tier span = true ↔ ∃ n ∈ s.headSlots tier, tier.slotSpan n = span := by
  have hrollup : ∀ rollup : RollupTier, (s.rollup rollup).holdsOpen span = true ↔
      ∃ n ∈ (s.bucketsInHead rollup).map Bucket.index, rollup.tier.slotSpan n = span := by
    intro rollup
    obtain ⟨htier, before, group, -, hopen, -⟩ := h.rollup rollup
    obtain ⟨chunks, unsealed, -, hcontents, -, hspans⟩ := hopen.split
    have hunsealed : s.unsealedBuckets rollup = unsealed :=
      RollupChunk.Contents.buckets_eq hcontents
    rw [RollupState.holdsOpen, Bool.or_eq_true, Open.holds_iff hcontents hspans,
      SeriesState.bucketsInHead, hunsealed]
    simp only [List.mem_map, List.mem_append, itemSpan_bucket, Tier.slotSpan,
      RollupTier.slotSecs_tier, Option.any_eq_true, RollupState.bucketSpan, htier,
      Option.mem_toList, decide_eq_true_eq]
    constructor
    · rintro (⟨b, hb, heq⟩ | ⟨a, ha, heq⟩)
      · exact ⟨_, ⟨b, .inl hb, rfl⟩, heq⟩
      · exact ⟨_, ⟨_, .inr ⟨a, ha, rfl⟩, rfl⟩, heq⟩
    · rintro ⟨_, ⟨b, hb | ⟨a, ha, rfl⟩, rfl⟩, heq⟩
      · exact .inl ⟨b, hb, heq⟩
      · exact .inr ⟨a, ha, heq⟩
  cases tier with
  | raw =>
      obtain ⟨chunks, unsealed, -, hcontents, -, hspans⟩ := h.raw.split
      have hunsealed : s.unsealedPoints = unsealed := RawChunk.Contents.points_eq hcontents
      rw [SeriesState.holdsOpen, Open.holds_iff hcontents hspans, SeriesState.headSlots]
      simp [Tier.rollup, hunsealed, Tier.slotSpan, Tier.slotSecs]
  | minute => exact hrollup .minute
  | hour => exact hrollup .hour

/-- After a sweep and the seal that follows it, a closed span is held open no more. -/
theorem holdsOpen_swept (h : SeriesInv kind s sealed accepted clock) {hubNow : ℕ}
    (hnow : hubNow < 2 ^ 64) {tier : Tier} {span : ℕ}
    (hclosed : SpanStart.isClosed span tier hubNow = true) :
    ((s.sweep hubNow).2.sealClosed hubNow).2.holdsOpen tier span = false := by
  have hrollup : ∀ rollup : RollupTier, SpanStart.isClosed span rollup.tier hubNow = true →
      ¬RollupState.holdsOpen { ((s.rollup rollup).sweep hubNow).2 with
        «open» := (((s.rollup rollup).sweep hubNow).2.open.sealIfClosed hubNow).2 } span =
            true := by
    intro rollup hclosed hholds
    have hswept := (h.rollup rollup).sweep h.points hubNow
    obtain ⟨htier, before, group, hsplit, hopen, hbucket⟩ := hswept
    rw [RollupState.holdsOpen, Bool.or_eq_true] at hholds
    rcases hholds with hholds | hholds
    · have hopenTier : OpenChunk.tier ((s.rollup rollup).sweep hubNow).2.open.chunk =
          rollup.tier := by
        rw [LawfulChunk.tier_eq, hopen.config]
        rfl
      have hnot := Open.not_closed_of_holds _ hholds
      rw [hopenTier, hclosed] at hnot
      cases hnot
    · -- A bucket the sweep left open ends too late for its span to be closed.
      obtain ⟨a, ha, hspan⟩ := (Option.any_eq_true _ _).mp hholds
      simp only at ha
      rw [ha] at hbucket
      obtain ⟨hof, -⟩ := hbucket
      obtain ⟨p, hp⟩ := List.exists_mem_of_ne_nil _ hof.ne_nil
      have hbound := h.points.bounded p (by simp [hsplit, hp])
      have hindex := hof.index p hp
      have hopen := RollupState.sweep_bucket ha
      rw [(h.rollup rollup).tier_eq] at hopen
      simp only [RollupState.bucketSpan, htier, decide_eq_true_eq] at hspan
      have hspan : @Eq ℕ (rollup.tier.spanOf (a.index * rollup.bucketSecs)) span := hspan
      have hpast := (SpanStart.isClosed_iff hnow).mp hclosed
      cases rollup with
      | minute =>
          simp only [RollupTier.tier, RollupTier.bucketSecs, Tier.spanOf, Tier.spanSecs,
            Tier.graceSecs, sweepSecs] at hopen hindex hspan hpast
          rw [Nat.mod_eq_of_lt (by omega)] at hopen
          omega
      | hour =>
          simp only [RollupTier.tier, RollupTier.bucketSecs, Tier.spanOf, Tier.spanSecs,
            Tier.graceSecs, sweepSecs] at hopen hindex hspan hpast
          rw [Nat.mod_eq_of_lt (by omega)] at hopen
          omega
  cases tier with
  | raw =>
      rw [← Bool.not_eq_true]
      intro hholds
      have hnot := Open.not_closed_of_holds s.raw hholds
      rw [LawfulChunk.tier_eq, h.raw.config] at hnot
      exact absurd (hclosed.symm.trans hnot) (by simp)
  | minute => exact (Bool.not_eq_true _).mp (hrollup .minute hclosed)
  | hour => exact (Bool.not_eq_true _).mp (hrollup .hour hclosed)

end SeriesInv

/-! ### Drained spans -/

/-- Every item of a span is in the sealed chunks. -/
def Drained (kind : ValueKind) (sealed : List Sealed) (points : List RawPoint) (tier : Tier)
    (span : SpanStart) : Prop :=
  ∀ p ∈ points, tier.spanOf p.ts = span → tier.slot p.ts ∈ sealedSlots kind sealed tier

namespace Drained

variable {kind : ValueKind} {s : SeriesState} {sealed : List Sealed} {points : List RawPoint}
  {clock : ℕ} {tier : Tier} {span : SpanStart}

theorem of_not_holds (h : SeriesInv kind s sealed points clock)
    (hholds : s.holdsOpen tier span = false) : Drained kind sealed points tier span := by
  intro p hp hspan
  have hmem : tier.slot p.ts ∈ sealedSlots kind sealed tier ++ s.headSlots tier := by
    rw [h.slots_eq]
    exact mem_slotsOf.mpr ⟨p, hp, rfl⟩
  refine (List.mem_append.mp hmem).resolve_right fun hhead => ?_
  rw [(h.holdsOpen_iff tier span).mpr ⟨_, hhead, by rw [tier.slotSpan_slot, hspan]⟩] at hholds
  cases hholds

/-- Later points, all of other spans, and more chunks keep a span drained. -/
theorem mono (h : Drained kind sealed points tier span) (chunks : List Sealed)
    {later : List RawPoint} (hlater : ∀ p ∈ later, p ∈ points ∨ tier.spanOf p.ts ≠ span) :
    Drained kind (sealed ++ chunks) later tier span := by
  intro p hp hspan
  rw [sealedSlots_append]
  exact List.mem_append_left _ (h p ((hlater p hp).resolve_right (not_not_intro hspan)) hspan)

/-- A drained span is held open by no state and gets no more chunks. -/
theorem done {chunks : List Sealed} (hd : Drained kind sealed points tier span)
    (h : SeriesInv kind s (sealed ++ chunks) points clock) :
    s.holdsOpen tier span = false ∧ ∀ c ∈ chunks, c.tier = tier → c.span ≠ span := by
  have hslots := h.slots_eq tier
  have hinc := slotsOf_increasing tier h.points.increasing
  -- A slot of the span past the sealed ones is a slot twice.
  have hpast : ∀ n ∈ sealedSlots kind chunks tier ++ s.headSlots tier, tier.slotSpan n ≠ span := by
    intro n hn hspan
    rw [← hslots, sealedSlots_append, List.append_assoc] at hinc
    have hmem : n ∈ slotsOf tier points := by
      rw [← hslots, sealedSlots_append, List.append_assoc]
      exact List.mem_append_right _ hn
    obtain ⟨p, hp, rfl⟩ := mem_slotsOf.mp hmem
    rw [tier.slotSpan_slot] at hspan
    exact lt_irrefl _ ((List.pairwise_append.mp hinc).2.2 _ (hd p hp hspan) _ hn)
  constructor
  · rw [← Bool.not_eq_true, h.holdsOpen_iff]
    rintro ⟨n, hn, hspan⟩
    exact hpast n (List.mem_append_right _ hn) hspan
  · rintro c hc rfl rfl
    obtain ⟨hne, hspan⟩ := h.chunk_slots (List.mem_append_right _ hc)
    obtain ⟨n, hn⟩ := List.exists_mem_of_ne_nil _ hne
    refine hpast n (List.mem_append_left _ ?_) (hspan n hn)
    exact List.mem_flatMap.mpr ⟨c, List.mem_filter.mpr ⟨hc, by simp⟩, hn⟩

end Drained

end MonitoringAgent.HubStore

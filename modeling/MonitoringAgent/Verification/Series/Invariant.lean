import MonitoringAgent.Model.State
import MonitoringAgent.Verification.Series.Rollup

/-! # The invariant of a series' state

Three tiers, their open chunks and their open buckets, against the points accepted and the
chunks sealed so far. Each operation of the state machine keeps it. -/

namespace MonitoringAgent.HubStore

open MonitoringAgent.Library

/-- The chunks of one tier, in emission order. -/
def ofTier (sealed : List Sealed) (tier : Tier) : List Sealed := sealed.filter (·.tier = tier)

/-- `accepted` points went in and `sealed` chunks came out, up to hub time `clock`. -/
structure SeriesInv (kind : ValueKind) (s : SeriesState) (sealed : List Sealed)
    (accepted : List RawPoint) (clock : ℕ) : Prop where
  kind_eq : s.kind = kind
  lastTs : s.lastTs = accepted.getLast?.map RawPoint.ts
  points : PointsInv accepted
  raw : OpenRest kind.encoding s.raw (ofTier sealed .raw) accepted
  minute : RollupInv .minute s.minute (ofTier sealed .minute) accepted clock
  hour : RollupInv .hour s.hour (ofTier sealed .hour) accepted clock

/-! ### Tiers of emitted chunks -/

section OfTier

variable {C Item Config : Type} [OpenChunk C Item] [LawfulChunk C Config]
variable {cfg : Config} {o : Open C} {sealed : List Sealed} {items : List Item}

theorem OpenInv.tier_eq (h : OpenInv cfg o sealed items) :
    ∀ s ∈ sealed, s.tier = LawfulChunk.tierOf C cfg := by
  obtain ⟨chunks, -, hchunks, -⟩ := h.split
  clear h
  intro s hs
  induction hchunks with
  | nil => cases hs
  | @cons t xs sealed chunks ht _ ih =>
      rcases List.mem_cons.mp hs with rfl | hs
      · exact ht.tier
      · exact ih hs

end OfTier

@[simp] theorem ofTier_append (xs ys : List Sealed) (tier : Tier) :
    ofTier (xs ++ ys) tier = ofTier xs tier ++ ofTier ys tier := by
  simp [ofTier]

@[simp] theorem ofTier_nil (tier : Tier) : ofTier [] tier = [] := rfl

theorem ofTier_self {xs : List Sealed} {tier : Tier} (h : ∀ s ∈ xs, s.tier = tier) :
    ofTier xs tier = xs := by
  rw [ofTier, List.filter_eq_self]
  simpa using h

theorem ofTier_other {xs : List Sealed} {tier other : Tier} (h : ∀ s ∈ xs, s.tier = tier)
    (hne : tier ≠ other) : ofTier xs other = [] := by
  rw [ofTier, List.filter_eq_nil_iff]
  intro s hs
  simp [h s hs, hne]

/-- What a rollup tier emits is of that tier. -/
theorem RollupInv.tier_mem {tier : RollupTier} {s : RollupState} {sealed : List Sealed}
    {accepted : List RawPoint} {clock : ℕ} (h : RollupInv tier s sealed accepted clock) :
    ∀ x ∈ sealed, x.tier = tier.tier := by
  obtain ⟨-, before, group, -, hopen, -⟩ := h
  exact hopen.tier_eq

namespace SeriesInv

variable {kind : ValueKind} {s : SeriesState} {sealed : List Sealed} {accepted : List RawPoint}
  {clock : ℕ}

/-- Puts the three tiers' parts together after an operation: each tier's chunks are what it
emitted, whatever the order they are listed in. -/
theorem of_parts {s' : SeriesState} {emitted : List Sealed} (xs ys zs : List Sealed)
    {accepted : List RawPoint} {clock : ℕ} (hkind : s'.kind = kind)
    (hemitted : emitted = xs ++ ys ++ zs)
    (hlast : s'.lastTs = accepted.getLast?.map RawPoint.ts) (hpoints : PointsInv accepted)
    (hraw : OpenRest kind.encoding s'.raw (ofTier sealed .raw ++ xs) accepted)
    (hminute : RollupInv .minute s'.minute (ofTier sealed .minute ++ ys) accepted clock)
    (hhour : RollupInv .hour s'.hour (ofTier sealed .hour ++ zs) accepted clock) :
    SeriesInv kind s' (sealed ++ emitted) accepted clock := by
  have hx : ∀ x ∈ xs, x.tier = .raw := fun x hx => hraw.tier_eq x (List.mem_append_right _ hx)
  have hy : ∀ x ∈ ys, x.tier = .minute := fun x hx =>
    hminute.tier_mem x (List.mem_append_right _ hx)
  have hz : ∀ x ∈ zs, x.tier = .hour := fun x hx => hhour.tier_mem x (List.mem_append_right _ hx)
  subst hemitted
  refine ⟨hkind, hlast, hpoints, ?_, ?_, ?_⟩
  · simpa [ofTier_self hx, ofTier_other hy, ofTier_other hz] using hraw
  · simpa [ofTier_self hy, ofTier_other hx, ofTier_other hz] using hminute
  · simpa [ofTier_self hz, ofTier_other hx, ofTier_other hy] using hhour

theorem rollup (h : SeriesInv kind s sealed accepted clock) (tier : RollupTier) :
    RollupInv tier (s.rollup tier) (ofTier sealed tier.tier) accepted clock := by
  cases tier with
  | minute => exact h.minute
  | hour => exact h.hour

theorem mono (h : SeriesInv kind s sealed accepted clock) {later : ℕ} (hle : clock ≤ later) :
    SeriesInv kind s sealed accepted later :=
  ⟨h.kind_eq, h.lastTs, h.points, h.raw, h.minute.mono hle, h.hour.mono hle⟩

end SeriesInv

/-! ### The operations keep it -/

theorem openRest_new {C Item Config : Type} [OpenChunk C Item] [LawfulChunk C Config] {c : C}
    (h : LawfulChunk.Contents c ([] : List Item)) :
    OpenRest (LawfulChunk.config c) (⟨c, none, 0⟩ : Open C) [] [] :=
  ⟨⟨rfl, ⟨[], [], .nil, h, rfl, by simp⟩, by simp, by simp, by simp, by simp [inSpan], by simp⟩,
    by simp, by simp⟩

theorem Scaled.isI64 (value : Scaled) : IsI64 value.get := by
  obtain ⟨kind, hlow, hhigh⟩ := value.inDomain
  have hmax : kind.maxScaled < 2 ^ 63 := by cases kind <;> decide
  exact ⟨by omega, by omega⟩

namespace SeriesInv

variable {kind : ValueKind} {s : SeriesState} {sealed : List Sealed} {accepted : List RawPoint}
  {clock : ℕ}

theorem new (kind : ValueKind) : SeriesInv kind (.new kind) [] [] 0 := by
  have hrollup : ∀ tier, RollupInv tier (RollupState.new tier) [] [] 0 := fun tier =>
    ⟨rfl, [], [], rfl, openRest_new (C := RollupChunk) (RollupChunk.contents_new tier),
      by simp [RollupState.new]⟩
  exact ⟨rfl, rfl, ⟨by simp, by simp, by simp⟩,
    openRest_new (C := RawChunk) (RawChunk.contents_new kind.encoding),
    hrollup .minute, hrollup .hour⟩

/-- A point at or before the last one is refused, and nothing changes. -/
theorem append_refused {ts : ℕ} (value : Scaled) (h : s.lastTs.any (ts ≤ ·) = true) :
    s.append ts value = (.error .notAfterLast, s) := by
  simp [SeriesState.append, h]

theorem last_lt (h : SeriesInv kind s sealed accepted clock) {ts : ℕ}
    (hafter : s.lastTs.any (ts ≤ ·) = false) : ∀ p ∈ accepted, p.ts < ts := by
  intro p hp
  obtain ⟨last, hlast⟩ : ∃ last, accepted.getLast? = some last :=
    ⟨_, List.getLast?_eq_some_getLast (List.ne_nil_of_mem hp)⟩
  have hlt : last.ts < ts := by simpa [h.lastTs, hlast] using hafter
  obtain ⟨front, rfl⟩ := List.getLast?_eq_some_iff.mp hlast
  rcases List.mem_append.mp hp with hp | hp
  · exact ((List.pairwise_append.mp h.points.increasing).2.2 p hp last (by simp)).trans hlt
  · rw [List.mem_singleton.mp hp]
    exact hlt

/-- An accepted point is added to every tier. -/
theorem append (h : SeriesInv kind s sealed accepted clock) {ts : ℕ} (value : Scaled)
    (hafter : s.lastTs.any (ts ≤ ·) = false) (hclock : clock ≤ ts) (hbound : ts + 3600 < 2 ^ 64) :
    ∃ emitted, (s.append ts value).1 = .ok emitted ∧
      SeriesInv kind (s.append ts value).2 (sealed ++ emitted)
        (accepted ++ [⟨ts, value.get⟩]) clock := by
  have hlast := h.last_lt hafter
  have hpoints : PointsInv (accepted ++ [⟨ts, value.get⟩]) := by
    refine ⟨List.pairwise_append.mpr ⟨h.points.increasing, by simp, ?_⟩, ?_, ?_⟩
    · intro p hp q hq
      rw [List.mem_singleton.mp hq]
      exact hlast p hp
    · intro p hp
      rcases List.mem_append.mp hp with hp | hp
      · exact h.points.bounded p hp
      · rw [List.mem_singleton.mp hp]
        exact hbound
    · intro p hp
      rcases List.mem_append.mp hp with hp | hp
      · exact h.points.values p hp
      · rw [List.mem_singleton.mp hp]
        exact value.isI64
  have hvalid : RawPoint.Valid ⟨ts, value.get⟩ := hpoints.valid _ (by simp)
  have hraw := h.raw.pushIn (C := RawChunk) hvalid hlast
  rw [itemSpan_point] at hraw
  have hminute := h.minute.add hpoints hclock
  have hhour := h.hour.add hpoints hclock
  simp only [SeriesState.append, hafter, Bool.false_eq_true, if_false]
  exact ⟨_, rfl, of_parts _ _ _ h.kind_eq rfl (by simp) hpoints hraw hminute hhour⟩

theorem sweep (h : SeriesInv kind s sealed accepted clock) (hubNow : ℕ) :
    SeriesInv kind (s.sweep hubNow).2 (sealed ++ (s.sweep hubNow).1) accepted (max clock hubNow) :=
  of_parts [] _ _ h.kind_eq (by simp [SeriesState.sweep]) h.lastTs h.points
    (by simpa [SeriesState.sweep] using h.raw) (h.minute.sweep h.points hubNow)
    (h.hour.sweep h.points hubNow)

theorem sealSpan (h : SeriesInv kind s sealed accepted clock) (tier : Tier) (span : SpanStart) :
    SeriesInv kind (s.sealSpan tier span).2 (sealed ++ (s.sealSpan tier span).1.toList) accepted
      clock := by
  cases tier with
  | raw =>
      exact of_parts _ [] [] h.kind_eq (by simp [SeriesState.sealSpan]) h.lastTs
        h.points (h.raw.sealIfIn span) (by simpa [SeriesState.sealSpan] using h.minute)
          (by simpa [SeriesState.sealSpan] using h.hour)
  | minute =>
      exact of_parts [] _ [] h.kind_eq (by simp [SeriesState.sealSpan]) h.lastTs
        h.points (by simpa [SeriesState.sealSpan] using h.raw)
        (h.minute.of_open fun _ hopen => hopen.sealIfIn span)
        (by simpa [SeriesState.sealSpan] using h.hour)
  | hour =>
      exact of_parts [] [] _ h.kind_eq (by simp [SeriesState.sealSpan]) h.lastTs
        h.points (by simpa [SeriesState.sealSpan] using h.raw)
          (by simpa [SeriesState.sealSpan] using h.minute)
        (h.hour.of_open fun _ hopen => hopen.sealIfIn span)

theorem sealClosed (h : SeriesInv kind s sealed accepted clock) (hubNow : ℕ) :
    SeriesInv kind (s.sealClosed hubNow).2 (sealed ++ (s.sealClosed hubNow).1) accepted clock :=
  of_parts _ _ _ h.kind_eq rfl h.lastTs h.points (h.raw.sealIfClosed hubNow)
    (h.minute.of_open fun _ hopen => hopen.sealIfClosed hubNow)
    (h.hour.of_open fun _ hopen => hopen.sealIfClosed hubNow)

end SeriesInv

end MonitoringAgent.HubStore

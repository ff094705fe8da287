import MonitoringAgent.Verification.Codec.Rollup

/-! # Chunks under any sequence of pushes

Points or buckets are pushed one after another and the refused ones ignored. After every push
the chunk's bytes are the accepted items, neither more nor less, and reopen to the chunk. -/

namespace MonitoringAgent.HubStore

/-! ### Pushes, the refused ones ignored -/

section PushEach

variable {C Item : Type} {push : C → Item → Except PushRefused Unit × C}

/-- Pushes every item; the chunk after them and the accepted items in order. -/
def pushEach (push : C → Item → Except PushRefused Unit × C) : C → List Item → C × List Item
  | c, [] => (c, [])
  | c, item :: items =>
      match push c item with
      | (.ok (), c) => ((pushEach push c items).1, item :: (pushEach push c items).2)
      | (.error _, c) => pushEach push c items

/-- What an accepted push and a refused one each keep, all pushes keep. -/
theorem pushEach_induct (P : C → List Item → Prop) {c : C} {items : List Item} {done : List Item}
    (hstart : P c done)
    (haccepted : ∀ c done, ∀ item ∈ items, P c done → (push c item).1 = .ok () →
      P (push c item).2 (done ++ [item]))
    (hrefused : ∀ c done, ∀ item ∈ items, P c done → ∀ e, (push c item).1 = .error e →
      P (push c item).2 done) :
    P (pushEach push c items).1 (done ++ (pushEach push c items).2) := by
  induction items generalizing c done with
  | nil => simpa [pushEach] using hstart
  | cons item items ih =>
      have hlater := fun c done i hi => haccepted c done i (List.mem_cons_of_mem _ hi)
      have hlater' := fun c done i hi => hrefused c done i (List.mem_cons_of_mem _ hi)
      rw [pushEach]
      split
      next c' hpush =>
        have hnext := haccepted c done item List.mem_cons_self hstart (by rw [hpush])
        rw [hpush] at hnext
        simpa using ih hnext hlater hlater'
      next e c' hpush =>
        have hnext := hrefused c done item List.mem_cons_self hstart e (by rw [hpush])
        rw [hpush] at hnext
        exact ih hnext hlater hlater'

end PushEach

/-! ### Raw chunks -/

namespace RawChunk

theorem contents_pushEach (encoding : Encoding) {points : List RawPoint}
    (hvalid : ∀ p ∈ points, p.Valid) :
    (pushEach push (new encoding) points).1.encoding = encoding ∧
      (pushEach push (new encoding) points).1.Contents (pushEach push (new encoding) points).2 := by
  rw [← List.nil_append (pushEach push (new encoding) points).2]
  refine pushEach_induct (fun (c : RawChunk) done => c.encoding = encoding ∧ c.Contents done)
    ⟨rfl, contents_new encoding⟩ ?_ ?_
  · intro c done p hp h hok
    exact ⟨by rw [push_encoding, h.1], h.2.push (hvalid p hp) hok⟩
  · intro c done p hp h e he
    rw [push_refused he]
    exact h

/-- The first point is always taken. -/
theorem pushEach_ne_nil (encoding : Encoding) {points : List RawPoint} (hne : points ≠ []) :
    (pushEach push (new encoding) points).2 ≠ [] := by
  obtain ⟨p, rest, rfl⟩ := List.exists_cons_of_ne_nil hne
  rw [pushEach, push_empty p rfl]
  exact List.cons_ne_nil _ _

theorem Contents.encodedLen_eq {c : RawChunk} {points : List RawPoint} (h : c.Contents points) :
    c.encode.length = c.encodedLen ∧ c.encodedLen ≤ maxRawChunkBytes ∧ c.len ≤ maxRawPoints := by
  cases points with
  | nil =>
      rw [h.eq_new]
      exact ⟨rfl, Nat.le_of_ble_eq_true rfl, Nat.zero_le _⟩
  | cons first later =>
      have hl := h.layout
      have hcount : c.count ≤ 240 := by
        rw [hl.count]
        exact hl.count_le
      have hlen : c.encode.length = c.encodedLen := by
        rw [length_encode hl.ends (by omega) (h.valid first (by simp)).1, encodedLen, hl.ends]
        rfl
      exact ⟨hlen, hlen ▸ hl.size, hcount⟩

/-- Whatever is pushed into a raw chunk, its bytes are as long as predicted and within the
limits, a refused point leaves it as it was, and once it holds a point its bytes decode to
exactly the accepted points and reopen to the chunk itself. -/
theorem round_trip (encoding : Encoding) (points : List RawPoint) (hvalid : ∀ p ∈ points, p.Valid) :
    ∃ c accepted, pushEach push (new encoding) points = (c, accepted) ∧
      c.encode.length = c.encodedLen ∧ c.encodedLen ≤ 1024 ∧ c.len ≤ 240 ∧
      (∀ p refusal, (c.push p).1 = .error refusal → (c.push p).2 = c) ∧
      (points ≠ [] → accepted ≠ [] ∧ decodeRaw c.encode encoding = .ok accepted ∧
        reopen c.encode encoding = .ok c ∧
        ∀ c', reopen c.encode encoding = .ok c' → ∀ more,
          (pushEach push c' more).1.encode = (pushEach push c more).1.encode) := by
  obtain ⟨hencoding, hcontents⟩ := contents_pushEach encoding hvalid
  obtain ⟨hlen, hsize, hcount⟩ := hcontents.encodedLen_eq
  refine ⟨_, _, rfl, hlen, hsize, hcount, fun p refusal hrefused => push_refused hrefused, ?_⟩
  intro hne
  have haccepted := pushEach_ne_nil encoding hne
  have hreopen := hcontents.reopen haccepted
  have hdecode := hcontents.decode haccepted
  rw [hencoding] at hreopen hdecode
  refine ⟨haccepted, hdecode, hreopen, fun c' hc' more => ?_⟩
  rw [Except.ok.inj (hc'.symm.trans hreopen)]

/-- Two points, one of them at the extremes, and one refused. -/
theorem round_trip_extremes :
    (pushEach push (new .deltaOfDelta) [⟨0, -2 ^ 63⟩, ⟨0, 1⟩, ⟨7, 2 ^ 63 - 1⟩]).2 =
        [⟨0, -2 ^ 63⟩, ⟨7, 2 ^ 63 - 1⟩] ∧
      ∃ c accepted, pushEach push (new .deltaOfDelta) [⟨0, -2 ^ 63⟩, ⟨0, 1⟩, ⟨7, 2 ^ 63 - 1⟩] =
        (c, accepted) ∧ reopen c.encode .deltaOfDelta = .ok c := by
  refine ⟨by decide, ?_⟩
  obtain ⟨c, accepted, hpushed, -, -, -, -, hnonempty⟩ := round_trip .deltaOfDelta
    [⟨0, -2 ^ 63⟩, ⟨0, 1⟩, ⟨7, 2 ^ 63 - 1⟩] (by simp [RawPoint.Valid, IsI64])
  exact ⟨c, accepted, hpushed, (hnonempty (List.cons_ne_nil _ _)).2.2.1⟩

end RawChunk

/-! ### Rollup chunks -/

/-- What a bucket's fields can hold: a `u64` index, `i64` values and a `u32` count. -/
structure Bucket.Typed (b : Bucket) : Prop where
  index_lt : b.index < 2 ^ 64
  avg : IsI64 b.avg
  min : IsI64 b.min
  max : IsI64 b.max
  count_lt : b.count < 2 ^ 32

namespace RollupChunk

/-- A bucket that is not refused has its average between its extremes and a point in it. -/
theorem valid_of_push {c : RollupChunk} {b : Bucket} (hb : b.Typed) (hok : (c.push b).1 = .ok ()) :
    b.Valid := by
  by_cases hbucket : b.min ≤ b.avg ∧ b.avg ≤ b.max ∧ b.count > 0
  · obtain ⟨hmin, hmax, hcount⟩ := hbucket
    exact ⟨hb.index_lt, hmin, hmax, hb.min.1, hb.max.2, hcount, hb.count_lt⟩
  · rw [push, if_pos hbucket] at hok
    cases hok

theorem contents_pushEach (tier : RollupTier) {buckets : List Bucket}
    (htyped : ∀ b ∈ buckets, b.Typed) :
    (pushEach push (new tier) buckets).1.tier = tier ∧
      (pushEach push (new tier) buckets).1.Contents (pushEach push (new tier) buckets).2 := by
  rw [← List.nil_append (pushEach push (new tier) buckets).2]
  refine pushEach_induct (fun (c : RollupChunk) done => c.tier = tier ∧ c.Contents done)
    ⟨rfl, contents_new tier⟩ ?_ ?_
  · intro c done b hb h hok
    exact ⟨by rw [push_tier, h.1], h.2.push (valid_of_push (htyped b hb) hok) hok⟩
  · intro c done b hb h e he
    rw [push_refused he]
    exact h

theorem Contents.encodedLen_eq {c : RollupChunk} {buckets : List Bucket} (h : c.Contents buckets) :
    c.encode.length = c.encodedLen := by
  cases buckets with
  | nil =>
      rw [h.eq_new]
      rfl
  | cons first later =>
      have hl := h.layout
      have hbound := c.tier.maxBuckets_bounds
      have hle := hl.count_le
      have hcount : c.count < 2 ^ 64 := by
        rw [hl.count]
        omega
      rw [encode_some hl.ends, encodedLen, hl.ends]
      simp only [List.length_cons, List.length_append, length_varintBytes hcount,
        length_varintBytes (h.valid first (by simp)).index_lt, length_varintBytes (zigzag_lt _),
        BitWriter.asBytes]
      omega

/-- Whatever is pushed into a rollup chunk, its bytes are as long as predicted, its buckets are the
accepted ones, a refused bucket leaves it as it was, its bit stream included, and once it holds a
bucket its bytes decode to exactly the accepted buckets and reopen to the chunk itself. The bytes of
an empty chunk do not reopen. -/
theorem round_trip_buckets (tier : RollupTier) (buckets : List Bucket)
    (htyped : ∀ b ∈ buckets, b.Typed) :
    ∃ c accepted, pushEach push (new tier) buckets = (c, accepted) ∧
      c.encode.length = c.encodedLen ∧ c.buckets = accepted ∧
      (∀ b refusal, (c.push b).1 = .error refusal → (c.push b).2 = c) ∧
      (accepted ≠ [] → decodeRollup c.encode tier = .ok accepted ∧ reopen c.encode tier = .ok c) ∧
      (accepted = [] → reopen c.encode tier = .error .malformed) := by
  obtain ⟨htier, hcontents⟩ := contents_pushEach tier htyped
  refine ⟨_, _, rfl, hcontents.encodedLen_eq, hcontents.buckets_eq,
    fun b refusal hrefused => push_refused hrefused, ?_, ?_⟩
  · intro hne
    have hdecode := hcontents.decode hne
    have hreopen := hcontents.reopen hne
    rw [htier] at hdecode hreopen
    exact ⟨hdecode, hreopen⟩
  · intro hnil
    rw [hnil] at hcontents
    rw [hcontents.eq_new, htier]
    cases tier <;> decide

/-- Two buckets with a gap between them, and one whose average is above its maximum. -/
theorem round_trip_buckets_gap :
    (pushEach push (new .minute) [⟨3, 5, 1, 9, 2⟩, ⟨4, 7, 1, 6, 1⟩,
        ⟨9, -1, -2 ^ 63, 2 ^ 63 - 1, 4⟩]).2 =
        [⟨3, 5, 1, 9, 2⟩, ⟨9, -1, -2 ^ 63, 2 ^ 63 - 1, 4⟩] ∧
      ∃ c accepted, pushEach push (new .minute)
        [⟨3, 5, 1, 9, 2⟩, ⟨4, 7, 1, 6, 1⟩, ⟨9, -1, -2 ^ 63, 2 ^ 63 - 1, 4⟩] = (c, accepted) ∧
        c.encode.length = c.encodedLen ∧ c.buckets = accepted := by
  refine ⟨by decide, ?_⟩
  obtain ⟨c, accepted, hpushed, hlen, hbuckets, -⟩ := round_trip_buckets .minute
    [⟨3, 5, 1, 9, 2⟩, ⟨4, 7, 1, 6, 1⟩, ⟨9, -1, -2 ^ 63, 2 ^ 63 - 1, 4⟩] (by
      intro b hb
      simp only [List.mem_cons, List.not_mem_nil, or_false] at hb
      rcases hb with rfl | rfl | rfl <;> exact ⟨by decide, by decide, by
        decide, by decide, by decide⟩)
  exact ⟨c, accepted, hpushed, hlen, hbuckets⟩

/-- A chunk that has refused every bucket is empty, and its bytes reopen to no chunk. -/
theorem reopen_empty_refused :
    (∀ b ∈ [(⟨3, 5, 6, 9, 2⟩ : Bucket)], b.Typed) ∧
      ¬reopen (pushEach push (new .minute) [⟨3, 5, 6, 9, 2⟩]).1.encode .minute =
        .ok (pushEach push (new .minute) [⟨3, 5, 6, 9, 2⟩]).1 := by
  refine ⟨?_, by decide⟩
  intro b hb
  rw [List.mem_singleton.mp hb]
  exact ⟨by decide, by decide, by decide, by decide, by decide⟩

end RollupChunk

end MonitoringAgent.HubStore

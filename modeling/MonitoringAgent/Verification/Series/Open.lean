import MonitoringAgent.Library.Increasing
import MonitoringAgent.Model.State
import MonitoringAgent.Verification.Codec.Rollup

/-! # An open chunk and what it sealed

Stated once for raw and rollup chunks: what was pushed is what the sealed chunks decode to
followed by what is still open, and the sealed keys count up within each span. -/

namespace MonitoringAgent.HubStore

open MonitoringAgent.Library

/-! ### What both kinds of chunk promise -/

/-- The chunk types' contracts. A configuration is what a chunk keeps across pushes and
hands to its successor; an item's rank counts units of time, `perSpan` of them to a span. -/
class LawfulChunk (C : Type) {Item : outParam Type} [OpenChunk C Item]
    (Config : outParam Type) where
  config : C → Config
  tierOf : Config → Tier
  unit : Config → ℕ
  perSpan : Config → ℕ
  rank : Item → ℕ
  Contents : C → List Item → Prop
  Valid : Item → Prop
  decode : Config → List UInt8 → Except DecodeError (List Item)
  tier_eq : ∀ c : C, OpenChunk.tier c = tierOf (config c)
  unit_pos : ∀ cfg, 0 < unit cfg
  spanSecs_eq : ∀ cfg, (tierOf cfg).spanSecs = perSpan cfg * unit cfg
  perSpan_le : ∀ cfg, perSpan cfg ≤ 3600
  config_push : ∀ (c : C) (item : Item), config (OpenChunk.push c item).2 = config c
  config_fresh : ∀ c : C, config (OpenChunk.fresh c) = config c
  contents_fresh : ∀ c : C, Contents (OpenChunk.fresh c) []
  push_ok : ∀ {c : C} {items : List Item} {item : Item}, Contents c items → Valid item →
    (OpenChunk.push c item).1 = .ok () → Contents (OpenChunk.push c item).2 (items ++ [item])
  push_refused : ∀ {c : C} {item : Item} {e : PushRefused},
    (OpenChunk.push c item).1 = .error e → (OpenChunk.push c item).2 = c
  push_empty : ∀ {c : C} {item : Item}, Contents c [] → Valid item →
    (OpenChunk.push c item).1 = .ok ()
  isEmpty_iff : ∀ {c : C} {items : List Item}, Contents c items →
    (OpenChunk.isEmpty c = true ↔ items = [])
  decode_encode : ∀ {c : C} {items : List Item}, Contents c items → items ≠ [] →
    decode (config c) (OpenChunk.encode c) = .ok items

instance : LawfulChunk RawChunk Encoding where
  config := RawChunk.encoding
  tierOf _ := .raw
  unit _ := 1
  perSpan _ := 3600
  rank := RawPoint.ts
  Contents := RawChunk.Contents
  Valid := RawPoint.Valid
  decode encoding bytes := decodeRaw bytes encoding
  tier_eq _ := rfl
  unit_pos _ := by norm_num
  spanSecs_eq _ := rfl
  perSpan_le _ := le_rfl
  config_push := RawChunk.push_encoding
  config_fresh _ := rfl
  contents_fresh c := RawChunk.contents_new c.encoding
  push_ok := RawChunk.Contents.push
  push_refused := RawChunk.push_refused
  push_empty h _ := h.push_empty _
  isEmpty_iff := RawChunk.Contents.isEmpty_iff
  decode_encode := RawChunk.Contents.decode

instance : LawfulChunk RollupChunk RollupTier where
  config := RollupChunk.tier
  tierOf := RollupTier.tier
  unit := RollupTier.bucketSecs
  perSpan := RollupTier.maxBuckets
  rank := Bucket.index
  Contents := RollupChunk.Contents
  Valid := Bucket.Valid
  decode tier bytes := decodeRollup bytes tier
  tier_eq _ := rfl
  unit_pos tier := by cases tier <;> decide
  spanSecs_eq tier := by cases tier <;> rfl
  perSpan_le tier := by cases tier <;> decide
  config_push := RollupChunk.push_tier
  config_fresh _ := rfl
  contents_fresh c := RollupChunk.contents_new c.tier
  push_ok := RollupChunk.Contents.push
  push_refused := RollupChunk.push_refused
  push_empty h hb := h.push_empty hb
  isEmpty_iff := RollupChunk.Contents.isEmpty_iff
  decode_encode := RollupChunk.Contents.decode

/-! ### Spans -/

theorem Tier.spanSecs_pos (tier : Tier) : 0 < tier.spanSecs := by cases tier <;> decide

theorem Tier.spanOf_le (tier : Tier) (ts : ℕ) : tier.spanOf ts ≤ ts := Nat.sub_le _ _

theorem Tier.spanOf_eq_mul (tier : Tier) (ts : ℕ) :
    tier.spanOf ts = tier.spanSecs * (ts / tier.spanSecs) := by
  rw [Tier.spanOf]
  exact Nat.sub_eq_of_eq_add (Nat.div_add_mod ts tier.spanSecs).symm

theorem Tier.lt_spanOf_add (tier : Tier) (ts : ℕ) : ts < tier.spanOf ts + tier.spanSecs := by
  have hsplit := Nat.div_add_mod ts tier.spanSecs
  have hmod := Nat.mod_lt ts tier.spanSecs_pos
  rw [tier.spanOf_eq_mul]
  omega

theorem Tier.spanOf_mono (tier : Tier) {a b : ℕ} (h : a ≤ b) : tier.spanOf a ≤ tier.spanOf b := by
  rw [tier.spanOf_eq_mul, tier.spanOf_eq_mul]
  exact Nat.mul_le_mul_left _ (Nat.div_le_div_right h)

section Items

variable {C Item Config : Type} [OpenChunk C Item] [LawfulChunk C Config]

/-- The hub time at which an item starts. -/
def itemTime (C : Type) {Item Config : Type} [OpenChunk C Item] [LawfulChunk C Config]
    (cfg : Config) (item : Item) : ℕ :=
  LawfulChunk.rank C item * LawfulChunk.unit C cfg

/-- The span an item belongs to. -/
def itemSpan (C : Type) {Item Config : Type} [OpenChunk C Item] [LawfulChunk C Config]
    (cfg : Config) (item : Item) : SpanStart :=
  (LawfulChunk.tierOf C cfg).spanOf (itemTime C cfg item)

@[simp] theorem itemSpan_point (encoding : Encoding) (p : RawPoint) :
    itemSpan RawChunk encoding p = Tier.raw.spanOf p.ts := by
  show Tier.raw.spanOf (p.ts * 1) = _
  rw [mul_one]

@[simp] theorem itemSpan_bucket (tier : RollupTier) (b : Bucket) :
    itemSpan RollupChunk tier b = tier.tier.spanOf (b.index * tier.bucketSecs) := rfl

theorem itemSpan_mono (cfg : Config) {x y : Item}
    (h : LawfulChunk.rank C x ≤ LawfulChunk.rank C y) : itemSpan C cfg x ≤ itemSpan C cfg y :=
  Tier.spanOf_mono _ (Nat.mul_le_mul_right _ h)

/-- The items of one span, in rank order, are at most the units of the span. -/
theorem length_span_le {cfg : Config} {items : List Item} (span : SpanStart)
    (hinc : items.Pairwise fun x y => LawfulChunk.rank C x < LawfulChunk.rank C y)
    (hspan : ∀ x ∈ items, itemSpan C cfg x = span) : items.length ≤ LawfulChunk.perSpan C cfg := by
  have hunit := LawfulChunk.unit_pos (C := C) cfg
  refine length_le_of_window (span / LawfulChunk.unit C cfg) hinc ?_
  intro x hx
  have hle := Tier.spanOf_le (LawfulChunk.tierOf C cfg) (itemTime C cfg x)
  have hlt := Tier.lt_spanOf_add (LawfulChunk.tierOf C cfg) (itemTime C cfg x)
  have hx := hspan x hx
  rw [itemSpan] at hx
  rw [hx] at hle hlt
  rw [LawfulChunk.spanSecs_eq] at hlt
  have hround : span = span / LawfulChunk.unit C cfg * LawfulChunk.unit C cfg := by
    have hdvd : LawfulChunk.unit C cfg ∣ span := by
      rw [← hx, Tier.spanOf_eq_mul, LawfulChunk.spanSecs_eq]
      exact Dvd.dvd.mul_right (Dvd.intro_left _ rfl) _
    exact (Nat.div_mul_cancel hdvd).symm
  constructor
  · rw [hround] at hle
    exact Nat.le_of_mul_le_mul_right hle hunit
  · rw [hround, ← Nat.add_mul] at hlt
    exact Nat.lt_of_mul_lt_mul_right hlt

end Items

/-! ### The invariant -/

/-- A sealed chunk decodes to `items`: at least one, all of the chunk's span. -/
structure ChunkOf (C : Type) {Item Config : Type} [OpenChunk C Item] [LawfulChunk C Config]
    (cfg : Config) (sealed : Sealed) (items : List Item) : Prop where
  tier : sealed.tier = LawfulChunk.tierOf C cfg
  decode : LawfulChunk.decode C cfg sealed.bytes = .ok items
  ne_nil : items ≠ []
  span : ∀ x ∈ items, itemSpan C cfg x = sealed.span

/-- The chunks sealed in a span, in emission order. -/
def inSpan (sealed : List Sealed) (span : SpanStart) : List Sealed :=
  sealed.filter fun s => s.span = span

/-- `items` were pushed and `sealed` came out: the sealed chunks hold the items up to those
still open, no item is past the open span, and the seqs of each span count up from zero. -/
structure OpenInv {C Item Config : Type} [OpenChunk C Item] [LawfulChunk C Config]
    (cfg : Config) (o : Open C) (sealed : List Sealed) (items : List Item) : Prop where
  config : LawfulChunk.config o.chunk = cfg
  split : ∃ chunks unsealed, List.Forall₂ (ChunkOf C cfg) sealed chunks ∧
    LawfulChunk.Contents o.chunk unsealed ∧ items = chunks.flatten ++ unsealed ∧
    ∀ x ∈ unsealed, o.span = some (itemSpan C cfg x)
  increasing : items.Pairwise fun x y => LawfulChunk.rank C x < LawfulChunk.rank C y
  reached : ∀ x ∈ items, ∃ span, o.span = some span ∧ itemSpan C cfg x ≤ span
  spans : sealed.Pairwise fun a b => a.span ≤ b.span
  seqs : ∀ span, (inSpan sealed span).map Sealed.seq = List.range (inSpan sealed span).length
  nextSeq : ∀ span, o.span = some span → o.nextSeq = (inSpan sealed span).length

section OpenInv

variable {C Item Config : Type} [OpenChunk C Item] [LawfulChunk C Config]
variable {cfg : Config} {o : Open C} {sealed : List Sealed} {items : List Item}

theorem inSpan_concat (sealed : List Sealed) (s : Sealed) (span : SpanStart) :
    inSpan (sealed ++ [s]) span = inSpan sealed span ++ if s.span = span then [s] else [] := by
  by_cases h : s.span = span <;> simp [inSpan, h]

/-- Every chunk of a span holds an item of it. -/
theorem length_inSpan_le_items {chunks : List (List Item)}
    (h : List.Forall₂ (ChunkOf C cfg) sealed chunks) (span : SpanStart) :
    (inSpan sealed span).length ≤ (chunks.flatten.filter (itemSpan C cfg · = span)).length := by
  induction h with
  | nil => simp [inSpan]
  | @cons s xs sealed chunks hs _ ih =>
      by_cases hspan : s.span = span
      · have hall : xs.filter (itemSpan C cfg · = span) = xs := by
          rw [List.filter_eq_self]
          intro x hx
          simp [hs.span x hx, hspan]
        have hpos : 0 < xs.length := List.length_pos_iff.mpr hs.ne_nil
        simp only [inSpan, List.filter_cons, hspan, decide_true, if_true, List.length_cons,
          List.flatten_cons, List.filter_append, List.length_append, hall] at ih ⊢
        omega
      · simp only [inSpan, List.filter_cons, hspan, decide_false, List.flatten_cons,
          List.filter_append, List.length_append] at ih ⊢
        simp only [Bool.false_eq_true, if_false]
        omega

/-- A span takes no more chunks than it has units, so its seqs stay far below the top of a
`u16`. -/
theorem length_inSpan_le {chunks : List (List Item)}
    (h : List.Forall₂ (ChunkOf C cfg) sealed chunks)
    (hinc : chunks.flatten.Pairwise fun x y => LawfulChunk.rank C x < LawfulChunk.rank C y)
    (span : SpanStart) : (inSpan sealed span).length ≤ LawfulChunk.perSpan C cfg := by
  refine (length_inSpan_le_items h span).trans (length_span_le span ?_ ?_)
  · exact hinc.sublist List.filter_sublist
  · intro x hx
    simpa using (List.mem_filter.mp hx).2

theorem Forall₂.exists_mem {s : Sealed} {chunks : List (List Item)}
    (h : List.Forall₂ (ChunkOf C cfg) sealed chunks) (hs : s ∈ sealed) :
    ∃ x ∈ chunks.flatten, itemSpan C cfg x = s.span := by
  induction h with
  | nil => cases hs
  | @cons t xs sealed chunks ht _ ih =>
      rcases List.mem_cons.mp hs with rfl | hs
      · obtain ⟨x, hx⟩ := List.exists_mem_of_ne_nil _ ht.ne_nil
        exact ⟨x, by simp [hx], ht.span x hx⟩
      · obtain ⟨x, hx, hspan⟩ := ih hs
        exact ⟨x, by simpa using Or.inr (by simpa using hx), hspan⟩

@[simp] theorem Open.seal_span (o : Open C) : o.seal.2.span = o.span := by
  fun_cases Open.seal o <;> rfl

@[simp] theorem Open.pushOrSeal_span (o : Open C) (item : Item) :
    (o.pushOrSeal item).2.span = o.span := by
  fun_cases Open.pushOrSeal o item with
  | case1 => rfl
  | case2 _ chunk _ s o' hseal => exact (congrArg (·.2.span) hseal).symm.trans (Open.seal_span _)

namespace OpenInv

/-- Every sealed chunk's span holds one of the items pushed. -/
theorem exists_item (h : OpenInv cfg o sealed items) {s : Sealed} (hs : s ∈ sealed) :
    ∃ x ∈ items, itemSpan C cfg x = s.span := by
  obtain ⟨chunks, unsealed, hchunks, -, rfl, -⟩ := h.split
  obtain ⟨x, hx, hspan⟩ := Forall₂.exists_mem hchunks hs
  exact ⟨x, List.mem_append_left _ hx, hspan⟩

theorem span_le (h : OpenInv cfg o sealed items) {s : Sealed} (hs : s ∈ sealed) :
    ∃ span, o.span = some span ∧ s.span ≤ span := by
  obtain ⟨x, hx, hspan⟩ := h.exists_item hs
  obtain ⟨span, ho, hle⟩ := h.reached x hx
  exact ⟨span, ho, hspan ▸ hle⟩

theorem seal_of_empty (hempty : LawfulChunk.Contents o.chunk []) :
    o.seal = (none, o) := by
  have hnil := (LawfulChunk.isEmpty_iff hempty).mpr rfl
  cases hspan : o.span <;> simp [Open.seal, hspan, hnil]

theorem seal_of_ne_nil {unsealed : List Item} {span : SpanStart}
    (hcontents : LawfulChunk.Contents o.chunk unsealed) (hne : unsealed ≠ [])
    (hspan : o.span = some span) :
    o.seal = (some ⟨OpenChunk.tier o.chunk, span, o.nextSeq, OpenChunk.encode o.chunk⟩,
      { o with
        chunk := OpenChunk.fresh o.chunk
        nextSeq := min (o.nextSeq + 1) (2 ^ 16 - 1) }) := by
  have hfull : ¬ OpenChunk.isEmpty o.chunk = true := by
    rw [LawfulChunk.isEmpty_iff hcontents]
    exact hne
  simp [Open.seal, hspan, hfull]

/-- Sealing moves the open items into one more sealed chunk, or finds nothing to seal. -/
theorem «seal» (h : OpenInv cfg o sealed items) :
    OpenInv cfg o.seal.2 (sealed ++ o.seal.1.toList) items ∧
      LawfulChunk.Contents o.seal.2.chunk [] := by
  obtain ⟨chunks, unsealed, hchunks, hcontents, hitems, hopen⟩ := h.split
  by_cases hne : unsealed = []
  · subst hne
    rw [seal_of_empty hcontents]
    simpa using ⟨h, hcontents⟩
  obtain ⟨x, hx⟩ := List.exists_mem_of_ne_nil _ hne
  have hspan := hopen x hx
  generalize itemSpan C cfg x = span at hspan
  rw [seal_of_ne_nil hcontents hne hspan]
  have hseq := h.nextSeq span hspan
  have hnew : ChunkOf C cfg ⟨OpenChunk.tier o.chunk, span, o.nextSeq, OpenChunk.encode o.chunk⟩
      unsealed := by
    refine ⟨?_, ?_, hne, ?_⟩
    · rw [← h.config]
      exact LawfulChunk.tier_eq o.chunk
    · rw [← h.config]
      exact LawfulChunk.decode_encode hcontents hne
    · intro y hy
      have := hopen y hy
      rw [hspan] at this
      exact (Option.some.inj this).symm
  have hchunks' := List.rel_append hchunks (List.Forall₂.cons hnew List.Forall₂.nil)
  have hflat : items = (chunks ++ [unsealed]).flatten := by simp [hitems]
  have hcount := length_inSpan_le hchunks' (hflat ▸ h.increasing) span
  have hlen : (inSpan (sealed ++ [⟨OpenChunk.tier o.chunk, span, o.nextSeq,
      OpenChunk.encode o.chunk⟩]) span).length = o.nextSeq + 1 := by
    simp [inSpan_concat, hseq]
  refine ⟨⟨?_, ?_, h.increasing, h.reached, ?_, ?_, ?_⟩, LawfulChunk.contents_fresh _⟩
  · rw [← h.config]
    exact LawfulChunk.config_fresh _
  · exact ⟨chunks ++ [unsealed], [], hchunks', LawfulChunk.contents_fresh _, by simpa using hflat,
      by simp⟩
  · refine List.pairwise_append.mpr ⟨h.spans, by simp, ?_⟩
    intro a ha b hb
    obtain rfl := List.mem_singleton.mp hb
    obtain ⟨span', ho, hle⟩ := h.span_le ha
    rw [hspan] at ho
    exact (Option.some.inj ho) ▸ hle
  · intro span'
    simp only [Option.toList_some, inSpan_concat]
    by_cases heq : span = span'
    · subst heq
      simp [h.seqs, hseq, List.range_succ]
    · simp [heq, h.seqs]
  · intro span' hspan'
    obtain rfl : span = span' := Option.some.inj (hspan ▸ hspan')
    have hper := LawfulChunk.perSpan_le (C := C) cfg
    simp only [Option.toList_some, hlen] at hcount ⊢
    omega

/-- A later span: the open chunk is empty and its seqs restart. -/
theorem reset (h : OpenInv cfg o sealed items) (hempty : LawfulChunk.Contents o.chunk [])
    {span : SpanStart} (hlater : ∀ x ∈ items, itemSpan C cfg x < span) :
    OpenInv cfg { o with span := some span, nextSeq := 0 } sealed items := by
  obtain ⟨chunks, unsealed, hchunks, hcontents, hitems, -⟩ := h.split
  have hnil : unsealed = [] :=
    (LawfulChunk.isEmpty_iff hcontents).mp ((LawfulChunk.isEmpty_iff hempty).mpr rfl)
  refine ⟨h.config, ⟨chunks, unsealed, hchunks, hcontents, hitems, by simp [hnil]⟩, h.increasing,
    ?_, h.spans, h.seqs, ?_⟩
  · intro x hx
    exact ⟨span, rfl, (hlater x hx).le⟩
  · intro span' hspan'
    obtain rfl : span = span' := Option.some.inj hspan'
    symm
    rw [List.length_eq_zero_iff, inSpan, List.filter_eq_nil_iff]
    intro s hs
    obtain ⟨x, hx, hspan⟩ := h.exists_item hs
    have hlt := hlater x hx
    rw [hspan] at hlt
    simpa using hlt.ne

/-- An accepted push into the open span. -/
theorem push_ok (h : OpenInv cfg o sealed items) {item : Item} (hvalid : LawfulChunk.Valid C item)
    (hspan : o.span = some (itemSpan C cfg item))
    (hafter : ∀ x ∈ items, LawfulChunk.rank C x < LawfulChunk.rank C item)
    (hok : (OpenChunk.push o.chunk item).1 = .ok ()) :
    OpenInv cfg { o with chunk := (OpenChunk.push o.chunk item).2 } sealed (items ++ [item]) := by
  obtain ⟨chunks, unsealed, hchunks, hcontents, hitems, hopen⟩ := h.split
  refine ⟨?_, ⟨chunks, unsealed ++ [item], hchunks, LawfulChunk.push_ok hcontents hvalid hok,
    by simp [hitems], ?_⟩, ?_, ?_, h.spans, h.seqs, h.nextSeq⟩
  · rw [← h.config]
    exact LawfulChunk.config_push _ _
  · intro x hx
    rcases List.mem_append.mp hx with hx | hx
    · exact hopen x hx
    · rw [List.mem_singleton.mp hx]
      exact hspan
  · refine List.pairwise_append.mpr ⟨h.increasing, by simp, ?_⟩
    intro x hx y hy
    rw [List.mem_singleton.mp hy]
    exact hafter x hx
  · intro x hx
    rcases List.mem_append.mp hx with hx | hx
    · exact h.reached x hx
    · rw [List.mem_singleton.mp hx]
      exact ⟨_, hspan, le_rfl⟩

/-- A push into the open span: a refused item starts the next chunk, which takes it. -/
theorem pushOrSeal (h : OpenInv cfg o sealed items) {item : Item}
    (hvalid : LawfulChunk.Valid C item) (hspan : o.span = some (itemSpan C cfg item))
    (hafter : ∀ x ∈ items, LawfulChunk.rank C x < LawfulChunk.rank C item) :
    OpenInv cfg (o.pushOrSeal item).2 (sealed ++ (o.pushOrSeal item).1) (items ++ [item]) := by
  cases hpush : OpenChunk.push o.chunk item with
  | mk result chunk =>
      have hchunk : chunk = (OpenChunk.push o.chunk item).2 := by rw [hpush]
      cases result with
      | ok =>
          have := h.push_ok hvalid hspan hafter (by rw [hpush])
          simpa [Open.pushOrSeal, hpush] using this
      | error e =>
          have hsame : chunk = o.chunk := by
            rw [hchunk]
            exact LawfulChunk.push_refused (by rw [hpush])
          subst hsame
          obtain ⟨hseal, hempty⟩ := h.seal
          have := hseal.push_ok hvalid ((Open.seal_span o).trans hspan) hafter
            (LawfulChunk.push_empty hempty hvalid)
          simpa [Open.pushOrSeal, hpush] using this

end OpenInv

/-- Between two operations the open span is the last item's. -/
structure OpenRest {C Item Config : Type} [OpenChunk C Item] [LawfulChunk C Config]
    (cfg : Config) (o : Open C) (sealed : List Sealed) (items : List Item) : Prop
    extends OpenInv cfg o sealed items where
  span_eq : o.span = items.getLast?.map (itemSpan C cfg)
  idle : o.span = none → o.nextSeq = 0

namespace OpenRest

theorem «seal» (h : OpenRest cfg o sealed items) :
    OpenRest cfg o.seal.2 (sealed ++ o.seal.1.toList) items :=
  ⟨h.toOpenInv.seal.1, by rw [Open.seal_span, h.span_eq], by
    intro hnone
    rw [Open.seal_span] at hnone
    simpa [Open.seal, hnone] using h.idle hnone⟩

theorem sealIfIn (h : OpenRest cfg o sealed items) (span : SpanStart) :
    OpenRest cfg (o.sealIfIn span).2 (sealed ++ (o.sealIfIn span).1.toList) items := by
  rw [Open.sealIfIn]
  split
  · exact h.seal
  · simpa using h

theorem sealIfClosed (h : OpenRest cfg o sealed items) (hubNow : ℕ) :
    OpenRest cfg (o.sealIfClosed hubNow).2 (sealed ++ (o.sealIfClosed hubNow).1.toList) items := by
  rw [Open.sealIfClosed]
  split
  · exact h.seal
  · simpa using h

/-- Entering a later item's span: what was open of an earlier span is sealed. -/
theorem enterSpan (h : OpenRest cfg o sealed items) {item : Item}
    (hafter : ∀ x ∈ items, LawfulChunk.rank C x < LawfulChunk.rank C item) :
    OpenInv cfg (o.enterSpan (itemSpan C cfg item)).2
        (sealed ++ (o.enterSpan (itemSpan C cfg item)).1) items ∧
      (o.enterSpan (itemSpan C cfg item)).2.span = some (itemSpan C cfg item) := by
  by_cases hsame : o.span = some (itemSpan C cfg item)
  · simpa [Open.enterSpan, hsame] using h.toOpenInv
  · have hlater : ∀ x ∈ items, itemSpan C cfg x < itemSpan C cfg item := by
      intro x hx
      have hle := itemSpan_mono (C := C) cfg (hafter x hx).le
      refine lt_of_le_of_ne hle fun heq => hsame ?_
      obtain ⟨last, hlast⟩ : ∃ last, items.getLast? = some last :=
        ⟨_, List.getLast?_eq_some_getLast (List.ne_nil_of_mem hx)⟩
      obtain ⟨span, ho, hxspan⟩ := h.reached x hx
      rw [h.span_eq, hlast] at ho ⊢
      have hlastSpan : itemSpan C cfg last = span := Option.some.inj ho
      have hup := itemSpan_mono (C := C) cfg
        (hafter last (List.mem_of_getLast? hlast)).le
      have : itemSpan C cfg last = itemSpan C cfg item :=
        le_antisymm hup (by rw [← heq, hlastSpan]; exact hxspan)
      simp [this]
    obtain ⟨hseal, hempty⟩ := h.toOpenInv.seal
    simpa [Open.enterSpan, hsame] using hseal.reset hempty hlater

/-- A pushed item is neither lost nor doubled: it is the last of the items the sealed chunks
and the open chunk now hold. -/
theorem pushIn (h : OpenRest cfg o sealed items) {item : Item} (hvalid : LawfulChunk.Valid C item)
    (hafter : ∀ x ∈ items, LawfulChunk.rank C x < LawfulChunk.rank C item) :
    OpenRest cfg (o.pushIn (itemSpan C cfg item) item).2
      (sealed ++ (o.pushIn (itemSpan C cfg item) item).1) (items ++ [item]) := by
  obtain ⟨hinv, hspan⟩ := h.enterSpan hafter
  have hpush := hinv.pushOrSeal hvalid hspan hafter
  rw [List.append_assoc] at hpush
  exact ⟨hpush, by simpa [Open.pushIn] using hspan, by simp [Open.pushIn, hspan]⟩

end OpenRest

end OpenInv

end MonitoringAgent.HubStore

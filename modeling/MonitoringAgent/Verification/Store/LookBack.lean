import MonitoringAgent.Model.Store.Query
import MonitoringAgent.Verification.Store.LastSpans

/-! # How far back a query looks

A query visits no span before the tier's longest retention before the series' last span. Whether
that leaves a live chunk out depends on how far the retention clock is behind: hub time follows the
system clock at once, the retention clock does not. -/

namespace MonitoringAgent.HubStore

open MonitoringAgent.Library

/-! ### The spans visited -/

theorem Tier.spanOf_mod (tier : Tier) (ts : ℕ) : tier.spanOf ts % tier.spanSecs = 0 := by
  rw [tier.spanOf_eq_mul]
  exact Nat.mul_mod_right _ _

theorem lookBack_mod {tier : Tier} {last : ℕ} (hlast : last % tier.spanSecs = 0) :
    lookBack tier last % tier.spanSecs = 0 := by
  change (last - tier.maxRetentionSecs) % tier.spanSecs = 0
  cases tier <;> simp only [Tier.spanSecs, Tier.maxRetentionSecs] at hlast ⊢ <;> omega

/-- The spans of the grid in the queried range, from the look-back bound to the series' last one. -/
theorem mem_spansVisited {view : HeadView} {q : Query} {last span : ℕ}
    (hview : view.lastSpan = some last) (hlast : last % q.tier.spanSecs = 0)
    (hspan : span % q.tier.spanSecs = 0) :
    span ∈ spansVisited view q ↔
      lookBack q.tier last ≤ span ∧ q.tier.spanOf q.from ≤ span ∧ span ≤ last ∧
      span ≤ q.tier.spanOf q.until := by
  have hpos := q.tier.spanSecs_pos
  have hfirst : max (lookBack q.tier last) (q.tier.spanOf q.from) % q.tier.spanSecs = 0 := by
    rcases max_choice (lookBack q.tier last) (q.tier.spanOf q.from) with heq | heq
    · rw [heq]
      exact lookBack_mod hlast
    · rw [heq]
      exact q.tier.spanOf_mod q.from
  rw [spansVisited, hview]
  dsimp only
  rw [List.mem_range', ← and_assoc, ← max_le_iff, ← le_min_iff]
  generalize max (lookBack q.tier last) (q.tier.spanOf q.from) = first at hfirst ⊢
  generalize min last (q.tier.spanOf q.until) = stop
  obtain ⟨a, rfl⟩ := Nat.dvd_of_mod_eq_zero hfirst
  obtain ⟨b, rfl⟩ := Nat.dvd_of_mod_eq_zero hspan
  constructor
  · rintro ⟨i, hi, heq⟩
    rw [Nat.lt_div_iff_mul_lt hpos] at hi
    constructor
    · exact heq ▸ Nat.le_add_right _ _
    · have : q.tier.spanSecs * i = i * q.tier.spanSecs := Nat.mul_comm _ _
      omega
  · rintro ⟨hle, hstop⟩
    have hab : a ≤ b := Nat.le_of_mul_le_mul_left hle hpos
    refine ⟨b - a, ?_, ?_⟩
    · rw [Nat.lt_div_iff_mul_lt hpos, Nat.sub_mul, Nat.mul_comm b, Nat.mul_comm a]
      have : q.tier.spanSecs * a ≤ q.tier.spanSecs * b := hle
      omega
    · rw [Nat.mul_sub, Nat.add_sub_cancel' hle]

/-! ### The look-back bound -/

/-- The chunk is stored: in `chunks`, or in the file its span's row names. -/
def Store.Stores (s : Store) (id : SeriesId) (chunk : Sealed) : Prop :=
  InChunks s.writer.db id chunk ∨ InFile s.writer.db s.files id chunk

/-- What decides at the persisted retention clock whether a span of a series is live. -/
def Store.alive (s : Store) (policies : Policies) (tombstones : Tombstones) (tier : Tier)
    (key : SeriesKey) : Alive :=
  ⟨tier, key.owner, policies, tombstones, s.writer.db.meta.retentionClock⟩

/-- No live chunk of the series starts before the look-back bound, and a query reads the span of
every live one in its range. -/
structure Store.LooksFar (s : Store) (alive : Alive) (key : SeriesKey) (e : HeadEntry) : Prop where
  bound : ∀ chunk last, s.Stores e.id chunk → chunk.tier = alive.tier →
    alive.span chunk.span = .live →
    e.lastSpans alive.tier = some last → lookBack alive.tier last ≤ chunk.span
  read : ∀ chunk view q, s.Stores e.id chunk → chunk.tier = alive.tier →
    alive.span chunk.span = .live →
    headView s.writer.core.head key alive.tier = some view → q.tier = alive.tier →
    alive.tier.spanOf q.from ≤ chunk.span → chunk.span ≤ alive.tier.spanOf q.until →
    chunk.span ∈ spansRead view q alive

/-- The retention clock, as last committed, is behind `ahead` by no more than the tier's longest
retention exceeds the period enforced. -/
def Store.CloseBehind (s : Store) (tier : Tier) (period : TierPeriod) (ahead : ℕ) : Prop :=
  ahead + Duration.asSecs period.period ≤ s.writer.db.meta.retentionClock + tier.maxRetentionSecs

/-- The spans between the clocks: not over by the retention clock less the period, yet over by the
longest retention before `last`. -/
def Store.betweenClocks (s : Store) (tier : Tier) (period : TierPeriod) (last : SpanStart) :
    Set SpanStart :=
  {span | s.writer.db.meta.retentionClock < span.spanEnd tier + Duration.asSecs period.period ∧
    span + tier.spanSecs + tier.maxRetentionSecs ≤ last}

/-- Between two spans of a tier's grid lies a whole span. -/
theorem add_spanSecs_le {tier : Tier} {span other : ℕ} (hspan : span % tier.spanSecs = 0)
    (hother : other % tier.spanSecs = 0) (hlt : span < other) : span + tier.spanSecs ≤ other := by
  cases tier <;> simp only [Tier.spanSecs] at hspan hother ⊢ <;> omega

/-- A span is over by the look-back bound. -/
theorem le_lookBack_iff {tier : Tier} {span last : ℕ} :
    span + tier.spanSecs ≤ lookBack tier last ↔
    span + tier.spanSecs + tier.maxRetentionSecs ≤ last := by
  have hsecs := tier.spanSecs_pos
  change span + tier.spanSecs ≤ last - tier.maxRetentionSecs ↔ _
  omega

theorem expired_eq_false {tier : Tier} {span now : ℕ} {period : TierPeriod} :
    expired tier span period now = false ↔
      now < SpanStart.spanEnd span tier + Duration.asSecs period.period := by
  have hpos : 0 < SpanStart.spanEnd span tier := by
    have hsecs := tier.spanSecs_pos
    exact lt_min (Nat.add_pos_right _ hsecs) (by norm_num)
  rw [expired, decide_eq_false_iff_not]
  omega

section Clocks

variable {s : Store} {tier : Tier} {period : TierPeriod} {span last : ℕ}

theorem Store.mem_betweenClocks : span ∈ s.betweenClocks tier period last ↔
    expired tier span period s.writer.db.meta.retentionClock = false ∧
      span + tier.spanSecs ≤ lookBack tier last := by
  rw [expired_eq_false, le_lookBack_iff]
  rfl

/-- With the clock close behind, what is over by the bound has expired. -/
theorem Store.CloseBehind.expired (h : s.CloseBehind tier period last)
    (hover : span + tier.spanSecs ≤ lookBack tier last) :
    expired tier span period s.writer.db.meta.retentionClock = true := by
  rw [le_lookBack_iff] at hover
  rw [Store.CloseBehind] at h
  have hend : SpanStart.spanEnd span tier ≤ span + tier.spanSecs := min_le_left _ _
  rw [← Bool.not_eq_false, expired_eq_false]
  omega

/-- With the span before the bound expired, the clock is close behind. -/
theorem Store.closeBehind_of_expired (hspan : span + tier.spanSecs = lookBack tier last)
    (hlast : last < 2 ^ 63) (h : expired tier span period s.writer.db.meta.retentionClock = true) :
    s.CloseBehind tier period last := by
  have hover := le_lookBack_iff.mp hspan.le
  rw [← Bool.not_eq_false, expired_eq_false] at h
  have hsecs := tier.spanSecs_pos
  have hend : SpanStart.spanEnd span tier = span + tier.spanSecs := min_eq_left (by omega)
  have hbound : span + tier.spanSecs = last - tier.maxRetentionSecs := hspan
  rw [hend] at h
  rw [Store.CloseBehind]
  omega

end Clocks

theorem Alive.span_eq_live {alive : Alive} {span : SpanStart} :
    alive.span span = .live ↔ alive.owner ∉ alive.tombstones ∧
      expired alive.tier span (alive.policies.effective alive.owner.system alive.tier)
        alive.retentionNow = false := by
  rw [Alive.span, chunkLiveness]
  split_ifs with htomb hexpired
  · simp [htomb]
  · simp [hexpired]
  · simp [htomb, hexpired]

section LookBack

variable {s : Store} {l : Ledger} {accepted : List (SeriesKey × RawPoint)}
  {deleted : List (SeriesId × Sealed)} {buffered : ℕ} {key : SeriesKey} {e : HeadEntry}

theorem StoreInv.stores_stored (h : StoreInv s l accepted deleted buffered) {id : SeriesId}
    {chunk : Sealed} (hstores : s.Stores id chunk) : chunk ∈ l.stored id := by
  rcases hstores with hin | ⟨record, held, hrow, hfile, hmem⟩
  · exact h.db.chunks id chunk hin
  · obtain ⟨held', hfile', hheld⟩ := (h.db.row _ record hrow).file
    rw [(h.db.row _ record hrow).rewrite] at hfile
    obtain rfl := Option.some.inj (hfile'.symm.trans hfile)
    exact hheld.stored _ _ _ hmem

theorem StoreInv.chunk_mod (h : StoreInv s l accepted deleted buffered)
    (hget : s.writer.core.head.get? key = some e) {chunk : Sealed}
    (hchunk : chunk ∈ l.stored e.id ++ select s.writer.core.sealed e.id) :
    chunk.span % chunk.tier.spanSecs = 0 := by
  obtain ⟨hne, hspan⟩ := (h.writer.head.entry key e hget).series.chunk_slots hchunk
  obtain ⟨n, hn⟩ := List.exists_mem_of_ne_nil _ hne
  rw [← hspan n hn]
  exact Tier.spanOf_mod _ _

/-- No chunk is of a span after hub time's. -/
theorem StoreInv.span_le (h : StoreInv s l accepted deleted buffered)
    (hget : s.writer.core.head.get? key = some e) {chunk : Sealed}
    (hchunk : chunk ∈ l.stored e.id ++ select s.writer.core.sealed e.id) :
    chunk.span ≤ chunk.tier.spanOf s.writer.core.clock := by
  have hseries := (h.writer.head.entry key e hget).series
  obtain ⟨hne, hspan⟩ := hseries.chunk_slots hchunk
  obtain ⟨n, hn⟩ := List.exists_mem_of_ne_nil _ hne
  have hslot : n ∈ slotsOf chunk.tier (select accepted key) := by
    rw [← hseries.slots_eq]
    refine List.mem_append_left _
      (List.mem_flatMap.mpr ⟨chunk, List.mem_filter.mpr ⟨hchunk, by simp⟩, hn⟩)
  obtain ⟨p, hp, rfl⟩ := mem_slotsOf.mp hslot
  rw [← hspan _ hn, chunk.tier.slotSpan_slot]
  exact chunk.tier.spanOf_mono (h.writer.head.times key p hp)

/-- What the head says of a series' last span: a chunk is in it, so it is on the grid and not after
hub time's. -/
theorem StoreInv.lastSpan (h : StoreInv s l accepted deleted buffered)
    (hspans : LastSpansInv s.writer.core l.stored) (hget : s.writer.core.head.get? key = some e)
    {tier : Tier} {last : SpanStart} (hlast : e.lastSpans tier = some last) :
    last % tier.spanSecs = 0 ∧ last ≤ tier.spanOf s.writer.core.clock := by
  obtain ⟨chunk, hchunk, rfl, rfl⟩ := (hspans.spans key e hget).attained tier last hlast
  exact ⟨h.chunk_mod hget hchunk, h.span_le hget hchunk⟩

/-- A query reads the span of every live chunk in its range, once none is before the bound. -/
theorem StoreInv.looksFar_of_bound (h : StoreInv s l accepted deleted buffered)
    (hspans : LastSpansInv s.writer.core l.stored) (hget : s.writer.core.head.get? key = some e)
    {alive : Alive} (hbound : ∀ chunk last, s.Stores e.id chunk → chunk.tier = alive.tier →
      alive.span chunk.span = .live →
      e.lastSpans alive.tier = some last → lookBack alive.tier last ≤ chunk.span) :
    s.LooksFar alive key e := by
  refine ⟨hbound, fun chunk view q hstores htier hlive hview hq hfrom huntil => ?_⟩
  have hstored : chunk ∈ l.stored e.id ++ select s.writer.core.sealed e.id :=
    List.mem_append_left _ (h.stores_stored hstores)
  obtain ⟨last, hlast, hle⟩ := (hspans.spans key e hget).covers chunk hstored
  rw [htier] at hlast
  have hgrid := h.chunk_mod hget hstored
  have hlastgrid := (h.lastSpan hspans hget hlast).1
  rw [headView, hget, Option.map_some] at hview
  obtain rfl := Option.some.inj hview
  rw [spansRead, List.mem_filter]
  obtain ⟨qtier, qfrom, quntil, order, limit⟩ := q
  obtain rfl : alive.tier = qtier := hq.symm
  rw [htier] at hgrid
  refine ⟨(mem_spansVisited hlast hlastgrid hgrid).mpr
    ⟨hbound chunk _ hstores htier hlive hlast, hfrom, hle, huntil⟩, ?_⟩
  have hnew : SpanStart.new alive.tier chunk.span = some chunk.span := if_pos hgrid
  change (SpanStart.new alive.tier chunk.span).any _ = true
  rw [hnew, Option.any_some]
  exact decide_eq_true hlive

theorem StoreInv.looksFar_iff_of (h : StoreInv s l accepted deleted buffered)
    (hspans : LastSpansInv s.writer.core l.stored) (hget : s.writer.core.head.get? key = some e)
    (policies : Policies) (tombstones : Tombstones) (tier : Tier) :
    s.LooksFar (s.alive policies tombstones tier key) key e ↔
      key.owner ∈ tombstones ∨ ∀ last, e.lastSpans tier = some last →
        s.CloseBehind tier (policies.effective key.system tier) last ∨
          ∀ chunk, s.Stores e.id chunk → chunk.tier = tier →
            chunk.span ∉ s.betweenClocks tier (policies.effective key.system tier) last := by
  constructor
  · intro hlooks
    refine or_iff_not_imp_left.mpr fun htomb last hlast =>
      .inr fun chunk hstores htier hbetween => ?_
    obtain ⟨hkept, hover⟩ := Store.mem_betweenClocks.mp hbetween
    have hle := hlooks.bound chunk last hstores htier (Alive.span_eq_live.mpr ⟨htomb, hkept⟩) hlast
    exact absurd (hover.trans hle) (not_le.mpr (Nat.lt_add_of_pos_right tier.spanSecs_pos))
  · intro hclocks
    refine h.looksFar_of_bound hspans hget fun chunk last hstores htier hlive hlast => ?_
    obtain ⟨htomb, hkept⟩ := Alive.span_eq_live.mp hlive
    by_contra hlt
    rw [not_le] at hlt
    -- The chunk's span is over by the bound: by the retention clock less the period it is too.
    have hgrid := h.chunk_mod hget (List.mem_append_left _ (h.stores_stored hstores))
    rw [htier] at hgrid
    have hover := add_spanSecs_le hgrid (lookBack_mod (h.lastSpan hspans hget hlast).1) hlt
    obtain hclose | hnone := hclocks.resolve_left htomb last hlast
    · exact absurd (hclose.expired hover) (hkept ▸ Bool.false_ne_true)
    · exact hnone chunk hstores htier (Store.mem_betweenClocks.mpr ⟨hkept, hover⟩)

/-- With a chunk in the last span before the bound, only the clocks count. -/
theorem StoreInv.looksFar_iff_close (h : StoreInv s l accepted deleted buffered)
    (hspans : LastSpansInv s.writer.core l.stored) (hget : s.writer.core.head.get? key = some e)
    (policies : Policies) (tombstones : Tombstones) {tier : Tier} {last : SpanStart}
    (hlast : e.lastSpans tier = some last) {chunk : Sealed} (hstores : s.Stores e.id chunk)
    (htier : chunk.tier = tier) (hspan : chunk.span + tier.spanSecs = lookBack tier last) :
    s.LooksFar (s.alive policies tombstones tier key) key e ↔
      key.owner ∈ tombstones ∨ s.CloseBehind tier (policies.effective key.system tier) last := by
  rw [h.looksFar_iff_of hspans hget]
  refine or_congr_right ⟨fun hclocks => ?_, fun hclose other hother => ?_⟩
  · obtain hclose | hnone := hclocks last hlast
    · exact hclose
    · have hle := (h.lastSpan hspans hget hlast).2.trans (tier.spanOf_le _)
      refine Store.closeBehind_of_expired hspan (hle.trans_lt h.clock) ?_
      have hout := hnone chunk hstores htier
      rw [Store.mem_betweenClocks, not_and_or, Bool.not_eq_false] at hout
      exact hout.resolve_right (not_not_intro hspan.le)
  · rw [← Option.some.inj (hlast.symm.trans hother)]
    exact .inl hclose

end LookBack

/-- In every state a run of the store reaches. Where hub time's span is ahead of the retention clock
by no more than the longest retention exceeds the enforced period, a query's look-back bound leaves
no live chunk out. For one series, that is so exactly when its generation is tombstoned, or its last
span is no further ahead, or no chunk of it is of a span between the clocks; and with a chunk in the
last span before the bound, exactly when one of the first two is. -/
theorem Machine.looksFar_iff (systemNow : ℕ) {ops : List StoreOp} (hops : StoreOp.Admissible 0 ops)
    {s : Store} (hrun : (Machine.new systemNow).run ops = .running s) {key : SeriesKey}
    {e : HeadEntry} (hget : s.writer.core.head.get? key = some e) (policies : Policies)
    (tombstones : Tombstones) (tier : Tier) :
    (s.CloseBehind tier (policies.effective key.system tier) (tier.spanOf s.writer.core.clock) →
      s.LooksFar (s.alive policies tombstones tier key) key e) ∧
    (s.LooksFar (s.alive policies tombstones tier key) key e ↔
      key.owner ∈ tombstones ∨ ∀ last, e.lastSpans tier = some last →
        s.CloseBehind tier (policies.effective key.system tier) last ∨
          ∀ chunk, s.Stores e.id chunk → chunk.tier = tier →
            chunk.span ∉ s.betweenClocks tier (policies.effective key.system tier) last) ∧
    ∀ last chunk, e.lastSpans tier = some last → s.Stores e.id chunk → chunk.tier = tier →
      chunk.span + tier.spanSecs = lookBack tier last →
        (s.LooksFar (s.alive policies tombstones tier key) key e ↔
          key.owner ∈ tombstones ∨ s.CloseBehind tier
            (policies.effective key.system tier) last) := by
  have hnew := StoreHistoryInv.new systemNow
  obtain ⟨⟨l, hi, -⟩, -⟩ := hnew.run (by norm_num) hops
  have hspanned := hnew.spanned_run (by norm_num) (fun id record hrecord => by cases hrecord) hops
  have hmachine : ((StoreHistory.new systemNow).run ops).machine = .running s := by
    rw [StoreHistory.run_machine]
    exact hrun
  obtain ⟨accepted, hs⟩ := hi.running hmachine
  rw [hmachine, ← funext hi.stored] at hspanned
  have hiff := hs.looksFar_iff_of hspanned.1 hget policies tombstones tier
  refine ⟨fun hclose => hiff.mpr (.inr fun last hlast => .inl ?_), hiff,
    fun last chunk hlast hstores htier hspan =>
      hs.looksFar_iff_close hspanned.1 hget policies tombstones hlast hstores htier hspan⟩
  exact (Nat.add_le_add_right (hs.lastSpan hspanned.1 hget hlast).2 _).trans hclose

/-- A point of the first hour; a pass a day later moves the retention clock past that hour's end and
period; then points thirty days on, an hour apart. -/
def clockCaughtUp : List StoreOp :=
  [.reopen (.new .default) 1000 1000 0, .append [1] 0 [⟨[2], .count, 7⟩] 1000, .commit .all,
    .commit .all, .beginPass 200000 (Duration.fromSecs 50000), .commit .all, .commit .all,
    .append [1] 0 [⟨[2], .count, 8⟩] 2595600, .append [1] 0 [⟨[2], .count, 9⟩] 2599200,
    .commit .all]

/-- The first hour's chunk is stored before the bound, and it has expired. -/
theorem Machine.looksFar_iff_caughtUp : ∃ s e bytes last,
    (Machine.new 1000).run clockCaughtUp = .running s ∧
    s.writer.core.head.get? ⟨[1], 0, [2]⟩ = some e ∧
    s.Stores e.id ⟨.raw, 0, 0, bytes⟩ ∧ e.lastSpans .raw = some last ∧ 0 < lookBack .raw last ∧
    s.LooksFar (s.alive s.policies s.tombstones .raw ⟨[1], 0, [2]⟩) ⟨[1], 0, [2]⟩ e := by
  have hreached : ((Machine.new 1000).run clockCaughtUp).store?.any (fun s =>
      (s.writer.core.head.get? ⟨[1], 0, [2]⟩).any fun e =>
        decide ((s.writer.db.chunks.get? ⟨.raw, 0, e.id, 0⟩).isSome ∧
          e.lastSpans .raw = some 2595600 ∧
          Tier.raw.spanOf s.writer.core.clock + Duration.asSecs
            (s.policies.effective [1] .raw).period ≤
            s.writer.db.meta.retentionClock + Tier.raw.maxRetentionSecs)) = true := by
    decide +kernel
  obtain ⟨s, hstore, hreached⟩ := (Option.any_eq_true _ _).mp hreached
  obtain ⟨e, hget, hreached⟩ := (Option.any_eq_true _ _).mp hreached
  obtain ⟨hchunk, hlast, hclose⟩ := of_decide_eq_true hreached
  have hrun := store?_eq_some.mp hstore
  have hops : StoreOp.Admissible 0 clockCaughtUp := by
    simp [StoreOp.Admissible, clockCaughtUp, StoreOp.InTime, StoreOp.bufferedAfter]
  obtain ⟨bytes, hbytes⟩ := Option.isSome_iff_exists.mp hchunk
  exact ⟨s, e, bytes, 2595600, hrun, hget, .inl hbytes, hlast, by decide,
    (looksFar_iff 1000 hops hrun hget s.policies s.tombstones .raw).1 hclose⟩

/-- Two points an hour apart; then the system clock is set forty days ahead, and two more points an
hour apart. -/
def clockSetAhead : List StoreOp :=
  [.reopen (.new .default) 1000 1000 0, .append [1] 0 [⟨[2], .count, 7⟩] 1000,
    .append [1] 0 [⟨[2], .count, 8⟩] 4000, .commit .all, .append [1] 0 [⟨[2], .count, 9⟩] 3456000,
    .append [1] 0 [⟨[2], .count, 10⟩] 3459600, .commit .all]

/-- The first chunk is live, the retention clock having hardly moved, and a query of its span reads
nothing. -/
theorem Machine.live_chunk_passed : ∃ s e bytes last view,
    StoreOp.Admissible 0 clockSetAhead ∧ (Machine.new 1000).run clockSetAhead = .running s ∧
    s.writer.core.head.get? ⟨[1], 0, [2]⟩ = some e ∧ s.Stores e.id ⟨.raw, 0, 0, bytes⟩ ∧
    (s.alive s.policies s.tombstones .raw ⟨[1], 0, [2]⟩).span 0 = .live ∧
    e.lastSpans .raw = some last ∧ 0 < lookBack .raw last ∧
    headView s.writer.core.head ⟨[1], 0, [2]⟩ .raw = some view ∧
    spansRead view ⟨.raw, 0, 3599, .earliest, 10⟩
      (s.alive s.policies s.tombstones .raw ⟨[1], 0, [2]⟩) = [] := by
  have hreached : ((Machine.new 1000).run clockSetAhead).store?.any (fun s =>
      (s.writer.core.head.get? ⟨[1], 0, [2]⟩).any fun e =>
        decide ((s.writer.db.chunks.get? ⟨.raw, 0, e.id, 0⟩).isSome ∧
          (s.alive s.policies s.tombstones .raw ⟨[1], 0, [2]⟩).span 0 = .live ∧
          e.lastSpans .raw = some 3456000 ∧
          ((headView s.writer.core.head ⟨[1], 0, [2]⟩ .raw).map fun view =>
            spansRead view ⟨.raw, 0, 3599, .earliest, 10⟩
              (s.alive s.policies s.tombstones .raw ⟨[1], 0, [2]⟩)) =
            some [])) = true := by decide +kernel
  obtain ⟨s, hstore, hreached⟩ := (Option.any_eq_true _ _).mp hreached
  obtain ⟨e, hget, hreached⟩ := (Option.any_eq_true _ _).mp hreached
  have hrun := store?_eq_some.mp hstore
  obtain ⟨hchunk, hlive, hlast, hread⟩ := of_decide_eq_true hreached
  obtain ⟨bytes, hbytes⟩ := Option.isSome_iff_exists.mp hchunk
  obtain ⟨view, hview, hnil⟩ := Option.map_eq_some_iff.mp hread
  exact ⟨s, e, bytes, 3456000, view, by simp [StoreOp.Admissible, clockSetAhead, StoreOp.InTime,
    StoreOp.bufferedAfter], hrun, hget, .inl hbytes, hlive, hlast, by decide, hview, hnil⟩

end MonitoringAgent.HubStore

import MonitoringAgent.Model.Store.Store
import MonitoringAgent.Verification.Series.Slots
import MonitoringAgent.Verification.Writer.Steps

/-! # Spans that get no more chunks

A span chosen at a sweep is closed, and the sweep left nothing of it in the head: whatever the
writer does next, hub time being past it, no chunk of it is sealed again. -/

namespace MonitoringAgent.HubStore

open MonitoringAgent.Library

/-! ### The head only grows -/

/-- Between commits, chunks are only added to the sealed ones, series keep their id and kind, and
hub time moves forward. -/
structure Core.Grows (c c' : Core) : Prop where
  sealed : ∃ more, c'.sealed = c.sealed ++ more
  entry : ∀ key e, c.head.get? key = some e →
    ∃ e', c'.head.get? key = some e' ∧ e'.id = e.id ∧ e'.state.kind = e.state.kind
  clock : c.clock ≤ c'.clock

namespace Core

variable {c c' c'' : Core} {key : SeriesKey} {e : HeadEntry}

theorem Grows.refl (c : Core) : c.Grows c := ⟨⟨[], by simp⟩, fun _ e h => ⟨e, h, rfl, rfl⟩, le_rfl⟩

theorem Grows.trans (h : c.Grows c') (h' : c'.Grows c'') : c.Grows c'' := by
  obtain ⟨more, hmore⟩ := h.sealed
  obtain ⟨more', hmore'⟩ := h'.sealed
  refine ⟨⟨more ++ more', by rw [hmore', hmore, List.append_assoc]⟩, ?_, h.clock.trans h'.clock⟩
  intro key e hget
  obtain ⟨e', hget', hid, hkind⟩ := h.entry key e hget
  obtain ⟨e'', hget'', hid', hkind'⟩ := h'.entry key e' hget'
  exact ⟨e'', hget'', hid'.trans hid, hkind'.trans hkind⟩

theorem grows_hubNow (c : Core) (systemNow : ℕ) : c.Grows (c.hubNow systemNow).2 :=
  ⟨⟨[], by simp [hubNow]⟩, fun _ e h => ⟨e, h, rfl, rfl⟩, le_max_left _ _⟩

theorem grows_putEntry (hget : c.head.get? key = some e) {state : SeriesState} (dirty : Bool)
    (hkind : state.kind = e.state.kind) (chunks : List Sealed) :
    c.Grows (c.putEntry key { e with state, dirty } chunks) := by
  refine ⟨?_, ?_, by simp⟩
  · rw [putEntry_eq]
    exact ⟨_, rfl⟩
  · intro k e₀ hk
    rw [putEntry_head]
    split_ifs with heq
    · rw [← heq, hget] at hk
      obtain rfl := Option.some.inj hk
      exact ⟨_, rfl, rfl, hkind⟩
    · exact ⟨e₀, hk, rfl, rfl⟩

theorem grows_appendEntry (hget : c.head.get? key = some e) (kind : ValueKind) (value : ℤ)
    (scaled : Scaled) («at» : ℕ) : c.Grows (c.appendEntry key e kind value scaled «at»).2 := by
  rw [appendEntry]
  split_ifs
  · exact .refl c
  split
  · exact .refl c
  next chunks state happend =>
    have hkind : state.kind = e.state.kind := by
      rw [← SeriesState.append_kind e.state «at» scaled, happend]
    obtain ⟨hsealed, hentry, hclock⟩ := grows_putEntry hget true hkind chunks
    exact ⟨hsealed, hentry, hclock⟩

theorem grows_addEntry (hget : c.head.get? key = none) (entry : HeadEntry) (nextId : ℕ)
    (newSeries touched : Finset SeriesId) :
    c.Grows ({ c with nextId, newSeries, touched }.addEntry key entry) := by
  refine ⟨⟨[], by simp [addEntry]⟩, ?_, le_rfl⟩
  intro k e hk
  have hne : key ≠ k := by
    rintro rfl
    rw [hget] at hk
    cases hk
  exact ⟨e, by simp only [addEntry]; rw [Table.get?_insert_of_ne _ _ hne, hk], rfl, rfl⟩

theorem grows_activate {txn : Tables} {kind : ValueKind} {answer : Except Rejected Unit}
    (hget : c.head.get? key = none) (h : c.activate txn key kind = .ok (answer, c')) :
    c.Grows c' := by
  rw [activate] at h
  split at h
  next id record tail hinterned =>
    dsimp only at h
    split at h
    · split at h
      · obtain rfl := congrArg Prod.snd (Except.ok.inj h)
        exact grows_addEntry hget _ c.nextId c.newSeries c.touched
      · cases h
    · obtain rfl := congrArg Prod.snd (Except.ok.inj h)
      exact grows_addEntry hget _ c.nextId c.newSeries c.touched
  next hinterned =>
    split_ifs at h
    · obtain rfl := congrArg Prod.snd (Except.ok.inj h)
      exact grows_addEntry hget _ _ _ _
    · obtain rfl := congrArg Prod.snd (Except.ok.inj h)
      exact .refl c

theorem grows_appendPoint {txn : Tables} {kind : ValueKind} {value : ℤ} {«at» : ℕ}
    {answer : Except Rejected Unit} (h : c.appendPoint txn key kind value «at» = .ok (answer, c')) :
    c.Grows c' := by
  refine appendPoint_inv (P := c.Grows)
    (fun c₁ active hnone hactive => grows_activate hnone hactive) ?_ (.refl c) h
  exact fun c₁ entry scaled hgrows hget => hgrows.trans (grows_appendEntry hget _ _ _ _)

theorem grows_appendEach {txn : Tables} {system : List UInt8} {generation «at» : ℕ}
    {points : List IncomingPoint} {answers : List (Except Rejected Unit)}
    (h : c.appendEach txn system generation «at» points = .ok (answers, c')) : c.Grows c' := by
  refine appendEach_inv (P := c.Grows) ?_ (.refl c) h
  exact fun c₁ c₂ p answer hgrows hpoint => hgrows.trans (grows_appendPoint hpoint)

theorem grows_sweepEntry (now : ℕ) (c : Core) (key : SeriesKey) :
    c.Grows (sweepEntry now c key) := by
  rw [sweepEntry]
  split
  · exact .refl c
  next e hget =>
    have hkind : ((e.state.sweep now).2.sealClosed now).2.kind = e.state.kind := rfl
    exact grows_putEntry hget e.dirty hkind _

theorem grows_sweep (now : ℕ) (c : Core) : c.Grows (c.sweep now) := by
  rw [sweep]
  generalize c.head.keys = keys
  induction keys generalizing c with
  | nil => exact .refl c
  | cons key keys ih => exact (grows_sweepEntry now c key).trans (ih _)

/-- Every series of the head is swept once. -/
theorem sweep_state {now : ℕ} {e' : HeadEntry} (h : (c.sweep now).head.get? key = some e') :
    ∃ e, c.head.get? key = some e ∧ e'.state = ((e.state.sweep now).2.sealClosed now).2 := by
  have hother : ∀ (c : Core) k, True → k ≠ key →
      (((sweepEntry now c k).head.get? key).map HeadEntry.state) =
        (c.head.get? key).map HeadEntry.state := by
    intro c k _ hk
    rw [sweepEntry]
    split
    · rfl
    · simp only [putEntry_head, if_neg hk]
  cases hget : c.head.get? key with
  | none =>
      have hself : ∀ c : Core, True → (c.head.get? key).map HeadEntry.state = none →
          ((sweepEntry now c key).head.get? key).map HeadEntry.state = none := by
        intro c _ hnone
        rw [Option.map_eq_none_iff] at hnone
        simp [sweepEntry, hnone]
      have hview := foldl_view (fun _ _ _ => trivial) hother hself c.head.nodup_keys trivial
        (by simp [hget] : (c.head.get? key).map HeadEntry.state = none)
      rw [ite_self, ← sweep, h] at hview
      cases hview
  | some e =>
      have hself : ∀ c : Core, True → (c.head.get? key).map HeadEntry.state = some e.state →
          ((sweepEntry now c key).head.get? key).map HeadEntry.state =
            some ((e.state.sweep now).2.sealClosed now).2 := by
        intro c _ hsome
        obtain ⟨e₀, he₀, hstate⟩ := Option.map_eq_some_iff.mp hsome
        simp [sweepEntry, he₀, putEntry_head, hstate]
      have hview := foldl_view (fun _ _ _ => trivial) hother hself c.head.nodup_keys trivial
        (by simp [hget] : (c.head.get? key).map HeadEntry.state = some e.state)
      rw [if_pos (Table.mem_keys.mpr ⟨e, hget⟩), ← sweep, h] at hview
      exact ⟨e, rfl, Option.some.inj hview⟩

end Core

/-! ### Closed spans -/

namespace SpanStart

theorem isClosed_mono {span : SpanStart} {tier : Tier} {now later : ℕ} (hle : now ≤ later)
    (h : isClosed span tier now = true) : isClosed span tier later = true := by
  have hpast : now > min (spanEnd span tier + tier.graceSecs) (2 ^ 64 - 1) := of_decide_eq_true h
  exact decide_eq_true (lt_of_lt_of_le hpast hle)

/-- No point stamped after a span closed is in it. -/
theorem isClosed_spanOf_ne {span : ℕ} {tier : Tier} {now ts : ℕ} (hnow : now < 2 ^ 64)
    (h : isClosed span tier now = true) (hts : now ≤ ts) : tier.spanOf ts ≠ span := by
  have hpast := (isClosed_iff hnow).mp h
  have hlt := tier.lt_spanOf_add ts
  intro heq
  have heq : @Eq ℕ (tier.spanOf ts) span := heq
  omega

end SpanStart

/-- Hub time is past the span, and the head holds nothing of it: every item of it is in a chunk
stored or sealed. -/
structure SpanDone (c : Core) (stored : SeriesId → List Sealed)
    (accepted : SeriesKey → List RawPoint) (span : SpanKey) : Prop where
  closed : SpanStart.isClosed span.span span.tier c.clock = true
  drained : ∀ key e, c.head.get? key = some e →
    Drained e.state.kind (stored e.id ++ select c.sealed e.id) (accepted key) span.tier span.span

/-- The persisted clock is past the span, and every item of it is in a chunk stored. -/
structure SpanDrained (t : Tables) (l : Ledger) (span : SpanKey) : Prop where
  closed : SpanStart.isClosed span.span span.tier t.meta.clock = true
  drained : ∀ id record, t.series.get? id = some record →
    Drained record.kind (l.stored id) (l.committed record.key) span.tier span.span

section Done

variable {c c' : Core} {stored : SeriesId → List Sealed}
  {accepted accepted' : SeriesKey → List RawPoint} {span : SpanKey}

/-- Later points and more chunks leave a span done. -/
theorem SpanDone.grows (h : SpanDone c stored accepted span) (hgrows : c.Grows c')
    (hclock : c.clock < 2 ^ 64) (habsent : ∀ key, c.head.get? key = none → accepted key = [])
    (hlater : ∀ key, ∀ p ∈ accepted' key, p ∈ accepted key ∨ c.clock ≤ p.ts) :
    SpanDone c' stored accepted' span := by
  have hnot : ∀ key, ∀ p ∈ accepted' key, p ∈ accepted key ∨ span.tier.spanOf p.ts ≠ span.span :=
    fun key p hp => (hlater key p hp).imp_right (SpanStart.isClosed_spanOf_ne hclock h.closed)
  refine ⟨SpanStart.isClosed_mono hgrows.clock h.closed, fun key e' hget' => ?_⟩
  cases hget : c.head.get? key with
  | none =>
      -- A series new to the head has later points only.
      intro p hp hspan
      rcases hnot key p hp with hmem | hne
      · rw [habsent key hget] at hmem
        cases hmem
      · exact absurd hspan hne
  | some e =>
      obtain ⟨e₁, hget₁, hid, hkind⟩ := hgrows.entry key e hget
      obtain rfl := Option.some.inj (hget₁.symm.trans hget')
      obtain ⟨more, hmore⟩ := hgrows.sealed
      rw [hid, hkind, hmore, select_append, ← List.append_assoc]
      exact (h.drained key e hget).mono _ (hnot key)

/-- A span closed at a sweep is done after it. -/
theorem HeadInv.spanDone_sweep (hclock : c.clock < 2 ^ 64)
    (h : HeadInv c (fun _ => c.clock) stored accepted)
    (hswept : HeadInv (c.sweep c.clock) (fun _ => c.clock) stored accepted)
    (hclosed : SpanStart.isClosed span.span span.tier c.clock = true) :
    SpanDone (c.sweep c.clock) stored accepted span := by
  refine ⟨by rwa [(Core.sweep_frame c.clock c).1], fun key e hget => ?_⟩
  obtain ⟨e₀, hget₀, hstate⟩ := Core.sweep_state hget
  refine Drained.of_not_holds (hswept.entry key e hget).series ?_
  rw [hstate]
  exact (h.entry key e₀ hget₀).series.holdsOpen_swept hclock hclosed

end Done

section Drained

variable {w : Writer} {l : Ledger} {accepted : SeriesKey → List RawPoint} {span : SpanKey}

theorem SpanDrained.congr {t t' : Tables} (h : SpanDrained t l span)
    (hseries : t'.series = t.series) (hclock : t'.meta.clock = t.meta.clock) :
    SpanDrained t' l span :=
  ⟨by rw [hclock]; exact h.closed, by rw [hseries]; exact h.drained⟩

/-- A span drained in the file is so in the head, whose later points are all past it. -/
theorem SpanDrained.entry (h : SpanDrained w.db l span) (hw : WriterInv w l accepted)
    (hclock : w.core.clock < 2 ^ 64) {key : SeriesKey} {e : HeadEntry}
    (hget : w.core.head.get? key = some e) :
    Drained e.state.kind (l.stored e.id) (accepted key) span.tier span.span := by
  have hlater : ∀ p ∈ loggedOf w.core.points e.id, span.tier.spanOf p.ts ≠ span.span := by
    intro p hp
    obtain ⟨q, hq, -, rfl⟩ := mem_loggedOf.mp hp
    exact SpanStart.isClosed_spanOf_ne (lt_of_le_of_lt hw.clock hclock) h.closed
      (hw.points q hq).2.1
  have hpoints : ∀ p ∈ accepted key, p ∈ l.committed key ∨ span.tier.spanOf p.ts ≠ span.span := by
    intro p hp
    rw [hw.buffered key e hget, List.mem_append] at hp
    exact hp.imp_right (hlater p)
  cases hrecord : w.db.series.get? e.id with
  | none =>
      intro p hp hspan
      rcases hpoints p hp with hmem | hne
      · rw [hw.committed_unrecorded hget hrecord] at hmem
        cases hmem
      · exact absurd hspan hne
  | some record =>
      obtain ⟨e', hget', hid, hkind⟩ := hw.recorded e.id record hrecord
      obtain rfl := hw.head.key_unique hget hget' hid.symm
      obtain rfl := Option.some.inj (hget.symm.trans hget')
      have hdrained := h.drained e.id record hrecord
      rw [hkind, ← List.append_nil (l.stored e.id)]
      exact hdrained.mono [] hpoints

theorem SpanDrained.done (h : SpanDrained w.db l span) (hw : WriterInv w l accepted)
    (hclock : w.core.clock < 2 ^ 64) : SpanDone w.core l.stored accepted span :=
  ⟨SpanStart.isClosed_mono hw.clock h.closed, fun _ _ hget =>
    (h.entry hw hclock hget).mono _ fun _ hp => .inl hp⟩

/-- No chunk of a drained span is sealed again. -/
theorem SpanDrained.not_sealed (h : SpanDrained w.db l span) (hw : WriterInv w l accepted)
    (hclock : w.core.clock < 2 ^ 64) {id : SeriesId} {chunk : Sealed}
    (hmem : (id, chunk) ∈ w.core.sealed) : (chunk.chunkKey id).spanKey ≠ span := by
  obtain ⟨key, hindex⟩ := hw.head.sealed id chunk hmem
  obtain ⟨e, hget, rfl⟩ := (hw.head.index id key).mp hindex
  have hdone := (h.entry hw hclock hget).done (hw.head.entry key e hget).series
  rintro rfl
  exact hdone.2 chunk (mem_select.mpr hmem) rfl rfl

/-- A commit stores every chunk of a span that is done. -/
theorem SpanDone.commit (h : SpanDone w.core l.stored accepted span) (hw : WriterInv w l accepted)
    (flush : Flush) : SpanDrained (w.tablesAfter flush) (l.commit w accepted flush) span := by
  have hclock : (w.tablesAfter flush).meta.clock = w.core.clock := by rw [Writer.tablesAfter_eq]
  refine ⟨by rw [hclock]; exact h.closed, fun id record hrecord => ?_⟩
  obtain ⟨e, hget, rfl, hkind⟩ := hw.commit_record hrecord
  rw [hkind]
  exact h.drained record.key e hget

/-- No tail holds a drained span open. -/
theorem SpanDrained.not_holdsOpen {t : Tables} (h : SpanDrained t l span) (hfile : FileInv t l)
    {c : Core} (hload : (Core.new t.meta.clock t.meta.nextId).loadHead t = .ok c) {key : SeriesKey}
    {e : HeadEntry} (hget : c.head.get? key = some e) :
    e.state.holdsOpen span.tier span.span = false := by
  obtain ⟨c', accepted, hload', hc, htailed, -⟩ := hfile.loadHead
  obtain rfl := Except.ok.inj (hload.symm.trans hload')
  obtain ⟨record, hrecord, rfl, hkind⟩ := hc.record key e hget
  obtain ⟨rest, hsplit, -⟩ := (hfile.series e.id record hrecord).split
  have hdrained : Drained e.state.kind (l.stored e.id ++ [])
      (accepted record.key) span.tier span.span := by
    rw [← hkind]
    refine (h.drained e.id record hrecord).mono [] fun p hp => .inl ?_
    rw [hsplit]
    rw [htailed record.key e hget] at hp
    exact List.mem_append_left _ hp
  rw [List.append_nil] at hdrained
  exact (hdrained.done (hc.head.entry record.key e hget).series).1

end Drained

end MonitoringAgent.HubStore

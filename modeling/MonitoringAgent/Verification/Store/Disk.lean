import MonitoringAgent.Verification.Store.Pass
import MonitoringAgent.Verification.Store.Spans
import MonitoringAgent.Verification.Writer.History

/-! # Chunks and block files on disk

Every chunk committed is in `chunks`, or in the file its span's row names, or was deleted by
retention. A handoff moves a span's chunks from the one place to the other in one commit. -/

namespace MonitoringAgent.HubStore

open MonitoringAgent.Library

/-! ### What a ledger reads of the tables -/

/-- Two versions of the tables with the same series, tails, log, hub clock and counters. -/
structure SameSeries (a b : Tables) : Prop where
  series : b.series = a.series
  seriesKey : b.seriesKey = a.seriesKey
  pointsLog : b.pointsLog = a.pointsLog
  tails : b.tails = a.tails
  clock : b.meta.clock = a.meta.clock
  nextId : b.meta.nextId = a.meta.nextId
  commitSeq : b.meta.commitSeq = a.meta.commitSeq

section Same

variable {t t' : Tables} {l : Ledger}

theorem FileInv.congr (h : FileInv t l) (hsame : SameSeries t t') : FileInv t' l where
  key := by rw [hsame.seriesKey, hsame.series]; exact h.key
  tails := by rw [hsame.tails, hsame.series]; exact h.tails
  series id record hrecord := by
    rw [hsame.series] at hrecord
    have hlog : logPoints t' = logPoints t := by rw [logPoints, hsame.pointsLog, ← logPoints]
    obtain ⟨htail, hclock, hsplit, hpoints, hdomain, htimes, hlogged, hcovered⟩ :=
      h.series id record hrecord
    exact ⟨by rw [hsame.tails]; exact htail, by rw [hsame.clock]; exact hclock, hsplit, hpoints,
      hdomain, by rw [hsame.clock]; exact htimes, by rw [hlog]; exact hlogged, by
        rw [hlog]; exact hcovered⟩
  absent := by rw [hsame.seriesKey]; exact h.absent
  log := by rw [hsame.pointsLog, hsame.commitSeq, hsame.series]; exact h.log
  idLt := by rw [hsame.series, hsame.nextId]; exact h.idLt
  fresh := by rw [hsame.series]; exact h.fresh
  nextId := by rw [hsame.nextId]; exact h.nextId

variable {w : Writer} {accepted : SeriesKey → List RawPoint}

/-- What a commit writes beside the interval leaves the writer's invariant alone. -/
theorem WriterInv.withDb (h : WriterInv w l accepted) (htxn : w.txn = none)
    (hsame : SameSeries w.db t) : WriterInv { w with db := t } l accepted where
  head := h.head
  file := h.file.congr hsame
  txn := by
    have htxn' : Writer.openTxn { w with db := t } = t := by simp [Writer.openTxn, htxn]
    rw [htxn']
    exact ⟨rfl, rfl, rfl, rfl, rfl⟩
  recorded := by simpa only [hsame.series] using h.recorded
  unrecorded := by simpa only [hsame.series] using h.unrecorded
  newSeries := by simpa only [hsame.series] using h.newSeries
  clean := by simpa only [hsame.series] using h.clean
  buffered := h.buffered
  points := by simpa only [hsame.clock] using h.points
  clock := by simpa only [hsame.clock] using h.clock
  nextId := by simpa only [hsame.nextId] using h.nextId
  seq := by simpa only [hsame.commitSeq] using h.seq
  bound := h.bound
  flushed := by simpa only [hsame.pointsLog] using h.flushed

/-- What the open transaction holds beside the series leaves the writer's invariant alone. -/
theorem WriterInv.withTxn (h : WriterInv w l accepted) (hsame : SameLedger w.db t) :
    WriterInv { w with txn := some t } l accepted :=
  { h with txn := hsame }

end Same

/-! ### Places -/

/-- The chunk is in `chunks`. -/
def InChunks (t : Tables) (id : SeriesId) (chunk : Sealed) : Prop :=
  t.chunks.get? (chunk.chunkKey id) = some chunk.bytes

/-- The chunk is in the file the row of its span names. -/
def InFile (t : Tables) (files : Files) (id : SeriesId) (chunk : Sealed) : Prop :=
  ∃ record held, t.blocks.get? ⟨chunk.tier, chunk.span⟩ = some record ∧
    files.get? ⟨chunk.tier, chunk.span, record.rewrite⟩ = some held ∧
    (id, chunk.seq, chunk.bytes) ∈ held

/-- A chunk of the span, as the ledger names it. -/
def SpanKey.chunk (span : SpanKey) (seq : ℕ) (bytes : List UInt8) : Sealed :=
  ⟨span.tier, span.span, seq, bytes⟩

/-- Chunks of a span as they were committed, each of a series recorded under one of the
generations. -/
structure HeldFrom (t : Tables) (l : Ledger) (span : SpanKey) (generations : List ℕ) (held : Held) :
    Prop where
  stored : ∀ id seq bytes, (id, seq, bytes) ∈ held → span.chunk seq bytes ∈ l.stored id
  holder : ∀ id seq bytes, (id, seq, bytes) ∈ held →
    ∃ record, t.series.get? id = some record ∧ record.key.generation ∈ generations

/-- A span with a row: nothing of it is left to seal, its chunks are in its file and not in
`chunks`. -/
structure Filed (t : Tables) (files : Files) (l : Ledger) (span : SpanKey) (record : BlockRecord) :
    Prop where
  drained : SpanDrained t l span
  moved : spanChunks t.chunks span = []
  rewrite : record.rewrite = 0
  file : ∃ held, files.get? (handoffName span) = some held ∧
    HeldFrom t l span (holdersOf t span) held

/-- The tables and the files hold every chunk committed that retention did not delete. -/
structure DiskInv (t : Tables) (files : Files) (l : Ledger) (deleted : List (SeriesId × Sealed)) :
    Prop where
  chunks : ∀ id chunk, InChunks t id chunk → chunk ∈ l.stored id
  row : ∀ span record, t.blocks.get? span = some record → Filed t files l span record
  placed : ∀ id, ∀ chunk ∈ l.stored id,
    InChunks t id chunk ∨ InFile t files id chunk ∨ (id, chunk) ∈ deleted
  pending : ∀ name, t.pendingUnlinks.get? name = some () →
    SpanDrained t l name.spanKey ∧ spanChunks t.chunks name.spanKey = [] ∧
      t.blocks.get? name.spanKey = none

theorem holdersOf_congr {t t' : Tables} {span : SpanKey} (h : ∀ generation,
    t'.blockGenerations.get? (toLex (generation, span)) =
      t.blockGenerations.get? (toLex (generation, span)))
    {generation : ℕ} : generation ∈ holdersOf t' span ↔ generation ∈ holdersOf t span := by
  rw [mem_holdersOf, mem_holdersOf, h generation]

/-! ### The interval -/

section Interval

variable {w : Writer} {l : Ledger} {accepted : SeriesKey → List RawPoint} {span : SpanKey}

theorem writeChunks_get?_of_not_mem {t : Tables} {sealed : List (SeriesId × Sealed)}
    {key : ChunkKey} (h : ∀ id chunk, (id, chunk) ∈ sealed → chunk.chunkKey id ≠ key) :
    (Writer.writeChunks t sealed).chunks.get? key = t.chunks.get? key := by
  rw [Writer.writeChunks]
  dsimp only
  generalize t.chunks = chunks
  induction sealed generalizing chunks with
  | nil => rfl
  | cons e sealed ih =>
      obtain ⟨id, chunk⟩ := e
      rw [List.foldl_cons, ih fun id chunk hmem => h id chunk (List.mem_cons_of_mem _ hmem),
        Table.get?_insert_of_ne _ _ (h id chunk List.mem_cons_self)]

theorem Writer.tablesAfter_files (w : Writer) (flush : Flush) :
    (w.tablesAfter flush).blocks = w.openTxn.blocks ∧
      (w.tablesAfter flush).blockGenerations = w.openTxn.blockGenerations ∧
      (w.tablesAfter flush).pendingUnlinks = w.openTxn.pendingUnlinks := by
  obtain ⟨series, seriesKey, tails, htables⟩ := (w.tailsWritten_frame w.openTxn flush).tables
  rw [tablesAfter_eq, htables, writeLog]
  split_ifs
  · exact ⟨rfl, rfl, rfl⟩
  · exact ⟨rfl, rfl, rfl⟩

/-- A drained span stays so, and none of its chunks changes. -/
theorem SpanDrained.interval (h : SpanDrained w.db l span) (hw : WriterInv w l accepted)
    (hclock : w.core.clock < 2 ^ 64) (flush : Flush) :
    SpanDrained (w.tablesAfter flush) (l.commit w accepted flush) span ∧
      ∀ key, key.spanKey = span →
        (w.tablesAfter flush).chunks.get? key = w.openTxn.chunks.get? key := by
  refine ⟨(h.done hw hclock).commit hw flush, fun key hkey => ?_⟩
  rw [w.tablesAfter_chunks flush]
  refine writeChunks_get?_of_not_mem fun id chunk hmem heq => ?_
  exact h.not_sealed hw hclock hmem (by rw [heq, hkey])

/-- A recorded series is still recorded under its key. -/
theorem WriterInv.commit_key (hw : WriterInv w l accepted) (flush : Flush) {id : SeriesId}
    {record : SeriesRecord} (hrecord : w.db.series.get? id = some record) :
    ∃ record', (w.tablesAfter flush).series.get? id = some record' ∧ record'.key = record.key := by
  obtain ⟨e, hget, rfl, -⟩ := hw.recorded id record hrecord
  obtain ⟨record', hrecord', hkey, -⟩ := hw.commit_recorded flush hget
  exact ⟨record', hrecord', hkey⟩

theorem HeldFrom.interval {generations : List ℕ} {held : Held}
    (h : HeldFrom w.openTxn l span generations held) (hw : WriterInv w l accepted) (flush : Flush) :
    HeldFrom (w.tablesAfter flush) (l.commit w accepted flush) span generations held where
  stored id seq bytes hmem := List.mem_append_left _ (h.stored id seq bytes hmem)
  holder id seq bytes hmem := by
    obtain ⟨record, hrecord, hgeneration⟩ := h.holder id seq bytes hmem
    rw [hw.txn.series] at hrecord
    obtain ⟨record', hrecord', hkey⟩ := hw.commit_key flush hrecord
    exact ⟨record', hrecord', hkey ▸ hgeneration⟩

/-- The interval's chunks are committed into `chunks`, and no other chunk moves. -/
theorem DiskInv.interval {files : Files} {deleted : List (SeriesId × Sealed)}
    (h : DiskInv w.openTxn files l deleted) (hw : WriterInv w l accepted)
    (hclock : w.core.clock < 2 ^ 64) (flush : Flush) :
    DiskInv (w.tablesAfter flush) files (l.commit w accepted flush) deleted := by
  obtain ⟨hblocks, hholders, hpending⟩ := w.tablesAfter_files flush
  have hwrite : ∀ id chunk, InChunks (w.tablesAfter flush) id chunk ↔
      chunk ∈ select w.core.sealed id ∨
        (∀ other ∈ select w.core.sealed id, other.key ≠ chunk.key) ∧
        InChunks w.openTxn id chunk := by
    intro id chunk
    have hnodup := hw.keys_nodup id
    rw [List.map_append, List.nodup_append] at hnodup
    rw [InChunks, w.tablesAfter_chunks flush]
    exact writeChunks_get? hnodup.2.1 chunk
  have hdrained : ∀ {span}, SpanDrained w.openTxn l span → SpanDrained w.db l span :=
    fun hspan => hspan.congr hw.txn.series.symm (by rw [hw.txn.meta])
  have hmoved : ∀ {span}, SpanDrained w.openTxn l span → spanChunks w.openTxn.chunks span = [] →
      spanChunks (w.tablesAfter flush).chunks span = [] := by
    intro span hspan hnil
    rw [spanChunks_congr ((hdrained hspan).interval hw hclock flush).2, hnil]
  refine ⟨?_, ?_, ?_, ?_⟩
  · intro id chunk hin
    rcases (hwrite id chunk).mp hin with hmem | ⟨-, hold⟩
    · exact List.mem_append_right _ hmem
    · exact List.mem_append_left _ (h.chunks id chunk hold)
  · intro span record hrow
    rw [hblocks] at hrow
    obtain ⟨hspan, hnil, hrewrite, held, hfile, hheld⟩ := h.row span record hrow
    refine ⟨((hdrained hspan).interval hw hclock flush).1, hmoved hspan hnil,
      hrewrite, held, hfile, ?_⟩
    have hsame : holdersOf (w.tablesAfter flush) span = holdersOf w.openTxn span := by
      rw [holdersOf, hholders, ← holdersOf]
    rw [hsame]
    exact hheld.interval hw flush
  · intro id chunk hmem
    rcases List.mem_append.mp hmem with hstored | hsealed
    · rcases h.placed id chunk hstored with hin | hin | hgone
      · refine .inl ((hwrite id chunk).mpr (.inr ⟨fun other hother heq => ?_, hin⟩))
        have hnodup := hw.keys_nodup id
        rw [List.map_append, List.nodup_append] at hnodup
        exact hnodup.2.2 _ (List.mem_map_of_mem hstored) _ (List.mem_map_of_mem hother) heq.symm
      · rw [InFile, ← hblocks] at hin
        exact .inr (.inl hin)
      · exact .inr (.inr hgone)
    · exact .inl ((hwrite id chunk).mpr (.inl hsealed))
  · intro name hname
    rw [hpending] at hname
    obtain ⟨hspan, hnil, hnone⟩ := h.pending name hname
    exact ⟨((hdrained hspan).interval hw hclock flush).1, hmoved hspan hnil, by
      rw [hblocks]; exact hnone⟩

end Interval

/-! ### Retention -/

section Disk

variable {t t' : Tables} {files : Files} {l : Ledger} {deleted : List (SeriesId × Sealed)}

/-- A step of the pass moves chunks and files to `gone`, and no others. -/
theorem DiskInv.pass (h : DiskInv t files l deleted) {r r' : Retention}
    {handoffs handoffs' : Handoffs} {retired : List BlockName}
    (hstep : PassStep r t handoffs r' t' handoffs' retired) (hqueued : Queued t r.queued)
    {gone : List (SeriesId × Sealed)}
    (hchunks : ∀ id chunk, InChunks t id chunk → InChunks t' id chunk ∨ (id, chunk) ∈ gone)
    (hfiles : ∀ name ∈ retired, ∀ held, files.get? name = some held →
      ∀ id seq bytes, (id, seq, bytes) ∈ held → (id, name.spanKey.chunk seq bytes) ∈ gone) :
    DiskInv t' files l (deleted ++ gone) := by
  obtain ⟨chunks, blocks, blockGenerations, pendingUnlinks, htables⟩ := hstep.tables
  have hseries : t'.series = t.series := by rw [htables]
  have hdrained : ∀ {span}, SpanDrained t l span → SpanDrained t' l span :=
    fun hspan => hspan.congr hseries (by rw [htables])
  have hmoved : ∀ {span}, spanChunks t.chunks span = [] → spanChunks t'.chunks span = [] := by
    intro span hnil
    rw [spanChunks_eq_nil] at hnil ⊢
    intro key hkey
    rcases hstep.chunks key with hsame | ⟨-, hnone⟩
    · rw [hsame, hnil key hkey]
    · exact hnone
  have hretired : ∀ name ∈ retired, ∃ record, t.blocks.get? name.spanKey = some record ∧
      record.rewrite = name.rewrite :=
    fun name hname => hqueued.row name ((hstep.queue hqueued).2.subset hname)
  refine ⟨?_, ?_, ?_, ?_⟩
  · intro id chunk hin
    rcases hstep.chunks (chunk.chunkKey id) with hsame | ⟨-, hnone⟩
    · exact h.chunks id chunk (hsame.symm.trans hin)
    · exact absurd (hnone.symm.trans hin) (by simp)
  · intro span record hrow
    rw [hstep.row] at hrow
    split_ifs at hrow with hmem
    obtain ⟨hspan, hnil, hrewrite, held, hfile, hheld⟩ := h.row span record hrow
    refine ⟨hdrained hspan, hmoved hnil, hrewrite, held, hfile, hheld.stored,
      fun id seq bytes hin => ?_⟩
    obtain ⟨record', hrecord', hgeneration⟩ := hheld.holder id seq bytes hin
    exact ⟨record', hseries ▸ hrecord', (holdersOf_congr (hstep.holders span hmem)).mpr hgeneration⟩
  · intro id chunk hstored
    rcases h.placed id chunk hstored with hin | ⟨record, held, hrow, hfile, hmem⟩ | hgone
    · rcases hchunks id chunk hin with hin' | hgone
      · exact .inl hin'
      · exact .inr (.inr (List.mem_append_right _ hgone))
    · by_cases hname : (⟨chunk.tier, chunk.span⟩ : SpanKey) ∈ retired.map BlockName.spanKey
      · obtain ⟨name, hname, heq⟩ := List.mem_map.mp hname
        obtain ⟨record', hrow', hrewrite⟩ := hretired name hname
        rw [heq, hrow] at hrow'
        obtain rfl := Option.some.inj hrow'
        obtain rfl : name = ⟨chunk.tier, chunk.span, record.rewrite⟩ := by
          obtain ⟨tier, span, rewrite⟩ := name
          obtain ⟨rfl, rfl⟩ := SpanKey.mk.inj heq
          exact congrArg (BlockName.mk _ _) hrewrite.symm
        exact .inr (.inr (List.mem_append_right _ (hfiles _ hname held hfile _ _ _ hmem)))
      · exact .inr (.inl ⟨record, held, by rw [hstep.row, if_neg hname, hrow], hfile, hmem⟩)
    · exact .inr (.inr (List.mem_append_left _ hgone))
  · intro name hpending
    rw [hstep.pending] at hpending
    by_cases hname : name ∈ retired
    · obtain ⟨record, hrow, -⟩ := hretired name hname
      have hfiled := h.row _ record hrow
      refine ⟨hdrained hfiled.drained, hmoved hfiled.moved, ?_⟩
      rw [hstep.row, if_pos (List.mem_map_of_mem hname)]
    · rw [if_neg hname] at hpending
      obtain ⟨hspan, hnil, hnone⟩ := h.pending name hpending
      refine ⟨hdrained hspan, hmoved hnil, ?_⟩
      rw [hstep.row]
      split_ifs
      · rfl
      · exact hnone

theorem DiskInv.congr (h : DiskInv t files l deleted) (hseries : t'.series = t.series)
    (hclock : t'.meta.clock = t.meta.clock) (hchunks : t'.chunks = t.chunks)
    (hblocks : t'.blocks = t.blocks) (hholders : t'.blockGenerations = t.blockGenerations)
    (hpending : ∀ name, t'.pendingUnlinks.get? name = some () →
      t.pendingUnlinks.get? name = some ()) :
    DiskInv t' files l deleted where
  chunks := by simpa only [InChunks, hchunks] using h.chunks
  row span record hrow := by
    rw [hblocks] at hrow
    obtain ⟨hspan, hnil, hrewrite, held, hfile, hstored, hholder⟩ := h.row span record hrow
    have hsame : holdersOf t' span = holdersOf t span := by rw [holdersOf, hholders, ← holdersOf]
    exact ⟨hspan.congr hseries hclock, by rw [hchunks]; exact hnil, hrewrite, held, hfile, hstored,
      by rw [hsame, hseries]; exact hholder⟩
  placed := by simpa only [InChunks, InFile, hchunks, hblocks] using h.placed
  pending name hname := by
    obtain ⟨hspan, hnil, hnone⟩ := h.pending name (hpending name hname)
    exact ⟨hspan.congr hseries hclock, by rw [hchunks]; exact hnil, by rw [hblocks]; exact hnone⟩

/-! ### Files written and unlinked -/

/-- A file no row names may come or go. -/
theorem DiskInv.withFiles (h : DiskInv t files l deleted) {files' : Files}
    (hfiles : ∀ span record, t.blocks.get? span = some record →
      files'.get? (handoffName span) = files.get? (handoffName span)) :
    DiskInv t files' l deleted where
  chunks := h.chunks
  row span record hrow := by
    obtain ⟨hspan, hnil, hrewrite, held, hfile, hheld⟩ := h.row span record hrow
    exact ⟨hspan, hnil, hrewrite, held, (hfiles span record hrow).trans hfile, hheld⟩
  placed id chunk hstored := by
    refine (h.placed id chunk hstored).imp_right (Or.imp_left ?_)
    rintro ⟨record, held, hrow, hfile, hmem⟩
    have hrewrite := (h.row _ record hrow).rewrite
    rw [hrewrite] at hfile
    exact ⟨record, held, hrow, by rw [hrewrite]; exact (hfiles _ record hrow).trans hfile, hmem⟩
  pending := h.pending

/-! ### A handoff's row -/

theorem commitHandoff_eq_some {name : BlockName} {record : BlockRecord} {generations : Table ℕ ℕ}
    (h : commitHandoff t name record generations = some t') :
    t.blocks.get? name.spanKey = none ∧ t' = { t with
      blocks := t.blocks.insert name.spanKey record
      blockGenerations := generations.entries.foldl
        (fun held (generation, bytes) => held.insert (toLex (generation, name.spanKey)) bytes)
        t.blockGenerations
      chunks := t.chunks.filter fun key _ => key.spanKey ≠ name.spanKey } := by
  rw [commitHandoff] at h
  split_ifs at h with hcontains
  exact ⟨by simpa [Table.contains] using hcontains, (Option.some.inj h).symm⟩

theorem get?_foldl_holders (entries : List (ℕ × ℕ))
    (holders : Table (ℕ ×ₗ SpanKey) ℕ) (span : SpanKey) :
    (∀ other ≠ span, ∀ generation,
      (entries.foldl (fun held (e : ℕ × ℕ) => held.insert (toLex (e.1, span)) e.2) holders).get?
        (toLex (generation, other)) = holders.get? (toLex (generation, other))) ∧
      ∀ generation, generation ∈ entries.map Prod.fst ∨
          (∃ bytes, holders.get? (toLex (generation, span)) = some bytes) →
        ∃ bytes,
          (entries.foldl (fun held (e : ℕ × ℕ) => held.insert (toLex (e.1, span)) e.2) holders).get?
          (toLex (generation, span)) = some bytes := by
  induction entries generalizing holders with
  | nil => simp
  | cons e entries ih =>
      obtain ⟨hother, hmem⟩ := ih (holders.insert (toLex (e.1, span)) e.2)
      constructor
      · intro other hne generation
        rw [List.foldl_cons, hother other hne, Table.get?_insert_of_ne]
        intro heq
        exact hne (Prod.mk.inj (toLex.injective heq)).2.symm
      · intro generation hgeneration
        rw [List.foldl_cons]
        apply hmem
        rw [Table.get?_insert]
        split_ifs with heq
        · exact .inr ⟨_, rfl⟩
        · rw [List.map_cons, List.mem_cons] at hgeneration
          rcases hgeneration with (rfl | hgeneration) | hgeneration
          · exact absurd rfl heq
          · exact .inl hgeneration
          · exact .inr hgeneration

theorem get?_chunks_ne (chunks : Table ChunkKey (List UInt8)) (span : SpanKey) (key : ChunkKey) :
    (chunks.filter fun key _ => decide (key.spanKey ≠ span)).get? key =
      if key.spanKey = span then none else chunks.get? key := by
  rw [Table.get?_filter]
  split_ifs with hkey
  · simp [hkey]
  · cases chunks.get? key <;> simp [hkey]

/-- A span's chunks move into its file. -/
theorem DiskInv.handOff (h : DiskInv t files l deleted) {span : SpanKey} {held : Held}
    {record : BlockRecord} {generations : Table ℕ ℕ}
    (hcommit : commitHandoff t (handoffName span) record generations = some t')
    (hrewrite : record.rewrite = 0) (hdrained : SpanDrained t l span)
    (hfile : files.get? (handoffName span) = some held) (hheld : held = spanChunks t.chunks span)
    (hfrom : HeldFrom t l span generations.keys held)
    (hpending : ∀ name, t.pendingUnlinks.get? name = some () → name.spanKey ≠ span) :
    DiskInv t' files l deleted := by
  obtain ⟨hnone, rfl⟩ := commitHandoff_eq_some hcommit
  obtain ⟨hother, hmine⟩ := get?_foldl_holders generations.entries t.blockGenerations span
  have hchunk := get?_chunks_ne t.chunks span
  have hmoved : ∀ other, spanChunks t.chunks other = [] →
      spanChunks (t.chunks.filter fun key _ => decide (key.spanKey ≠ span)) other = [] := by
    intro other hnil
    rw [spanChunks_eq_nil] at hnil ⊢
    intro key hkey
    rw [hchunk key, hnil key hkey, ite_self]
  refine ⟨?_, ?_, ?_, ?_⟩
  · intro id chunk hin
    rw [InChunks] at hin
    change (t.chunks.filter fun key _ => decide (key.spanKey ≠ span)).get? _ = _ at hin
    rw [hchunk] at hin
    split_ifs at hin
    exact h.chunks id chunk hin
  · intro other record' hrow
    change (t.blocks.insert span record).get? other = some record' at hrow
    rw [Table.get?_insert] at hrow
    split_ifs at hrow with heq
    · subst heq
      obtain rfl := Option.some.inj hrow
      refine ⟨hdrained.congr rfl rfl, ?_, hrewrite, held, hfile, hfrom.stored, ?_⟩
      · rw [spanChunks_eq_nil]
        intro key hkey
        exact (hchunk key).trans (if_pos hkey)
      · intro id seq bytes hmem
        obtain ⟨record', hrecord', hgeneration⟩ := hfrom.holder id seq bytes hmem
        exact ⟨record', hrecord', mem_holdersOf.mpr (hmine _ (.inl hgeneration))⟩
    · obtain ⟨hspan, hnil, hrewrite', held', hfile', hstored, hholder⟩ := h.row other record' hrow
      refine ⟨hspan.congr rfl rfl, hmoved other hnil, hrewrite', held', hfile', hstored, ?_⟩
      intro id seq bytes hmem
      obtain ⟨record', hrecord', hgeneration⟩ := hholder id seq bytes hmem
      exact ⟨record', hrecord', (holdersOf_congr (hother other (Ne.symm heq))).mpr hgeneration⟩
  · intro id chunk hstored
    rcases h.placed id chunk hstored with hin | ⟨record', held', hrow, hfile', hmem⟩ | hgone
    · by_cases hspan : (chunk.chunkKey id).spanKey = span
      · subst hspan
        refine .inr (.inl ⟨record, held, Table.get?_insert_self _ _ _, ?_, ?_⟩)
        · rw [hrewrite]
          exact hfile
        · rw [hheld]
          exact mem_spanChunks.mpr hin
      · exact .inl ((hchunk _).trans ((if_neg hspan).trans hin))
    · refine .inr (.inl ⟨record', held', ?_, hfile', hmem⟩)
      refine (Table.get?_insert_of_ne _ _ ?_).trans hrow
      rintro heq
      rw [← heq] at hrow
      exact absurd (hnone.symm.trans hrow) (by simp)
    · exact .inr (.inr hgone)
  · intro name hname
    obtain ⟨hspan, hnil, hnone'⟩ := h.pending name hname
    refine ⟨hspan.congr rfl rfl, hmoved _ hnil, ?_⟩
    exact (Table.get?_insert_of_ne _ _ (hpending name hname).symm).trans hnone'

/-- Never both. -/
theorem DiskInv.not_both (h : DiskInv t files l deleted) {id : SeriesId} {chunk : Sealed}
    (hin : InChunks t id chunk) : ¬InFile t files id chunk := by
  rintro ⟨record, held, hrow, -, -⟩
  have hnil := spanChunks_eq_nil.mp (h.row _ record hrow).moved (chunk.chunkKey id) rfl
  exact absurd (hnil.symm.trans hin) (by simp)

end Disk

end MonitoringAgent.HubStore

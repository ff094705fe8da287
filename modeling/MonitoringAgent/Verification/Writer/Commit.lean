import MonitoringAgent.Verification.Writer.Recovery
import MonitoringAgent.Verification.Writer.Tails

/-! # The writer's invariant across a group commit

The head runs ahead of the file by the points and chunks buffered since the last commit. A
commit writes them, and the log keeps every point that no tail holds yet. -/

namespace MonitoringAgent.HubStore

open MonitoringAgent.Library

/-- Two versions of the tables with the same series, tails, log and counters. -/
structure SameLedger (a b : Tables) : Prop where
  series : b.series = a.series
  seriesKey : b.seriesKey = a.seriesKey
  pointsLog : b.pointsLog = a.pointsLog
  tails : b.tails = a.tails
  «meta» : b.meta = a.meta

/-- The writer's memory against its file. -/
structure WriterInv (w : Writer) (l : Ledger) (accepted : SeriesKey → List RawPoint) : Prop where
  head : HeadInv w.core (fun _ => w.core.clock) l.stored accepted
  file : FileInv w.db l
  txn : SameLedger w.db w.openTxn
  recorded : ∀ id record, w.db.series.get? id = some record →
    ∃ e, w.core.head.get? record.key = some e ∧ e.id = id ∧ e.state.kind = record.kind
  unrecorded : ∀ key e, w.core.head.get? key = some e → w.db.series.get? e.id = none →
    e.id ∈ w.core.newSeries ∧ e.id ∈ w.core.touched
  newSeries : ∀ id ∈ w.core.newSeries, w.db.series.get? id = none
  /-- A clean series' tail holds every point of it. -/
  clean : ∀ key e, w.core.head.get? key = some e → e.dirty = false →
    w.db.series.get? e.id ≠ none ∧ l.tailed e.id = accepted key
  buffered : ∀ key e, w.core.head.get? key = some e →
    accepted key = l.committed key ++ loggedOf w.core.points e.id
  points : ∀ p ∈ w.core.points, (∃ key, w.core.index.get? p.id = some key) ∧
    w.db.meta.clock ≤ p.ts ∧ p.Valid
  clock : w.db.meta.clock ≤ w.core.clock
  nextId : w.db.meta.nextId ≤ w.core.nextId
  seq : w.db.meta.commitSeq = w.commitSeq
  bound : w.logBound ≤ w.rotation.startedSeq ∧ w.rotation.startedSeq ≤ w.commitSeq
  /-- The tails hold the points of log entries no longer needed, and those of the series the
  rotation has passed hold the points logged before it started. -/
  flushed : ∀ seq bytes, w.db.pointsLog.get? seq = some bytes → ∀ p ∈ entryPoints (seq, bytes),
    seq < w.logBound ∨
        seq < w.rotation.startedSeq ∧ p.id ∉ w.rotation.queue.drop w.rotation.done →
      ⟨p.ts, p.value⟩ ∈ l.tailed p.id

/-! ### The log -/

theorem mem_loggedOf_logPoints {t : Tables} {id : SeriesId} {q : RawPoint} :
    q ∈ loggedOf (logPoints t) id ↔ ∃ seq bytes, t.pointsLog.get? seq = some bytes ∧
      ∃ p ∈ entryPoints (seq, bytes), p.id = id ∧ ⟨p.ts, p.value⟩ = q := by
  simp only [loggedOf, mem_select, List.mem_map, logPoints, List.mem_flatMap, Prod.mk.injEq,
    Prod.exists, Table.get?_eq_some_iff]
  constructor
  · rintro ⟨p, ⟨seq, bytes, hentry, hp⟩, hid, hq⟩
    exact ⟨seq, bytes, hentry, p, hp, hid, hq⟩
  · rintro ⟨seq, bytes, hentry, p, hp, hid, hq⟩
    exact ⟨p, ⟨seq, bytes, hentry, hp⟩, hid, hq⟩

theorem mem_loggedOf {points : List LoggedPoint} {id : SeriesId} {q : RawPoint} :
    q ∈ loggedOf points id ↔ ∃ p ∈ points, p.id = id ∧ ⟨p.ts, p.value⟩ = q := by
  simp [loggedOf, mem_select]

namespace Writer

variable {w : Writer} {t : Tables}

theorem entryPoints_encode {points : List LoggedPoint} (hvalid : ∀ p ∈ points, p.Valid)
    (hlen : points.length < 2 ^ 64) (seq : ℕ) :
    entryPoints (seq, encodeLogEntry points) = points := by
  rw [entryPoints, decodeLogEntry_encode hvalid hlen]
  rfl

/-- The interval's points come last in the log. -/
theorem logPoints_writeLog (hseq : ∀ seq ∈ t.pointsLog.keys, seq < w.commitSeq)
    (hvalid : ∀ p ∈ w.core.points, p.Valid) (hlen : w.core.points.length < 2 ^ 64) :
    logPoints (w.writeLog t) = logPoints t ++ w.core.points := by
  rw [writeLog]
  split_ifs with hempty
  · simp [List.isEmpty_iff.mp hempty]
  · simp only [logPoints]
    rw [Table.entries_insert_of_lt hseq, List.flatMap_append, List.flatMap_singleton,
      entryPoints_encode hvalid hlen]

/-- An entry below the bound goes, and every other stays. -/
theorem truncateLog_get? (seq : ℕ) :
    (w.truncateLog t).pointsLog.get? seq =
      if w.logBound ≤ seq then t.pointsLog.get? seq else none := by
  rw [truncateLog]
  split_ifs with hpos hle hle
  · cases hget : t.pointsLog.get? seq <;> simp [Table.get?_filter, hget, hle]
  · cases hget : t.pointsLog.get? seq <;> simp [Table.get?_filter, hget, hle]
  · rfl
  · omega

theorem logPoints_truncateLog : (logPoints (w.truncateLog t)).Sublist (logPoints t) := by
  rw [truncateLog]
  split_ifs
  · exact List.filter_sublist.flatMap _
  · exact List.Sublist.refl _

/-- The ids `writeTails` goes through. -/
def tailIds (w : Writer) (flush : Flush) : List SeriesId :=
  (w.core.touched ∪ (w.flushIds flush).1.toFinset).sort (· ≤ ·)

/-- The core a commit starts writing tails from: its buffers are taken. -/
def drained (c : Core) : Core := { c with points := [], sealed := [], touched := ∅, newSeries := ∅ }

/-- The head and the tables after the commit's tails. -/
def tailsWritten (w : Writer) (t : Tables) (flush : Flush) : Core × Tables :=
  (w.tailIds flush).foldl (writeTail w.core.touched w.core.newSeries)
    (drained w.core, writeChunks (w.writeLog t) w.core.sealed)

theorem writeInterval_eq (w : Writer) (t : Tables) (flush : Flush) :
    w.writeInterval t flush =
      ({ w with
          core := (w.tailsWritten t flush).1
          rotation := (w.flushIds flush).2
          committing := w.committing ∪ (w.core.sealed.map Prod.fst).toFinset },
        { w.truncateLog (w.tailsWritten t flush).2 with
          «meta» := { (w.truncateLog (w.tailsWritten t flush).2).meta with
            clock := (w.tailsWritten t flush).1.clock
            nextId := (w.tailsWritten t flush).1.nextId
            commitSeq := w.commitSeq + 1 } }) := by
  cases flush <;> rfl

/-- Whether a commit writes the tail of a series. -/
def Writes (w : Writer) (flush : Flush) (id : SeriesId) : Prop :=
  ∃ key e, w.core.head.get? key = some e ∧ e.id = id ∧ id ∈ w.tailIds flush ∧
    (e.dirty = true ∨ id ∈ w.core.touched)

theorem tailsWritten_frame (w : Writer) (t : Tables) (flush : Flush) :
    TailsFrame (drained w.core) (writeChunks (w.writeLog t) w.core.sealed)
      (w.tailsWritten t flush) := by
  apply TailsFrame.foldl
  exact ⟨⟨_, rfl⟩, ⟨_, _, _, rfl⟩, fun _ => rfl, fun _ _ => ⟨rfl, rfl⟩, fun _ _ => rfl⟩

end Writer

namespace WriterInv

variable {w : Writer} {l : Ledger} {accepted : SeriesKey → List RawPoint} {key : SeriesKey}
  {e : HeadEntry} {flush : Flush}

theorem writes_iff (h : WriterInv w l accepted) (hget : w.core.head.get? key = some e) :
    w.Writes flush e.id ↔ e.id ∈ w.tailIds flush ∧ (e.dirty = true ∨ e.id ∈ w.core.touched) := by
  constructor
  · rintro ⟨key', e', hget', hid, hmem, hwrite⟩
    obtain rfl := h.head.key_unique hget hget' hid.symm
    obtain rfl := Option.some.inj (hget.symm.trans hget')
    exact ⟨hmem, hwrite⟩
  · rintro ⟨hmem, hwrite⟩
    exact ⟨key, e, hget, rfl, hmem, hwrite⟩

theorem writes_of_touched (hget : w.core.head.get? key = some e)
    (htouched : e.id ∈ w.core.touched) : w.Writes flush e.id :=
  ⟨key, e, hget, rfl, by simp [Writer.tailIds, htouched], .inr htouched⟩

/-- The log and the chunks are written first, the series' own tables after them. -/
theorem tables_before_tails (h : WriterInv w l accepted) :
    (Writer.writeChunks (w.writeLog w.openTxn) w.core.sealed).tails = w.db.tails ∧
      (Writer.writeChunks (w.writeLog w.openTxn) w.core.sealed).series = w.db.series ∧
      (Writer.writeChunks (w.writeLog w.openTxn) w.core.sealed).seriesKey = w.db.seriesKey := by
  rw [← h.txn.tails, ← h.txn.series, ← h.txn.seriesKey, Writer.writeLog]
  split_ifs
  · exact ⟨rfl, rfl, rfl⟩
  · exact ⟨rfl, rfl, rfl⟩

/-- What a commit leaves for one series of the head. -/
theorem written (h : WriterInv w l accepted) (flush : Flush)
    (hget : w.core.head.get? key = some e) :
    let s := w.tailsWritten w.openTxn flush
    w.Writes flush e.id ∧ s.1.head.get? key = some { e with dirty := false } ∧
        s.2.tails.get? e.id = some e.state.toTail ∧
        s.2.series.get? e.id = some ⟨key, e.state.kind, e.lastSpans⟩ ∧
        s.2.seriesKey.get? key =
          (if e.id ∈ w.core.newSeries then some e.id else w.db.seriesKey.get? key) ∨
      ¬w.Writes flush e.id ∧ s.1.head.get? key = some e ∧
        s.2.tails.get? e.id = w.db.tails.get? e.id ∧
        s.2.series.get? e.id = w.db.series.get? e.id ∧
        s.2.seriesKey.get? key = w.db.seriesKey.get? key := by
  have hview := Writer.foldl_writeTail (Writer.drained w.core)
    (Writer.writeChunks (w.writeLog w.openTxn) w.core.sealed) w.core.touched w.core.newSeries
    h.head.index hget (Finset.sort_nodup (w.core.touched ∪ (w.flushIds flush).1.toFinset) (· ≤ ·))
  rw [← Writer.tailIds, ← Writer.tailsWritten] at hview
  obtain ⟨htails, hseries, hseriesKey⟩ := h.tables_before_tails
  rw [htails, hseries, hseriesKey] at hview
  by_cases hwrites : w.Writes flush e.id
  · rw [if_pos ((h.writes_iff hget).mp hwrites)] at hview
    exact .inl ⟨hwrites, by simpa [Writer.seriesView] using hview⟩
  · rw [if_neg (mt (h.writes_iff hget).mpr hwrites)] at hview
    exact .inr ⟨hwrites, by simpa [Writer.seriesView] using hview⟩

/-- A series of the head that a commit does not write is clean or waits for its turn: it is
recorded already and sealed nothing. -/
theorem unwritten (h : WriterInv w l accepted) (hget : w.core.head.get? key = some e)
    (hwrites : ¬w.Writes flush e.id) :
    (∃ record, w.db.series.get? e.id = some record ∧ record.key = key) ∧
      select w.core.sealed e.id = [] := by
  have htouched : e.id ∉ w.core.touched := fun hmem => hwrites (writes_of_touched hget hmem)
  constructor
  · cases hrecord : w.db.series.get? e.id with
    | none => exact absurd (h.unrecorded key e hget hrecord).2 htouched
    | some record =>
        obtain ⟨e', hget', hid, -⟩ := h.recorded e.id record hrecord
        exact ⟨record, rfl, h.head.key_unique hget' hget hid⟩
  · rw [List.eq_nil_iff_forall_not_mem]
    exact fun chunk hmem => htouched (h.head.touched e.id chunk (mem_select.mp hmem))

/-- After a commit every series of the head is recorded under its key. -/
theorem written_record (h : WriterInv w l accepted) (flush : Flush)
    (hget : w.core.head.get? key = some e) :
    ∃ record, (w.tailsWritten w.openTxn flush).2.series.get? e.id = some record ∧
      record.key = key ∧ record.kind = e.state.kind := by
  obtain ⟨-, -, -, hseries, -⟩ | ⟨hwrites, -, -, hseries, -⟩ := h.written flush hget
  · exact ⟨_, hseries, rfl, rfl⟩
  · obtain ⟨⟨record, hrecord, hkey⟩, -⟩ := h.unwritten hget hwrites
    obtain ⟨e', hget', hid, hkind⟩ := h.recorded e.id record hrecord
    rw [hkey, hget] at hget'
    obtain rfl := Option.some.inj hget'
    exact ⟨record, hseries.trans hrecord, hkey, hkind.symm⟩

theorem written_seriesKey (h : WriterInv w l accepted) (flush : Flush)
    (hget : w.core.head.get? key = some e) :
    (w.tailsWritten w.openTxn flush).2.seriesKey.get? key = some e.id := by
  have hdb : w.db.series.get? e.id ≠ none → w.db.seriesKey.get? key = some e.id := by
    intro hsome
    obtain ⟨record, hrecord⟩ := Option.ne_none_iff_exists'.mp hsome
    obtain ⟨e', hget', hid, -⟩ := h.recorded e.id record hrecord
    exact (h.file.key key e.id).mpr ⟨record, hrecord, h.head.key_unique hget' hget hid⟩
  obtain ⟨-, -, -, -, hseriesKey⟩ | ⟨hwrites, -, -, -, hseriesKey⟩ := h.written flush hget
  · rw [hseriesKey]
    split_ifs with hnew
    · rfl
    · exact hdb fun hnone => hnew (h.unrecorded key e hget hnone).1
  · obtain ⟨⟨record, hrecord, -⟩, -⟩ := h.unwritten hget hwrites
    rw [hseriesKey]
    exact hdb (by rw [hrecord]; exact Option.some_ne_none _)

/-- A series with no entry in the head is nowhere in the file. -/
theorem unindexed (h : WriterInv w l accepted) {id : SeriesId} (hid : w.core.index.get? id = none) :
    w.db.series.get? id = none ∧ w.db.tails.get? id = none := by
  have hseries : w.db.series.get? id = none := by
    rw [Option.eq_none_iff_forall_not_mem]
    intro record hrecord
    obtain ⟨e, hget, heq, -⟩ := h.recorded id record hrecord
    rw [← heq, h.head.index_of_get hget] at hid
    cases hid
  refine ⟨hseries, ?_⟩
  rw [Option.eq_none_iff_forall_not_mem]
  intro bytes hbytes
  obtain ⟨record, hrecord⟩ := h.file.tails id bytes hbytes
  rw [hseries] at hrecord
  cases hrecord

end WriterInv

/-! ### The file after a commit -/

open Classical in
/-- What the tables stand for after a commit: the buffers moved into the file, and the tails
written hold every point accepted. -/
noncomputable def Ledger.commit (l : Ledger) (w : Writer) (accepted : SeriesKey → List RawPoint)
    (flush : Flush) : Ledger where
  stored id := l.stored id ++ select w.core.sealed id
  tailed id :=
    if w.Writes flush id then ((w.core.index.get? id).map accepted).getD [] else l.tailed id
  clocks id := if w.Writes flush id then w.core.clock else l.clocks id
  committed := accepted

/-- The tables a commit leaves. -/
def Writer.tablesAfter (w : Writer) (flush : Flush) : Tables := (w.writeInterval w.openTxn flush).2

/-- The log and the counters aside, a commit leaves the tables its tails were written to. -/
theorem Writer.tablesAfter_eq (w : Writer) (flush : Flush) :
    w.tablesAfter flush =
      { (w.tailsWritten w.openTxn flush).2 with
        pointsLog := (w.tablesAfter flush).pointsLog
        «meta» := { w.openTxn.meta with
          clock := w.core.clock, nextId := w.core.nextId, commitSeq := w.commitSeq + 1 } } := by
  obtain ⟨head, hcore⟩ := (w.tailsWritten_frame w.openTxn flush).core
  obtain ⟨series, seriesKey, tails, htables⟩ := (w.tailsWritten_frame w.openTxn flush).tables
  rw [tablesAfter, writeInterval_eq, hcore, htables, truncateLog, writeLog]
  split_ifs
  · rfl
  · rfl
  · rfl
  · rfl

namespace WriterInv

variable {w : Writer} {l : Ledger} {accepted : SeriesKey → List RawPoint} {key : SeriesKey}
  {e : HeadEntry} {flush : Flush}

theorem commit_tailed_of_writes (h : WriterInv w l accepted) (hget : w.core.head.get? key = some e)
    (hwrites : w.Writes flush e.id) : (l.commit w accepted flush).tailed e.id = accepted key := by
  simp only [Ledger.commit, if_pos hwrites, h.head.index_of_get hget, Option.map_some,
    Option.getD_some]

theorem commit_tailed_of_not (hwrites : ¬w.Writes flush e.id) :
    (l.commit w accepted flush).tailed e.id = l.tailed e.id := by
  simp only [Ledger.commit, if_neg hwrites]

theorem committed_prefix (h : WriterInv w l accepted) (hget : w.core.head.get? key = some e) :
    l.committed key <+: accepted key := by
  rw [h.buffered key e hget]
  exact List.prefix_append _ _

theorem tailed_prefix (h : WriterInv w l accepted) (hget : w.core.head.get? key = some e)
    {record : SeriesRecord} (hrecord : w.db.series.get? e.id = some record)
    (hkey : record.key = key) : l.tailed e.id <+: accepted key := by
  obtain ⟨rest, hsplit, -⟩ := (h.file.series e.id record hrecord).split
  rw [hkey] at hsplit
  exact (hsplit ▸ List.prefix_append _ _ : l.tailed e.id <+: l.committed key).trans
    (h.committed_prefix hget)

/-- A commit only adds to what a recorded series' tail holds. -/
theorem tailed_subset (h : WriterInv w l accepted) (hget : w.core.head.get? key = some e)
    {record : SeriesRecord} (hrecord : w.db.series.get? e.id = some record)
    (hkey : record.key = key) (flush : Flush) :
    l.tailed e.id ⊆ (l.commit w accepted flush).tailed e.id := by
  by_cases hwrites : w.Writes flush e.id
  · rw [h.commit_tailed_of_writes hget hwrites]
    exact (h.tailed_prefix hget hrecord hkey).subset
  · rw [commit_tailed_of_not hwrites]
    exact List.Subset.refl _

/-- The log's entries after a commit: the interval's, and the old ones from the bound on. -/
theorem commit_log (w : Writer) (flush : Flush) (seq : ℕ) :
    (w.tablesAfter flush).pointsLog.get? seq =
      if w.logBound ≤ seq then (w.writeLog w.openTxn).pointsLog.get? seq else none := by
  rw [Writer.tablesAfter, Writer.writeInterval_eq]
  obtain ⟨series, seriesKey, tails, htables⟩ := (w.tailsWritten_frame w.openTxn flush).tables
  rw [Writer.truncateLog_get?, htables]
  rfl

theorem writeLog_get? (h : WriterInv w l accepted) {seq : ℕ} {bytes : List UInt8}
    (hget : (w.writeLog w.openTxn).pointsLog.get? seq = some bytes) :
    w.db.pointsLog.get? seq = some bytes ∨
      seq = w.commitSeq ∧ bytes = encodeLogEntry w.core.points := by
  rw [Writer.writeLog] at hget
  split_ifs at hget
  · rw [h.txn.pointsLog] at hget
    exact .inl hget
  · simp only [Table.get?_insert, h.txn.pointsLog] at hget
    split_ifs at hget with hseq
    · exact .inr ⟨hseq.symm, (Option.some.inj hget).symm⟩
    · exact .inl hget

theorem writeLog_of_db (h : WriterInv w l accepted) {seq : ℕ} {bytes : List UInt8}
    (hget : w.db.pointsLog.get? seq = some bytes) :
    (w.writeLog w.openTxn).pointsLog.get? seq = some bytes := by
  have hlt := (h.file.log seq bytes hget).1
  rw [h.seq] at hlt
  rw [Writer.writeLog]
  split_ifs
  · rw [h.txn.pointsLog, hget]
  · simp only [Table.get?_insert, if_neg hlt.ne', h.txn.pointsLog, hget]

/-- An entry of the log holds points of the file or points of the interval. -/
theorem mem_entryPoints (h : WriterInv w l accepted) (hlen : w.core.points.length < 2 ^ 64)
    {seq : ℕ} {bytes : List UInt8} (hget : (w.writeLog w.openTxn).pointsLog.get? seq = some bytes) :
    (w.db.pointsLog.get? seq = some bytes ∧ seq < w.commitSeq ∨
        seq = w.commitSeq ∧ entryPoints (seq, bytes) = w.core.points) ∧
      decodeLogEntry bytes = .ok (entryPoints (seq, bytes)) := by
  obtain hdb | ⟨hseq, rfl⟩ := h.writeLog_get? hget
  · obtain ⟨hlt, points, hdecode, -⟩ := h.file.log seq bytes hdb
    rw [h.seq] at hlt
    exact ⟨.inl ⟨hdb, hlt⟩, by rw [entryPoints, hdecode]; rfl⟩
  · have hvalid : ∀ p ∈ w.core.points, p.Valid := fun p hp => (h.points p hp).2.2
    rw [Writer.entryPoints_encode hvalid hlen]
    exact ⟨.inr ⟨hseq, rfl⟩, decodeLogEntry_encode hvalid hlen⟩

/-- Every point of the log after a commit is of a series the commit records. -/
theorem logged_entry (h : WriterInv w l accepted) (hlen : w.core.points.length < 2 ^ 64)
    {seq : ℕ} {bytes : List UInt8} (hget : (w.writeLog w.openTxn).pointsLog.get? seq = some bytes)
    {p : LoggedPoint} (hp : p ∈ entryPoints (seq, bytes)) :
    ∃ key e, w.core.head.get? key = some e ∧ e.id = p.id := by
  obtain ⟨⟨hdb, -⟩ | ⟨-, heq⟩, hdecode⟩ := h.mem_entryPoints hlen hget
  · obtain ⟨-, points, hdecode', hpoints⟩ := h.file.log seq bytes hdb
    rw [hdecode] at hdecode'
    obtain ⟨record, hrecord⟩ := hpoints p (Except.ok.inj hdecode' ▸ hp)
    obtain ⟨e, he, hid, -⟩ := h.recorded p.id record hrecord
    exact ⟨_, e, he, hid⟩
  · obtain ⟨⟨key, hkey⟩, -⟩ := h.points p (heq ▸ hp)
    obtain ⟨e, he, hid⟩ := (h.head.index p.id key).mp hkey
    exact ⟨key, e, he, hid⟩

theorem logged_unrecorded (h : FileInv w.db l) {id : SeriesId} (hid : w.db.series.get? id = none) :
    loggedOf (logPoints w.db) id = [] := by
  rw [List.eq_nil_iff_forall_not_mem]
  intro q hq
  obtain ⟨seq, bytes, hget, p, hp, rfl, -⟩ := mem_loggedOf_logPoints.mp hq
  obtain ⟨-, points, hdecode, hpoints⟩ := h.log seq bytes hget
  rw [entryPoints, hdecode] at hp
  obtain ⟨record, hrecord⟩ := hpoints p hp
  rw [hid] at hrecord
  cases hrecord

theorem committed_unrecorded (h : WriterInv w l accepted) (hget : w.core.head.get? key = some e)
    (hid : w.db.series.get? e.id = none) : l.committed key = [] := by
  apply h.file.absent
  rw [Option.eq_none_iff_forall_not_mem]
  intro id hkey
  obtain ⟨record, hrecord, rfl⟩ := (h.file.key key id).mp hkey
  obtain ⟨e', hget', hid', -⟩ := h.recorded id record hrecord
  rw [hget] at hget'
  rw [Option.some.inj hget', hid', hrecord] at hid
  cases hid

/-- The points of a series in the log after a commit are points of it, in order. -/
theorem commit_logged (h : WriterInv w l accepted) (hlen : w.core.points.length < 2 ^ 64)
    (hget : w.core.head.get? key = some e) :
    (loggedOf (logPoints (w.tablesAfter flush)) e.id).Sublist (accepted key) := by
  obtain ⟨series, seriesKey, tails, htables⟩ := (w.tailsWritten_frame w.openTxn flush).tables
  have hlog : (logPoints (w.tablesAfter flush)).Sublist (logPoints (w.writeLog w.openTxn)) := by
    rw [Writer.tablesAfter, Writer.writeInterval_eq, htables]
    exact Writer.logPoints_truncateLog
  have hseq : ∀ seq ∈ w.openTxn.pointsLog.keys, seq < w.commitSeq := by
    intro seq hmem
    obtain ⟨bytes, hbytes⟩ := Table.mem_keys.mp hmem
    rw [h.txn.pointsLog] at hbytes
    exact h.seq ▸ (h.file.log seq bytes hbytes).1
  have hdb : logPoints w.openTxn = logPoints w.db := by rw [logPoints, h.txn.pointsLog, ← logPoints]
  have hold : (loggedOf (logPoints w.db) e.id).Sublist (l.committed key) := by
    cases hrecord : w.db.series.get? e.id with
    | none => rw [logged_unrecorded h.file hrecord]; exact List.nil_sublist _
    | some record =>
        obtain ⟨e', hget', hid, -⟩ := h.recorded e.id record hrecord
        rw [← h.head.key_unique hget' hget hid]
        exact (h.file.series e.id record hrecord).logged
  rw [h.buffered key e hget]
  refine (select_sublist (hlog.map _) _).trans ?_
  rw [Writer.logPoints_writeLog hseq (fun p hp => (h.points p hp).2.2) hlen, hdb]
  rw [← loggedOf, loggedOf_append]
  exact hold.append (List.Sublist.refl _)

/-- No point accepted is in neither a tail nor the log after a commit. -/
theorem commit_covered (h : WriterInv w l accepted) (hlen : w.core.points.length < 2 ^ 64)
    (hget : w.core.head.get? key = some e) {q : RawPoint} (hq : q ∈ accepted key) :
    q ∈ (l.commit w accepted flush).tailed e.id ∨
      q ∈ loggedOf (logPoints (w.tablesAfter flush)) e.id := by
  rw [h.buffered key e hget, List.mem_append] at hq
  rcases hq with hq | hq
  · obtain ⟨record, hrecord⟩ : ∃ record, w.db.series.get? e.id = some record := by
      rw [← Option.ne_none_iff_exists']
      intro hnone
      rw [h.committed_unrecorded hget hnone] at hq
      cases hq
    have hkey : record.key = key := by
      obtain ⟨e', hget', hid, -⟩ := h.recorded e.id record hrecord
      exact h.head.key_unique hget' hget hid
    have hsubset := h.tailed_subset hget hrecord hkey flush
    rcases (h.file.series e.id record hrecord).covered q (hkey ▸ hq) with htail | hlog
    · exact .inl (hsubset htail)
    · obtain ⟨seq, bytes, hbytes, p, hp, hid, rfl⟩ := mem_loggedOf_logPoints.mp hlog
      by_cases hbound : w.logBound ≤ seq
      · refine .inr (mem_loggedOf_logPoints.mpr ⟨seq, bytes, ?_, p, hp, hid, rfl⟩)
        rw [commit_log, if_pos hbound]
        exact h.writeLog_of_db hbytes
      · refine .inl (hsubset ?_)
        rw [← hid]
        exact h.flushed seq bytes hbytes p hp (.inl (not_le.mp hbound))
  · obtain ⟨p, hp, hid, rfl⟩ := mem_loggedOf.mp hq
    refine .inr (mem_loggedOf_logPoints.mpr ⟨w.commitSeq, encodeLogEntry w.core.points,
      ?_, p, ?_, hid, rfl⟩)
    · have hne : w.core.points.isEmpty = false := by
        rw [List.isEmpty_eq_false_iff]
        exact List.ne_nil_of_mem hp
      rw [commit_log, if_pos (h.bound.1.trans h.bound.2), Writer.writeLog, hne]
      exact Table.get?_insert_self _ _ _
    · rwa [Writer.entryPoints_encode (fun p hp => (h.points p hp).2.2) hlen]

/-- The series a commit leaves recorded are those of the head. -/
theorem commit_record (h : WriterInv w l accepted) {id : SeriesId} {record : SeriesRecord}
    (hrecord : (w.tablesAfter flush).series.get? id = some record) :
    ∃ e, w.core.head.get? record.key = some e ∧ e.id = id ∧ record.kind = e.state.kind := by
  rw [Writer.tablesAfter_eq] at hrecord
  cases hindex : w.core.index.get? id with
  | none =>
      obtain ⟨-, hseries, -⟩ := h.tables_before_tails
      have hsame := ((w.tailsWritten_frame w.openTxn flush).noId id hindex).2
      rw [hsame, hseries, (h.unindexed hindex).1] at hrecord
      cases hrecord
  | some key =>
      obtain ⟨e, hget, rfl⟩ := (h.head.index id key).mp hindex
      obtain ⟨record', hrecord', rfl, hkind⟩ := h.written_record flush hget
      obtain rfl := Option.some.inj (hrecord'.symm.trans hrecord)
      exact ⟨e, hget, rfl, hkind⟩

theorem commit_recorded (h : WriterInv w l accepted) (flush : Flush)
    (hget : w.core.head.get? key = some e) :
    ∃ record, (w.tablesAfter flush).series.get? e.id = some record ∧
      record.key = key ∧ record.kind = e.state.kind := by
  rw [Writer.tablesAfter_eq]
  exact h.written_record flush hget

/-- The tail of a series of the head after a commit. -/
theorem commit_tail (h : WriterInv w l accepted) (flush : Flush)
    (hget : w.core.head.get? key = some e) :
    ∃ state, (w.tablesAfter flush).tails.get? e.id = some state.toTail ∧ state.kind = e.state.kind ∧
      EntryInv state ((l.commit w accepted flush).stored e.id)
        ((l.commit w accepted flush).tailed e.id)
        ((l.commit w accepted flush).clocks e.id) ∧
      (l.commit w accepted flush).clocks e.id ≤ w.core.clock ∧
      ∃ rest, accepted key = (l.commit w accepted flush).tailed e.id ++ rest ∧
        ∀ p ∈ rest, (l.commit w accepted flush).clocks e.id ≤ p.ts := by
  rw [Writer.tablesAfter_eq]
  have hentry := h.head.entry key e hget
  obtain ⟨hwrites, -, htail, -, -⟩ | ⟨hwrites, -, htail, -, -⟩ := h.written flush hget
  · rw [h.commit_tailed_of_writes hget hwrites]
    simp only [Ledger.commit, if_pos hwrites]
    exact ⟨e.state, htail, rfl, hentry, le_rfl, [], by simp, by simp⟩
  · obtain ⟨⟨record, hrecord, hkey⟩, hsealed⟩ := h.unwritten hget hwrites
    have hstored := h.file.series e.id record hrecord
    obtain ⟨state, hbytes, hkind, hinv⟩ := hstored.tail
    obtain ⟨rest, hsplit, hrest⟩ := hstored.split
    obtain ⟨e', hget', -, hkind'⟩ := h.recorded e.id record hrecord
    rw [hkey, hget] at hget'
    obtain rfl := Option.some.inj hget'
    rw [commit_tailed_of_not hwrites]
    simp only [Ledger.commit, if_neg hwrites, hsealed, List.append_nil]
    refine ⟨state, htail.trans hbytes, hkind.trans hkind'.symm, hinv, hstored.clock.trans h.clock,
      rest ++ loggedOf w.core.points e.id, ?_, ?_⟩
    · rw [h.buffered key e hget, ← hkey, hsplit, List.append_assoc]
    · intro p hp
      rcases List.mem_append.mp hp with hp | hp
      · exact hrest p hp
      · obtain ⟨q, hq, -, rfl⟩ := mem_loggedOf.mp hp
        exact hstored.clock.trans (h.points q hq).2.1

theorem commit_seriesKey (h : WriterInv w l accepted) (flush : Flush) (key : SeriesKey) :
    (w.tablesAfter flush).seriesKey.get? key = (w.core.head.get? key).map HeadEntry.id := by
  rw [Writer.tablesAfter_eq]
  cases hget : w.core.head.get? key with
  | none =>
      obtain ⟨-, -, hbefore⟩ := h.tables_before_tails
      rw [(w.tailsWritten_frame w.openTxn flush).noKey key hget, hbefore, Option.map_none,
        Option.eq_none_iff_forall_not_mem]
      intro id hid
      obtain ⟨record, hrecord, rfl⟩ := (h.file.key key id).mp hid
      obtain ⟨e, he, -⟩ := h.recorded id record hrecord
      rw [hget] at he
      cases he
  | some e => exact h.written_seriesKey flush hget

/-- What a commit leaves for one series stands for everything accepted of it. -/
theorem commit_series (h : WriterInv w l accepted) (hlen : w.core.points.length < 2 ^ 64)
    {id : SeriesId} {record : SeriesRecord}
    (hrecord : (w.tablesAfter flush).series.get? id = some record) :
    SeriesStored (w.tablesAfter flush) (l.commit w accepted flush) id record := by
  obtain ⟨e, hget, rfl, hkind⟩ := h.commit_record hrecord
  have hentry := h.head.entry record.key e hget
  have hclock : (w.tablesAfter flush).meta.clock = w.core.clock := by rw [Writer.tablesAfter_eq]
  obtain ⟨state, htail, hstate, hinv, hle, rest, hsplit, hrest⟩ := h.commit_tail flush hget
  refine ⟨⟨state, htail, hstate.trans hkind.symm, hinv⟩, hclock ▸ hle, ⟨rest, hsplit, hrest⟩,
    hentry.series.points, ?_, ?_, h.commit_logged hlen hget, fun q hq =>
      h.commit_covered hlen hget hq⟩
  · rw [hkind]
    exact hentry.domain
  · rw [hclock]
    exact h.head.times record.key

/-- A commit leaves a file that stands for everything accepted before it. -/
theorem commit_file (h : WriterInv w l accepted)
    (hlen : w.core.points.length < 2 ^ 64) (flush : Flush) :
    FileInv (w.tablesAfter flush) (l.commit w accepted flush) := by
  have hmeta : (w.tablesAfter flush).meta = { w.openTxn.meta with
      clock := w.core.clock, nextId := w.core.nextId, commitSeq := w.commitSeq + 1 } := by
    rw [Writer.tablesAfter_eq]
  refine ⟨?_, ?_, fun id record hrecord => h.commit_series hlen hrecord, ?_, ?_, ?_, ?_, ?_⟩
  · intro key id
    rw [h.commit_seriesKey, Option.map_eq_some_iff]
    constructor
    · rintro ⟨e, hget, rfl⟩
      obtain ⟨record, hrecord, hkey, -⟩ := h.commit_recorded flush hget
      exact ⟨record, hrecord, hkey⟩
    · rintro ⟨record, hrecord, rfl⟩
      obtain ⟨e, hget, hid, -⟩ := h.commit_record hrecord
      exact ⟨e, hget, hid⟩
  · intro id bytes hbytes
    cases hindex : w.core.index.get? id with
    | none =>
        rw [Writer.tablesAfter_eq] at hbytes
        obtain ⟨htails, -, -⟩ := h.tables_before_tails
        have hsame := ((w.tailsWritten_frame w.openTxn flush).noId id hindex).1
        rw [hsame, htails, (h.unindexed hindex).2] at hbytes
        cases hbytes
    | some key =>
        obtain ⟨e, hget, rfl⟩ := (h.head.index id key).mp hindex
        obtain ⟨record, hrecord, -⟩ := h.commit_recorded flush hget
        exact ⟨record, hrecord⟩
  · intro key hkey
    rw [h.commit_seriesKey, Option.map_eq_none_iff] at hkey
    exact h.head.absent key hkey
  · intro seq bytes hbytes
    rw [commit_log] at hbytes
    split_ifs at hbytes
    obtain ⟨hseq, hdecode⟩ := h.mem_entryPoints hlen hbytes
    refine ⟨?_, _, hdecode, fun p hp => ?_⟩
    · rw [hmeta]
      rcases hseq with ⟨-, hlt⟩ | ⟨heq, -⟩
      · exact hlt.trans (Nat.lt_succ_self _)
      · exact heq ▸ Nat.lt_succ_self _
    · obtain ⟨key, e, hget, hid⟩ := h.logged_entry hlen hbytes hp
      obtain ⟨record, hrecord, -⟩ := h.commit_recorded flush hget
      exact ⟨record, hid ▸ hrecord⟩
  · intro id record hrecord
    obtain ⟨e, hget, rfl, -⟩ := h.commit_record hrecord
    rw [hmeta]
    exact h.head.idLt _ _ (h.head.index_of_get hget)
  · intro id hnone
    cases hindex : w.core.index.get? id with
    | none =>
        simp only [Ledger.commit, h.head.select_absent hindex, List.append_nil]
        exact h.file.fresh id (h.unindexed hindex).1
    | some key =>
        obtain ⟨e, hget, rfl⟩ := (h.head.index id key).mp hindex
        obtain ⟨record, hrecord, -⟩ := h.commit_recorded flush hget
        rw [hnone] at hrecord
        cases hrecord
  · rw [hmeta]
    exact h.head.nextId

end WriterInv

/-! ### The writer after a commit -/

namespace Writer

variable (w : Writer)

theorem afterCommit_core :
    w.afterCommit.core = (w.committing.sort (· ≤ ·)).foldl clearPending w.core := by
  simp only [afterCommit]
  split_ifs
  · rfl
  · rfl

theorem afterCommit_db : w.afterCommit.db = w.db := by
  simp only [afterCommit]
  split_ifs
  · rfl
  · rfl

theorem afterCommit_txn : w.afterCommit.txn = w.txn := by
  simp only [afterCommit]
  split_ifs
  · rfl
  · rfl

theorem afterCommit_commitSeq : w.afterCommit.commitSeq = w.commitSeq + 1 := by
  simp only [afterCommit]
  split_ifs
  · rfl
  · rfl

/-- The rotation in progress goes on, or is over and the next one starts. -/
theorem afterCommit_rotation :
    w.rotation.finished = true ∧ w.afterCommit.logBound = w.rotation.startedSeq ∧
        w.afterCommit.rotation = .start (w.commitSeq + 1) w.afterCommit.core.index.keys ∨
      w.afterCommit.logBound = w.logBound ∧ w.afterCommit.rotation = w.rotation := by
  simp only [afterCommit]
  split_ifs with hfinished
  · exact .inl ⟨hfinished, rfl, rfl⟩
  · exact .inr ⟨rfl, rfl⟩

theorem commit_eq (flush : Flush) :
    w.commit flush = { (w.writeInterval w.openTxn flush).1 with
      db := (w.writeInterval w.openTxn flush).2, txn := none }.afterCommit :=
  rfl

end Writer

/-- A series that leaves the rotation's queue is due. -/
theorem Rotation.mem_due {r : Rotation} {target : ℕ} {id : SeriesId}
    (hid : id ∈ r.queue.drop r.done)
    (hpassed : id ∉ (r.due target).2.queue.drop (r.due target).2.done) : id ∈ (r.due target).1 := by
  simp only [Rotation.due] at hpassed ⊢
  generalize min target r.queue.length = stop at hpassed ⊢
  rcases le_total r.done stop with hle | hle
  · rw [max_eq_right hle] at hpassed
    rw [min_eq_left hle]
    have hsplit := List.take_append_drop (stop - r.done) (r.queue.drop r.done)
    rw [List.drop_drop, Nat.add_sub_cancel' hle] at hsplit
    rw [← hsplit, List.mem_append] at hid
    rw [List.drop_take]
    exact hid.resolve_right hpassed
  · rw [max_eq_left hle] at hpassed
    exact absurd hid hpassed

namespace WriterInv

variable {w : Writer} {l : Ledger} {accepted : SeriesKey → List RawPoint} {key : SeriesKey}
  {e : HeadEntry} {flush : Flush}

/-- The rotation's promise holds for the tails a commit leaves. -/
theorem commit_flushed (h : WriterInv w l accepted) (hlen : w.core.points.length < 2 ^ 64)
    {seq : ℕ} {bytes : List UInt8} (hbytes : (w.tablesAfter flush).pointsLog.get? seq = some bytes)
    {p : LoggedPoint} (hp : p ∈ entryPoints (seq, bytes))
    (hseq : seq < w.logBound ∨ seq < (w.flushIds flush).2.startedSeq ∧
      p.id ∉ (w.flushIds flush).2.queue.drop (w.flushIds flush).2.done) :
    ⟨p.ts, p.value⟩ ∈ (l.commit w accepted flush).tailed p.id := by
  have hstarted : (w.flushIds flush).2.startedSeq = w.rotation.startedSeq := by cases flush <;> rfl
  rw [commit_log] at hbytes
  split_ifs at hbytes
  obtain ⟨hfrom, hdecode⟩ := h.mem_entryPoints hlen hbytes
  obtain ⟨hlow, hhigh⟩ := h.bound
  obtain ⟨hdb, -⟩ : w.db.pointsLog.get? seq = some bytes ∧ seq < w.commitSeq := by
    refine hfrom.resolve_right fun hnew => ?_
    rw [hstarted] at hseq
    omega
  obtain ⟨-, points, hdecode', hpoints⟩ := h.file.log seq bytes hdb
  rw [hdecode] at hdecode'
  obtain ⟨record, hrecord⟩ := hpoints p (Except.ok.inj hdecode' ▸ hp)
  obtain ⟨e, hget, hid, -⟩ := h.recorded p.id record hrecord
  rw [← hid] at hrecord ⊢
  have hsubset := h.tailed_subset hget hrecord rfl flush
  by_cases hold : seq < w.logBound ∨
      seq < w.rotation.startedSeq ∧ p.id ∉ w.rotation.queue.drop w.rotation.done
  · apply hsubset
    rw [hid]
    exact h.flushed seq bytes hdb p hp hold
  · -- The rotation passes this series in this very commit.
    have hmem : (⟨p.ts, p.value⟩ : RawPoint) ∈ accepted record.key := by
      apply (h.committed_prefix hget).subset
      apply (h.file.series e.id record hrecord).logged.subset
      exact mem_loggedOf_logPoints.mpr ⟨seq, bytes, hdb, p, hp, hid.symm, rfl⟩
    have hdue : p.id ∈ w.tailIds flush := by
      rw [not_or, not_and, not_not] at hold
      obtain ⟨hlt, hpassed⟩ := hseq.resolve_left hold.1
      have hqueued := hold.2 (hstarted ▸ hlt)
      rw [Writer.tailIds, Finset.mem_sort, Finset.mem_union, List.mem_toFinset]
      cases flush with
      | rotation target => exact .inr (Rotation.mem_due hqueued hpassed)
      | all => exact absurd hqueued hpassed
    by_cases hwrites : w.Writes flush e.id
    · rwa [h.commit_tailed_of_writes hget hwrites]
    · have hclean : e.dirty = false := by
        rw [h.writes_iff hget, not_and, not_or] at hwrites
        exact Bool.eq_false_iff.mpr (hwrites (hid ▸ hdue)).1
      rw [commit_tailed_of_not hwrites, (h.clean record.key e hget hclean).2]
      exact hmem

open Classical in
/-- A series' entry after a commit: clean if its tail was written, and its pending copies gone
if its chunks committed. -/
noncomputable def entryAfter (w : Writer) (flush : Flush) (e : HeadEntry) : HeadEntry :=
  { e with
    dirty := e.dirty && !decide (w.Writes flush e.id)
    pending := if e.id ∈ w.committing ∪ (w.core.sealed.map Prod.fst).toFinset
      then [] else e.pending }

/-- The head after a commit, entry by entry. -/
theorem commit_core (h : WriterInv w l accepted) (flush : Flush) :
    ∃ head, (w.commit flush).core = { Writer.drained w.core with head } ∧
      ∀ key, head.get? key = (w.core.head.get? key).map (entryAfter w flush) := by
  have hframe := w.tailsWritten_frame w.openTxn flush
  obtain ⟨head₁, hcore⟩ := hframe.core
  have hindex : ∀ id key, (w.tailsWritten w.openTxn flush).1.index.get? id = some key ↔
      ∃ e, (w.tailsWritten w.openTxn flush).1.head.get? key = some e ∧ e.id = id := by
    intro id key
    have hsame : (w.tailsWritten w.openTxn flush).1.index = w.core.index := by rw [hcore]; rfl
    rw [hsame, h.head.index id key, ← Option.map_eq_some_iff,
      ← Option.map_eq_some_iff, hframe.ids key]
    rfl
  obtain ⟨head, hclear, hhead⟩ := Writer.foldl_clearPending
    (w.tailsWritten w.openTxn flush).1 hindex
    (Finset.sort_nodup (w.committing ∪ (w.core.sealed.map Prod.fst).toFinset) (· ≤ ·))
  refine ⟨head, ?_, fun key => ?_⟩
  · have hcore' : (w.commit flush).core =
        ((w.committing ∪ (w.core.sealed.map Prod.fst).toFinset).sort
          (· ≤ ·)).foldl Writer.clearPending
          (w.tailsWritten w.openTxn flush).1 := by
      rw [Writer.commit_eq, Writer.afterCommit_core, Writer.writeInterval_eq]
    rw [hcore', hclear, hcore]
  · rw [hhead key]
    cases hget : w.core.head.get? key with
    | none =>
        have hnone := hframe.ids key
        rw [show (Writer.drained w.core).head.get? key = none from hget, Option.map_none,
          Option.map_eq_none_iff] at hnone
        rw [hnone]
        rfl
    | some e =>
        obtain ⟨hwrites, htails, -⟩ | ⟨hwrites, htails, -⟩ := h.written flush hget
        · rw [htails]
          simp only [entryAfter, hwrites, Finset.mem_sort, Option.map_some, decide_true,
            Bool.not_true, Bool.and_false, Option.some.injEq]
          split_ifs
          · rfl
          · rfl
        · rw [htails]
          simp only [entryAfter, hwrites, Finset.mem_sort, Option.map_some, decide_false,
            Bool.not_false, Bool.and_true, Option.some.injEq]
          split_ifs
          · rfl
          · rfl

theorem commit_db (w : Writer) (flush : Flush) : (w.commit flush).db = w.tablesAfter flush := by
  rw [Writer.commit_eq, Writer.afterCommit_db, Writer.tablesAfter]

theorem commit_rotation (w : Writer) (flush : Flush) :
    (w.flushIds flush).2.finished = true ∧
        (w.commit flush).logBound = (w.flushIds flush).2.startedSeq ∧
        (w.commit flush).rotation = .start (w.commitSeq + 1) (w.commit flush).core.index.keys ∨
      (w.commit flush).logBound = w.logBound ∧
      (w.commit flush).rotation = (w.flushIds flush).2 := by
  have hafter := Writer.afterCommit_rotation { (w.writeInterval w.openTxn flush).1 with
    db := (w.writeInterval w.openTxn flush).2, txn := none }
  rw [← Writer.commit_eq, Writer.writeInterval_eq] at hafter
  exact hafter

/-- A group commit keeps the invariant: everything accepted is committed. -/
theorem commit (h : WriterInv w l accepted) (hlen : w.core.points.length < 2 ^ 64) (flush : Flush) :
    WriterInv (w.commit flush) (l.commit w accepted flush) accepted := by
  obtain ⟨head, hcore, hhead⟩ := h.commit_core flush
  have hdb := commit_db w flush
  have htxn : (w.commit flush).openTxn = w.tablesAfter flush := by
    rw [Writer.openTxn, hdb, Writer.commit_eq, Writer.afterCommit_txn]
    rfl
  have hmeta : (w.tablesAfter flush).meta = { w.openTxn.meta with
      clock := w.core.clock, nextId := w.core.nextId, commitSeq := w.commitSeq + 1 } := by
    rw [Writer.tablesAfter_eq]
  have hseq : (w.commit flush).commitSeq = w.commitSeq + 1 := by
    rw [Writer.commit_eq, Writer.afterCommit_commitSeq, Writer.writeInterval_eq]
  have hback : ∀ key e', (w.commit flush).core.head.get? key = some e' →
      ∃ e, w.core.head.get? key = some e ∧ e' = entryAfter w flush e := by
    intro key e' hget
    rw [hcore, hhead key, Option.map_eq_some_iff] at hget
    obtain ⟨e, hget, heq⟩ := hget
    exact ⟨e, hget, heq.symm⟩
  have hrotation : (w.flushIds flush).2.startedSeq = w.rotation.startedSeq := by cases flush <;> rfl
  obtain ⟨hlow, hhigh⟩ := h.bound
  refine ⟨?_, hdb ▸ h.commit_file hlen flush, ?_, ?_, ?_, ?_, ?_, ?_, ?_, ?_, ?_, ?_, ?_, ?_⟩
  · rw [hcore]
    refine (h.head.commit ∅).congr_head fun key => ?_
    rw [hhead key, Option.map_map]
    rfl
  · rw [htxn, hdb]
    exact ⟨rfl, rfl, rfl, rfl, rfl⟩
  · intro id record hrecord
    rw [hdb] at hrecord
    obtain ⟨e, hget, hid, hkind⟩ := h.commit_record hrecord
    refine ⟨entryAfter w flush e, ?_, hid, hkind.symm⟩
    rw [hcore, hhead record.key, hget]
    rfl
  · intro key e' hget hnone
    obtain ⟨e, he, rfl⟩ := hback key e' hget
    obtain ⟨record, hrecord, -⟩ := h.commit_recorded flush he
    rw [hdb] at hnone
    exact absurd (hrecord.symm.trans hnone) (Option.some_ne_none _)
  · intro id hid
    rw [hcore] at hid
    exact absurd hid (Finset.notMem_empty id)
  · intro key e' hget hclean
    obtain ⟨e, he, rfl⟩ := hback key e' hget
    obtain ⟨record, hrecord, -⟩ := h.commit_recorded flush he
    refine ⟨?_, ?_⟩
    · rw [hdb]
      exact hrecord ▸ Option.some_ne_none _
    · change (l.commit w accepted flush).tailed e.id = accepted key
      by_cases hwrites : w.Writes flush e.id
      · exact h.commit_tailed_of_writes he hwrites
      · have hdirty : e.dirty = false := by simpa [entryAfter, hwrites] using hclean
        exact (commit_tailed_of_not hwrites).trans (h.clean key e he hdirty).2
  · intro key e' hget
    rw [hcore]
    exact (List.append_nil _).symm
  · intro p hp
    rw [hcore] at hp
    exact absurd hp List.not_mem_nil
  · rw [hdb, hmeta, hcore]
    exact le_rfl
  · rw [hdb, hmeta, hcore]
    exact le_rfl
  · rw [hdb, hmeta, hseq]
  · rw [hseq]
    obtain ⟨-, hbound, hrot⟩ | ⟨hbound, hrot⟩ := commit_rotation w flush
    · rw [hbound, hrot, hrotation]
      exact ⟨hhigh.trans (Nat.le_succ _), le_rfl⟩
    · rw [hbound, hrot, hrotation]
      exact ⟨hlow, hhigh.trans (Nat.le_succ _)⟩
  · intro seq bytes hbytes p hp hpassed
    rw [hdb] at hbytes
    apply h.commit_flushed hlen hbytes hp
    obtain ⟨hfinished, hbound, hrot⟩ | ⟨hbound, hrot⟩ := commit_rotation w flush
    · rw [hbound, hrot] at hpassed
      rcases hpassed with hlt | ⟨-, hqueue⟩
      · refine .inr ⟨hlt, ?_⟩
        rw [List.drop_eq_nil_of_le (of_decide_eq_true hfinished)]
        exact List.not_mem_nil
      · -- The next rotation queues every series of the head, so it has passed none yet.
        rw [commit_log] at hbytes
        split_ifs at hbytes
        obtain ⟨key, e, hget, hid⟩ := h.logged_entry hlen hbytes hp
        refine absurd ?_ hqueue
        rw [Rotation.start, List.drop_zero, List.mem_mergeSort, Table.mem_keys, hcore]
        exact ⟨key, hid ▸ h.head.index_of_get hget⟩
    · rwa [hbound, hrot] at hpassed

end WriterInv

end MonitoringAgent.HubStore

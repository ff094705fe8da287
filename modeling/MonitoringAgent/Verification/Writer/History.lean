import MonitoringAgent.Verification.Writer.Steps

/-! # Histories of the writer

The writer taken through any sequence of appends, sweeps, group commits and crashes, with the
points it accepted and those it committed on record. -/

namespace MonitoringAgent.HubStore

open MonitoringAgent.Library

/-- A step of the writer; `reopen` is a crash and the open after it. -/
inductive WriterOp where
  | append (system : List UInt8) (generation : ℕ) (points : List IncomingPoint) (systemNow : ℕ)
  | sweep (systemNow : ℕ)
  | commit (flush : Flush)
  | reopen (systemNow : ℕ)

/-- The writer, the points accepted and not lost to a crash, and those of committed intervals. -/
structure WriterHistory where
  writer : Writer
  accepted : List (SeriesKey × RawPoint)
  committed : List (SeriesKey × RawPoint)

namespace WriterHistory

/-- The store opened on a new file. -/
def new (systemNow : ℕ) : Option WriterHistory := do
  let w ← (Writer.open (.new systemNow) systemNow).toOption
  some ⟨w, [], []⟩

def step (h : WriterHistory) : WriterOp → Option WriterHistory
  | .append system generation points systemNow => do
      let («at», core) := h.writer.core.hubNow systemNow
      let (answers, _) ← (core.appendEach h.writer.openTxn system generation «at» points).toOption
      let (_, w) ← (h.writer.append system generation points systemNow).toOption
      some { h with
        writer := w
        accepted := h.accepted ++ acceptedOf system generation «at» (points.zip answers) }
  | .sweep systemNow => some { h with writer := h.writer.sweep systemNow }
  | .commit flush => some { h with writer := h.writer.commit flush, committed := h.accepted }
  | .reopen systemNow => do
      let w ← (Writer.open h.writer.db systemNow).toOption
      some { h with writer := w, accepted := h.committed }

def run (h : WriterHistory) : List WriterOp → Option WriterHistory
  | [] => some h
  | op :: ops => do
      let h ← h.step op
      h.run ops

end WriterHistory

namespace WriterOp

/-- The system clock's seconds fit in an `i64`. -/
def InTime : WriterOp → Prop
  | .append _ _ _ systemNow | .sweep systemNow | .reopen systemNow => systemNow < 2 ^ 63
  | .commit _ => True

/-- The points appended since the last commit, after one more step. -/
def bufferedAfter (buffered : ℕ) : WriterOp → ℕ
  | .append _ _ points _ => buffered + points.length
  | .sweep _ => buffered
  | .commit _ | .reopen _ => 0

/-- Each step reads a system time in range, and no buffer ever holds 2⁶⁴ points. -/
def Admissible : ℕ → List WriterOp → Prop
  | _, [] => True
  | buffered, op :: ops =>
      op.InTime ∧ op.bufferedAfter buffered < 2 ^ 64 ∧ Admissible (op.bufferedAfter buffered) ops

end WriterOp

/-! ### The chunks of the file -/

/-- The chunks of a series and tier in the file, by span and seq. -/
def storedChunks (t : Tables) (id : SeriesId) (tier : Tier) : List Sealed :=
  t.chunks.entries.filterMap fun (key, bytes) =>
    if key.id = id ∧ key.tier = tier then some ⟨tier, key.span, key.seq, bytes⟩ else none

/-- The file holds the chunks the ledger says, and no others. -/
def ChunksInv (t : Tables) (stored : SeriesId → List Sealed) : Prop :=
  ∀ id chunk, t.chunks.get? (chunk.chunkKey id) = some chunk.bytes ↔ chunk ∈ stored id

theorem mem_storedChunks {t : Tables} {id : SeriesId} {tier : Tier} {chunk : Sealed} :
    chunk ∈ storedChunks t id tier ↔
      chunk.tier = tier ∧ t.chunks.get? (chunk.chunkKey id) = some chunk.bytes := by
  rw [Table.get?_eq_some_iff, storedChunks, List.mem_filterMap]
  constructor
  · rintro ⟨⟨key, bytes⟩, hmem, heq⟩
    obtain ⟨⟨rfl, rfl⟩, ⟨⟩⟩ := Option.ite_none_right_eq_some.mp heq
    exact ⟨rfl, hmem⟩
  · rintro ⟨rfl, hmem⟩
    exact ⟨_, hmem, if_pos ⟨rfl, rfl⟩⟩

/-- Chunks in the order of their keys within one series and tier. -/
def Sealed.Before (a b : Sealed) : Prop := toLex (a.span, a.seq) < toLex (b.span, b.seq)

instance : IsStrictOrder Sealed Sealed.Before where
  irrefl _ h := lt_irrefl _ h
  trans _ _ _ hab hbc := lt_trans hab hbc

theorem storedChunks_increasing (t : Tables) (id : SeriesId) (tier : Tier) :
    (storedChunks t id tier).Pairwise Sealed.Before := by
  rw [storedChunks, List.pairwise_filterMap]
  refine t.chunks.sorted.imp ?_
  rintro ⟨⟨tier₁, span₁, id₁, seq₁⟩, bytes₁⟩ ⟨⟨tier₂, span₂, id₂, seq₂⟩, bytes₂⟩ hlt a ha b hb
  obtain ⟨⟨rfl, rfl⟩, ⟨⟩⟩ := Option.ite_none_right_eq_some.mp ha
  obtain ⟨⟨rfl, rfl⟩, ⟨⟩⟩ := Option.ite_none_right_eq_some.mp hb
  change ChunkKey.fields _ < ChunkKey.fields _ at hlt
  simpa [ChunkKey.fields, Prod.Lex.toLex_lt_toLex, Sealed.Before] using hlt

/-- The file lists a series' chunks of a tier in the order they were sealed. -/
theorem ChunksInv.storedChunks_eq {t : Tables} {stored : SeriesId → List Sealed}
    (h : ChunksInv t stored) {kind : ValueKind} {s : SeriesState} {more : List Sealed}
    {accepted : List RawPoint} {clock : ℕ} {id : SeriesId}
    (hs : SeriesInv kind s (stored id ++ more) accepted clock) (tier : Tier) :
    storedChunks t id tier = ofTier (stored id) tier := by
  have hinc := hs.keys_increasing tier
  rw [ofTier_append] at hinc
  refine eq_of_increasing (storedChunks_increasing t id tier) (List.pairwise_append.mp hinc).1 ?_
  intro chunk
  rw [mem_storedChunks, h id chunk, ofTier, List.mem_filter, and_comm, decide_eq_true_eq]

/-- No two chunks of a series, committed or not, have the same key. -/
theorem WriterInv.keys_nodup {w : Writer} {l : Ledger} {accepted : SeriesKey → List RawPoint}
    (h : WriterInv w l accepted) (id : SeriesId) :
    ((l.stored id ++ select w.core.sealed id).map Sealed.key).Nodup := by
  cases hid : w.core.index.get? id with
  | none =>
      rw [h.file.fresh id (h.unindexed hid).1, h.head.select_absent hid]
      exact List.nodup_nil
  | some key =>
      obtain ⟨e, hget, rfl⟩ := (h.head.index id key).mp hid
      exact (h.head.entry key e hget).series.keys_nodup

theorem Writer.tablesAfter_chunks (w : Writer) (flush : Flush) :
    (w.tablesAfter flush).chunks = (writeChunks w.openTxn w.core.sealed).chunks := by
  obtain ⟨series, seriesKey, tails, htables⟩ := (w.tailsWritten_frame w.openTxn flush).tables
  rw [tablesAfter_eq, htables, writeLog]
  split_ifs
  · rfl
  · rfl

/-- What `writeChunks` puts under a key of a series whose chunks have distinct keys. -/
theorem writeChunks_get? {t : Tables} {sealed : List (SeriesId × Sealed)} {id : SeriesId}
    (hnodup : ((select sealed id).map Sealed.key).Nodup) (chunk : Sealed) :
    (Writer.writeChunks t sealed).chunks.get? (chunk.chunkKey id) = some chunk.bytes ↔
      chunk ∈ select sealed id ∨
        (∀ other ∈ select sealed id, other.key ≠ chunk.key) ∧
          t.chunks.get? (chunk.chunkKey id) = some chunk.bytes := by
  have hmem : ∀ bytes, (chunk.chunkKey id, bytes) ∈
      sealed.map (fun e : SeriesId × Sealed => (e.2.chunkKey e.1, e.2.bytes)) ↔
      { chunk with bytes } ∈ select sealed id := by
    intro bytes
    rw [mem_select, List.mem_map]
    constructor
    · rintro ⟨⟨id', tier, span, seq, bytes'⟩, hmem, heq⟩
      obtain ⟨⟨rfl, rfl, rfl, rfl⟩, rfl⟩ := by
        simpa [Sealed.chunkKey, Prod.ext_iff] using heq
      exact hmem
    · intro hmem
      exact ⟨_, hmem, rfl⟩
  have hkey : ∀ other ∈ select sealed id, other.key = chunk.key →
      { chunk with bytes := other.bytes } ∈ select sealed id := by
    rintro ⟨tier, span, seq, bytes⟩ hother heq
    obtain ⟨rfl, rfl, rfl⟩ := by simpa [Sealed.key] using heq
    exact hother
  have hagree : ∀ v v',
      (chunk.chunkKey id, v) ∈ sealed.map
        (fun e : SeriesId × Sealed => (e.2.chunkKey e.1, e.2.bytes)) →
      (chunk.chunkKey id, v') ∈
        sealed.map (fun e : SeriesId × Sealed => (e.2.chunkKey e.1, e.2.bytes)) →
      v = v' := by
    intro v v' hv hv'
    have heq := List.inj_on_of_nodup_map hnodup ((hmem v).mp hv) ((hmem v').mp hv') rfl
    exact congrArg Sealed.bytes heq
  have hfold := Table.get?_foldl_insert hagree t.chunks chunk.bytes
  rw [List.foldl_map, hmem] at hfold
  rw [Writer.writeChunks]
  refine hfold.trans (or_congr_right (and_congr_left fun _ => ?_))
  constructor
  · intro hnone other hother heq
    exact hnone other.bytes ((hmem _).mpr (hkey other hother heq))
  · intro hnone v hv
    exact hnone _ ((hmem v).mp hv) rfl

/-- A commit moves the sealed chunks into the file. -/
theorem ChunksInv.commit {w : Writer} {l : Ledger} {accepted : SeriesKey → List RawPoint}
    (h : ChunksInv w.openTxn l.stored) (hw : WriterInv w l accepted) (flush : Flush) :
    ChunksInv (w.tablesAfter flush) (l.commit w accepted flush).stored := by
  intro id chunk
  have hnodup := hw.keys_nodup id
  rw [List.map_append, List.nodup_append] at hnodup
  rw [w.tablesAfter_chunks flush, writeChunks_get? hnodup.2.1, h id chunk, Ledger.commit,
    List.mem_append, or_comm]
  refine or_congr_left (and_iff_right_of_imp fun hmem other hother heq => ?_)
  exact hnodup.2.2 _ (List.mem_map_of_mem hmem) _ (List.mem_map_of_mem hother) heq.symm

/-! ### Every history keeps the invariant -/

/-- A history's writer against its record; at most `buffered` points wait for a commit. -/
structure HistoryInv (h : WriterHistory) (l : Ledger) (buffered : ℕ) : Prop where
  writer : WriterInv h.writer l (select h.accepted)
  committed : l.committed = select h.committed
  chunks : ChunksInv h.writer.db l.stored
  txn : h.writer.openTxn = h.writer.db
  clock : h.writer.core.clock < 2 ^ 63
  points : h.writer.core.points.length ≤ buffered

namespace HistoryInv

variable {h : WriterHistory} {l : Ledger} {buffered : ℕ}

theorem append (hi : HistoryInv h l buffered) (system : List UInt8) (generation : ℕ)
    (points : List IncomingPoint) {systemNow : ℕ} (htime : systemNow < 2 ^ 63) :
    ∃ h', h.step (.append system generation points systemNow) = some h' ∧
      HistoryInv h' l (buffered + points.length) := by
  have hclock : max h.writer.core.clock systemNow < 2 ^ 63 := max_lt hi.clock htime
  obtain ⟨answers, c, heach, happend, hc, hcclock, hlen⟩ :=
    hi.writer.append system generation points systemNow (by omega)
  refine ⟨⟨{ h.writer with core := c, txn := some h.writer.openTxn }, _, _⟩, ?_,
    ⟨hc, hi.committed, hi.chunks, hi.txn, ?_, ?_⟩⟩
  · simp only [WriterHistory.step, Core.hubNow] at heach ⊢
    rw [heach, happend]
    rfl
  · exact lt_of_eq_of_lt hcclock hclock
  · exact hlen.trans (Nat.add_le_add_right hi.points _)

theorem sweep (hi : HistoryInv h l buffered) {systemNow : ℕ} (htime : systemNow < 2 ^ 63) :
    HistoryInv { h with writer := h.writer.sweep systemNow } l buffered := by
  obtain ⟨hclock, hpoints, -⟩ :=
    Core.sweep_frame (max h.writer.core.clock systemNow) (h.writer.core.hubNow systemNow).2
  refine ⟨hi.writer.sweep systemNow, hi.committed, hi.chunks, hi.txn, ?_, ?_⟩
  · exact lt_of_eq_of_lt hclock (max_lt hi.clock htime)
  · exact (congrArg List.length hpoints).trans_le hi.points

theorem commit (hi : HistoryInv h l buffered) (hfits : buffered < 2 ^ 64) (flush : Flush) :
    HistoryInv ⟨h.writer.commit flush, h.accepted, h.accepted⟩
      (l.commit h.writer (select h.accepted) flush) 0 := by
  obtain ⟨head, hcore, -⟩ := hi.writer.commit_core flush
  have hdb := WriterInv.commit_db h.writer flush
  refine ⟨hi.writer.commit (lt_of_le_of_lt hi.points hfits) flush, rfl, ?_, ?_, ?_, ?_⟩
  · rw [hdb]
    exact ChunksInv.commit (hi.txn ▸ hi.chunks) hi.writer flush
  · simp only [Writer.openTxn]
    rw [Writer.commit_eq, Writer.afterCommit_txn]
    rfl
  · simp only [hcore]
    exact hi.clock
  · simp only [hcore]
    exact le_rfl

theorem reopen (hi : HistoryInv h l buffered) {systemNow : ℕ} (htime : systemNow < 2 ^ 63) :
    ∃ w, Writer.open h.writer.db systemNow = .ok w ∧
      HistoryInv ⟨w, h.committed, h.committed⟩ l 0 := by
  obtain ⟨w, hopen, hw, hdb, htxn, hclock, hpoints⟩ := hi.writer.file.open systemNow
  refine ⟨w, hopen, ⟨hi.committed ▸ hw, hi.committed, hdb ▸ hi.chunks, ?_, ?_, ?_⟩⟩
  · simp [Writer.openTxn, htxn]
  · rw [hclock]
    exact max_lt (lt_of_le_of_lt hi.writer.clock hi.clock) htime
  · simp [hpoints]

theorem step (hi : HistoryInv h l buffered) {op : WriterOp} (htime : op.InTime)
    (hfits : buffered < 2 ^ 64) :
    ∃ h' l', h.step op = some h' ∧ HistoryInv h' l' (op.bufferedAfter buffered) := by
  cases op with
  | append system generation points systemNow =>
      obtain ⟨h', hstep, hi'⟩ := hi.append system generation points htime
      exact ⟨h', l, hstep, hi'⟩
  | sweep systemNow => exact ⟨_, l, rfl, hi.sweep htime⟩
  | commit flush => exact ⟨_, _, rfl, hi.commit hfits flush⟩
  | reopen systemNow =>
      obtain ⟨w, hopen, hi'⟩ := hi.reopen htime
      exact ⟨_, l, by simp [WriterHistory.step, hopen, Except.toOption], hi'⟩

theorem run (hi : HistoryInv h l buffered) (hfits : buffered < 2 ^ 64) {ops : List WriterOp}
    (hops : WriterOp.Admissible buffered ops) :
    ∃ h' l' buffered', h.run ops = some h' ∧ HistoryInv h' l' buffered' ∧ buffered' < 2 ^ 64 := by
  induction ops generalizing h l buffered with
  | nil => exact ⟨h, l, buffered, rfl, hi, hfits⟩
  | cons op ops ih =>
      obtain ⟨htime, hfits', hops⟩ := hops
      obtain ⟨h', l', hstep, hi'⟩ := hi.step htime hfits
      obtain ⟨h'', l'', buffered'', hrun, hi''⟩ := ih hi' hfits' hops
      exact ⟨h'', l'', buffered'', by simp [WriterHistory.run, hstep, hrun], hi''⟩

end HistoryInv

/-- A new file holds nothing. -/
theorem FileInv.new (systemNow : ℕ) :
    FileInv (.new systemNow) ⟨fun _ => [], fun _ => [], fun _ => 0, fun _ => []⟩ where
  key key id := by simp [Tables.new]
  tails id bytes h := by simp [Tables.new] at h
  series id record h := by simp [Tables.new] at h
  absent key h := rfl
  log seq bytes h := by simp [Tables.new] at h
  idLt id record h := by simp [Tables.new] at h
  fresh id h := rfl
  nextId := by simp [Tables.new]

theorem WriterHistory.exists_run {systemNow : ℕ} (hnow : systemNow < 2 ^ 63) {ops : List WriterOp}
    (hops : WriterOp.Admissible 0 ops) :
    ∃ h l buffered, (WriterHistory.new systemNow).bind (·.run ops) = some h ∧
      HistoryInv h l buffered ∧ buffered < 2 ^ 64 := by
  obtain ⟨w, hopen, hw, hdb, htxn, hclock, hpoints⟩ := (FileInv.new systemNow).open systemNow
  have hstart : HistoryInv ⟨w, [], []⟩ ⟨fun _ => [], fun _ => [], fun _ => 0, fun _ => []⟩ 0 := by
    refine ⟨hw, rfl, ?_, by simp [Writer.openTxn, htxn], ?_, by simp [hpoints]⟩
    · intro id chunk
      simp [hdb, Tables.new]
    · simpa [hclock, Tables.new] using hnow
  obtain ⟨h, l, buffered, hrun, hi⟩ := hstart.run (by norm_num) hops
  exact ⟨h, l, buffered, by simp [WriterHistory.new, hopen, Except.toOption, hrun], hi⟩

/-! ### Recovery restores the committed points -/

/-- The point is in a committed chunk of its series or in its series' tail. -/
def InTailOrChunks (t : Tables) (id : SeriesId) (p : RawPoint) : Prop :=
  ∃ bytes tail points, t.tails.get? id = some bytes ∧ SeriesState.fromTail bytes = .ok tail ∧
    decodeSealed (decodeRaw · tail.kind.encoding) (storedChunks t id .raw) = .ok points ∧
    p ∈ points ++ tail.unsealedPoints

/-- A series of the recovered head `c`: its chunks in the file, then those the replay sealed,
then what is unsealed, are its committed points and their rollups. -/
structure Restored (t : Tables) (c : Core) (e : HeadEntry) (committed : List RawPoint) : Prop where
  raw : ∃ points, decodeSealed (decodeRaw · e.state.kind.encoding)
      (storedChunks t e.id .raw ++ ofTier (select c.sealed e.id) .raw) = .ok points ∧
    points ++ e.state.unsealedPoints = committed
  rollup : ∀ tier : RollupTier, ∃ buckets, decodeSealed (decodeRollup · tier)
      (storedChunks t e.id tier.tier ++ ofTier (select c.sealed e.id) tier.tier) = .ok buckets ∧
    buckets ++ e.state.bucketsInHead tier = rollupOf tier committed
  increasing : committed.Pairwise fun p q => p.ts < q.ts

theorem EntryInv.restored {t : Tables} {stored : SeriesId → List Sealed}
    (hchunks : ChunksInv t stored) {c : Core} {e : HeadEntry} {committed : List RawPoint}
    {clock : ℕ} (h : EntryInv e.state (stored e.id ++ select c.sealed e.id) committed clock) :
    Restored t c e committed where
  raw := by
    rw [hchunks.storedChunks_eq h.series, ← ofTier_append]
    exact h.series.decode_raw
  rollup tier := by
    rw [hchunks.storedChunks_eq h.series, ← ofTier_append]
    exact h.series.decode_rollup tier
  increasing := h.series.points.increasing

/-- The points a tail was written after are in it or in chunks committed. -/
theorem FileInv.inTailOrChunks {t : Tables} {l : Ledger} (h : FileInv t l)
    (hchunks : ChunksInv t l.stored) {id : SeriesId} {record : SeriesRecord}
    (hrecord : t.series.get? id = some record) {p : RawPoint} (hp : p ∈ l.tailed id) :
    InTailOrChunks t id p := by
  obtain ⟨state, htail, -, hentry⟩ := (h.series id record hrecord).tail
  have hseries := hentry.series
  rw [← List.append_nil (l.stored id)] at hseries
  obtain ⟨points, hdecode, heq⟩ := hentry.series.decode_raw
  refine ⟨state.toTail, state, points, htail, hentry.series.fromTail_toTail hentry.domain, ?_, ?_⟩
  · rw [hchunks.storedChunks_eq hseries]
    exact hdecode
  · rw [heq]
    exact hp

/-- A log entry is dropped only once each of its points is in a tail or a chunk. -/
theorem HistoryInv.truncated {h : WriterHistory} {l : Ledger} {buffered : ℕ}
    (hi : HistoryInv h l buffered) (hfits : buffered < 2 ^ 64) {flush : Flush} {seq : ℕ}
    {bytes : List UInt8} (hbytes : h.writer.db.pointsLog.get? seq = some bytes)
    (hgone : (h.writer.commit flush).db.pointsLog.get? seq = none) {p : LoggedPoint}
    (hp : p ∈ entryPoints (seq, bytes)) :
    InTailOrChunks (h.writer.commit flush).db p.id ⟨p.ts, p.value⟩ := by
  have hnext := hi.commit hfits flush
  have hlt : seq < h.writer.logBound := by
    by_contra hge
    rw [WriterInv.commit_db, WriterInv.commit_log, if_pos (not_lt.mp hge),
      hi.writer.writeLog_of_db hbytes] at hgone
    cases hgone
  have hmem := hi.writer.flushed seq bytes hbytes p hp (.inl hlt)
  obtain ⟨-, points, hdecode, hpoints⟩ := hi.writer.file.log seq bytes hbytes
  rw [entryPoints, hdecode] at hp
  obtain ⟨record, hrecord⟩ := hpoints p hp
  obtain ⟨e, hget, hid, -⟩ := hi.writer.recorded p.id record hrecord
  rw [← hid] at hrecord hmem ⊢
  have hmem' := hi.writer.tailed_subset hget hrecord rfl flush hmem
  obtain ⟨record', hrecord', -⟩ := hi.writer.commit_recorded flush hget
  rw [← WriterInv.commit_db] at hrecord'
  exact hnext.writer.file.inTailOrChunks hnext.chunks hrecord' hmem'

/-- Whatever the appends, sweeps, commits and crashes before it, recovery restores exactly the
committed points of every committed series, and no log entry is dropped while it holds a point
that is nowhere else. -/
theorem WriterHistory.recovery_exact (systemNow : ℕ) (hnow : systemNow < 2 ^ 63)
    (ops : List WriterOp) (hops : WriterOp.Admissible 0 ops) :
    ∃ h, (WriterHistory.new systemNow).bind (·.run ops) = some h ∧
      (∃ c, recover h.writer.db = .ok c ∧
        (∀ key, h.writer.db.seriesKey.get? key = none → select h.committed key = []) ∧
        ∀ key id, h.writer.db.seriesKey.get? key = some id → ∃ e, c.head.get? key = some e ∧
          e.id = id ∧ Restored h.writer.db c e (select h.committed key)) ∧
      ∀ flush seq bytes, h.writer.db.pointsLog.get? seq = some bytes →
        (h.writer.commit flush).db.pointsLog.get? seq = none →
        ∀ p ∈ entryPoints (seq, bytes),
          InTailOrChunks (h.writer.commit flush).db p.id ⟨p.ts, p.value⟩ := by
  obtain ⟨h, l, buffered, hrun, hi, hfits⟩ := WriterHistory.exists_run hnow hops
  refine ⟨h, hrun, ?_, fun flush seq bytes hbytes hgone p hp => hi.truncated hfits hbytes hgone hp⟩
  obtain ⟨c, hrecover, hc, hindex⟩ := hi.writer.file.recover
  refine ⟨c, hrecover, ?_, ?_⟩
  · intro key hkey
    rw [← hi.committed]
    exact hi.writer.file.absent key hkey
  · intro key id hkey
    obtain ⟨record, hrecord, rfl⟩ := (hi.writer.file.key key id).mp hkey
    obtain ⟨e, hget, hid⟩ := (hc.head.index id record.key).mp (hindex id record hrecord)
    refine ⟨e, hget, hid, ?_⟩
    rw [← hi.committed]
    exact (hc.head.entry record.key e hget).restored hi.chunks

/-- A point, a commit that flushes nothing, another point and a crash before its commit. -/
def lostInterval : List WriterOp :=
  [.append [1] 0 [⟨[2], .count, 7⟩] 10, .commit (.rotation 0), .append [1] 0 [⟨[2], .count, 9⟩] 20,
    .reopen 30]

theorem lostInterval_admissible : WriterOp.Admissible 0 lostInterval := by
  simp [WriterOp.Admissible, lostInterval, WriterOp.InTime, WriterOp.bufferedAfter]

theorem WriterHistory.recovery_exact_lostInterval :
    ∃ h, (WriterHistory.new 5).bind (·.run lostInterval) = some h ∧
      ∃ c, recover h.writer.db = .ok c := by
  obtain ⟨h, hrun, ⟨c, hrecover, -⟩, -⟩ :=
    WriterHistory.recovery_exact 5 (by norm_num) lostInterval lostInterval_admissible
  exact ⟨h, hrun, c, hrecover⟩

end MonitoringAgent.HubStore

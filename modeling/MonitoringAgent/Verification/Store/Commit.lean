import MonitoringAgent.Verification.Store.Invariant

/-! # The store's invariant across a commit

A commit writes the interval, takes one step of the retention pass, lands the rows of the files
handed off and hands over the spans that are due. -/

namespace MonitoringAgent.HubStore

open MonitoringAgent.Library

/-! ### A commit, taken apart -/

/-- After a commit the writer's memory does not depend on what else the commit wrote. -/
theorem Writer.afterCommit_withDb (w : Writer) (t : Tables) :
    Writer.afterCommit { w with db := t } = { w.afterCommit with db := t } := by
  simp only [afterCommit]
  split_ifs
  · rfl
  · rfl

namespace Store

/-- The tables a commit's step of the pass starts from: those after the interval, with the retention
clock. -/
def passTables (s : Store) (flush : Flush) : Tables :=
  { s.writer.tablesAfter flush with
    «meta» := { (s.writer.tablesAfter flush).meta with retentionClock := s.retention.clock } }

/-- The handoffs once the interval's chunks are in `chunks`. -/
def sealing (s : Store) : Handoffs :=
  s.writer.core.sealed.foldl (fun h e => h.sealed ⟨e.2.tier, e.2.span⟩) s.handoffs

/-- What a commit's step of the pass reads. -/
def passContext (s : Store) (flush : Flush) : Retention.Context :=
  ⟨s.policies, s.tombstones,
    (s.writer.writeInterval s.writer.openTxn flush).1.core.index, s.sealing⟩

/-- The chunks a commit's step of the pass deletes: from `chunks`, and with the files it retires. -/
def passDeletes (s : Store) (flush : Flush) : List (SeriesId × Sealed) :=
  ((s.passTables flush).chunks.entries.filterMap fun (key, bytes) =>
    if (s.writeInterval flush).tables.chunks.contains key then none
    else some (key.id, ⟨key.tier, key.span, key.seq, bytes⟩)) ++
  (s.writeInterval flush).retired.flatMap fun name =>
    ((s.files.get? name).getD []).map fun (id, seq, bytes) => (id, name.spanKey.chunk seq bytes)

variable (s : Store) (flush : Flush)

theorem writeInterval_step :
    s.retention.step (s.passTables flush) (s.passContext flush) =
      ((s.writeInterval flush).retention, (s.writeInterval flush).tables,
        (s.writeInterval flush).handoffs, (s.writeInterval flush).retired) :=
  rfl

theorem commit_passStep :
    PassStep s.retention (s.passTables flush) s.sealing (s.writeInterval flush).retention
      (s.writeInterval flush).tables (s.writeInterval flush).handoffs
        (s.writeInterval flush).retired :=
  s.retention.step_spec _ (s.passContext flush) (s.writeInterval_step flush)

theorem commit_writer :
    (s.commit flush).writer =
      { s.writer.commit flush with db := (s.writeInterval flush).tables } := by
  have hcommit := Writer.afterCommit_withDb
    { (s.writer.writeInterval s.writer.openTxn flush).1 with
      db := (s.writer.writeInterval s.writer.openTxn flush).2, txn := none }
    (s.writeInterval flush).tables
  exact hcommit

theorem mem_sealing_waiting {span : SpanKey} :
    span ∈ s.sealing.waiting ↔ span ∈ s.handoffs.waiting ∨
    ∃ id chunk, (id, chunk) ∈ s.writer.core.sealed ∧ (chunk.chunkKey id).spanKey = span := by
  rw [sealing]
  generalize s.handoffs = handoffs
  induction s.writer.core.sealed generalizing handoffs with
  | nil => simp
  | cons e sealed ih =>
      obtain ⟨id, chunk⟩ := e
      rw [List.foldl_cons, ih]
      simp only [Handoffs.sealed, Finset.mem_insert, List.mem_cons, Prod.mk.injEq]
      constructor
      · rintro ((rfl | hold) | ⟨id', chunk', hmem, hspan⟩)
        · exact .inr ⟨id, chunk, .inl ⟨rfl, rfl⟩, rfl⟩
        · exact .inl hold
        · exact .inr ⟨id', chunk', .inr hmem, hspan⟩
      · rintro (hold | ⟨id', chunk', ⟨rfl, rfl⟩ | hmem, hspan⟩)
        · exact .inl (.inr hold)
        · exact .inl (.inl hspan.symm)
        · exact .inr ⟨id', chunk', hmem, hspan⟩

theorem sealing_frame : s.sealing.inFlight = s.handoffs.inFlight ∧
    s.sealing.due = s.handoffs.due := by
  rw [sealing]
  generalize s.handoffs = handoffs
  induction s.writer.core.sealed generalizing handoffs with
  | nil => exact ⟨rfl, rfl⟩
  | cons e sealed ih => exact ih (handoffs.sealed ⟨e.2.tier, e.2.span⟩)

end Store

/-- Spans whose rows landed wait no more and are no longer in flight. -/
theorem foldl_landed (handoffs : Handoffs) (names : List BlockName) (span : SpanKey) :
    (span ∈ (names.foldl (fun h name => h.landed name.spanKey) handoffs).waiting ↔
      span ∈ handoffs.waiting ∧ span ∉ names.map BlockName.spanKey) ∧
    (span ∈ (names.foldl (fun h name => h.landed name.spanKey) handoffs).inFlight ↔
      span ∈ handoffs.inFlight ∧ span ∉ names.map BlockName.spanKey) ∧
    (names.foldl (fun h name => h.landed name.spanKey) handoffs).due = handoffs.due := by
  induction names generalizing handoffs with
  | nil => simp
  | cons name names ih =>
      obtain ⟨hwaiting, hflight, hdue⟩ := ih (handoffs.landed name.spanKey)
      rw [List.foldl_cons, hwaiting, hflight, hdue]
      simp only [Handoffs.landed, Finset.mem_erase, List.map_cons, List.mem_cons, not_or]
      refine ⟨?_, ?_, trivial⟩
      · constructor
        · rintro ⟨⟨hne, hmem⟩, hnot⟩
          exact ⟨hmem, hne, hnot⟩
        · rintro ⟨hmem, hne, hnot⟩
          exact ⟨⟨hne, hmem⟩, hnot⟩
      · constructor
        · rintro ⟨⟨hne, hmem⟩, hnot⟩
          exact ⟨hmem, hne, hnot⟩
        · rintro ⟨hmem, hne, hnot⟩
          exact ⟨⟨hne, hmem⟩, hnot⟩

/-- The handoffs a commit leaves: the interval's and the step's, the landed spans gone and the due
ones in flight. -/
theorem Store.commit_handoffs (s : Store) (flush : Flush) (span : SpanKey) :
    (span ∈ (s.commit flush).handoffs.waiting ↔
      span ∈ (s.writeInterval flush).handoffs.waiting ∧ span ∉ s.landed.map BlockName.spanKey) ∧
    (span ∈ (s.commit flush).handoffs.inFlight ↔
      span ∈ (s.writeInterval flush).handoffs.inFlight ∧ span ∉ s.landed.map BlockName.spanKey ∨
        span ∈ (s.writeInterval flush).handoffs.due) ∧
    (s.commit flush).handoffs.due = ∅ := by
  obtain ⟨hwaiting, hflight, hdue⟩ := foldl_landed (s.writeInterval flush).handoffs s.landed span
  refine ⟨hwaiting, ?_, rfl⟩
  change span ∈ _ ∪ _ ↔ _
  rw [Finset.mem_union, hflight, hdue]

namespace StoreInv

variable {s : Store} {l : Ledger} {accepted : List (SeriesKey × RawPoint)}
  {deleted : List (SeriesId × Sealed)} {buffered : ℕ}

theorem passTables_same (flush : Flush) :
    SameSeries (s.writer.tablesAfter flush) (s.passTables flush) :=
  ⟨rfl, rfl, rfl, rfl, rfl, rfl, rfl⟩

theorem tables_same (flush : Flush) :
    SameSeries (s.writer.tablesAfter flush) (s.writeInterval flush).tables := by
  obtain ⟨chunks, blocks, blockGenerations, pendingUnlinks, htables⟩ :=
    (s.commit_passStep flush).tables
  rw [htables]
  exact ⟨rfl, rfl, rfl, rfl, rfl, rfl, rfl⟩

/-- A drained span is so in the tables a commit leaves. -/
theorem drained_commit (h : StoreInv s l accepted deleted buffered) (flush : Flush) {span : SpanKey}
    (hdrained : SpanDrained s.writer.db l span) :
    SpanDrained (s.writeInterval flush).tables (l.commit s.writer (select accepted) flush) span :=
  (hdrained.interval h.writer h.clock_lt flush).1.congr (tables_same flush).series
    (tables_same flush).clock

/-- The chunks of a span in flight, its row not in this commit, stay as they are. -/
theorem chunks_inFlight (h : StoreInv s l accepted deleted buffered) (flush : Flush)
    {span : SpanKey} (hspan : span ∈ s.handoffs.inFlight)
    (hlanded : span ∉ s.landed.map BlockName.spanKey) {key : ChunkKey} (hkey : key.spanKey = span) :
    (s.writeInterval flush).tables.chunks.get? key = s.writer.db.chunks.get? key := by
  have hpass : (s.passTables flush).chunks.get? key = s.writer.openTxn.chunks.get? key :=
    ((h.drained span hspan).interval h.writer h.clock_lt flush).2 key hkey
  rcases (s.commit_passStep flush).chunks key with hsame | ⟨hidle, -⟩
  · rw [hsame, hpass, h.opened.chunks key (hkey ▸ hlanded)]
  · rw [s.sealing_frame.1, hkey] at hidle
    exact absurd hspan hidle

theorem readFrom_commit (h : StoreInv s l accepted deleted buffered) (flush : Flush)
    {name : BlockName} {held : Held} {generations : Table ℕ ℕ}
    (hread : ReadFrom s.writer.db l name held generations)
    (hspan : name.spanKey ∈ s.handoffs.inFlight)
    (hlanded : name.spanKey ∉ s.landed.map BlockName.spanKey) :
    ReadFrom (s.writeInterval flush).tables (l.commit s.writer (select accepted) flush) name held
      generations := by
  obtain ⟨hwhole, hstored, hholder⟩ := hread
  rw [← h.writer.txn.series] at hholder
  obtain ⟨hstored', hholder'⟩ := HeldFrom.interval ⟨hstored, hholder⟩ h.writer flush
  refine ⟨?_, hstored', ?_⟩
  · rw [hwhole]
    exact (spanChunks_congr fun key hkey => h.chunks_inFlight flush hspan hlanded hkey).symm
  · rw [(tables_same flush).series]
    exact hholder'

/-- The rows the pass is to retire are in the tables its step starts from. -/
theorem queued_pass (h : StoreInv s l accepted deleted buffered) (flush : Flush) :
    Queued (s.passTables flush) s.retention.queued := by
  refine ⟨h.queued.nodup, fun name hname => ?_⟩
  obtain ⟨record, hrow, hrewrite⟩ := h.queued.row name hname
  refine ⟨record, ?_, hrewrite⟩
  change (s.writer.tablesAfter flush).blocks.get? name.spanKey = some record
  rw [(s.writer.tablesAfter_files flush).1, h.opened.row _ (h.not_landed_of_row hrow), hrow]

theorem disk_commit (h : StoreInv s l accepted deleted buffered) (flush : Flush) :
    DiskInv (s.writeInterval flush).tables s.files (l.commit s.writer (select accepted) flush)
      (deleted ++ s.passDeletes flush) := by
  have hinterval := h.txn.interval h.writer h.clock_lt flush
  have hpass : DiskInv (s.passTables flush) s.files
      (l.commit s.writer (select accepted) flush) deleted :=
    hinterval.congr rfl rfl rfl rfl rfl fun _ hname => hname
  refine hpass.pass (s.commit_passStep flush) (h.queued_pass flush) ?_ ?_
  · intro id chunk hin
    by_cases hcontains : (s.writeInterval flush).tables.chunks.contains (chunk.chunkKey id)
    · left
      rcases (s.commit_passStep flush).chunks (chunk.chunkKey id) with hsame | ⟨-, hnone⟩
      · exact hsame.trans hin
      · rw [Table.contains, hnone] at hcontains
        cases hcontains
    · right
      refine List.mem_append_left _ (List.mem_filterMap.mpr
        ⟨(chunk.chunkKey id, chunk.bytes), Table.get?_eq_some_iff.mp hin, ?_⟩)
      exact if_neg hcontains
  · intro name hname held hfile id seq bytes hmem
    refine List.mem_append_right _ (List.mem_flatMap.mpr ⟨name, hname, ?_⟩)
    rw [hfile]
    exact List.mem_map.mpr ⟨(id, seq, bytes), hmem, rfl⟩

/-- A span with no file, in flight or waiting, has none after the commit that lands no row of it. -/
theorem unfiled_commit (h : StoreInv s l accepted deleted buffered) (flush : Flush) {span : SpanKey}
    (hunfiled : Unfiled s.writer.db span) (hlanded : span ∉ s.landed.map BlockName.spanKey) :
    Unfiled (s.writeInterval flush).tables span := by
  have hstep := s.commit_passStep flush
  obtain ⟨hblocks, -, hpending⟩ := s.writer.tablesAfter_files flush
  constructor
  · rw [hstep.row]
    split_ifs
    · rfl
    · change (s.writer.tablesAfter flush).blocks.get? span = none
      rw [hblocks, h.opened.row span hlanded, hunfiled.row]
  · intro name hname
    rw [hstep.pending] at hname
    split_ifs at hname with hretired
    · rintro rfl
      obtain ⟨record, hrow, -⟩ := h.queued.row name
        ((hstep.queue (h.queued_pass flush)).2.subset hretired)
      rw [hunfiled.row] at hrow
      cases hrow
    · change (s.writer.tablesAfter flush).pendingUnlinks.get? name = some () at hname
      rw [hpending] at hname
      exact hunfiled.pending name (h.opened.pending name hname)

/-- The span of a chunk sealed in the interval has no file. -/
theorem unfiled_sealed (h : StoreInv s l accepted deleted buffered) {id : SeriesId} {chunk : Sealed}
    (hmem : (id, chunk) ∈ s.writer.core.sealed) :
    Unfiled s.writer.db (chunk.chunkKey id).spanKey ∧
      (chunk.chunkKey id).spanKey ∉ s.landed.map BlockName.spanKey := by
  have hnot : ∀ {span}, SpanDrained s.writer.db l span → (chunk.chunkKey id).spanKey ≠ span :=
    fun hdrained => hdrained.not_sealed h.writer h.clock_lt hmem
  refine ⟨⟨?_, ?_⟩, ?_⟩
  · rw [Option.eq_none_iff_forall_not_mem]
    intro record hrow
    exact hnot (h.db.row _ record hrow).drained rfl
  · intro name hname heq
    exact hnot (h.db.pending name hname).1 heq.symm
  · intro hlanded
    obtain ⟨name, hname, heq⟩ := List.mem_map.mp hlanded
    have hflying := (h.flying name (List.mem_append_right _ hname)).2
    exact hnot (h.drained _ hflying) heq.symm

/-- A commit's jobs: the spans that were due, then the files its step retired. -/
theorem commit_jobs (s : Store) (flush : Flush) :
    (s.commit flush).jobs = s.jobs ++
      ((s.writeInterval flush).handoffs.due.sort (· ≤ ·)).map
        (fun span => .handOff (handoffName span)) ++
      (s.writeInterval flush).retired.map Job.unlink := by
  rw [← (foldl_landed (s.writeInterval flush).handoffs s.landed ⟨.raw, 0⟩).2.2]
  rfl

/-- The files still in the block writer's hands after a commit: those from before, and those of the
spans that were due. -/
theorem handing_commit (s : Store) (flush : Flush) :
    (s.commit flush).handing.Perm
      ((s.jobs.filterMap Job.handing ++ (s.reading.map Prod.fst).toList ++
        s.replies.filterMap BlockReply.handing) ++
        ((s.writeInterval flush).handoffs.due.sort (· ≤ ·)).map handoffName) := by
  have hframe : (s.commit flush).reading = s.reading ∧ (s.commit flush).replies = s.replies ∧
      (s.commit flush).landed = [] := ⟨rfl, rfl, rfl⟩
  rw [Store.handing, commit_jobs, hframe.1, hframe.2.1, hframe.2.2, List.perm_iff_count]
  intro a
  simp [List.filterMap_map, Function.comp_def]
  omega

theorem unlinking_commit (s : Store) (flush : Flush) :
    (s.commit flush).unlinking.Perm (s.unlinking ++ (s.writeInterval flush).retired) := by
  have hreplies : (s.commit flush).replies = s.replies := rfl
  rw [Store.unlinking, commit_jobs, hreplies, List.perm_iff_count]
  intro a
  simp [Store.unlinking, List.filterMap_map, Function.comp_def]
  omega

/-- A commit keeps the invariant; what its step of the pass deleted is on record. -/
theorem commit (h : StoreInv s l accepted deleted buffered)
    (hfits : buffered < 2 ^ 64) (flush : Flush) :
    StoreInv (s.commit flush) (l.commit s.writer (select accepted) flush) accepted
      (deleted ++ s.passDeletes flush) 0 := by
  have hlen : s.writer.core.points.length < 2 ^ 64 := lt_of_le_of_lt h.points hfits
  obtain ⟨head, hcore, -⟩ := h.writer.commit_core flush
  have hwriter := s.commit_writer flush
  have hdb : (s.commit flush).writer.db = (s.writeInterval flush).tables := by rw [hwriter]
  have htxn : (s.commit flush).writer.openTxn = (s.writeInterval flush).tables := by
    rw [Writer.openTxn, hdb, hwriter]
    have hnone : (s.writer.commit flush).txn = none := by
      rw [Writer.commit_eq, Writer.afterCommit_txn]
    simp [hnone]
  have hstep := s.commit_passStep flush
  have hshrinks := hstep.handoffs
  obtain ⟨hsflight, hsdue⟩ := s.sealing_frame
  have hflight : (s.writeInterval flush).handoffs.inFlight = s.handoffs.inFlight :=
    hshrinks.inFlight.trans hsflight
  have hdue : (s.writeInterval flush).handoffs.due ⊆ s.handoffs.due := hsdue ▸ hshrinks.due
  have hdueFree : ∀ span ∈ s.handoffs.due, span ∉ s.landed.map BlockName.spanKey := by
    intro span hspan hlanded
    obtain ⟨name, hname, rfl⟩ := List.mem_map.mp hlanded
    exact (h.due _ hspan).1 (h.flying name (List.mem_append_right _ hname)).2
  have hheld : ∀ name ∈ s.jobs.filterMap Job.handing ++ (s.reading.map Prod.fst).toList ++
      s.replies.filterMap BlockReply.handing, name.rewrite = 0 ∧
      name.spanKey ∈ s.handoffs.inFlight :=
    fun name hname => h.flying name (List.mem_append_left _ hname)
  obtain ⟨hqueue, hretired⟩ := hstep.queue (h.queued_pass flush)
  refine ⟨?_, ⟨accepted, rfl⟩, ?_, ?_, ?_, ?_, ?_, ?_, ?_, ?_, ?_, ?_, ?_, ?_, ?_, ?_⟩
  · rw [hwriter]
    refine (h.writer.commit hlen flush).withDb ?_ ?_
    · rw [Writer.commit_eq, Writer.afterCommit_txn]
    · rw [WriterInv.commit_db]
      exact tables_same flush
  · rw [hwriter]
    simp only [hcore]
    exact h.clock
  · rw [hwriter]
    simp only [hcore]
    exact le_rfl
  · rw [hdb]
    exact h.disk_commit flush
  · rw [htxn]
    exact h.disk_commit flush
  · rw [hdb, htxn]
    exact ⟨fun _ _ => rfl, fun _ _ => rfl, fun _ _ _ => rfl, fun _ hname => hname⟩
  · rw [((handing_commit s flush).map BlockName.spanKey).nodup_iff,
      List.map_append, List.nodup_append]
    have hspans : ((((s.writeInterval flush).handoffs.due.sort (· ≤ ·)).map handoffName).map
        BlockName.spanKey) = (s.writeInterval flush).handoffs.due.sort (· ≤ ·) := by
      rw [List.map_map]
      exact List.map_id _
    have hold := h.handing
    rw [Store.handing, List.map_append, List.nodup_append] at hold
    refine ⟨hold.1, ?_, ?_⟩
    · rw [hspans]
      exact Finset.sort_nodup _ _
    · intro a ha b hb heq
      rw [hspans, Finset.mem_sort] at hb
      obtain ⟨name, hname, rfl⟩ := List.mem_map.mp ha
      exact (h.due _ (hdue hb)).1 (heq ▸ (hheld name hname).2)
  · intro name hname
    rw [(s.commit_handoffs flush name.spanKey).2.1, hflight]
    rcases List.mem_append.mp ((handing_commit s flush).subset hname) with hname | hname
    · exact ⟨(hheld name hname).1, .inl ⟨(hheld name hname).2, h.not_landed hname⟩⟩
    · obtain ⟨span, hspan, rfl⟩ := List.mem_map.mp hname
      exact ⟨rfl, .inr ((Finset.mem_sort _).mp hspan)⟩
  · intro span hspan
    rw [(s.commit_handoffs flush span).2.1, hflight] at hspan
    rw [hdb]
    rcases hspan with ⟨hspan, -⟩ | hspan
    · exact h.drained_commit flush (h.drained span hspan)
    · exact ((h.due span (hdue hspan)).2.commit h.writer flush).congr (tables_same flush).series
        (tables_same flush).clock
  · intro span hspan
    rw [(s.commit_handoffs flush span).2.2] at hspan
    exact absurd hspan (Finset.notMem_empty span)
  · intro span hspan
    rw [(s.commit_handoffs flush span).1, (s.commit_handoffs flush span).2.1,
      (s.commit_handoffs flush span).2.2, hflight] at hspan
    rw [hdb]
    rcases hspan with ⟨hspan, hlanded⟩ | hspan | ⟨hspan, hlanded⟩ | hspan
    · rcases s.mem_sealing_waiting.mp (hshrinks.waiting hspan) with hold | ⟨id, chunk, hmem, rfl⟩
      · exact h.unfiled_commit flush (h.unfiled span (.inl hold)) hlanded
      · exact h.unfiled_commit flush (h.unfiled_sealed hmem).1 hlanded
    · exact absurd hspan (Finset.notMem_empty span)
    · exact h.unfiled_commit flush (h.unfiled span (.inr (.inr hspan))) hlanded
    · exact h.unfiled_commit flush (h.unfiled span (.inr (.inl (hdue hspan))))
        (hdueFree span (hdue hspan))
  · intro name held generations hreading
    have hname : name ∈ s.jobs.filterMap Job.handing ++ (s.reading.map Prod.fst).toList ++
        s.replies.filterMap BlockReply.handing := by
      have hmem : name ∈ (s.reading.map Prod.fst).toList := by
        rw [show s.reading = some (name, held, generations) from hreading]
        simp
      exact List.mem_append_left _ (List.mem_append_right _ hmem)
    rw [hdb]
    exact h.readFrom_commit flush (h.reading name held generations hreading) (hheld name hname).2
      (h.not_landed hname)
  · intro name record generations hreply
    obtain ⟨hrewrite, held, hfile, hread⟩ := h.written name record generations hreply
    have hname : name ∈ s.jobs.filterMap Job.handing ++ (s.reading.map Prod.fst).toList ++
        s.replies.filterMap BlockReply.handing :=
      List.mem_append_right _ (mem_replies_handing hreply rfl)
    rw [hdb]
    exact ⟨hrewrite, held, hfile, h.readFrom_commit flush hread (hheld name hname).2
      (h.not_landed hname)⟩
  · have hrow : ∀ name ∈ (s.writeInterval flush).retired, ∃ record,
        s.writer.db.blocks.get? name.spanKey = some record := by
      intro name hname
      obtain ⟨record, hrow, -⟩ := h.queued.row name (hretired.subset hname)
      exact ⟨record, hrow⟩
    have hold : ∀ name ∈ s.unlinking, name ∉ (s.writeInterval flush).retired := by
      intro name hname hmem
      obtain ⟨record, hrow⟩ := hrow name hmem
      have hpending := h.opened.pending name (h.unlinking.2 name hname)
      exact absurd ((h.db.pending name hpending).2.2.symm.trans hrow) (by simp)
    constructor
    · rw [(unlinking_commit s flush).nodup_iff, List.nodup_append]
      refine ⟨h.unlinking.1, ?_, fun a ha b hb heq => hold a ha (heq ▸ hb)⟩
      exact (hretired.sublist.nodup (List.Nodup.of_map _ h.queued.nodup))
    · intro name hname
      rw [htxn, hstep.pending]
      rcases List.mem_append.mp ((unlinking_commit s flush).subset hname) with hname | hname
      · rw [if_neg (hold name hname)]
        change (s.writer.tablesAfter flush).pendingUnlinks.get? name = some ()
        rw [(s.writer.tablesAfter_files flush).2.2]
        exact h.unlinking.2 name hname
      · rw [if_pos hname]
  · rw [hdb]
    exact hqueue

end StoreInv

end MonitoringAgent.HubStore

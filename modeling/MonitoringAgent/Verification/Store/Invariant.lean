import MonitoringAgent.Library.Except
import MonitoringAgent.Verification.Store.Disk

/-! # The store's invariant

The writer's memory against the tables, the open transaction against the committed ones, and every
span handed off followed from the commit that hands it over to the one that lands its row. -/

namespace MonitoringAgent.HubStore

open MonitoringAgent.Library

/-! ### Handoffs and unlinks under way -/

/-- The file a job hands off. -/
def Job.handing : Job → Option BlockName
  | .handOff name => some name
  | .unlink _ => none

/-- The file a job unlinks. -/
def Job.unlinking : Job → Option BlockName
  | .handOff _ => none
  | .unlink name => some name

/-- The file whose handoff a reply ends. -/
def BlockReply.handing : BlockReply → Option BlockName
  | .handOff (.written name _ _) | .handOff (.failed name _) => some name
  | .unlinked _ => none

/-- The file a reply says unlinked. -/
def BlockReply.unlinking : BlockReply → Option BlockName
  | .handOff _ => none
  | .unlinked name => some name

@[simp] theorem Job.handing_handOff (name : BlockName) :
    (Job.handOff name).handing = some name := rfl

@[simp] theorem Job.handing_unlink (name : BlockName) : (Job.unlink name).handing = none := rfl

@[simp] theorem Job.unlinking_handOff (name : BlockName) :
    (Job.handOff name).unlinking = none := rfl

@[simp] theorem Job.unlinking_unlink (name : BlockName) :
    (Job.unlink name).unlinking = some name := rfl

@[simp] theorem BlockReply.handing_written (name : BlockName) (record : BlockRecord)
    (generations : Table ℕ ℕ) :
    (BlockReply.handOff (.written name record generations)).handing = some name :=
  rfl

@[simp] theorem BlockReply.handing_failed (name : BlockName) (cause : HandoffFailure) :
    (BlockReply.handOff (.failed name cause)).handing = some name := rfl

@[simp] theorem BlockReply.handing_unlinked (name : BlockName) :
    (BlockReply.unlinked name).handing = none :=
  rfl

@[simp] theorem BlockReply.unlinking_handOff (outcome : Outcome) :
    (BlockReply.handOff outcome).unlinking = none := rfl

@[simp] theorem BlockReply.unlinking_unlinked (name : BlockName) :
    (BlockReply.unlinked name).unlinking = some name := rfl

namespace Store

/-- The files being handed off, wherever their handoff is. -/
def handing (s : Store) : List BlockName :=
  s.jobs.filterMap Job.handing ++ (s.reading.map Prod.fst).toList ++
    s.replies.filterMap BlockReply.handing ++ s.landed

/-- The files being unlinked. -/
def unlinking (s : Store) : List BlockName :=
  s.jobs.filterMap Job.unlinking ++ s.replies.filterMap BlockReply.unlinking

end Store

/-! ### The invariant -/

/-- The span has no file: no row, and none waiting to be unlinked. -/
structure Unfiled (t : Tables) (span : SpanKey) : Prop where
  row : t.blocks.get? span = none
  pending : ∀ name, t.pendingUnlinks.get? name = some () → name.spanKey ≠ span

/-- The open transaction against the committed tables: only the spans whose rows it holds
differ. -/
structure OpenTxn (db txn : Tables) (landed : List SpanKey) : Prop where
  row : ∀ span ∉ landed, txn.blocks.get? span = db.blocks.get? span
  chunks : ∀ key, key.spanKey ∉ landed → txn.chunks.get? key = db.chunks.get? key
  holders : ∀ span ∉ landed, ∀ generation,
    txn.blockGenerations.get? (toLex (generation, span)) =
      db.blockGenerations.get? (toLex (generation, span))
  pending : ∀ name, txn.pendingUnlinks.get? name = some () → db.pendingUnlinks.get? name = some ()

/-- What the block writer read of a span: all of its chunks, with the generations that hold them. -/
structure ReadFrom (t : Tables) (l : Ledger) (name : BlockName) (held : Held)
    (generations : Table ℕ ℕ) : Prop where
  whole : held = spanChunks t.chunks name.spanKey
  held : HeldFrom t l name.spanKey generations.keys held

/-- A running store; at most `buffered` points wait for a commit. -/
structure StoreInv (s : Store) (l : Ledger) (accepted : List (SeriesKey × RawPoint))
    (deleted : List (SeriesId × Sealed)) (buffered : ℕ) : Prop where
  writer : WriterInv s.writer l (select accepted)
  committed : ∃ committed : List (SeriesKey × RawPoint), l.committed = select committed
  clock : s.writer.core.clock < 2 ^ 63
  points : s.writer.core.points.length ≤ buffered
  db : DiskInv s.writer.db s.files l deleted
  txn : DiskInv s.writer.openTxn s.files l deleted
  opened : OpenTxn s.writer.db s.writer.openTxn (s.landed.map BlockName.spanKey)
  handing : (s.handing.map BlockName.spanKey).Nodup
  flying : ∀ name ∈ s.handing, name.rewrite = 0 ∧ name.spanKey ∈ s.handoffs.inFlight
  drained : ∀ span ∈ s.handoffs.inFlight, SpanDrained s.writer.db l span
  due : ∀ span ∈ s.handoffs.due, span ∉ s.handoffs.inFlight ∧
    SpanDone s.writer.core l.stored (select accepted) span
  unfiled : ∀ span, span ∈ s.handoffs.waiting ∨ span ∈ s.handoffs.due ∨ span ∈ s.handoffs.inFlight →
    Unfiled s.writer.db span
  reading : ∀ name held generations, s.reading = some (name, held, generations) →
    ReadFrom s.writer.db l name held generations
  written : ∀ name record generations, .handOff (.written name record generations) ∈ s.replies →
    record.rewrite = 0 ∧ ∃ held, s.files.get? name = some held ∧
      ReadFrom s.writer.db l name held generations
  unlinking : s.unlinking.Nodup ∧ ∀ name ∈ s.unlinking,
    s.writer.openTxn.pendingUnlinks.get? name = some ()
  queued : Queued s.writer.db s.retention.queued

/-- A stopped store: what it leaves on disk. -/
structure StoppedInv (t : Tables) (files : Files) (l : Ledger)
    (deleted : List (SeriesId × Sealed)) : Prop where
  file : FileInv t l
  committed : ∃ committed : List (SeriesKey × RawPoint), l.committed = select committed
  clock : t.meta.clock < 2 ^ 63
  disk : DiskInv t files l deleted

namespace StoreInv

variable {s s' : Store} {l : Ledger} {accepted : List (SeriesKey × RawPoint)}
  {deleted : List (SeriesId × Sealed)} {buffered : ℕ}

theorem clock_lt (h : StoreInv s l accepted deleted buffered) : s.writer.core.clock < 2 ^ 64 :=
  h.clock.trans (by norm_num)

/-- A file being handed off is that of its span. -/
theorem eq_handoffName (h : StoreInv s l accepted deleted buffered) {name : BlockName}
    (hname : name ∈ s.handing) : name = handoffName name.spanKey := by
  obtain ⟨tier, span, rewrite⟩ := name
  obtain rfl : rewrite = 0 := (h.flying _ hname).1
  rfl

theorem ne_of_nodup_append {xs ys : List BlockName} (h : ((xs ++ ys).map BlockName.spanKey).Nodup)
    {x y : BlockName} (hx : x ∈ xs) (hy : y ∈ ys) : x.spanKey ≠ y.spanKey := by
  rw [List.map_append, List.nodup_append] at h
  exact h.2.2 _ (List.mem_map_of_mem hx) _ (List.mem_map_of_mem hy)

/-- A file the block writer still has in hand is not one whose row the commit in progress holds. -/
theorem not_landed (h : StoreInv s l accepted deleted buffered) {name : BlockName}
    (hname : name ∈ s.jobs.filterMap Job.handing ++ (s.reading.map Prod.fst).toList ++
      s.replies.filterMap BlockReply.handing) : name.spanKey ∉ s.landed.map BlockName.spanKey := by
  intro hmem
  obtain ⟨other, hother, heq⟩ := List.mem_map.mp hmem
  exact ne_of_nodup_append h.handing hname hother heq.symm

/-- A span whose row the commit in progress holds has none committed. -/
theorem not_landed_of_row (h : StoreInv s l accepted deleted buffered) {span : SpanKey}
    {record : BlockRecord} (hrow : s.writer.db.blocks.get? span = some record) :
    span ∉ s.landed.map BlockName.spanKey := by
  intro hmem
  obtain ⟨name, hname, rfl⟩ := List.mem_map.mp hmem
  have hflying := (h.flying name (List.mem_append_right _ hname)).2
  rw [(h.unfiled _ (.inr (.inr hflying))).row] at hrow
  cases hrow

/-! ### Appends and sweeps -/

/-- The head moves on between commits: nothing on disk or in the handoffs changes. -/
theorem withCore (h : StoreInv s l accepted deleted buffered) {core : Core} {txn : Option Tables}
    {accepted' : List (SeriesKey × RawPoint)} {buffered' : ℕ}
    (htxn : txn.getD s.writer.db = s.writer.openTxn)
    (hwriter : WriterInv { s.writer with core, txn } l (select accepted'))
    (hclock : core.clock < 2 ^ 63) (hpoints : core.points.length ≤ buffered')
    (hgrows : s.writer.core.Grows core)
    (hlater : ∀ key, ∀ p ∈ select accepted' key, p ∈ select accepted key ∨
      s.writer.core.clock ≤ p.ts) :
    StoreInv { s with writer := { s.writer with core, txn } } l accepted' deleted buffered' := by
  have hopen : Writer.openTxn { s.writer with core, txn } = s.writer.openTxn := htxn
  refine { h with
    writer := hwriter
    clock := hclock
    points := hpoints
    txn := by rw [hopen]; exact h.txn
    opened := by rw [hopen]; exact h.opened
    unlinking := by rw [hopen]; exact h.unlinking
    due := fun span hspan => ⟨(h.due span hspan).1, ?_⟩ }
  exact (h.due span hspan).2.grows hgrows h.clock_lt h.writer.head.absent hlater

theorem mem_select_append {key : SeriesKey} {p : RawPoint} {more : List (SeriesKey × RawPoint)}
    (h : p ∈ select (accepted ++ more) key) : p ∈ select accepted key ∨ (key, p) ∈ more := by
  rw [select_append, List.mem_append] at h
  exact h.imp_right mem_select.mp

theorem append (h : StoreInv s l accepted deleted buffered) (system : List UInt8) (generation : ℕ)
    (points : List IncomingPoint) {systemNow : ℕ} (htime : systemNow < 2 ^ 63) :
    ∃ report w accepted', s.writer.append system generation points systemNow = .ok (report, w) ∧
      StoreInv { s with writer := w } l accepted' deleted (buffered + points.length) := by
  have hclock : max s.writer.core.clock systemNow < 2 ^ 63 := max_lt h.clock htime
  obtain ⟨answers, c, heach, happend, hc, hcclock, hlen⟩ :=
    h.writer.append system generation points systemNow (by omega)
  refine ⟨_, _, _, happend, h.withCore rfl hc (lt_of_eq_of_lt hcclock hclock)
    (hlen.trans (Nat.add_le_add_right h.points _))
    ((Core.grows_hubNow _ systemNow).trans (Core.grows_appendEach heach)) ?_⟩
  intro key p hp
  refine (mem_select_append hp).imp_right fun hmem => ?_
  obtain ⟨⟨point, answer⟩, -, heq⟩ := List.mem_filterMap.mp hmem
  cases answer with
  | ok _ =>
      obtain ⟨-, rfl⟩ := Prod.mk.inj (Option.some.inj heq)
      exact le_max_left _ _
  | error _ => cases heq

theorem sweep (h : StoreInv s l accepted deleted buffered) {systemNow : ℕ}
    (htime : systemNow < 2 ^ 63) (hsweep : s.sweep systemNow = .ok s') :
    StoreInv s' l accepted deleted buffered := by
  rw [Store.sweep] at hsweep
  obtain ⟨handoffs, hchoose, hs'⟩ := except_bind_eq_ok.mp hsweep
  cases hs'
  have hnow := h.writer.hubNow systemNow
  have hclock : max s.writer.core.clock systemNow < 2 ^ 63 := max_lt h.clock htime
  have hgrows := (Core.grows_hubNow s.writer.core systemNow).trans
    (Core.grows_sweep (max s.writer.core.clock systemNow) (s.writer.core.hubNow systemNow).2)
  obtain ⟨hcclock, hcpoints, -⟩ :=
    Core.sweep_frame (max s.writer.core.clock systemNow) (s.writer.core.hubNow systemNow).2
  have hkept : StoreInv { s with writer := s.writer.sweep systemNow } l accepted deleted buffered :=
    h.withCore rfl (h.writer.sweep systemNow) (lt_of_eq_of_lt hcclock hclock)
      ((congrArg List.length hcpoints).trans_le h.points) hgrows fun _ _ hp => .inl hp
  have hswept : HeadInv ((s.writer.core.hubNow systemNow).2.sweep
      (s.writer.core.hubNow systemNow).2.clock)
      (fun _ => (s.writer.core.hubNow systemNow).2.clock) l.stored (select accepted) := by
    have hhead := (h.writer.sweep systemNow).head
    have hcore : (s.writer.sweep systemNow).core =
        (s.writer.core.hubNow systemNow).2.sweep (s.writer.core.hubNow systemNow).2.clock := rfl
    rwa [hcore, Core.sweep_frame _ _ |>.1] at hhead
  have hlt : (s.writer.core.hubNow systemNow).2.clock < 2 ^ 64 := lt_trans hclock (by norm_num)
  have hdone : ∀ span : SpanKey,
      SpanStart.isClosed span.span span.tier (s.writer.core.hubNow systemNow).2.clock = true →
      SpanDone ((s.writer.core.hubNow systemNow).2.sweep (s.writer.core.hubNow systemNow).2.clock)
        l.stored (select accepted) span :=
    fun span hclosed => HeadInv.spanDone_sweep hlt hnow.head hswept hclosed
  rw [Handoffs.choose] at hchoose
  split at hchoose
  · cases hchoose
  · cases hchoose
    refine { hkept with due := fun span hspan => ?_, unfiled := fun span hspan => ?_ }
    · rcases Finset.mem_union.mp hspan with hspan | hspan
      · exact hkept.due span hspan
      · obtain ⟨-, hclosed, hidle⟩ := Finset.mem_filter.mp hspan
        exact ⟨hidle, hdone span hclosed⟩
    · rcases hspan with hspan | hspan | hspan
      · exact h.unfiled span (.inl hspan)
      · rcases Finset.mem_union.mp hspan with hspan | hspan
        · exact h.unfiled span (.inr (.inl hspan))
        · exact h.unfiled span (.inl (Finset.mem_filter.mp hspan).1)
      · exact h.unfiled span (.inr (.inr hspan))

theorem beginPass (h : StoreInv s l accepted deleted buffered) {systemNow : ℕ}
    (htime : systemNow < 2 ^ 63) (reading : Duration) :
    StoreInv (s.beginPass systemNow reading) l accepted deleted buffered := by
  rw [Store.beginPass]
  split
  · exact h
  · have hkept : StoreInv { s with writer :=
        { s.writer with core := (s.writer.core.hubNow systemNow).2 } }
        l accepted deleted buffered :=
      h.withCore rfl (h.writer.hubNow systemNow) (max_lt h.clock htime) h.points
        (Core.grows_hubNow _ systemNow) fun _ _ hp => .inl hp
    exact { hkept with queued := ⟨List.nodup_nil, fun name hname => absurd hname List.not_mem_nil⟩ }

/-! ### The block writer -/

/-- What the block writer holds of a file being handed off. -/
theorem mem_handing_reading (name : BlockName) (held : Held) (generations : Table ℕ ℕ)
    (h : s.reading = some (name, held, generations)) : name ∈ s.handing := by
  simp [Store.handing, h]

theorem mem_replies_handing {reply : BlockReply} {name : BlockName} (hreply : reply ∈ s.replies)
    (hname : reply.handing = some name) : name ∈ s.replies.filterMap BlockReply.handing :=
  List.mem_filterMap.mpr ⟨reply, hreply, hname⟩

theorem mem_handing_reply {reply : BlockReply} {name : BlockName} (hreply : reply ∈ s.replies)
    (hname : reply.handing = some name) : name ∈ s.handing := by
  simp only [Store.handing, List.mem_append, mem_replies_handing hreply hname, or_true, true_or]

/-- A generation stays counted, and one with a chunk among those held is counted. -/
theorem get?_foldl_held (series : Table SeriesId SeriesRecord) (held : Held) (start : Table ℕ ℕ)
    {generation : ℕ} (h : (∃ total, start.get? generation = some total) ∨
      ∃ id seq bytes record, (id, seq, bytes) ∈ held ∧ series.get? id = some record ∧
        record.key.generation = generation) :
    ∃ total, (held.foldl (fun generations (id, _, bytes) =>
      match series.get? id with
      | none => generations
      | some record =>
          generations.insert record.key.generation
            ((generations.get? record.key.generation).getD 0 + bytes.length)) start).get?
              generation =
      some total := by
  induction held generalizing start with
  | nil => exact h.resolve_right (by simp)
  | cons e held ih =>
      obtain ⟨id, seq, bytes⟩ := e
      rw [List.foldl_cons]
      apply ih
      dsimp only
      rcases h with hstart | ⟨id', seq', bytes', record, hmem, hrecord, rfl⟩
      · left
        split
        · exact hstart
        · rw [Table.get?_insert]
          split_ifs
          · exact ⟨_, rfl⟩
          · exact hstart
      · rcases List.mem_cons.mp hmem with heq | hmem
        · obtain ⟨rfl, -⟩ := Prod.mk.inj heq
          rw [hrecord]
          exact .inl ⟨_, Table.get?_insert_self _ _ _⟩
        · exact .inr ⟨id', seq', bytes', record, hmem, hrecord, rfl⟩

theorem heldGenerations_keys {series : Table SeriesId SeriesRecord} {held : Held} {id : SeriesId}
    {seq : ℕ} {bytes : List UInt8} {record : SeriesRecord} (hmem : (id, seq, bytes) ∈ held)
    (hrecord : series.get? id = some record) :
    record.key.generation ∈ (heldGenerations series held).keys :=
  Table.mem_keys.mpr (get?_foldl_held series held .empty
    (.inr ⟨id, seq, bytes, record, hmem, hrecord, rfl⟩))

/-- What a snapshot after the handing over reads of the span. -/
theorem readSpan (h : StoreInv s l accepted deleted buffered) (name : BlockName) :
    ReadFrom s.writer.db l name (BlockWriter.readSpan s.writer.db name).1
      (BlockWriter.readSpan s.writer.db name).2 := by
  have hstored : ∀ id seq bytes, (id, seq, bytes) ∈ spanChunks s.writer.db.chunks name.spanKey →
      name.spanKey.chunk seq bytes ∈ l.stored id :=
    fun id seq bytes hmem => h.db.chunks id (name.spanKey.chunk seq bytes) (mem_spanChunks.mp hmem)
  refine ⟨rfl, hstored, fun id seq bytes hmem => ?_⟩
  cases hrecord : s.writer.db.series.get? id with
  | none =>
      have hmem' := hstored id seq bytes hmem
      rw [h.writer.file.fresh id hrecord] at hmem'
      cases hmem'
  | some record => exact ⟨record, rfl, heldGenerations_keys hmem hrecord⟩

/-- The span of a file waiting to be unlinked is not handed off. -/
theorem not_flying_of_pending (h : StoreInv s l accepted deleted buffered) {name other : BlockName}
    (hpending : s.writer.db.pendingUnlinks.get? name = some ()) (hother : other ∈ s.handing) :
    name ≠ other := by
  rintro rfl
  exact (h.unfiled _ (.inr (.inr (h.flying _ hother).2))).pending name hpending rfl

/-- A file being unlinked is no row's. -/
theorem get?_erase_row (h : StoreInv s l accepted deleted buffered) {name : BlockName}
    (hname : name ∈ s.unlinking) {span : SpanKey} {record : BlockRecord}
    (hrow : s.writer.db.blocks.get? span = some record ∨
      s.writer.openTxn.blocks.get? span = some record) :
    (s.files.erase name).get? (handoffName span) = s.files.get? (handoffName span) := by
  rw [Table.get?_erase, if_neg]
  rintro rfl
  have hpending := h.unlinking.2 _ hname
  rcases hrow with hrow | hrow
  · exact absurd ((h.db.pending _ (h.opened.pending _ hpending)).2.2.symm.trans hrow) (by simp)
  · exact absurd ((h.txn.pending _ hpending).2.2.symm.trans hrow) (by simp)

/-- The file about to be written is no row's. -/
theorem get?_insert_row (h : StoreInv s l accepted deleted buffered) {name : BlockName}
    {held : Held} {generations : Table ℕ ℕ} (hreading : s.reading = some (name, held, generations))
    (content : Held) {span : SpanKey} {record : BlockRecord}
    (hrow : s.writer.db.blocks.get? span = some record ∨
      s.writer.openTxn.blocks.get? span = some record) :
    (s.files.insert name content).get? (handoffName span) = s.files.get? (handoffName span) := by
  refine Table.get?_insert_of_ne _ _ ?_
  rintro rfl
  have hname := mem_handing_reading _ held generations hreading
  have hunfiled := (h.unfiled span (.inr (.inr (h.flying _ hname).2))).row
  rcases hrow with hrow | hrow
  · exact absurd (hunfiled.symm.trans hrow) (by simp)
  · have hlanded := h.not_landed (List.mem_append_left _
      (List.mem_append_right _ (by simp [hreading] : handoffName span ∈
        (s.reading.map Prod.fst).toList)))
    exact absurd (((h.opened.row span hlanded).trans hunfiled).symm.trans hrow) (by simp)

theorem takeJob (h : StoreInv s l accepted deleted buffered) (fails : Bool) :
    StoreInv (s.takeJob fails) l accepted deleted buffered := by
  have hmoved : ∀ {s' : Store}, s'.handing.Perm s.handing →
      (s'.handing.map BlockName.spanKey).Nodup ∧
      ∀ name ∈ s'.handing, name.rewrite = 0 ∧ name.spanKey ∈ s.handoffs.inFlight :=
    fun hperm => ⟨(hperm.map _).nodup_iff.mpr h.handing, fun name hname => h.flying name
      (hperm.subset hname)⟩
  rw [Store.takeJob]
  split
  next name jobs hreading hjobs =>
    split_ifs
    · let s' : Store := { s with jobs, replies := s.replies ++ [.handOff (.failed name .read)] }
      have hunlinking : s'.unlinking = s.unlinking := by
        simp [s', Store.unlinking, hjobs, List.filterMap_cons]
      have hperm : s'.handing.Perm s.handing := by
        rw [List.perm_iff_count]
        intro a
        simp [s', Store.handing, hreading, hjobs, List.count_cons]
        omega
      obtain ⟨hnodup, hflying⟩ := hmoved hperm
      refine { h with
        handing := hnodup
        flying := hflying
        written := fun name' record generations hmem => ?_
        unlinking := hunlinking.symm ▸ h.unlinking }
      refine h.written name' record generations ((List.mem_append.mp hmem).resolve_right ?_)
      simp
    · let s' : Store :=
        { s with jobs, reading := some (name, BlockWriter.readSpan s.writer.db name) }
      have hunlinking : s'.unlinking = s.unlinking := by
        simp [s', Store.unlinking, hjobs, List.filterMap_cons]
      have hperm : s'.handing.Perm s.handing := by
        simp [s', Store.handing, hreading, hjobs, List.perm_middle]
      obtain ⟨hnodup, hflying⟩ := hmoved hperm
      refine { h with
        handing := hnodup
        flying := hflying
        reading := fun name' held generations heq => ?_
        unlinking := hunlinking.symm ▸ h.unlinking }
      obtain ⟨rfl, hread⟩ := Prod.mk.inj (Option.some.inj heq)
      have hspan := h.readSpan name
      rwa [hread] at hspan
  next name jobs hreading hjobs =>
    split_ifs
    · let s' : Store := { s with jobs }
      have hhanding : s'.handing = s.handing := by
        simp [s', Store.handing, hjobs, List.filterMap_cons]
      have hunlinking : s'.unlinking.Sublist s.unlinking := by
        simp [s', Store.unlinking, hjobs]
      exact { h with
        handing := hhanding.symm ▸ h.handing
        flying := hhanding.symm ▸ h.flying
        unlinking := ⟨hunlinking.nodup h.unlinking.1, fun name hname => h.unlinking.2 name
          (hunlinking.subset hname)⟩ }
    · let s' : Store := { s with
        jobs, files := s.files.erase name, replies := s.replies ++ [.unlinked name] }
      have hhanding : s'.handing = s.handing := by
        simp [s', Store.handing, hjobs, List.filterMap_cons]
      have hunlinking : s'.unlinking.Perm s.unlinking := by
        rw [List.perm_iff_count]
        intro a
        simp [s', Store.unlinking, hjobs, List.count_cons]
        omega
      have hmem : name ∈ s.unlinking := by simp [Store.unlinking, hjobs]
      have hpending := h.opened.pending name (h.unlinking.2 name hmem)
      refine { h with
        db := h.db.withFiles fun span record hrow => h.get?_erase_row hmem (.inl hrow)
        txn := h.txn.withFiles fun span record hrow => h.get?_erase_row hmem (.inr hrow)
        handing := hhanding.symm ▸ h.handing
        flying := hhanding.symm ▸ h.flying
        written := fun name' record generations hreply => ?_
        unlinking := ⟨hunlinking.nodup_iff.mpr h.unlinking.1,
          fun name hname => h.unlinking.2 name (hunlinking.subset hname)⟩ }
      have hreply : .handOff (.written name' record generations) ∈ s.replies :=
        (List.mem_append.mp hreply).resolve_right (by simp)
      obtain ⟨hrewrite, held, hfile, hread⟩ := h.written name' record generations hreply
      refine ⟨hrewrite, held, ?_, hread⟩
      have hne := h.not_flying_of_pending hpending (mem_handing_reply hreply rfl)
      change (s.files.erase name).get? name' = some held
      rw [Table.get?_erase, if_neg hne.symm, hfile]
  · exact h

theorem writeFile (h : StoreInv s l accepted deleted buffered) (fails : Option HandoffFailure) :
    StoreInv (s.writeFile fails) l accepted deleted buffered := by
  rw [Store.writeFile]
  split
  · exact h
  next name held generations hreading =>
    have hname : name ∈ s.handing := mem_handing_reading name held generations hreading
    have hread := h.reading name held generations hreading
    have hreplied : ∀ (s' : Store) (reply : BlockReply), reply.handing = some name →
        reply.unlinking = none →
        s'.jobs = s.jobs → s'.reading = none → s'.replies = s.replies ++ [reply] →
        s'.landed = s.landed → s'.handing.Perm s.handing ∧ s'.unlinking = s.unlinking := by
      intro s' reply hhanding hunlinking hjobs hnone hreplies hlanded
      constructor
      · rw [List.perm_iff_count]
        intro a
        simp [Store.handing, hjobs, hnone, hreplies, hlanded, hreading, hhanding, List.count_cons]
        omega
      · simp [Store.unlinking, hjobs, hreplies, hunlinking]
    dsimp only
    split
    next cause _ =>
      obtain ⟨hperm, hunlinking⟩ := hreplied
        { s with reading := none, replies := s.replies ++ [.handOff (.failed name cause)] }
        (.handOff (.failed name cause)) rfl rfl rfl rfl rfl rfl
      refine { h with
        handing := (hperm.map _).nodup_iff.mpr h.handing
        flying := fun name hname => h.flying name (hperm.subset hname)
        reading := fun _ _ _ heq => by cases heq
        written := fun name' record generations hmem => ?_
        unlinking := hunlinking.symm ▸ h.unlinking }
      exact h.written name' record generations ((List.mem_append.mp hmem).resolve_right (by simp))
    next hfails =>
      let s' : Store := { s with
        reading := none
        files := s.files.insert name held
        replies := s.replies ++ [.handOff (.written name ⟨name.rewrite, held.length⟩ generations)] }
      obtain ⟨hperm, hunlinking⟩ := hreplied s'
        (.handOff (.written name ⟨name.rewrite, held.length⟩ generations)) rfl rfl rfl rfl rfl rfl
      have hother : ∀ other, other ≠ name → (s.files.insert name held).get? other =
          s.files.get? other :=
        fun other hne => Table.get?_insert_of_ne _ _ hne.symm
      refine { h with
        db := h.db.withFiles fun span record hrow => h.get?_insert_row hreading held (.inl hrow)
        txn := h.txn.withFiles fun span record hrow => h.get?_insert_row hreading held (.inr hrow)
        handing := (hperm.map _).nodup_iff.mpr h.handing
        flying := fun name hname => h.flying name (hperm.subset hname)
        reading := fun _ _ _ heq => by cases heq
        written := fun name' record generations' hmem => ?_
        unlinking := hunlinking.symm ▸ h.unlinking }
      rcases List.mem_append.mp hmem with hold | hnew
      · obtain ⟨hrewrite, held', hfile, hread'⟩ := h.written name' record generations' hold
        refine ⟨hrewrite, held', (hother name' ?_).trans hfile, hread'⟩
        rintro rfl
        have hnodup := h.handing
        rw [Store.handing, List.append_assoc] at hnodup
        have hin : name' ∈ s.replies.filterMap BlockReply.handing := mem_replies_handing hold rfl
        exact ne_of_nodup_append hnodup
          (List.mem_append_right _ (by simp [hreading] : name' ∈ (s.reading.map Prod.fst).toList))
          (List.mem_append_left _ hin) rfl
      · cases List.mem_singleton.mp hnew
        exact ⟨(h.flying name hname).1, held, Table.get?_insert_self _ _ _, hread⟩

/-! ### Replies -/

theorem handOff_failed (h : StoreInv s l accepted deleted buffered) {name : BlockName}
    {cause : HandoffFailure} {replies : List BlockReply}
    (hreplies : s.replies = .handOff (.failed name cause) :: replies) :
    StoreInv { s with replies, handoffs := s.handoffs.fail name.spanKey cause } l accepted deleted
      buffered := by
  let s' : Store := { s with replies, handoffs := s.handoffs.fail name.spanKey cause }
  have hperm : s.handing.Perm (name :: s'.handing) := by
    rw [List.perm_iff_count]
    intro a
    simp [s', Store.handing, hreplies, List.count_cons]
    omega
  have hnodup := (hperm.map BlockName.spanKey).nodup_iff.mp h.handing
  rw [List.map_cons, List.nodup_cons] at hnodup
  have hunlinking : s'.unlinking = s.unlinking := by
    simp [s', Store.unlinking, hreplies, List.filterMap_cons]
  have hsubset : (s.handoffs.fail name.spanKey cause).inFlight ⊆ s.handoffs.inFlight :=
    Finset.erase_subset _ _
  refine { h with
    handing := hnodup.2
    flying := fun other hother => ?_
    drained := fun span hspan => h.drained span (hsubset hspan)
    due := fun span hspan => ⟨fun hmem => (h.due span hspan).1 (hsubset hmem), (h.due span hspan).2⟩
    unfiled := fun span hspan =>
      h.unfiled span (hspan.imp_right (Or.imp_right fun hmem => hsubset hmem))
    written := fun name' record generations hmem =>
      h.written name' record generations (hreplies ▸ List.mem_cons_of_mem _ hmem)
    unlinking := hunlinking.symm ▸ h.unlinking }
  obtain ⟨hrewrite, hflying⟩ := h.flying other (hperm.symm.subset (List.mem_cons_of_mem _ hother))
  refine ⟨hrewrite, Finset.mem_erase.mpr ⟨fun heq => hnodup.1 ?_, hflying⟩⟩
  rw [← heq]
  exact List.mem_map_of_mem hother

/-- When a durable file's row goes into the commit, its span has no row, and the file holds exactly
the chunks of the span. -/
theorem whole_span (h : StoreInv s l accepted deleted buffered) {name : BlockName}
    {record : BlockRecord} {generations : Table ℕ ℕ}
    (hreply : .handOff (.written name record generations) ∈ s.replies) :
    ∃ held, s.files.get? name = some held ∧ held = spanChunks s.writer.openTxn.chunks name.spanKey ∧
      s.writer.openTxn.blocks.get? name.spanKey = none ∧
      HeldFrom s.writer.openTxn l name.spanKey generations.keys held := by
  obtain ⟨-, held, hfile, hwhole, hheld⟩ := h.written name record generations hreply
  have hname := mem_handing_reply hreply rfl
  have hlanded := h.not_landed (List.mem_append_right _ (mem_replies_handing hreply rfl))
  refine ⟨held, hfile, ?_, ?_, hheld.stored, ?_⟩
  · rw [hwhole]
    refine (spanChunks_congr fun key hkey => h.opened.chunks key ?_).symm
    rwa [hkey]
  · rw [h.opened.row _ hlanded]
    exact (h.unfiled _ (.inr (.inr (h.flying _ hname).2))).row
  · rw [h.writer.txn.series]
    exact hheld.holder

theorem handOff_written (h : StoreInv s l accepted deleted buffered) {name : BlockName}
    {record : BlockRecord} {generations : Table ℕ ℕ} {replies : List BlockReply}
    (hreplies : s.replies = .handOff (.written name record generations) :: replies) :
    ∃ t, commitHandoff s.writer.openTxn name record generations = some t ∧
      StoreInv { s with replies, writer := { s.writer with txn := some t }, landed :=
        s.landed ++ [name] } l accepted deleted buffered := by
  have hreply : .handOff (.written name record generations) ∈ s.replies :=
    hreplies ▸ List.mem_cons_self
  have hname := mem_handing_reply hreply rfl
  obtain ⟨held, hfile, hwhole, hnone, hheld⟩ := h.whole_span hreply
  obtain ⟨hrewrite, -⟩ := h.written name record generations hreply
  have hflying := (h.flying name hname).2
  have hunfiled := h.unfiled _ (.inr (.inr hflying))
  have hcommit : ∃ t, commitHandoff s.writer.openTxn name record generations = some t := by
    rw [commitHandoff, if_neg (by simp [Table.contains, hnone])]
    exact ⟨_, rfl⟩
  obtain ⟨t, hcommit⟩ := hcommit
  obtain ⟨-, ht⟩ := commitHandoff_eq_some hcommit
  have hsame : SameLedger s.writer.db t := by
    obtain ⟨hseries, hkey, hlog, htails, hmeta⟩ := h.writer.txn
    rw [ht]
    exact ⟨hseries, hkey, hlog, htails, hmeta⟩
  refine ⟨t, hcommit, ?_⟩
  let s' : Store := { s with
    replies, writer := { s.writer with txn := some t }, landed := s.landed ++ [name] }
  have hperm : s'.handing.Perm s.handing := by
    rw [List.perm_iff_count]
    intro a
    simp [s', Store.handing, hreplies, List.count_cons]
    omega
  have hunlinking : s'.unlinking = s.unlinking := by
    simp [s', Store.unlinking, hreplies, List.filterMap_cons]
  have hpending : t.pendingUnlinks = s.writer.openTxn.pendingUnlinks := by rw [ht]
  refine { h with
    writer := h.writer.withTxn hsame
    txn := ?_
    opened := ?_
    handing := (hperm.map _).nodup_iff.mpr h.handing
    flying := fun name hname => h.flying name (hperm.subset hname)
    written := fun name' record generations hmem =>
      h.written name' record generations (hreplies ▸ List.mem_cons_of_mem _ hmem)
    unlinking := ⟨hunlinking.symm ▸ h.unlinking.1, fun other hother => ?_⟩ }
  · change DiskInv t s.files l deleted
    have hspan : name = handoffName name.spanKey := h.eq_handoffName hname
    rw [hspan] at hcommit hfile
    refine h.txn.handOff hcommit hrewrite ?_ hfile hwhole hheld fun other hother =>
      hunfiled.pending other (h.opened.pending other hother)
    exact (h.drained _ hflying).congr h.writer.txn.series (by rw [h.writer.txn.meta])
  · change OpenTxn s.writer.db t ((s.landed ++ [name]).map BlockName.spanKey)
    obtain ⟨hother, -⟩ := get?_foldl_holders generations.entries
      s.writer.openTxn.blockGenerations name.spanKey
    have hout : ∀ span, span ∉ (s.landed ++ [name]).map BlockName.spanKey →
        span ∉ s.landed.map BlockName.spanKey ∧ span ≠ name.spanKey := by
      intro span hspan
      rw [List.map_append, List.mem_append, not_or] at hspan
      exact ⟨hspan.1, fun heq => hspan.2 (by simp [heq])⟩
    subst ht
    refine ⟨fun span hspan => ?_, fun key hkey => ?_,
      fun span hspan generation => ?_, h.opened.pending⟩
    · obtain ⟨hspan, hne⟩ := hout span hspan
      exact (Table.get?_insert_of_ne _ _ hne.symm).trans (h.opened.row span hspan)
    · obtain ⟨hspan, hne⟩ := hout key.spanKey hkey
      exact ((get?_chunks_ne _ _ key).trans (if_neg hne)).trans (h.opened.chunks key hspan)
    · obtain ⟨hspan, hne⟩ := hout span hspan
      exact (hother span hne generation).trans (h.opened.holders span hspan generation)
  · rw [hunlinking] at hother
    change t.pendingUnlinks.get? other = some ()
    rw [hpending]
    exact h.unlinking.2 other hother

theorem unlinked (h : StoreInv s l accepted deleted buffered) {name : BlockName}
    {replies : List BlockReply} (hreplies : s.replies = .unlinked name :: replies) :
    StoreInv (Store.unlinked { s with replies } name) l accepted deleted buffered := by
  let t : Tables := { s.writer.openTxn with
    pendingUnlinks := s.writer.openTxn.pendingUnlinks.erase name }
  have hpending : ∀ other, t.pendingUnlinks.get? other = some () →
      s.writer.openTxn.pendingUnlinks.get? other = some () := by
    intro other hother
    change (s.writer.openTxn.pendingUnlinks.erase name).get? other = some () at hother
    rw [Table.get?_erase] at hother
    split_ifs at hother
    exact hother
  have hsame : SameLedger s.writer.db t := by
    obtain ⟨hseries, hkey, hlog, htails, hmeta⟩ := h.writer.txn
    exact ⟨hseries, hkey, hlog, htails, hmeta⟩
  have hhanding : Store.handing { s with replies } = s.handing := by
    simp [Store.handing, hreplies, List.filterMap_cons]
  have hperm : s.unlinking.Perm (name :: Store.unlinking { s with replies }) := by
    simp [Store.unlinking, hreplies]
  have hnodup := hperm.nodup_iff.mp h.unlinking.1
  rw [List.nodup_cons] at hnodup
  refine { h with
    writer := h.writer.withTxn hsame
    txn := h.txn.congr rfl rfl rfl rfl rfl hpending
    opened := ⟨h.opened.row, h.opened.chunks, h.opened.holders,
      fun other hother => h.opened.pending other (hpending other hother)⟩
    handing := hhanding.symm ▸ h.handing
    flying := hhanding.symm ▸ h.flying
    written := fun name' record generations hmem =>
      h.written name' record generations (hreplies ▸ List.mem_cons_of_mem _ hmem)
    unlinking := ⟨hnodup.2, fun other hother => ?_⟩ }
  change (s.writer.openTxn.pendingUnlinks.erase name).get? other = some ()
  rw [Table.get?_erase, if_neg]
  · exact h.unlinking.2 other (hperm.symm.subset (List.mem_cons_of_mem _ hother))
  · rintro rfl
    exact hnodup.1 hother

/-- No reply stops the store: no span gets a second row. -/
theorem handle (h : StoreInv s l accepted deleted buffered) :
    ∃ s', s.handle = some s' ∧ StoreInv s' l accepted deleted buffered := by
  rw [Store.handle]
  split
  · exact ⟨s, rfl, h⟩
  next outcome replies hreplies =>
    cases outcome with
    | failed name cause => exact ⟨_, rfl, h.handOff_failed hreplies⟩
    | written name record generations =>
        obtain ⟨t, hcommit, hs'⟩ := h.handOff_written hreplies
        refine ⟨_, ?_, hs'⟩
        change (commitHandoff s.writer.openTxn name record generations).bind _ = _
        rw [hcommit]
        rfl
  next name replies hreplies => exact ⟨_, rfl, h.unlinked hreplies⟩

end StoreInv

end MonitoringAgent.HubStore

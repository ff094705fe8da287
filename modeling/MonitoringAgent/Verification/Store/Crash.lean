import MonitoringAgent.Verification.Store.Handoff

/-! # What a crash leaves, and what the open makes of it

Every file on disk is named by its span's row, waits to be unlinked, or is a copy of chunks still in
redb: the open after a crash refuses only a copy whose chunks retention deleted before the span was
handed over. -/

namespace MonitoringAgent.HubStore

open MonitoringAgent.Library

/-! ### Files on disk -/

/-- The file a reply says was written. -/
def BlockReply.writing : BlockReply → Option BlockName
  | .handOff (.written name _ _) => some name
  | .handOff (.failed _ _) | .unlinked _ => none

/-- The file is the one its span's row names. -/
def Named (t : Tables) (name : BlockName) : Prop :=
  ∃ record, t.blocks.get? name.spanKey = some record ∧ record.rewrite = name.rewrite

/-- A running store's files: a row's, one waiting to be unlinked, or one whose row is on its way. -/
structure FilesInv (s : Store) : Prop where
  file : ∀ name held, s.files.get? name = some held →
    Named s.writer.db name ∨ s.writer.openTxn.pendingUnlinks.get? name = some () ∨
      name ∈ s.replies.filterMap BlockReply.writing ++ s.landed
  unlinked : ∀ name, .unlinked name ∈ s.replies → s.files.get? name = none
  landed : ∀ name ∈ s.landed, (∃ record, s.writer.openTxn.blocks.get? name.spanKey = some record) ∧
    s.files.get? name = some (spanChunks s.writer.db.chunks name.spanKey)

/-- A copy of a closed span's chunks: the span has no row, and the tails hold nothing of it. -/
structure Copy (t : Tables) (name : BlockName) (held : Held) : Prop where
  row : t.blocks.get? name.spanKey = none
  closed : SpanStart.isClosed name.span name.tier t.meta.clock = true
  tails : ∀ c, (Core.new t.meta.clock t.meta.nextId).loadHead t = .ok c →
    ∀ key e, c.head.get? key = some e → e.state.holdsOpen name.tier name.span = false
  whole : held = spanChunks t.chunks name.spanKey

/-- A stopped store's files. -/
def Explained (t : Tables) (files : Files) : Prop :=
  ∀ name held, files.get? name = some held →
    Named t name ∨ t.pendingUnlinks.get? name = some () ∨ Copy t name held

namespace FilesInv

variable {s s' : Store} {l : Ledger} {accepted : List (SeriesKey × RawPoint)}
  {deleted : List (SeriesId × Sealed)} {buffered : ℕ}

/-- The head and the block writer's queue are no concern of the files. -/
theorem congr (hf : FilesInv s) (hdb : s'.writer.db = s.writer.db)
    (htxn : s'.writer.openTxn = s.writer.openTxn) (hfiles : s'.files = s.files)
    (hwriting : s'.replies.filterMap BlockReply.writing =
      s.replies.filterMap BlockReply.writing)
    (hunlinked : ∀ name, .unlinked name ∈ s'.replies → .unlinked name ∈ s.replies)
    (hlanded : s'.landed = s.landed) : FilesInv s' where
  file := by
    rw [hdb, htxn, hfiles, hwriting, hlanded]
    exact hf.file
  unlinked name hname := by
    rw [hfiles]
    exact hf.unlinked name (hunlinked name hname)
  landed := by
    rw [hdb, htxn, hfiles, hlanded]
    exact hf.landed

/-! ### The block writer -/

theorem takeJob (hf : FilesInv s) (hs : StoreInv s l accepted deleted buffered) (fails : Bool) :
    FilesInv (s.takeJob fails) := by
  rw [Store.takeJob]
  split
  next name jobs hreading hjobs =>
    split_ifs
    · refine hf.congr rfl rfl rfl ?_ (fun other hother => ?_) rfl
      · simp [BlockReply.writing]
      · simpa using hother
    · exact hf.congr rfl rfl rfl rfl (fun _ hother => hother) rfl
  next name jobs hreading hjobs =>
    split_ifs
    · exact hf.congr rfl rfl rfl rfl (fun _ hother => hother) rfl
    · have hmem : name ∈ s.unlinking := by simp [Store.unlinking, hjobs]
      have hpending := hs.opened.pending name (hs.unlinking.2 name hmem)
      have hother : ∀ other held, (s.files.erase name).get? other = some held →
          s.files.get? other = some held := by
        intro other held hfile
        rw [Table.get?_erase] at hfile
        split_ifs at hfile
        exact hfile
      refine ⟨fun other held hfile => ?_, fun other hreply => ?_, fun other hlanded => ?_⟩
      · simpa [BlockReply.writing] using hf.file other held (hother other held hfile)
      · change (s.files.erase name).get? other = none
        rw [Table.get?_erase]
        split_ifs with heq
        · rfl
        · refine hf.unlinked other ((List.mem_append.mp hreply).resolve_right ?_)
          simpa using heq
      · obtain ⟨hrow, hfile⟩ := hf.landed other hlanded
        have hne := hs.not_flying_of_pending hpending (List.mem_append_right _ hlanded)
        refine ⟨hrow, ?_⟩
        change (s.files.erase name).get? other = _
        rw [Table.get?_erase, if_neg hne.symm, hfile]
  · exact hf

theorem writeFile (hf : FilesInv s) (hs : StoreInv s l accepted deleted buffered)
    (fails : Option HandoffFailure) : FilesInv (s.writeFile fails) := by
  rw [Store.writeFile]
  split
  · exact hf
  next name held generations hreading =>
    dsimp only
    split
    next cause _ =>
      refine hf.congr rfl rfl rfl ?_ (fun other hother => ?_) rfl
      · simp [BlockReply.writing]
      · simpa using hother
    next hfails =>
      have hname : name ∈ s.handing := StoreInv.mem_handing_reading name held generations hreading
      have hnot := hs.not_landed (List.mem_append_left _ (List.mem_append_right _
        (by simp [hreading] : name ∈ (s.reading.map Prod.fst).toList)))
      refine ⟨fun other content hfile => ?_, fun other hreply => ?_, fun other hlanded => ?_⟩
      · change (s.files.insert name held).get? other = some content at hfile
        rw [Table.get?_insert] at hfile
        split_ifs at hfile with heq
        · subst heq
          exact .inr (.inr (by simp [BlockReply.writing]))
        · refine (hf.file other content hfile).imp_right (Or.imp_right fun hmem => ?_)
          rw [List.filterMap_append, List.append_assoc, List.mem_append]
          exact (List.mem_append.mp hmem).imp_right fun h => List.mem_append_right _ h
      · have hreply : .unlinked other ∈ s.replies :=
          (List.mem_append.mp hreply).resolve_right (by simp)
        have hpending := hs.opened.pending other (hs.unlinking.2 other
          (List.mem_append_right _ (List.mem_filterMap.mpr ⟨_, hreply, rfl⟩)))
        have hne := hs.not_flying_of_pending hpending hname
        exact (Table.get?_insert_of_ne _ _ hne.symm).trans (hf.unlinked other hreply)
      · obtain ⟨hrow, hfile⟩ := hf.landed other hlanded
        refine ⟨hrow, (Table.get?_insert_of_ne _ _ ?_).trans hfile⟩
        rintro rfl
        exact hnot (List.mem_map_of_mem hlanded)

/-! ### Replies -/

theorem handOff_failed (hf : FilesInv s) {name : BlockName} {cause : HandoffFailure}
    {replies : List BlockReply} (hreplies : s.replies = .handOff (.failed name cause) :: replies) :
    FilesInv { s with replies, handoffs := s.handoffs.fail name.spanKey cause } :=
  hf.congr rfl rfl rfl (by rw [hreplies]; rfl)
    (fun _ hother => hreplies ▸ List.mem_cons_of_mem _ hother) rfl

theorem handOff_written (hf : FilesInv s) (hs : StoreInv s l accepted deleted buffered)
    {name : BlockName} {record : BlockRecord} {generations : Table ℕ ℕ} {replies : List BlockReply}
    (hreplies : s.replies = .handOff (.written name record generations) :: replies) {t : Tables}
    (hcommit : commitHandoff s.writer.openTxn name record generations = some t) :
    FilesInv { s with replies, writer := { s.writer with txn := some t }, landed :=
      s.landed ++ [name] } := by
  obtain ⟨-, rfl⟩ := commitHandoff_eq_some hcommit
  have hreply : .handOff (.written name record generations) ∈ s.replies :=
    hreplies ▸ List.mem_cons_self
  refine ⟨fun other held hfile => ?_, fun other hother => ?_, fun other hother => ?_⟩
  · refine (hf.file other held hfile).imp_right (Or.imp_right fun hmem => ?_)
    rw [hreplies, List.filterMap_cons] at hmem
    simp only [BlockReply.writing, List.cons_append, List.mem_cons, List.mem_append] at hmem ⊢
    tauto
  · exact hf.unlinked other (hreplies ▸ List.mem_cons_of_mem _ hother)
  · obtain hother | hother := List.mem_append.mp hother
    · obtain ⟨⟨old, hrow⟩, hfile⟩ := hf.landed other hother
      refine ⟨?_, hfile⟩
      change ∃ record', (s.writer.openTxn.blocks.insert name.spanKey record).get? other.spanKey =
        some record'
      rw [Table.get?_insert]
      split_ifs
      · exact ⟨record, rfl⟩
      · exact ⟨old, hrow⟩
    · obtain rfl := List.mem_singleton.mp hother
      obtain ⟨-, held, hfile, hread⟩ := hs.written other record generations hreply
      exact ⟨⟨record, Table.get?_insert_self _ _ _⟩, hread.whole ▸ hfile⟩

theorem unlinked_reply (hf : FilesInv s) {name : BlockName} {replies : List BlockReply}
    (hreplies : s.replies = .unlinked name :: replies) :
    FilesInv (Store.unlinked { s with replies } name) := by
  have hgone := hf.unlinked name (hreplies ▸ List.mem_cons_self)
  have hwriting : replies.filterMap BlockReply.writing =
      s.replies.filterMap BlockReply.writing := by
    rw [hreplies]
    rfl
  refine ⟨fun other held hfile => ?_, fun other hother => ?_, hf.landed⟩
  · refine (hf.file other held hfile).imp_right (Or.imp (fun hpending => ?_) fun hmem => ?_)
    · change (s.writer.openTxn.pendingUnlinks.erase name).get? other = some ()
      rw [Table.get?_erase, if_neg]
      · exact hpending
      · rintro rfl
        exact absurd (hgone.symm.trans hfile) (by simp)
    · exact hwriting ▸ hmem
  · exact hf.unlinked other (hreplies ▸ List.mem_cons_of_mem _ hother)

theorem handle (hf : FilesInv s) (hs : StoreInv s l accepted deleted buffered)
    (hhandle : s.handle = some s') : FilesInv s' := by
  rw [Store.handle] at hhandle
  split at hhandle
  · obtain rfl := Option.some.inj hhandle
    exact hf
  next outcome replies hreplies =>
    cases outcome with
    | failed name cause =>
        obtain rfl := Option.some.inj hhandle
        exact hf.handOff_failed hreplies
    | written name record generations =>
        obtain ⟨t, hcommit, hs'⟩ := Option.bind_eq_some_iff.mp hhandle
        obtain rfl := Option.some.inj hs'
        exact hf.handOff_written hs hreplies hcommit
  next name replies hreplies =>
    obtain rfl := Option.some.inj hhandle
    exact hf.unlinked_reply hreplies

/-! ### The writer -/

theorem append_openTxn {w w' : Writer} {system : List UInt8} {generation : ℕ}
    {points : List IncomingPoint} {systemNow : ℕ} {report : AppendReport}
    (h : w.append system generation points systemNow = .ok (report, w')) :
    w'.openTxn = w.openTxn := by
  rw [Writer.append] at h
  obtain ⟨appended, -, h⟩ := except_bind_eq_ok.mp h
  obtain ⟨-, rfl⟩ := Prod.mk.inj (Except.ok.inj h)
  rfl

theorem append (hf : FilesInv s) {system : List UInt8} {generation : ℕ}
    {points : List IncomingPoint} {systemNow : ℕ} {report : AppendReport} {w : Writer}
    (happend : s.writer.append system generation points systemNow = .ok (report, w)) :
    FilesInv { s with writer := w } :=
  hf.congr (Writer.append_db happend) (append_openTxn happend) rfl rfl (fun _ hother => hother) rfl

theorem sweep (hf : FilesInv s) {systemNow : ℕ} (hsweep : s.sweep systemNow = .ok s') :
    FilesInv s' := by
  rw [Store.sweep] at hsweep
  obtain ⟨handoffs, -, hs'⟩ := except_bind_eq_ok.mp hsweep
  cases hs'
  exact hf.congr rfl rfl rfl rfl (fun _ hother => hother) rfl

theorem beginPass (hf : FilesInv s) (systemNow : ℕ) (reading : Duration) :
    FilesInv (s.beginPass systemNow reading) := by
  rw [Store.beginPass]
  split
  · exact hf
  · exact hf.congr rfl rfl rfl rfl (fun _ hother => hother) rfl

/-- A row stays the one its file is named by, unless the commit's step retires it. -/
theorem row_commit (hs : StoreInv s l accepted deleted buffered) (flush : Flush) {span : SpanKey}
    {record : BlockRecord} (hrow : s.writer.openTxn.blocks.get? span = some record) :
    (s.writeInterval flush).tables.blocks.get? span = some record ∨
      ∃ name ∈ (s.writeInterval flush).retired, name.spanKey = span ∧
        name.rewrite = record.rewrite := by
  have hstep := s.commit_passStep flush
  have hpass : (s.passTables flush).blocks.get? span = some record := by
    change (s.writer.tablesAfter flush).blocks.get? span = _
    rw [(s.writer.tablesAfter_files flush).1, hrow]
  by_cases hretired : span ∈ (s.writeInterval flush).retired.map BlockName.spanKey
  · obtain ⟨name, hname, rfl⟩ := List.mem_map.mp hretired
    obtain ⟨record', hrow', hrewrite⟩ := (hs.queued_pass flush).row name
      ((hstep.queue (hs.queued_pass flush)).2.subset hname)
    obtain rfl := Option.some.inj (hpass.symm.trans hrow')
    exact .inr ⟨name, hname, rfl, hrewrite.symm⟩
  · rw [hstep.row, if_neg hretired]
    exact .inl hpass

theorem commit (hf : FilesInv s) (hs : StoreInv s l accepted deleted buffered) (flush : Flush) :
    FilesInv (s.commit flush) := by
  have hwriter := s.commit_writer flush
  have hdb : (s.commit flush).writer.db = (s.writeInterval flush).tables := by rw [hwriter]
  have htxn : (s.commit flush).writer.openTxn = (s.writeInterval flush).tables := by
    rw [Writer.openTxn, hdb, hwriter]
    have hnone : (s.writer.commit flush).txn = none := by
      rw [Writer.commit_eq, Writer.afterCommit_txn]
    simp [hnone]
  have hstep := s.commit_passStep flush
  -- A row of the open transaction's that names the file names it still, or the file was just
  -- retired.
  have hrow : ∀ name record, s.writer.openTxn.blocks.get? name.spanKey = some record →
      record.rewrite = name.rewrite → Named (s.writeInterval flush).tables name ∨
        (s.writeInterval flush).tables.pendingUnlinks.get? name = some () := by
    intro name record hrow hrewrite
    obtain hkept | ⟨other, hother, hspan, heq⟩ := row_commit hs flush hrow
    · exact .inl ⟨record, hkept, hrewrite⟩
    · obtain rfl : other = name := by
        obtain ⟨tier, span, rewrite⟩ := name
        obtain ⟨tier', span', rewrite'⟩ := other
        obtain ⟨rfl, rfl⟩ := SpanKey.mk.inj hspan
        exact congrArg _ (heq.trans hrewrite)
      exact .inr ((hstep.pending other).trans (if_pos hother))
  refine ⟨fun name held hfile => ?_, hf.unlinked, fun name hname => absurd hname List.not_mem_nil⟩
  rw [hdb, htxn]
  obtain ⟨record, hnamed, hrewrite⟩ | hpending | hwritten := hf.file name held hfile
  · rw [← hs.opened.row _ (hs.not_landed_of_row hnamed)] at hnamed
    exact (hrow name record hnamed hrewrite).imp_right .inl
  · refine .inr (.inl ?_)
    rw [hstep.pending]
    split_ifs
    · rfl
    · change (s.writer.tablesAfter flush).pendingUnlinks.get? name = some ()
      rw [(s.writer.tablesAfter_files flush).2.2]
      exact hpending
  · obtain hreply | hlanded := List.mem_append.mp hwritten
    · exact .inr (.inr (List.mem_append_left _ hreply))
    · obtain ⟨record, hlandedRow⟩ := (hf.landed name hlanded).1
      have hzero := (hs.flying name (List.mem_append_right _ hlanded)).1
      have hrewrite := (hs.txn.row _ record hlandedRow).rewrite
      exact (hrow name record hlandedRow (hrewrite.trans hzero.symm)).imp_right .inl

/-! ### Stops and opens -/

/-- A file whose row is on its way is still being handed off. -/
theorem handing_of_written (hf : FilesInv s) (hs : StoreInv s l accepted deleted buffered)
    {name : BlockName} (hname : name ∈ s.replies.filterMap BlockReply.writing ++ s.landed) :
    name ∈ s.handing ∧ s.files.get? name = some (spanChunks s.writer.db.chunks name.spanKey) := by
  obtain hreply | hlanded := List.mem_append.mp hname
  · obtain ⟨reply, hmem, hwriting⟩ := List.mem_filterMap.mp hreply
    cases reply with
    | unlinked other => cases hwriting
    | handOff outcome =>
        cases outcome with
        | failed other cause => cases hwriting
        | written other record generations =>
            obtain rfl := Option.some.inj hwriting
            obtain ⟨-, held, hfile, hread⟩ := hs.written other record generations hmem
            exact ⟨StoreInv.mem_handing_reply hmem rfl, hread.whole ▸ hfile⟩
  · exact ⟨List.mem_append_right _ hlanded, (hf.landed name hlanded).2⟩

theorem copy_of_written (hf : FilesInv s) (hs : StoreInv s l accepted deleted buffered)
    {name : BlockName} (hname : name ∈ s.replies.filterMap BlockReply.writing ++ s.landed)
    {held : Held} (hfile : s.files.get? name = some held) : Copy s.writer.db name held := by
  obtain ⟨hhanding, hwhole⟩ := hf.handing_of_written hs hname
  have hflying := (hs.flying name hhanding).2
  have hdrained := hs.drained _ hflying
  exact ⟨(hs.unfiled _ (.inr (.inr hflying))).row, hdrained.closed,
    fun c hload key e hget => hdrained.not_holdsOpen hs.writer.file hload hget,
    Option.some.inj (hfile.symm.trans hwhole)⟩

theorem explained (hf : FilesInv s) (hs : StoreInv s l accepted deleted buffered) :
    Explained s.writer.db s.files := by
  intro name held hfile
  refine (hf.file name held hfile).imp_right (Or.imp (hs.opened.pending name) fun hname => ?_)
  exact hf.copy_of_written hs hname hfile

end FilesInv

/-! ### The plan -/

/-- A file on disk that no row names, and that doesn't wait to be unlinked. -/
structure Orphan (t : Tables) (files : Files) (name : BlockName) : Prop where
  file : files.contains name = true
  row : ¬Named t name
  pending : t.pendingUnlinks.get? name = none

section Plan

variable {t : Tables} {files : Files} {l : Ledger} {deleted : List (SeriesId × Sealed)}

theorem named_iff {name : BlockName} {hubNow : ℕ} :
    (catalogued t hubNow).rows.get? name.spanKey = some name.rewrite ↔ Named t name := by
  rw [catalogued, Table.get?_mapValues, Option.map_eq_some_iff]
  rfl

theorem orphan_iff {name : BlockName} {hubNow : ℕ} :
    name ∈ orphansOf files.keys (catalogued t hubNow) ↔ Orphan t files name := by
  rw [mem_orphansOf, ne_eq, named_iff, Table.mem_keys, ← Table.contains_iff]
  have hpending : name ∉ (catalogued t hubNow).pending ↔ t.pendingUnlinks.get? name = none := by
    rw [catalogued, Table.mem_keys, Option.eq_none_iff_forall_ne_some, not_exists]
  rw [hpending]
  exact ⟨fun ⟨hfile, hnone, hrow⟩ => ⟨hfile, hrow, hnone⟩,
    fun ⟨hfile, hrow, hnone⟩ => ⟨hfile, hnone, hrow⟩⟩

theorem Explained.copy (h : Explained t files) {name : BlockName} (ho : Orphan t files name) :
    ∃ held, files.get? name = some held ∧ Copy t name held := by
  obtain ⟨held, hfile⟩ := Option.isSome_iff_exists.mp ho.file
  obtain hrow | hpending | hcopy := h name held hfile
  · exact absurd hrow ho.row
  · exact absurd (ho.pending.symm.trans hpending) (by simp)
  · exact ⟨held, hfile, hcopy⟩

/-- An orphan is redundant exactly if its span still has chunks in redb. -/
theorem Explained.redundant_eq (h : Explained t files) {c : Core}
    (hload : (Core.new t.meta.clock t.meta.nextId).loadHead t = .ok c) {name : BlockName}
    (ho : Orphan t files name) :
    redundant files.keys (catalogued t t.meta.clock)
      (fun tier span => Except.ok (ε := Empty) (evidence t c.head tier span)) name =
        .ok (decide (spanChunks t.chunks name.spanKey ≠ [])) := by
  obtain ⟨held, -, hrow, hclosed, htails, -⟩ := h.copy ho
  have hnone : (catalogued t t.meta.clock).rows.get? name.spanKey = none := by
    rw [catalogued, Table.get?_mapValues, hrow]
    rfl
  have hany : (c.head.entries.any fun e => e.2.state.holdsOpen name.tier name.span) = false := by
    rw [List.any_eq_false]
    rintro ⟨key, e⟩ hmem
    rw [htails c hload key e (Table.get?_eq_some_iff.mpr hmem)]
    simp
  have hclosed : SpanStart.isClosed name.span name.tier (catalogued t t.meta.clock).hubNow =
    true := hclosed
  rw [redundant, hnone]
  dsimp only
  rw [if_pos hclosed]
  refine congrArg Except.ok (decide_eq_decide.mpr ?_)
  rw [evidence, hany]
  change (⟨.allSealed, if spanChunks t.chunks name.spanKey = [] then .absent
    else .present⟩ : SpanEvidence) = _ ↔ _
  split_ifs with hnil
  · simp [hnil]
  · simp [hnil]

/-- A copy the plan keeps or refuses. -/
def judged (t : Tables) (name : BlockName) : Except (Refusal Empty) BlockName :=
  if spanChunks t.chunks name.spanKey ≠ [] then .ok name else .error (.unexplained name)

theorem reconcile_bind {E : Type} (files : List BlockName) (cat : Catalogued)
    (evidence : Tier → SpanStart → Except E SpanEvidence) :
    ∃ finish : List BlockName → Reconciliation, reconcile files cat evidence =
      ((orphansOf files cat).mapM fun orphan => do
        if ← redundant files cat evidence orphan then .ok orphan
          else .error (.unexplained orphan)) >>=
      fun copies => .ok (finish copies) :=
  ⟨_, rfl⟩

theorem reconcileAtOpen_bind (t : Tables) (files : Files)
    (head : Table SeriesKey HeadEntry) (hubNow : ℕ) :
    ∃ finish : Reconciliation → Reconciled, reconcileAtOpen t files head hubNow =
      reconcile files.keys (catalogued t hubNow)
        (fun tier span => .ok (evidence t head tier span)) >>=
      fun plan => .ok (finish plan) :=
  ⟨_, rfl⟩

/-- The open of a directory whose files are explained judges each orphan by its span's chunks. -/
theorem Explained.reconcileAtOpen_eq (h : Explained t files) {c : Core}
    (hload : (Core.new t.meta.clock t.meta.nextId).loadHead t = .ok c) :
    ∃ finish : List BlockName → Reconciled, reconcileAtOpen t files c.head t.meta.clock =
      (orphansOf files.keys (catalogued t t.meta.clock)).mapM (judged t) >>= fun copies =>
        .ok (finish copies) := by
  obtain ⟨finish, hplan⟩ := reconcile_bind files.keys (catalogued t t.meta.clock)
    fun tier span => Except.ok (ε := Empty) (evidence t c.head tier span)
  obtain ⟨finishOpen, hopen⟩ := reconcileAtOpen_bind t files c.head t.meta.clock
  refine ⟨fun copies => finishOpen (finish copies), ?_⟩
  rw [hopen, hplan, except_mapM_congr (g := judged t) fun name hname => ?_]
  · cases (orphansOf files.keys (catalogued t t.meta.clock)).mapM (judged t) with
    | error e => rfl
    | ok copies => rfl
  · rw [h.redundant_eq hload (orphan_iff.mp hname), except_ok_bind, judged]
    simp only [decide_eq_true_eq]

/-- The open of a directory whose files are explained: it ends well, or refuses a copy whose chunks
are gone. -/
theorem Explained.open_or_refuse (h : Explained t files) {c : Core}
    (hload : (Core.new t.meta.clock t.meta.nextId).loadHead t = .ok c) :
    ((∀ name, Orphan t files name → spanChunks t.chunks name.spanKey ≠ []) →
      ∃ r, reconcileAtOpen t files c.head t.meta.clock = .ok r) ∧
    ((∃ name, Orphan t files name ∧ spanChunks t.chunks name.spanKey = []) →
      ∃ name, (Orphan t files name ∧ spanChunks t.chunks name.spanKey = []) ∧
        reconcileAtOpen t files c.head t.meta.clock = .error (.unexplained name)) := by
  obtain ⟨finish, heq⟩ := h.reconcileAtOpen_eq hload
  constructor
  · intro hall
    have hcopies : (orphansOf files.keys (catalogued t t.meta.clock)).mapM (judged t) = .ok _ :=
      except_mapM_ok (g := id) fun name hname => if_pos (hall name (orphan_iff.mp hname))
    rw [heq, hcopies]
    exact ⟨_, rfl⟩
  · rintro ⟨name, ho, hnil⟩
    obtain ⟨found, hfound, hemptied, herror⟩ := except_mapM_error
      (f := judged t) (g := .unexplained)
      (P := fun name => spanChunks t.chunks name.spanKey = []) (fun name _ => by
        rw [judged]
        split_ifs with hne
        · exact .inl ⟨hne, name, rfl⟩
        · exact .inr ⟨not_not.mp hne, rfl⟩) ⟨name, orphan_iff.mpr ho, hnil⟩
    refine ⟨found, ⟨orphan_iff.mp hfound, hemptied⟩, ?_⟩
    rw [heq, herror]
    rfl

/-- The block files after an open: those the rows name, each of them readable. -/
structure Reopened (t : Tables) (files : Files) (s : Store) : Prop where
  db : s.writer.db = { t with pendingUnlinks := s.writer.db.pendingUnlinks }
  files : ∀ name held, s.files.get? name = some held ↔ files.get? name = some held ∧ Named t name
  known : ∀ span record, t.blocks.get? span = some record →
    s.files.contains ⟨span.tier, span.span, record.rewrite⟩ = true ∧
      s.known.get? span = some (.readable record.rewrite)

/-- Rows' files are never missing. -/
theorem StoppedInv.known (h : StoppedInv t files l deleted) {head : Table SeriesKey HeadEntry}
    {hubNow : ℕ} {r : Reconciled} (hr : reconcileAtOpen t files head hubNow = .ok r)
    {span : SpanKey} {record : BlockRecord} (hrow : t.blocks.get? span = some record) :
    r.files.contains ⟨span.tier, span.span, record.rewrite⟩ = true ∧
      r.known.get? span = some (.readable record.rewrite) := by
  have hfiled := h.disk.row span record hrow
  obtain ⟨held, hfile, -⟩ := hfiled.file
  have hname : (⟨span.tier, span.span, record.rewrite⟩ : BlockName) = handoffName span := by
    rw [hfiled.rewrite]
    rfl
  have hpending : t.pendingUnlinks.get? (handoffName span) = none := by
    rw [Option.eq_none_iff_forall_ne_some]
    rintro ⟨⟩ hpending
    exact absurd ((h.disk.pending _ hpending).2.2.symm.trans hrow) (by simp)
  have hkept : r.files.get? (handoffName span) = some held := by
    rw [(reconcileAtOpen_eq_ok hr).1, if_neg]
    · exact hfile
    · rintro (hwaits | horphan)
      · exact absurd (hpending.symm.trans hwaits) (by simp)
      · exact (orphan_iff.mp horphan).row ⟨record, hrow, hfiled.rewrite⟩
  have hcontains : r.files.contains ⟨span.tier, span.span, record.rewrite⟩ = true := by
    rw [hname]
    exact Table.contains_iff.mpr ⟨held, hkept⟩
  refine ⟨hcontains, ?_⟩
  rw [reconcileAtOpen] at hr
  obtain ⟨plan, hplan, hr⟩ := except_bind_eq_ok.mp hr
  cases hr
  have hmissing : handoffName span ∉ plan.missing := by
    rw [reconcile] at hplan
    obtain ⟨copies, -, hplan⟩ := except_bind_eq_ok.mp hplan
    cases hplan
    rw [List.mem_filterMap]
    rintro ⟨⟨other, rewrite⟩, hmem, heq⟩
    obtain ⟨hgone, hown⟩ := Option.ite_none_right_eq_some.mp heq
    obtain hown := Option.some.inj hown
    rw [hown] at hgone
    obtain hgone | hgone := hgone
    · exact hgone (Table.mem_keys.mpr ⟨held, hfile⟩)
    · obtain ⟨⟨⟩, hwaits⟩ := Table.mem_keys.mp hgone
      exact absurd (hpending.symm.trans hwaits) (by simp)
  dsimp only at hcontains ⊢
  rw [Table.get?_mapValues, Table.get?_mapValues, hrow]
  dsimp only [Option.map_some]
  rw [if_neg]
  rw [hname]
  rintro (hmem | habsent)
  · exact hmissing hmem
  · exact habsent (hname ▸ hcontains)

theorem StoppedInv.reopened (h : StoppedInv t files l deleted) {policies : Policies}
    {systemNow passNow : ℕ} {reading : Duration} {s : Store}
    (hopen : Store.open t files policies systemNow passNow reading = .ok s) :
    Reopened t files s := by
  obtain ⟨c, r, w, hload, hr, hw, rfl⟩ := Store.open_eq_ok hopen
  obtain ⟨hfiles, ⟨pendingUnlinks, htables⟩, -, -⟩ := reconcileAtOpen_eq_ok hr
  refine ⟨?_, fun name held => ?_, fun span record hrow => h.known hr hrow⟩
  · have hdb : w.db = r.tables := by
      rw [Writer.open] at hw
      obtain ⟨c', -, hw⟩ := except_bind_eq_ok.mp hw
      cases hw
      rfl
    change w.db = { t with pendingUnlinks := w.db.pendingUnlinks }
    rw [hdb, htables]
  · dsimp only
    rw [hfiles]
    split_ifs with hgone
    · refine iff_of_false (by simp) ?_
      rintro ⟨hfile, hnamed⟩
      obtain hpending | horphan := hgone
      · obtain ⟨record, hrow, -⟩ := hnamed
        exact absurd ((h.disk.pending _ hpending).2.2.symm.trans hrow) (by simp)
      · exact (orphan_iff.mp horphan).row hnamed
    · rw [not_or] at hgone
      refine ⟨fun hfile => ⟨hfile, ?_⟩, And.left⟩
      by_contra hnamed
      refine hgone.2 (orphan_iff.mpr ⟨Table.contains_iff.mpr ⟨held, hfile⟩, hnamed, ?_⟩)
      rw [Option.eq_none_iff_forall_ne_some]
      rintro ⟨⟩ hpending
      exact hgone.1 hpending

/-- The open after a stop succeeds exactly when every orphan's span still has chunks in redb. -/
theorem Explained.open_spec (he : Explained t files) (h : StoppedInv t files l deleted)
    (policies : Policies) (systemNow passNow : ℕ) (reading : Duration) :
    ((∀ name, Orphan t files name → spanChunks t.chunks name.spanKey ≠ []) →
      ∃ s, Store.open t files policies systemNow passNow reading = .ok s ∧ Reopened t files s) ∧
    ((∃ name, Orphan t files name ∧ spanChunks t.chunks name.spanKey = []) →
      ∃ name, (Orphan t files name ∧ spanChunks t.chunks name.spanKey = []) ∧
        Store.open t files policies systemNow passNow reading =
          .error (.unexplainedBlock name)) := by
  obtain ⟨c, accepted, hload, -⟩ := h.file.loadHead
  obtain ⟨hends, hrefuses⟩ := he.open_or_refuse hload
  constructor
  · intro hall
    obtain ⟨r, hr⟩ := hends hall
    obtain ⟨-, ⟨pendingUnlinks, htables⟩, -, -⟩ := reconcileAtOpen_eq_ok hr
    have hfile : FileInv r.tables l := h.file.congr
      (by rw [htables]; exact ⟨rfl, rfl, rfl, rfl, rfl, rfl, rfl⟩)
    obtain ⟨c', hrecover, -⟩ := hfile.recover
    have hload' : (Core.new r.tables.meta.clock r.tables.meta.nextId).loadHead r.tables =
        .ok c := by
      rw [htables]
      exact hload
    have hreplay : c.replay r.tables = .ok c' := by
      rwa [recover, hload', except_ok_bind] at hrecover
    have hopen : ∃ s, Store.open t files policies systemNow passNow reading = .ok s := by
      rw [Store.open, hload]
      simp only [Except.mapError, except_ok_bind, hr, hreplay]
      exact ⟨_, rfl⟩
    obtain ⟨s, hopen⟩ := hopen
    exact ⟨s, hopen, h.reopened hopen⟩
  · intro hsome
    obtain ⟨name, hname, hr⟩ := hrefuses hsome
    refine ⟨name, hname, ?_⟩
    rw [Store.open, hload]
    simp only [Except.mapError, except_ok_bind, hr]
    rfl

end Plan

/-- An open that succeeds leaves row files only. -/
theorem Reopened.filesInv {t : Tables} {files : Files} {s : Store} (h : Reopened t files s)
    (hreplies : s.replies = []) (hlanded : s.landed = []) : FilesInv s where
  file name held hfile := by
    obtain ⟨-, record, hrow, hrewrite⟩ := (h.files name held).mp hfile
    refine .inl ⟨record, ?_, hrewrite⟩
    rw [h.db]
    exact hrow
  unlinked name hname := by
    rw [hreplies] at hname
    cases hname
  landed name hname := by
    rw [hlanded] at hname
    cases hname

/-! ### Runs -/

namespace StoreHistory

/-- A running store's files stand somewhere, and so do a stopped one's. -/
def FilesKept (h : StoreHistory) : Prop :=
  match h.machine with
  | .running s => FilesInv s
  | .stopped t files => Explained t files

/-- What holds of a new directory and is kept by every step, given the store's invariant before it,
holds of every run. -/
theorem run_induction {P : StoreHistory → Prop} (systemNow : ℕ) {ops : List StoreOp}
    (hops : StoreOp.Admissible 0 ops) (hnew : P (new systemNow))
    (hstep : ∀ before op after, ops = before ++ op :: after → P ((new systemNow).run before) →
      (∃ l buffered, StoreHistoryInv ((new systemNow).run before) l buffered) →
      P (((new systemNow).run before).step op)) : P ((new systemNow).run ops) := by
  induction ops using List.reverseRecOn with
  | nil => exact hnew
  | append_singleton ops op ih =>
      obtain ⟨hbefore, -⟩ := StoreOp.admissible_append.mp hops
      rw [run_append]
      refine hstep ops op [] rfl (ih hbefore fun before next after heq => ?_) ?_
      · exact hstep before next (after ++ [op]) (by rw [heq]; simp)
      · obtain ⟨⟨l, hi, -⟩, -⟩ := (StoreHistoryInv.new systemNow).run (by norm_num) hbefore
        exact ⟨l, _, hi⟩

variable {h : StoreHistory} {l : Ledger} {buffered : ℕ}

theorem FilesKept.running (hk : h.FilesKept) {s : Store} (hm : h.machine = .running s) :
    FilesInv s := by
  rwa [FilesKept, hm] at hk

theorem FilesKept.stopped (hk : h.FilesKept) {t : Tables} {files : Files}
    (hm : h.machine = .stopped t files) : Explained t files := by
  rwa [FilesKept, hm] at hk

theorem stop_inv (hi : StoreHistoryInv h l buffered) :
    StoppedInv h.machine.tables h.machine.files l h.deleted := by
  cases hm : h.machine with
  | running s =>
      obtain ⟨accepted, hs⟩ := hi.running hm
      exact hs.stop
  | stopped t files => exact hi.stopped hm

/-- What a crash now leaves. -/
theorem FilesKept.explained (hk : h.FilesKept) (hi : StoreHistoryInv h l buffered) :
    Explained h.machine.tables h.machine.files := by
  cases hm : h.machine with
  | running s =>
      obtain ⟨accepted, hs⟩ := hi.running hm
      exact (hk.running hm).explained hs
  | stopped t files => exact hk.stopped hm

theorem FilesKept.step (hk : h.FilesKept) (hi : StoreHistoryInv h l buffered) (op : StoreOp) :
    (h.step op).FilesKept := by
  rw [FilesKept, step_machine]
  cases hm : h.machine with
  | stopped t files =>
      have hstay : Explained t files := hk.stopped hm
      cases op with
      | reopen policies systemNow passNow reading =>
          rw [Machine.step]
          cases hopen : Store.open t files policies systemNow passNow reading with
          | error e => exact hstay
          | ok s =>
              have hreopened := (hi.stopped hm).reopened hopen
              obtain ⟨c, r, w, -, -, -, rfl⟩ := Store.open_eq_ok hopen
              exact hreopened.filesInv rfl rfl
      | _ => exact hstay
  | running s =>
      obtain ⟨accepted, hs⟩ := hi.running hm
      have hf := hk.running hm
      have hstop := hf.explained hs
      cases op with
      | append system generation points systemNow =>
          rw [Machine.step]
          cases happend : s.writer.append system generation points systemNow with
          | error e => exact hstop
          | ok result => exact hf.append happend
      | sweep systemNow =>
          rw [Machine.step]
          cases hsweep : s.sweep systemNow with
          | error backlog => exact hstop
          | ok s' => exact hf.sweep hsweep
      | beginPass systemNow reading => exact hf.beginPass systemNow reading
      | commit flush => exact hf.commit hs flush
      | handle =>
          rw [Machine.step]
          cases hhandle : s.handle with
          | none => exact hstop
          | some s' => exact hf.handle hs hhandle
      | takeJob fails => exact hf.takeJob hs fails
      | writeFile fails => exact hf.writeFile hs fails
      | crash => exact hstop
      | reopen policies systemNow passNow reading => exact hf

theorem filesKept_run (systemNow : ℕ) {ops : List StoreOp} (hops : StoreOp.Admissible 0 ops) :
    ((new systemNow).run ops).FilesKept := by
  refine run_induction systemNow hops ?_ fun before op after _ hk hi => ?_
  · intro name held hfile
    cases hfile
  · obtain ⟨l, buffered, hi⟩ := hi
    exact hk.step hi op

/-- Whatever the appends, sweeps, commits, handoffs, retention steps, crashes and opens before it, a
crash leaves on disk the files of the rows, files waiting to be unlinked, and copies of chunks still
in redb; the next open succeeds exactly when no copy is of a span that retention emptied, and then
keeps the rows' files only, none of them missing. -/
theorem crash_reconciled (systemNow : ℕ) (ops : List StoreOp) (hops : StoreOp.Admissible 0 ops)
    (policies : Policies) (openNow passNow : ℕ) (reading : Duration) :
    let m := ((new systemNow).run ops).machine
    (∀ name held, Orphan m.tables m.files name → m.files.get? name = some held →
      held = spanChunks m.tables.chunks name.spanKey) ∧
    ((∀ name, Orphan m.tables m.files name → spanChunks m.tables.chunks name.spanKey ≠ []) →
      ∃ s, Store.open m.tables m.files policies openNow passNow reading = .ok s ∧
        Reopened m.tables m.files s) ∧
    ((∃ name, Orphan m.tables m.files name ∧ spanChunks m.tables.chunks name.spanKey = []) →
      ∃ name, (Orphan m.tables m.files name ∧ spanChunks m.tables.chunks name.spanKey = []) ∧
        Store.open m.tables m.files policies openNow passNow reading =
          .error (.unexplainedBlock name)) := by
  obtain ⟨⟨l, hi, -⟩, -⟩ := (StoreHistoryInv.new systemNow).run (by norm_num) hops
  have hexplained := (filesKept_run systemNow hops).explained hi
  refine ⟨fun name held ho hfile => ?_, hexplained.open_spec
    (stop_inv hi) policies openNow passNow reading⟩
  obtain ⟨content, hcontent, hcopy⟩ := hexplained.copy ho
  obtain rfl := Option.some.inj (hfile.symm.trans hcontent)
  exact hcopy.whole

/-- A span's file is written and the store crashes before the row: the open deletes the copy. -/
theorem crash_reconciled_handedOver :
    ((new 1000).run handedOver).machine.files.keys = [handoffName ⟨.raw, 0⟩] ∧
      ∃ s, Store.open ((new 1000).run handedOver).machine.tables
        ((new 1000).run handedOver).machine.files
        (.new .default) 5000 5000 0 = .ok s ∧ s.files.keys = [] := by
  have hkeys : ((new 1000).run handedOver).machine.files.keys = [handoffName ⟨.raw, 0⟩] := by
    decide +kernel
  have hrows : ((new 1000).run handedOver).machine.tables.blocks.keys = [] := by decide +kernel
  have hchunks : spanChunks ((new 1000).run handedOver).machine.tables.chunks ⟨.raw, 0⟩ ≠ [] := by
    decide +kernel
  have hops : StoreOp.Admissible 0 handedOver :=
    (StoreOp.admissible_append.mp handedOver_admissible).1
  have hall : ∀ name,
      Orphan ((new 1000).run handedOver).machine.tables
        ((new 1000).run handedOver).machine.files name →
      spanChunks ((new 1000).run handedOver).machine.tables.chunks name.spanKey ≠ [] := by
    intro name ho
    have hmem := Table.mem_keys.mpr (Table.contains_iff.mp ho.file)
    rw [hkeys] at hmem
    rw [List.mem_singleton.mp hmem]
    exact hchunks
  obtain ⟨s, hopen, hreopened⟩ :=
    (crash_reconciled 1000 handedOver hops (.new .default) 5000 5000 0).2.1 hall
  refine ⟨hkeys, s, hopen, List.eq_nil_iff_forall_not_mem.mpr fun name hname => ?_⟩
  obtain ⟨held, hfile⟩ := Table.mem_keys.mp hname
  obtain ⟨-, record, hrow, -⟩ := (hreopened.files name held).mp hfile
  have hmem := Table.mem_keys.mpr ⟨record, hrow⟩
  rw [hrows] at hmem
  cases hmem

end StoreHistory

end MonitoringAgent.HubStore

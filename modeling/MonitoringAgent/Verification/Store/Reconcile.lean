import MonitoringAgent.Library.Except
import MonitoringAgent.Verification.Store.Commit

/-! # Reconciliation at open

What the plan unlinks is never a row's file, so whatever a stop left on disk, an open that succeeds
keeps every chunk where it was. -/

namespace MonitoringAgent.HubStore

open MonitoringAgent.Library

/-! ### The plan -/

section Plan

variable {E : Type} {files : List BlockName} {cat : Catalogued}
  {evidence : Tier → SpanStart → Except E SpanEvidence} {plan : Reconciliation}

/-- The files no row names, and not waiting to be unlinked. -/
def orphansOf (files : List BlockName) (cat : Catalogued) : List BlockName :=
  files.filter fun file => file ∉ cat.pending ∧ cat.rows.get? file.spanKey ≠ some file.rewrite

theorem mem_orphansOf {file : BlockName} : file ∈ orphansOf files cat ↔
    file ∈ files ∧ file ∉ cat.pending ∧ cat.rows.get? file.spanKey ≠ some file.rewrite := by
  rw [orphansOf, List.mem_filter, decide_eq_true_eq]

/-- A plan unlinks the pending files and every orphan, each of them redundant. -/
theorem reconcile_eq_ok (h : reconcile files cat evidence = .ok plan) :
    plan.unlink = cat.pending.filter (· ∈ files) ++ orphansOf files cat ∧
      plan.clearPending = cat.pending ∧
      ∀ file ∈ orphansOf files cat, redundant files cat evidence file = .ok true := by
  rw [reconcile] at h
  obtain ⟨copies, hcopies, h⟩ := except_bind_eq_ok.mp h
  have hone : ∀ file copy, (do
      if ← redundant files cat evidence file then .ok file else .error (Refusal.unexplained file)) =
        Except.ok copy → redundant files cat evidence file = .ok true ∧ copy = id file := by
    intro file copy hfile
    obtain ⟨answer, hanswer, hfile⟩ := except_bind_eq_ok.mp hfile
    cases answer with
    | false => cases hfile
    | true =>
        cases hfile
        exact ⟨hanswer, rfl⟩
  obtain ⟨rfl, hall⟩ := except_mapM_eq_ok (fun file copy hfile => (hone file copy hfile).2) hcopies
  cases h
  exact ⟨by rw [List.map_id]; rfl, rfl, fun file hmem => (hone file _ (hall file hmem)).1⟩

end Plan

/-! ### The disk after an open -/

section Open

variable {t : Tables} {files : Files} {l : Ledger} {deleted : List (SeriesId × Sealed)}
  {head : Table SeriesKey HeadEntry} {hubNow : ℕ} {r : Reconciled}

/-- What redb holds of the block files, as the open reads it. -/
def catalogued (t : Tables) (hubNow : ℕ) : Catalogued :=
  ⟨t.blocks.mapValues fun _ record => record.rewrite, t.pendingUnlinks.keys, hubNow⟩

/-- An open unlinks the pending files and the orphans, and clears the pending entries. -/
theorem reconcileAtOpen_eq_ok (h : reconcileAtOpen t files head hubNow = .ok r) :
    (∀ name, r.files.get? name =
      if t.pendingUnlinks.get? name = some () ∨ name ∈ orphansOf files.keys
        (catalogued t hubNow) then none
      else files.get? name) ∧
    (∃ pendingUnlinks, r.tables = { t with pendingUnlinks }) ∧
    (∀ name, r.tables.pendingUnlinks.get? name = none) ∧
    r.waiting = (t.chunks.keys.map ChunkKey.spanKey).toFinset := by
  rw [reconcileAtOpen] at h
  obtain ⟨plan, hplan, h⟩ := except_bind_eq_ok.mp h
  obtain ⟨hunlink, hclear, -⟩ := reconcile_eq_ok hplan
  cases h
  have hpending : ∀ name, name ∈ t.pendingUnlinks.keys ↔ t.pendingUnlinks.get? name = some () :=
    fun name => Table.mem_keys.trans ⟨fun ⟨(), hname⟩ => hname, fun hname => ⟨(), hname⟩⟩
  refine ⟨fun name => ?_, ⟨_, rfl⟩, fun name => ?_, rfl⟩
  · have hmem : name ∈ plan.unlink ↔ t.pendingUnlinks.get? name = some () ∧ name ∈ files.keys ∨
        name ∈ orphansOf files.keys (catalogued t hubNow) := by
      rw [hunlink, List.mem_append, List.mem_filter, decide_eq_true_eq, hpending]
      rfl
    dsimp only
    rw [Table.get?_foldl_erase]
    by_cases hout : t.pendingUnlinks.get? name = some () ∨
        name ∈ orphansOf files.keys (catalogued t hubNow)
    · rw [if_pos hout]
      split_ifs with hin
      · rfl
      · rw [Option.eq_none_iff_forall_not_mem]
        intro held hheld
        exact hin (hmem.mpr (hout.imp_left fun hname => ⟨hname, Table.mem_keys.mpr ⟨held, hheld⟩⟩))
    · rw [if_neg hout, if_neg fun hin => hout ((hmem.mp hin).imp_left And.left)]
  · dsimp only
    rw [Table.get?_foldl_erase, hclear]
    split_ifs with hmem
    · rfl
    · rw [Option.eq_none_iff_forall_not_mem]
      exact fun _ hname => hmem ((hpending name).mpr hname)

/-- No row's file is unlinked. -/
theorem DiskInv.reconciled (h : DiskInv t files l deleted)
    (hr : reconcileAtOpen t files head hubNow = .ok r) : DiskInv r.tables r.files l deleted := by
  obtain ⟨hfiles, ⟨pendingUnlinks, htables⟩, hcleared, -⟩ := reconcileAtOpen_eq_ok hr
  have hkept : DiskInv t r.files l deleted := by
    refine h.withFiles fun span record hrow => ?_
    rw [hfiles, if_neg]
    rintro (hpending | horphan)
    · exact absurd ((h.pending _ hpending).2.2.symm.trans hrow) (by simp)
    · obtain ⟨-, -, hother⟩ := mem_orphansOf.mp horphan
      apply hother
      change (t.blocks.mapValues fun _ record => record.rewrite).get? span = some 0
      rw [Table.get?_mapValues, hrow, ← (h.row span record hrow).rewrite]
      rfl
  refine hkept.congr ?_ ?_ ?_ ?_ ?_ fun name hname => ?_
  · rw [htables]
  · rw [htables]
  · rw [htables]
  · rw [htables]
  · rw [htables]
  · rw [hcleared name] at hname
    cases hname

theorem except_mapError_eq_ok {ε ε' α : Type} {x : Except ε α} {f : ε → ε'} {a : α}
    (h : x.mapError f = .ok a) : x = .ok a := by
  cases x with
  | error e => cases h
  | ok b =>
      cases h
      rfl

/-- The parts of an open that succeeds. -/
theorem Store.open_eq_ok {policies : Policies} {systemNow passNow : ℕ} {reading : Duration}
    {s : Store} (h : Store.open t files policies systemNow passNow reading = .ok s) :
    ∃ c r w, (Core.new t.meta.clock t.meta.nextId).loadHead t = .ok c ∧
      reconcileAtOpen t files c.head t.meta.clock = .ok r ∧ Writer.open r.tables systemNow = .ok w ∧
      s = {
        writer := { w with core := (w.core.hubNow passNow).2 }
        policies
        tombstones := ∅
        handoffs := .new r.waiting
        retention := (Retention.new r.tables.meta.retentionClock).begin
          (max w.core.clock passNow) passNow
          reading
        jobs := []
        reading := none
        replies := []
        landed := []
        files := r.files
        known := r.known } := by
  rw [Store.open] at h
  obtain ⟨c, hload, h⟩ := except_bind_eq_ok.mp h
  replace hload := except_mapError_eq_ok hload
  dsimp only at h
  split at h
  next r hr =>
    rw [except_ok_bind] at h
    obtain ⟨c', hreplay, hs⟩ := except_bind_eq_ok.mp h
    replace hreplay := except_mapError_eq_ok hreplay
    obtain ⟨-, ⟨pendingUnlinks, htables⟩, -, -⟩ := reconcileAtOpen_eq_ok hr
    have hrecover : recover r.tables = .ok c' := by
      rw [recover, ← hreplay]
      have hload' : (Core.new r.tables.meta.clock r.tables.meta.nextId).loadHead r.tables =
          .ok c := by
        rw [htables]
        exact hload
      rw [hload', except_ok_bind]
    refine ⟨c, r, .new ((c'.hubNow systemNow).2.sweep (c'.hubNow systemNow).1) r.tables
      r.tables.meta.commitSeq, hload, hr, ?_, ?_⟩
    · rw [Writer.open, hrecover]
      rfl
    · cases hs
      rfl
  · cases h

/-- An open that succeeds starts from the committed points, with every chunk where it was. -/
theorem StoppedInv.open (h : StoppedInv t files l deleted) {policies : Policies}
    {systemNow passNow : ℕ} {reading : Duration} {s : Store} (hnow : systemNow < 2 ^ 63)
    (hpass : passNow < 2 ^ 63)
    (hopen : Store.open t files policies systemNow passNow reading = .ok s) :
    ∃ committed, StoreInv s l committed deleted 0 := by
  obtain ⟨committed, hcommitted⟩ := h.committed
  obtain ⟨c, r, w, -, hr, hw, rfl⟩ := Store.open_eq_ok hopen
  obtain ⟨-, ⟨pendingUnlinks, htables⟩, hcleared, hwaiting⟩ := reconcileAtOpen_eq_ok hr
  have hfile : FileInv r.tables l := h.file.congr
    (by rw [htables]; exact ⟨rfl, rfl, rfl, rfl, rfl, rfl, rfl⟩)
  have hdisk : DiskInv r.tables r.files l deleted := h.disk.reconciled hr
  obtain ⟨w', hw', hinv, hdb, htxn, hclock, hpoints⟩ := hfile.open systemNow
  obtain rfl := Except.ok.inj (hw.symm.trans hw')
  have hopenTxn : Writer.openTxn { w with core := (w.core.hubNow passNow).2 } = r.tables := by
    rw [Writer.openTxn, htxn]
    exact hdb
  refine ⟨committed, ?_, ⟨committed, hcommitted⟩, ?_, ?_, ?_, ?_, ?_, ?_, ?_, ?_,
    ?_, ?_, ?_, ?_, ?_, ?_⟩
  · rw [← hcommitted]
    exact hinv.hubNow passNow
  · refine max_lt ?_ hpass
    rw [hclock, htables]
    exact max_lt h.clock hnow
  · exact (congrArg List.length hpoints).le
  · exact hdb ▸ hdisk
  · rw [hopenTxn]
    exact hdisk
  · dsimp only
    rw [hopenTxn, hdb]
    exact ⟨fun _ _ => rfl, fun _ _ => rfl, fun _ _ _ => rfl, fun _ hname => hname⟩
  · exact List.nodup_nil
  · intro name hname
    cases hname
  · intro span hspan
    exact absurd hspan (Finset.notMem_empty span)
  · intro span hspan
    exact absurd hspan (Finset.notMem_empty span)
  · intro span hspan
    dsimp only
    rw [hdb]
    refine ⟨?_, fun name hname => by rw [hcleared name] at hname; cases hname⟩
    -- A span with a row has no chunk left in redb.
    rcases hspan with hspan | hspan | hspan
    · change span ∈ r.waiting at hspan
      rw [hwaiting, List.mem_toFinset, List.mem_map] at hspan
      obtain ⟨key, hkey, rfl⟩ := hspan
      obtain ⟨bytes, hbytes⟩ := Table.mem_keys.mp hkey
      rw [Option.eq_none_iff_forall_not_mem]
      intro record hrow
      have hnone := spanChunks_eq_nil.mp (hdisk.row _ record hrow).moved key rfl
      rw [htables] at hnone
      exact absurd (hnone.symm.trans hbytes) (by simp)
    · exact absurd hspan (Finset.notMem_empty span)
    · exact absurd hspan (Finset.notMem_empty span)
  · intro name held generations heq
    cases heq
  · intro name record generations hmem
    cases hmem
  · exact ⟨List.nodup_nil, fun name hname => by cases hname⟩
  · exact ⟨List.nodup_nil, fun name hname => by cases hname⟩

end Open

end MonitoringAgent.HubStore

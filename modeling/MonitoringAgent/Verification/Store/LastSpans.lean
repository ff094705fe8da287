import MonitoringAgent.Verification.Store.Handoff

/-! # The last span of a series

The head and the records name, per tier, the last span a chunk of the series is in; and the head
keeps a copy of each chunk of the series not yet committed. -/

namespace MonitoringAgent.HubStore

open MonitoringAgent.Library

/-- Per tier, the last span is the latest one a chunk is in. -/
structure LastSpans.Of (spans : LastSpans) (chunks : List Sealed) : Prop where
  covers : ∀ chunk ∈ chunks, ∃ last : SpanStart, spans chunk.tier = some last ∧ chunk.span ≤ last
  attained : ∀ tier last, spans tier = some last →
    ∃ chunk ∈ chunks, chunk.tier = tier ∧ chunk.span = last

theorem LastSpans.Of.raise {spans : LastSpans} {chunks : List Sealed}
    (h : spans.Of chunks) (chunk : Sealed) :
    (spans.raise chunk.tier chunk.span).Of (chunks ++ [chunk]) := by
  rw [LastSpans.raise]
  refine ⟨fun other hother => ?_, fun tier last hlast => ?_⟩
  · by_cases htier : other.tier = chunk.tier
    · rw [htier, Function.update_self]
      refine ⟨_, rfl, ?_⟩
      rcases List.mem_append.mp hother with hother | hother
      · obtain ⟨last, hlast, hle⟩ := h.covers other hother
        rw [← htier, hlast]
        exact hle.trans (le_max_left _ _)
      · rw [List.mem_singleton.mp hother]
        cases spans chunk.tier with
        | none => exact le_refl chunk.span
        | some last => exact le_max_right _ _
    · rw [Function.update_of_ne htier]
      rcases List.mem_append.mp hother with hother | hother
      · exact h.covers other hother
      · exact absurd (congrArg Sealed.tier (List.mem_singleton.mp hother)) htier
  · have hself : chunk ∈ chunks ++ [chunk] := List.mem_append_right _ (List.mem_singleton_self _)
    by_cases htier : tier = chunk.tier
    · subst htier
      rw [Function.update_self] at hlast
      obtain rfl := Option.some.inj hlast
      cases hspan : spans chunk.tier with
      | none => exact ⟨chunk, hself, rfl, rfl⟩
      | some last =>
          obtain ⟨other, hother, hsame, rfl⟩ := h.attained chunk.tier last hspan
          rcases le_total other.span chunk.span with hle | hle
          · exact ⟨chunk, hself, rfl, (max_eq_right hle).symm⟩
          · exact ⟨other, List.mem_append_left _ hother, hsame, (max_eq_left hle).symm⟩
    · rw [Function.update_of_ne htier] at hlast
      obtain ⟨other, hother, hrest⟩ := h.attained tier last hlast
      exact ⟨other, List.mem_append_left _ hother, hrest⟩

theorem LastSpans.Of.foldl_raise {spans : LastSpans} {chunks : List Sealed} (h : spans.Of chunks)
    (more : List Sealed) :
    LastSpans.Of (more.foldl (fun spans chunk => spans.raise chunk.tier chunk.span) spans)
      (chunks ++ more) := by
  induction more generalizing spans chunks with
  | nil => rwa [List.append_nil]
  | cons chunk more ih =>
      rw [List.append_cons]
      exact ih (h.raise chunk)

/-! ### The head -/

/-- Each series' last spans and pending copies in the head, against the chunks stored and those
sealed since. -/
structure LastSpansInv (c : Core) (stored : SeriesId → List Sealed) : Prop where
  index : ∀ key e, c.head.get? key = some e → c.index.get? e.id = some key
  idLt : ∀ id key, c.index.get? id = some key → id < c.nextId
  sealed : ∀ id chunk, (id, chunk) ∈ c.sealed → ∃ key, c.index.get? id = some key
  fresh : ∀ id, c.nextId ≤ id → stored id = []
  spans : ∀ key e, c.head.get? key = some e → e.lastSpans.Of (stored e.id ++ select c.sealed e.id)
  pending : ∀ key e, c.head.get? key = some e → e.pending = select c.sealed e.id

namespace LastSpansInv

variable {c c' : Core} {stored : SeriesId → List Sealed} {key : SeriesKey} {e : HeadEntry}

theorem select_absent (h : LastSpansInv c stored) {id : SeriesId} (hid : c.index.get? id = none) :
    select c.sealed id = [] := by
  refine List.eq_nil_iff_forall_not_mem.mpr fun chunk hmem => ?_
  obtain ⟨key, hkey⟩ := h.sealed id chunk (mem_select.mp hmem)
  rw [hid] at hkey
  cases hkey

/-- A series changed in place, what it sealed kept. -/
theorem putEntry (h : LastSpansInv c stored) (hget : c.head.get? key = some e) (state : SeriesState)
    (dirty : Bool) (chunks : List Sealed) :
    LastSpansInv (c.putEntry key { e with state, dirty } chunks) stored := by
  have hselect (id : SeriesId) : select (c.putEntry key { e with state, dirty } chunks).sealed id =
      select c.sealed id ++ if e.id = id then chunks else [] := by
    rw [Core.putEntry_eq]
    simp only [select_append, select_map_pair]
  have hother : ∀ k e', c.head.get? k = some e' → key ≠ k → e.id ≠ e'.id := by
    intro k e' hk hne heq
    have hindex := h.index key e hget
    rw [heq, h.index k e' hk] at hindex
    exact hne (Option.some.inj hindex).symm
  refine ⟨fun k e' hk => ?_, ?_, fun id chunk hmem => ?_, ?_, fun k e' hk => ?_, fun k e' hk => ?_⟩
  · rw [Core.putEntry_head] at hk
    rw [Core.putEntry_index]
    split_ifs at hk with heq
    · rw [← Option.some.inj hk, ← heq]
      exact h.index key e hget
    · exact h.index k e' hk
  · rw [Core.putEntry_index, Core.putEntry_nextId]
    exact h.idLt
  · rw [Core.putEntry_index]
    have hmem := mem_select.mpr hmem
    rw [hselect, List.mem_append] at hmem
    rcases hmem with hmem | hmem
    · exact h.sealed id chunk (mem_select.mp hmem)
    · split_ifs at hmem with heq
      · exact ⟨key, heq ▸ h.index key e hget⟩
      · cases hmem
  · rw [Core.putEntry_nextId]
    exact h.fresh
  · rw [Core.putEntry_head] at hk
    rw [hselect]
    split_ifs at hk with heq
    · obtain rfl := Option.some.inj hk
      rw [Core.kept_id, if_pos rfl, ← List.append_assoc]
      exact (h.spans key e hget).foldl_raise chunks
    · rw [if_neg (hother k e' hk heq), List.append_nil]
      exact h.spans k e' hk
  · rw [Core.putEntry_head] at hk
    rw [hselect]
    split_ifs at hk with heq
    · obtain rfl := Option.some.inj hk
      rw [Core.kept_id, if_pos rfl, ← h.pending key e hget]
      rfl
    · rw [if_neg (hother k e' hk heq), List.append_nil]
      exact h.pending k e' hk

/-- A series brought into the head with its last spans. -/
theorem addEntry (h : LastSpansInv c stored) {nextId : ℕ} (newSeries touched : Finset SeriesId)
    (hid : c.index.get? e.id = none) (hnext : c.nextId ≤ nextId) (hlt : e.id < nextId)
    (hspans : e.lastSpans.Of (stored e.id)) (hpending : e.pending = []) :
    LastSpansInv ({ c with nextId, newSeries, touched }.addEntry key e) stored := by
  have hindex (id : SeriesId) (k : SeriesKey) (hk : c.index.get? id = some k) :
      (c.index.insert e.id key).get? id = some k := by
    rw [Table.get?_insert_of_ne, hk]
    rintro rfl
    rw [hid] at hk
    cases hk
  refine ⟨fun k e' hk => ?_, fun id k hk => ?_, fun id chunk hmem => ?_, fun id hle => h.fresh id
    (hnext.trans hle), fun k e' hk => ?_, fun k e' hk => ?_⟩
  · simp only [Core.addEntry, Table.get?_insert] at hk
    split_ifs at hk with heq
    · obtain rfl := Option.some.inj hk
      simp only [Core.addEntry, Table.get?_insert_self, heq]
    · exact hindex e'.id k (h.index k e' hk)
  · simp only [Core.addEntry, Table.get?_insert] at hk ⊢
    split_ifs at hk with heq
    · exact heq ▸ hlt
    · exact (h.idLt id k hk).trans_le hnext
  · obtain ⟨k, hk⟩ := h.sealed id chunk hmem
    exact ⟨k, hindex id k hk⟩
  · simp only [Core.addEntry, Table.get?_insert] at hk ⊢
    split_ifs at hk with heq
    · obtain rfl := Option.some.inj hk
      rwa [h.select_absent hid, List.append_nil]
    · exact h.spans k e' hk
  · simp only [Core.addEntry, Table.get?_insert] at hk ⊢
    split_ifs at hk with heq
    · obtain rfl := Option.some.inj hk
      rw [h.select_absent hid, hpending]
    · exact h.pending k e' hk

/-- Hub time and the points waiting for a commit play no part. -/
theorem withPoints (h : LastSpansInv c stored) (clock : ℕ) (points : List LoggedPoint) :
    LastSpansInv { c with clock, points } stored :=
  ⟨h.index, h.idLt, h.sealed, h.fresh, h.spans, h.pending⟩

/-! ### Appends and sweeps -/

theorem appendEntry (h : LastSpansInv c stored) (hget : c.head.get? key = some e) (kind : ValueKind)
    (value : ℤ) (scaled : Scaled) («at» : ℕ) :
    LastSpansInv (c.appendEntry key e kind value scaled «at»).2 stored := by
  rw [Core.appendEntry]
  split_ifs
  · exact h
  split
  · exact h
  next chunks state _ => exact (h.putEntry hget state true chunks).withPoints _ _

theorem activate (h : LastSpansInv c stored) {txn : Tables} {kind : ValueKind}
    {answer : Except Rejected Unit} (hnone : interned txn key = none)
    (hactivate : c.activate txn key kind = .ok (answer, c')) : LastSpansInv c' stored := by
  rw [Core.activate, hnone] at hactivate
  dsimp only at hactivate
  split_ifs at hactivate
  · cases hactivate
    have habsent : c.index.get? c.nextId = none := by
      rw [Option.eq_none_iff_forall_not_mem]
      exact fun k hk => absurd (h.idLt c.nextId k hk) (lt_irrefl _)
    refine h.addEntry (e := .fresh c.nextId kind) _ _ habsent (Nat.le_succ _)
      (Nat.lt_succ_self _) ?_ rfl
    rw [HeadEntry.fresh, h.fresh c.nextId le_rfl]
    exact ⟨by simp, by simp⟩
  · cases hactivate
    exact h

theorem appendPoint (h : LastSpansInv c stored) {txn : Tables} {kind : ValueKind} {value : ℤ}
    {«at» : ℕ} {answer : Except Rejected Unit}
    (hnone : c.head.get? key = none → interned txn key = none)
    (happend : c.appendPoint txn key kind value «at» = .ok (answer, c')) : LastSpansInv c' stored :=
  Core.appendPoint_inv (P := fun c => LastSpansInv c stored)
    (fun _ _ hget hactive => h.activate (hnone hget) hactive)
    (fun _ _ _ h₁ hget => h₁.appendEntry hget _ _ _ _) h happend

theorem appendEach (h : LastSpansInv c stored) {txn : Tables} {system : List UInt8}
    {generation «at» : ℕ} {points : List IncomingPoint} {answers : List (Except Rejected Unit)}
    (hnone : ∀ key, c.head.get? key = none → interned txn key = none)
    (happend : c.appendEach txn system generation «at» points = .ok (answers, c')) :
    LastSpansInv c' stored := by
  refine (Core.appendEach_inv (P := fun c => LastSpansInv c stored ∧
    ∀ key, c.head.get? key = none → interned txn key = none) ?_ ⟨h, hnone⟩ happend).1
  intro c₁ c₂ p answer ⟨h₁, hnone₁⟩ hpoint
  refine ⟨h₁.appendPoint (hnone₁ _) hpoint, fun key hkey => hnone₁ key ?_⟩
  -- A series once in the head stays there.
  rw [Option.eq_none_iff_forall_not_mem]
  intro e he
  obtain ⟨e', he', -⟩ := (Core.grows_appendPoint hpoint).entry key e he
  rw [hkey] at he'
  cases he'

theorem sweepEntry (h : LastSpansInv c stored) (now : ℕ) (key : SeriesKey) :
    LastSpansInv (Core.sweepEntry now c key) stored := by
  rw [Core.sweepEntry]
  split
  · exact h
  next e hget => exact h.putEntry hget _ e.dirty _

theorem sweep (h : LastSpansInv c stored) (now : ℕ) : LastSpansInv (c.sweep now) stored := by
  rw [Core.sweep]
  generalize c.head.keys = keys
  induction keys generalizing c with
  | nil => exact h
  | cons key keys ih => exact ih (h.sweepEntry now key)

end LastSpansInv

/-! ### The records -/

/-- Each series' record names its last spans among the chunks stored. -/
def RecordSpans (t : Tables) (stored : SeriesId → List Sealed) : Prop :=
  ∀ id record, t.series.get? id = some record → record.lastSpans.Of (stored id)

section Recovery

variable {t : Tables} {l : Ledger} {c c' : Core}

theorem FileInv.lastSpans_new (h : FileInv t l) :
    LastSpansInv (Core.new t.meta.clock t.meta.nextId) l.stored := by
  refine ⟨by simp [Core.new], by simp [Core.new], by simp [Core.new], fun id hid => ?_,
    by simp [Core.new], by simp [Core.new]⟩
  refine h.fresh id (Option.eq_none_iff_forall_not_mem.mpr fun record hrecord => ?_)
  exact absurd (h.idLt id record hrecord) (not_lt.mpr hid)

theorem LastSpansInv.install (h : LastSpansInv c l.stored) (hfile : FileInv t l)
    (hspans : RecordSpans t l.stored) (hnext : c.nextId = t.meta.nextId) {id : SeriesId}
    {record : SeriesRecord} (hrecord : t.series.get? id = some record)
    (hid : c.index.get? id = none) (state : SeriesState) :
    LastSpansInv (c.install id record state) l.stored :=
  h.addEntry (e := .reopened id record state) c.newSeries c.touched hid le_rfl
    (hnext ▸ hfile.idLt id record hrecord) (hspans id record hrecord) rfl

theorem LastSpansInv.loadTails (h : LastSpansInv c l.stored) (hfile : FileInv t l)
    (hspans : RecordSpans t l.stored) (hnext : c.nextId = t.meta.nextId)
    {tails : List (SeriesId × List UInt8)} (hsorted : tails.Pairwise fun a b => a.1 < b.1)
    (htails : ∀ e ∈ tails, c.index.get? e.1 = none) (hload : c.loadTails t.series tails = .ok c') :
    LastSpansInv c' l.stored ∧ c'.nextId = t.meta.nextId := by
  induction tails generalizing c with
  | nil =>
      cases hload
      exact ⟨h, hnext⟩
  | cons tail tails ih =>
      obtain ⟨id, bytes⟩ := tail
      obtain ⟨hhead, hrest⟩ := List.pairwise_cons.mp hsorted
      rw [Core.loadTails] at hload
      split at hload
      · cases hload
      next record hrecord =>
        split at hload
        · cases hload
        next state _ =>
          refine ih (h.install hfile hspans hnext hrecord
            (htails _ List.mem_cons_self) state) hnext hrest
            (fun e he => ?_) hload
          simp only [Core.install, Core.addEntry, HeadEntry.reopened]
          rw [Table.get?_insert_of_ne _ _ (hhead e he).ne]
          exact htails e (List.mem_cons_of_mem _ he)

theorem LastSpansInv.replayPoint (h : LastSpansInv c l.stored) (hfile : FileInv t l)
    (hspans : RecordSpans t l.stored) (hnext : c.nextId = t.meta.nextId) {seq : ℕ} {p : LoggedPoint}
    (hreplay : c.replayPoint t.series seq p = .ok c') :
    LastSpansInv c' l.stored ∧ c'.nextId = t.meta.nextId := by
  rw [Core.replayPoint] at hreplay
  split at hreplay
  · cases hreplay
  next record hrecord =>
    have hinstalled : LastSpansInv (if c.index.contains p.id then c
        else c.install p.id record (.new record.kind)) l.stored ∧
        (if c.index.contains p.id then c else c.install p.id record (.new record.kind)).nextId =
          t.meta.nextId := by
      split_ifs with hcontains
      · exact ⟨h, hnext⟩
      · exact ⟨h.install hfile hspans hnext hrecord
          (by simpa [Table.contains] using hcontains) _, hnext⟩
    dsimp only at hreplay
    generalize (if c.index.contains p.id then c else c.install p.id record (.new record.kind)) = c₁
      at hreplay hinstalled
    split at hreplay
    · cases hreplay
    · split at hreplay
      · cases hreplay
        exact hinstalled
      next entry hget =>
        split at hreplay
        · cases hreplay
          exact hinstalled
        · cases hreplay
          exact ⟨hinstalled.1.putEntry hget _ true _, by
            rw [Core.putEntry_nextId]; exact hinstalled.2⟩

/-- Recovery brings the last spans back from the records, and raises them to the chunks it seals
again. -/
theorem FileInv.lastSpans_recover (h : FileInv t l) (hspans : RecordSpans t l.stored)
    (hrecover : HubStore.recover t = .ok c) : LastSpansInv c l.stored := by
  rw [HubStore.recover] at hrecover
  obtain ⟨c₁, hload, hreplay⟩ := except_bind_eq_ok.mp hrecover
  have hloaded := h.lastSpans_new.loadTails h hspans rfl t.tails.sorted (fun _ _ => rfl) hload
  refine (except_foldlM_inv (P := fun c => LastSpansInv c l.stored ∧
    c.nextId = t.meta.nextId) ?_ hloaded hreplay).1
  intro c c' entry hc hentry
  rw [Core.replayEntry] at hentry
  split at hentry
  · cases hentry
  · refine except_foldlM_inv (P := fun c => LastSpansInv c l.stored ∧
      c.nextId = t.meta.nextId) ?_ hc hentry
    exact fun _ _ _ hc hpoint => hc.1.replayPoint h hspans hc.2 hpoint

end Recovery

/-! ### Commits -/

section Commit

variable {w : Writer} {l : Ledger} {accepted : SeriesKey → List RawPoint}

theorem LastSpansInv.commit (h : LastSpansInv w.core l.stored)
    (hw : WriterInv w l accepted) (flush : Flush) :
    LastSpansInv (w.commit flush).core (l.commit w accepted flush).stored := by
  obtain ⟨head, hcore, hhead⟩ := hw.commit_core flush
  have hback : ∀ key e', head.get? key = some e' →
      ∃ e, w.core.head.get? key = some e ∧ e' = WriterInv.entryAfter w flush e := by
    intro key e' hget
    rw [hhead key, Option.map_eq_some_iff] at hget
    obtain ⟨e, hget, heq⟩ := hget
    exact ⟨e, hget, heq.symm⟩
  rw [hcore]
  refine ⟨fun key e' hget => ?_, h.idLt, nofun, fun id hid => ?_, fun key e' hget => ?_,
    fun key e' hget => ?_⟩
  · obtain ⟨e, he, rfl⟩ := hback key e' hget
    exact h.index key e he
  · have hnone : w.core.index.get? id = none := by
      rw [Option.eq_none_iff_forall_not_mem]
      exact fun key hkey => absurd (h.idLt id key hkey) (not_lt.mpr hid)
    change l.stored id ++ select w.core.sealed id = []
    rw [h.select_absent hnone, h.fresh id hid, List.append_nil]
  · obtain ⟨e, he, rfl⟩ := hback key e' hget
    change e.lastSpans.Of ((l.stored e.id ++ select w.core.sealed e.id) ++ [])
    rw [List.append_nil]
    exact h.spans key e he
  · obtain ⟨e, he, rfl⟩ := hback key e' hget
    change (if e.id ∈ w.committing ∪ (w.core.sealed.map Prod.fst).toFinset then []
      else e.pending) = []
    split_ifs with hcommitting
    · rfl
    · rw [h.pending key e he, List.eq_nil_iff_forall_not_mem]
      intro chunk hmem
      refine hcommitting (Finset.mem_union_right _ (List.mem_toFinset.mpr ?_))
      exact List.mem_map_of_mem (mem_select.mp hmem)

theorem RecordSpans.commit (hspans : RecordSpans w.db l.stored) (h : LastSpansInv w.core l.stored)
    (hw : WriterInv w l accepted) (flush : Flush) :
    RecordSpans (w.tablesAfter flush) (l.commit w accepted flush).stored := by
  intro id record hrecord
  obtain ⟨e, hget, rfl, -⟩ := hw.commit_record hrecord
  rw [Writer.tablesAfter_eq] at hrecord
  change record.lastSpans.Of (l.stored e.id ++ select w.core.sealed e.id)
  obtain ⟨-, -, -, hseries, -⟩ | ⟨hwrites, -, -, hseries, -⟩ := hw.written flush hget
  · rw [← Option.some.inj (hseries.symm.trans hrecord)]
    exact h.spans record.key e hget
  · rw [(hw.unwritten hget hwrites).2, List.append_nil]
    exact hspans e.id record (hseries.symm.trans hrecord)

end Commit

/-! ### Whole runs -/

section Runs

variable {s s' : Store} {h : StoreHistory} {l : Ledger} {accepted : List (SeriesKey × RawPoint)}
  {deleted : List (SeriesId × Sealed)} {buffered : ℕ}

/-- The last spans of the head and of the records, against the chunks stored. -/
def Machine.Spanned (stored : SeriesId → List Sealed) : Machine → Prop
  | .running s => LastSpansInv s.writer.core stored ∧ RecordSpans s.writer.db stored
  | .stopped t _ => RecordSpans t stored

/-- A series not in the head is not in the tables. -/
theorem WriterInv.not_interned {w : Writer} {accepted : SeriesKey → List RawPoint}
    (h : WriterInv w l accepted) {key : SeriesKey} (hget : w.core.head.get? key = none) :
    interned w.openTxn key = none := by
  have hid : w.openTxn.seriesKey.get? key = none := by
    rw [h.txn.seriesKey, Option.eq_none_iff_forall_not_mem]
    intro id hid
    obtain ⟨record, hrecord, rfl⟩ := (h.file.key key id).mp hid
    obtain ⟨e, he, -⟩ := h.recorded id record hrecord
    rw [hget] at he
    cases he
  rw [interned, hid]
  rfl

theorem StoreInv.spanned_append (hs : StoreInv s l accepted deleted buffered)
    (hm : (Machine.running s).Spanned l.stored) {system : List UInt8} {generation systemNow : ℕ}
    {points : List IncomingPoint} {report : AppendReport} {w : Writer}
    (happend : s.writer.append system generation points systemNow = .ok (report, w)) :
    (Machine.running { s with writer := w }).Spanned l.stored := by
  rw [Writer.append] at happend
  obtain ⟨⟨report', core⟩, hpoints, hw⟩ := except_bind_eq_ok.mp happend
  cases hw
  rw [Core.appendPoints] at hpoints
  obtain ⟨⟨answers, core'⟩, heach, hcore⟩ := except_bind_eq_ok.mp hpoints
  cases hcore
  have hclock : LastSpansInv (s.writer.core.hubNow systemNow).2 l.stored :=
    hm.1.withPoints (max s.writer.core.clock systemNow) s.writer.core.points
  exact ⟨hclock.appendEach (fun key hkey => hs.writer.not_interned hkey) heach, hm.2⟩

theorem StoreInv.spanned_commit (hs : StoreInv s l accepted deleted buffered)
    (hm : (Machine.running s).Spanned l.stored) (flush : Flush) :
    (Machine.running (s.commit flush)).Spanned
      (l.commit s.writer (select accepted) flush).stored := by
  refine ⟨?_, fun id record hrecord => ?_⟩
  · rw [s.commit_writer flush]
    exact hm.1.commit hs.writer flush
  · rw [s.commit_writer flush] at hrecord
    change (s.writeInterval flush).tables.series.get? id = some record at hrecord
    rw [(StoreInv.tables_same flush).series] at hrecord
    exact hm.2.commit hm.1 hs.writer flush id record hrecord

theorem StoppedInv.spanned_open {t : Tables} {files : Files} (h : StoppedInv t files l deleted)
    (hspans : RecordSpans t l.stored) {policies : Policies} {systemNow passNow : ℕ}
    {reading : Duration} (hopen : Store.open t files policies systemNow passNow reading = .ok s) :
    (Machine.running s).Spanned l.stored := by
  obtain ⟨c, r, w, -, hr, hw, rfl⟩ := Store.open_eq_ok hopen
  obtain ⟨-, ⟨pendingUnlinks, htables⟩, -, -⟩ := reconcileAtOpen_eq_ok hr
  have hfile : FileInv r.tables l := h.file.congr
    (by rw [htables]; exact ⟨rfl, rfl, rfl, rfl, rfl, rfl, rfl⟩)
  have hrecords : RecordSpans r.tables l.stored := by rw [htables]; exact hspans
  rw [Writer.open] at hw
  obtain ⟨c', hrecover, hw⟩ := except_bind_eq_ok.mp hw
  cases hw
  refine ⟨?_, hrecords⟩
  exact (((hfile.lastSpans_recover hrecords hrecover).withPoints _ c'.points).sweep
    _).withPoints _ _

theorem Store.handle_core (hhandle : s.handle = some s') : s'.writer.core = s.writer.core := by
  rw [Store.handle] at hhandle
  split at hhandle
  · cases hhandle
    rfl
  next outcome replies _ =>
    cases outcome with
    | written name record generations =>
        rw [Store.handOff, Option.bind_eq_bind, Option.bind_eq_some_iff] at hhandle
        obtain ⟨t, -, hs'⟩ := hhandle
        cases hs'
        rfl
    | failed name cause =>
        cases hhandle
        rfl
  · cases hhandle
    rfl

theorem StoreHistoryInv.spanned_step (hi : StoreHistoryInv h l buffered)
    (hm : h.machine.Spanned (select h.stored)) {op : StoreOp} (htime : op.InTime) :
    (h.step op).machine.Spanned (select (h.step op).stored) := by
  have hstored : l.stored = select h.stored := funext hi.stored
  rw [← hstored] at hm
  have hother : (∀ flush, op ≠ .commit flush) → (h.step op).stored = h.stored := by
    intro hne
    unfold StoreHistory.step
    split
    next flush _ => exact absurd rfl (hne flush)
    · rfl
  rw [StoreHistory.step_machine]
  cases hmachine : h.machine with
  | stopped t files =>
      rw [hmachine] at hm
      have hkept : (h.step op).stored = h.stored := by
        unfold StoreHistory.step
        rw [hmachine]
      rw [hkept, ← hstored]
      cases op with
      | reopen policies systemNow passNow reading =>
          rw [Machine.step]
          split
          next s hopen => exact (hi.stopped hmachine).spanned_open hm hopen
          · exact hm
      | _ => exact hm
  | running s =>
      rw [hmachine] at hm
      obtain ⟨accepted, hs⟩ := hi.running hmachine
      cases op with
      | append system generation points systemNow =>
          rw [hother (by simp), ← hstored]
          obtain ⟨report, w, accepted', happend, -⟩ := hs.append system generation points htime
          simp only [Machine.step, happend, Except.toOption, Option.map_some, Machine.ofOption]
          exact hs.spanned_append hm happend
      | sweep systemNow =>
          rw [hother (by simp), ← hstored, Machine.step]
          cases hsweep : s.sweep systemNow with
          | error backlog => exact hm.2
          | ok s' =>
              rw [Store.sweep] at hsweep
              obtain ⟨handoffs, -, hs'⟩ := except_bind_eq_ok.mp hsweep
              cases hs'
              exact ⟨(hm.1.withPoints _ s.writer.core.points).sweep _, hm.2⟩
      | beginPass systemNow reading =>
          rw [hother (by simp), ← hstored, Machine.step, Store.beginPass]
          split
          · exact hm
          · exact ⟨hm.1.withPoints _ s.writer.core.points, hm.2⟩
      | commit flush =>
          have hcommit : (h.step (.commit flush)).stored = h.stored ++ s.writer.core.sealed := by
            unfold StoreHistory.step
            rw [hmachine]
          have hsplit : select (h.stored ++ s.writer.core.sealed) =
              (l.commit s.writer (select accepted) flush).stored := by
            funext id
            change _ = l.stored id ++ select s.writer.core.sealed id
            rw [select_append, hstored]
          rw [hcommit, hsplit]
          exact hs.spanned_commit hm flush
      | handle =>
          rw [hother (by simp), ← hstored, Machine.step]
          obtain ⟨s', hhandle, -⟩ := hs.handle
          rw [hhandle]
          obtain ⟨hdb, -⟩ := Store.handle_clock hhandle
          exact ⟨Store.handle_core hhandle ▸ hm.1, hdb ▸ hm.2⟩
      | takeJob fails =>
          rw [hother (by simp), ← hstored, Machine.step]
          obtain ⟨hwriter, -⟩ := s.takeJob_clock fails
          exact ⟨hwriter ▸ hm.1, hwriter ▸ hm.2⟩
      | writeFile fails =>
          rw [hother (by simp), ← hstored, Machine.step]
          obtain ⟨hwriter, -⟩ := s.writeFile_clock fails
          exact ⟨hwriter ▸ hm.1, hwriter ▸ hm.2⟩
      | crash =>
          rw [hother (by simp), ← hstored]
          exact hm.2
      | reopen policies systemNow passNow reading =>
          rw [hother (by simp), ← hstored]
          exact hm

/-- In every run of the store each series' last spans are the latest ones its chunks are in. -/
theorem StoreHistoryInv.spanned_run (hi : StoreHistoryInv h l buffered) (hfits : buffered < 2 ^ 64)
    (hm : h.machine.Spanned (select h.stored)) {ops : List StoreOp}
    (hops : StoreOp.Admissible buffered ops) :
    (h.run ops).machine.Spanned (select (h.run ops).stored) := by
  induction ops generalizing h l buffered with
  | nil => exact hm
  | cons op ops ih =>
      obtain ⟨htime, hfits', hops⟩ := hops
      obtain ⟨l', hi', -⟩ := hi.step htime hfits
      exact ih hi' hfits' (hi.spanned_step hm htime) hops

end Runs

end MonitoringAgent.HubStore

import MonitoringAgent.Verification.Store.Crash

/-! # Spans with chunks left

While `chunks` fits one batch of the pass, a span is handed over only with chunks in redb, so that
what a crash leaves of its file is a copy. -/

namespace MonitoringAgent.HubStore

open MonitoringAgent.Library

theorem mem_forgetEmptied {chunks : Table ChunkKey (List UInt8)} {h : Handoffs} {span : SpanKey} :
    span ∈ (forgetEmptied chunks h).waiting ↔
      span ∈ h.waiting ∧ (span ∈ h.inFlight ∨ spanChunks chunks span ≠ []) := by
  have hfold : ∀ (spans : List SpanKey) (h : Handoffs),
      span ∈ (spans.foldl (fun h span => if spanChunks chunks span = [] then h.emptied span
        else h) h).waiting ↔
        span ∈ h.waiting ∧ (span ∉ spans ∨ spanChunks chunks span ≠ []) := by
    intro spans
    induction spans with
    | nil => simp
    | cons first spans ih =>
        intro h
        rw [List.foldl_cons, ih]
        split_ifs with hnil
        · simp only [Handoffs.emptied, Finset.mem_erase, List.mem_cons, not_or]
          by_cases heq : span = first
          · subst heq
            simp [hnil]
          · simp [heq]
        · by_cases heq : span = first
          · subst heq
            simp [hnil]
          · simp [heq]
  rw [forgetEmptied, hfold, Handoffs.idle, Finset.mem_sort, Finset.mem_sdiff]
  tauto

namespace Store

theorem beginPass_handoffs (s : Store) (systemNow : ℕ) (reading : Duration) :
    (s.beginPass systemNow reading).handoffs = s.handoffs := by
  rw [beginPass]
  split
  · rfl
  · rfl

theorem takeJob_handoffs (s : Store) (fails : Bool) : (s.takeJob fails).handoffs = s.handoffs := by
  rw [takeJob]
  split
  · split_ifs <;> rfl
  · split_ifs <;> rfl
  · rfl

theorem writeFile_handoffs (s : Store) (fails : Option HandoffFailure) :
    (s.writeFile fails).handoffs = s.handoffs := by
  rw [writeFile]
  split
  · rfl
  · dsimp only
    split <;> rfl

end Store

/-- Every span waiting to be handed off has chunks in redb, and the spans due or in flight wait. -/
structure Stocked (s : Store) : Prop where
  waiting : ∀ span ∈ s.handoffs.waiting, spanChunks s.writer.db.chunks span ≠ []
  due : s.handoffs.due ⊆ s.handoffs.waiting
  inFlight : s.handoffs.inFlight ⊆ s.handoffs.waiting

namespace Stocked

variable {s s' : Store} {l : Ledger} {accepted : List (SeriesKey × RawPoint)}
  {deleted : List (SeriesId × Sealed)} {buffered : ℕ}

theorem congr (hk : Stocked s) (hdb : s'.writer.db = s.writer.db)
    (hwaiting : s'.handoffs.waiting = s.handoffs.waiting)
    (hdue : s'.handoffs.due ⊆ s.handoffs.waiting)
    (hflight : s'.handoffs.inFlight ⊆ s.handoffs.inFlight) :
    Stocked s' where
  waiting := by
    rw [hdb, hwaiting]
    exact hk.waiting
  due := hwaiting ▸ hdue
  inFlight := hwaiting ▸ hflight.trans hk.inFlight

theorem sweep (hk : Stocked s) {systemNow : ℕ} (hsweep : s.sweep systemNow = .ok s') :
    Stocked s' := by
  rw [Store.sweep] at hsweep
  obtain ⟨handoffs, hchoose, hs'⟩ := except_bind_eq_ok.mp hsweep
  cases hs'
  rw [Handoffs.choose] at hchoose
  split at hchoose
  · cases hchoose
  · cases hchoose
    exact hk.congr rfl rfl (Finset.union_subset hk.due (Finset.filter_subset _ _))
      (Finset.Subset.refl _)

theorem handle (hk : Stocked s) (hhandle : s.handle = some s') : Stocked s' := by
  rw [Store.handle] at hhandle
  split at hhandle
  · obtain rfl := Option.some.inj hhandle
    exact hk
  next outcome replies hreplies =>
    cases outcome with
    | failed name cause =>
        obtain rfl := Option.some.inj hhandle
        exact hk.congr rfl rfl hk.due (Finset.erase_subset _ _)
    | written name record generations =>
        obtain ⟨t, -, hs'⟩ := Option.bind_eq_some_iff.mp hhandle
        obtain rfl := Option.some.inj hs'
        exact hk.congr rfl rfl hk.due (Finset.Subset.refl _)
  next name replies hreplies =>
    obtain rfl := Option.some.inj hhandle
    exact hk.congr rfl rfl hk.due (Finset.Subset.refl _)

/-- What a step of the pass leaves of the spans waiting: all, or those in flight or with chunks
left. -/
theorem step_waiting (r : Retention) (t : Tables) (ctx : Retention.Context)
    (hfits : t.chunks.keys.length ≤ batch) {r' : Retention} {t' : Tables} {handoffs : Handoffs}
    {retired : List BlockName} (hstep : r.step t ctx = (r', t', handoffs, retired)) :
    (t'.chunks = t.chunks ∧ handoffs = ctx.handoffs) ∨
    handoffs = forgetEmptied t'.chunks ctx.handoffs := by
  rw [Retention.step] at hstep
  split at hstep
  · cases hstep
    exact .inl ⟨rfl, rfl⟩
  next start hstage =>
    refine .inr ?_
    have hfew : ((t.chunks.keys.filter (start ≤ ·)).take (batch + 1)).length ≤ batch :=
      (List.length_take_le' _ _).trans ((List.length_filter_le _ _).trans hfits)
    have hdone : ∀ fate, (deleteDeadChunks t.chunks start batch fate).1 = .done := by
      intro fate
      rw [deleteDeadChunks]
      dsimp only
      rw [List.drop_eq_nil_of_le hfew]
      rfl
    rw [Retention.scan] at hstep
    dsimp only at hstep
    split at hstep
    next next chunks heq =>
      have hmore := congrArg Prod.fst heq
      rw [hdone] at hmore
      cases hmore
    next chunks heq =>
      cases hstep
      rfl
  · cases hstep
    exact .inl ⟨rfl, rfl⟩
  next queue _ _ =>
    obtain ⟨gone, rest, -, heq⟩ := retire_eq batch t [] 0 queue
    rw [heq] at hstep
    cases hstep
    refine .inl ⟨?_, rfl⟩
    rw [foldl_retireFile]

/-- Every chunk of the interval is in `chunks` after it, and none of before is gone. -/
theorem contains_writeChunks (t : Tables) (sealed : List (SeriesId × Sealed)) (key : ChunkKey) :
    (Writer.writeChunks t sealed).chunks.contains key = true ↔
      t.chunks.contains key = true ∨ ∃ e ∈ sealed, e.2.chunkKey e.1 = key := by
  rw [Writer.writeChunks]
  dsimp only
  generalize t.chunks = chunks
  induction sealed generalizing chunks with
  | nil => simp
  | cons e sealed ih =>
      rw [List.foldl_cons, ih, List.exists_mem_cons_iff, Table.contains,
        Table.get?_insert, Table.contains]
      split_ifs with heq
      · simp [heq]
      · simp [heq]

theorem commit (hk : Stocked s) (hs : StoreInv s l accepted deleted buffered) (flush : Flush)
    (hfits : (s.passTables flush).chunks.keys.length ≤ batch) : Stocked (s.commit flush) := by
  have hdb : (s.commit flush).writer.db = (s.writeInterval flush).tables := by
    rw [s.commit_writer flush]
  have hshrinks := (s.commit_passStep flush).handoffs
  obtain ⟨hsflight, hsdue⟩ := s.sealing_frame
  have hstep := step_waiting _ _ _ hfits (s.writeInterval_step flush)
  -- The interval takes no chunk away, and brings one for each span it seals.
  have hbefore : ∀ span ∈ s.sealing.waiting, span ∉ s.landed.map BlockName.spanKey →
      spanChunks (s.passTables flush).chunks span ≠ [] := by
    intro span hspan hlanded
    have hkey : ∃ key : ChunkKey, key.spanKey = span ∧
        (s.passTables flush).chunks.contains key = true := by
      obtain hold | ⟨id, chunk, hmem, rfl⟩ := s.mem_sealing_waiting.mp hspan
      · have hsome := hk.waiting span hold
        rw [ne_eq, spanChunks_eq_nil, not_forall] at hsome
        obtain ⟨key, hnot⟩ := hsome
        obtain ⟨rfl, hkey⟩ := Classical.not_imp.mp hnot
        refine ⟨key, rfl, ?_⟩
        change (s.writer.tablesAfter flush).chunks.contains key = true
        rw [s.writer.tablesAfter_chunks flush, contains_writeChunks]
        left
        rw [Table.contains, hs.opened.chunks key hlanded]
        exact Option.isSome_iff_ne_none.mpr hkey
      · refine ⟨chunk.chunkKey id, rfl, ?_⟩
        change (s.writer.tablesAfter flush).chunks.contains _ = true
        rw [s.writer.tablesAfter_chunks flush, contains_writeChunks]
        exact .inr ⟨(id, chunk), hmem, rfl⟩
    obtain ⟨key, rfl, hcontains⟩ := hkey
    obtain ⟨bytes, hbytes⟩ := Table.contains_iff.mp hcontains
    rw [ne_eq, spanChunks_eq_nil]
    exact fun hnone => absurd ((hnone key rfl).symm.trans hbytes) (by simp)
  have hwaiting : ∀ span, span ∈ (s.writeInterval flush).handoffs.waiting →
      span ∉ s.landed.map BlockName.spanKey →
      spanChunks (s.writeInterval flush).tables.chunks span ≠ [] := by
    intro span hspan hlanded
    obtain ⟨hchunks, hsame⟩ | hforgets := hstep
    · rw [hchunks]
      exact hbefore span (hshrinks.waiting hspan) hlanded
    · rw [hforgets] at hspan
      obtain ⟨-, hflight | hsome⟩ := mem_forgetEmptied.mp hspan
      · have hflight : span ∈ s.handoffs.inFlight := hsflight ▸ hflight
        rw [spanChunks_congr fun key hkey => hs.chunks_inFlight flush hflight hlanded hkey]
        exact hk.waiting span (hk.inFlight hflight)
      · exact hsome
  have hflying : s.handoffs.inFlight ⊆ (s.writeInterval flush).handoffs.waiting := by
    intro span hflight
    have hold : span ∈ s.sealing.waiting := s.mem_sealing_waiting.mpr (.inl (hk.inFlight hflight))
    obtain ⟨-, hsame⟩ | hforgets := hstep
    · rw [hsame]
      exact hold
    · rw [hforgets]
      refine mem_forgetEmptied.mpr ⟨hold, .inl ?_⟩
      change span ∈ s.sealing.inFlight
      rwa [hsflight]
  have hdue : (s.writeInterval flush).handoffs.due ⊆ (s.writeInterval flush).handoffs.waiting := by
    refine hshrinks.dueWaiting ?_
    rw [hsdue]
    exact fun span hspan => s.mem_sealing_waiting.mpr (.inl (hk.due hspan))
  refine ⟨fun span hspan => ?_, ?_, fun span hspan => ?_⟩
  · rw [(s.commit_handoffs flush span).1] at hspan
    rw [hdb]
    exact hwaiting span hspan.1 hspan.2
  · rw [(s.commit_handoffs flush ⟨.raw, 0⟩).2.2]
    exact Finset.empty_subset _
  · rw [(s.commit_handoffs flush span).2.1] at hspan
    rw [(s.commit_handoffs flush span).1]
    obtain ⟨hflight, hlanded⟩ | hspan := hspan
    · exact ⟨hflying (hsflight ▸ hshrinks.inFlight ▸ hflight), hlanded⟩
    · refine ⟨hdue hspan, fun hlanded => ?_⟩
      obtain ⟨name, hname, rfl⟩ := List.mem_map.mp hlanded
      have hold : name.spanKey ∈ s.handoffs.due := hsdue ▸ hshrinks.due hspan
      exact (hs.due _ hold).1 (hs.flying name (List.mem_append_right _ hname)).2

/-- A span handed off has chunks left, until its row commits. -/
theorem orphan (hk : Stocked s) (hf : FilesInv s) (hs : StoreInv s l accepted deleted buffered)
    {name : BlockName} (ho : Orphan s.writer.db s.files name) :
    spanChunks s.writer.db.chunks name.spanKey ≠ [] := by
  obtain ⟨held, hfile⟩ := Table.contains_iff.mp ho.file
  obtain hnamed | hpending | hwritten := hf.file name held hfile
  · exact absurd hnamed ho.row
  · exact absurd (ho.pending.symm.trans (hs.opened.pending name hpending)) (by simp)
  · exact hk.waiting _ (hk.inFlight (hs.flying name (hf.handing_of_written hs hwritten).1).2)

end Stocked

namespace StoreHistory

variable {h : StoreHistory} {l : Ledger} {buffered : ℕ}

/-- A running store's waiting spans have chunks, and a stopped one's orphans are copies of chunks
still there. -/
def ChunksKept (h : StoreHistory) : Prop :=
  match h.machine with
  | .running s => Stocked s
  | .stopped t files => ∀ name, Orphan t files name → spanChunks t.chunks name.spanKey ≠ []

theorem ChunksKept.step (hk : h.ChunksKept) (hfiles : h.FilesKept)
    (hi : StoreHistoryInv h l buffered) (op : StoreOp)
    (hfits : ∀ s flush, h.machine = .running s → op = .commit flush →
      (s.passTables flush).chunks.keys.length ≤ batch) : (h.step op).ChunksKept := by
  rw [ChunksKept, step_machine]
  cases hm : h.machine with
  | stopped t files =>
      have hstay : ∀ name, Orphan t files name → spanChunks t.chunks name.spanKey ≠ [] := by
        rwa [ChunksKept, hm] at hk
      cases op with
      | reopen policies systemNow passNow reading =>
          rw [Machine.step]
          cases hopen : Store.open t files policies systemNow passNow reading with
          | error e => exact hstay
          | ok s =>
              have hdb := ((hi.stopped hm).reopened hopen).db
              obtain ⟨c, r, w, -, hr, -, rfl⟩ := Store.open_eq_ok hopen
              obtain ⟨-, -, -, hwaiting⟩ := reconcileAtOpen_eq_ok hr
              refine ⟨fun span hspan => ?_, Finset.empty_subset _, Finset.empty_subset _⟩
              change span ∈ r.waiting at hspan
              rw [hwaiting, List.mem_toFinset, List.mem_map] at hspan
              obtain ⟨key, hkey, rfl⟩ := hspan
              obtain ⟨bytes, hbytes⟩ := Table.mem_keys.mp hkey
              rw [hdb, ne_eq, spanChunks_eq_nil]
              exact fun hnone => absurd ((hnone key rfl).symm.trans hbytes) (by simp)
      | _ => exact hstay
  | running s =>
      obtain ⟨accepted, hs⟩ := hi.running hm
      have hstocked : Stocked s := by rwa [ChunksKept, hm] at hk
      have hstop : ∀ name, Orphan s.writer.db s.files name →
          spanChunks s.writer.db.chunks name.spanKey ≠ [] :=
        fun _ ho => hstocked.orphan (hfiles.running hm) hs ho
      have hsame : ∀ {s' : Store}, s'.writer.db = s.writer.db →
          s'.handoffs = s.handoffs → Stocked s' :=
        fun hdb heq => hstocked.congr hdb (by rw [heq])
          (by rw [heq]; exact hstocked.due) (by rw [heq])
      cases op with
      | append system generation points systemNow =>
          rw [Machine.step]
          cases happend : s.writer.append system generation points systemNow with
          | error e => exact hstop
          | ok result => exact hsame (Writer.append_db happend) rfl
      | sweep systemNow =>
          rw [Machine.step]
          cases hsweep : s.sweep systemNow with
          | error backlog => exact hstop
          | ok s' => exact hstocked.sweep hsweep
      | beginPass systemNow reading =>
          exact hsame (s.beginPass_clock systemNow reading).1
            (s.beginPass_handoffs systemNow reading)
      | commit flush => exact hstocked.commit hs flush (hfits s flush hm rfl)
      | handle =>
          rw [Machine.step]
          cases hhandle : s.handle with
          | none => exact hstop
          | some s' => exact hstocked.handle hhandle
      | takeJob fails => exact hsame (by rw [(s.takeJob_clock fails).1]) (s.takeJob_handoffs fails)
      | writeFile fails =>
          exact hsame (by rw [(s.writeFile_clock fails).1]) (s.writeFile_handoffs fails)
      | crash => exact hstop
      | reopen policies systemNow passNow reading => exact hstocked

/-- As long as redb never holds more chunks at a commit than one batch of the pass visits, every
crash is reconciled. -/
theorem crash_always_reconciled (systemNow : ℕ) (ops : List StoreOp)
    (hops : StoreOp.Admissible 0 ops)
    (hfits : ∀ before flush after s, ops = before ++ .commit flush :: after →
      ((new systemNow).run before).machine = .running s →
      (s.passTables flush).chunks.keys.length ≤ batch)
    (policies : Policies) (openNow passNow : ℕ) (reading : Duration) :
    let m := ((new systemNow).run ops).machine
    ∃ s, Store.open m.tables m.files policies openNow passNow reading = .ok s ∧
      Reopened m.tables m.files s := by
  have hkept : ((new systemNow).run ops).FilesKept ∧ ((new systemNow).run ops).ChunksKept := by
    refine run_induction (P := fun h => h.FilesKept ∧ h.ChunksKept) systemNow hops ⟨?_, ?_⟩ ?_
    · intro name held hfile
      cases hfile
    · intro name ho
      cases ho.file
    · rintro before op after heq ⟨hfiles, hchunks⟩ ⟨l, buffered, hi⟩
      refine ⟨hfiles.step hi op, hchunks.step hfiles hi op ?_⟩
      rintro s flush hm rfl
      exact hfits before flush after s heq hm
  obtain ⟨⟨l, hi, -⟩, -⟩ := (StoreHistoryInv.new systemNow).run (by norm_num) hops
  refine ((hkept.1.explained hi).open_spec (stop_inv hi) policies openNow passNow reading).1
    fun name ho => ?_
  cases hm : ((new systemNow).run ops).machine with
  | running s =>
      rw [hm] at ho
      obtain ⟨accepted, hs⟩ := hi.running hm
      have hstocked : Stocked s := by
        have hchunks := hkept.2
        rwa [ChunksKept, hm] at hchunks
      exact hstocked.orphan (hkept.1.running hm) hs ho
  | stopped t files =>
      rw [hm] at ho
      have hchunks := hkept.2
      rw [ChunksKept, hm] at hchunks
      exact hchunks name ho

theorem crash_always_reconciled_handedOver :
    ∃ s, Store.open ((new 1000).run handedOver).machine.tables
      ((new 1000).run handedOver).machine.files
      (.new .default) 5000 5000 0 = .ok s ∧ s.writer.db.blocks.keys = [] := by
  have hops : StoreOp.Admissible 0 handedOver :=
    (StoreOp.admissible_append.mp handedOver_admissible).1
  have hfew : ∀ i < 8, (((new 1000).run (handedOver.take i)).machine.store?.all fun s =>
      (s.passTables .all).chunks.keys.length ≤ batch) = true := by decide +kernel
  have hfits : ∀ before flush after s, handedOver = before ++ .commit flush :: after →
      ((new 1000).run before).machine = .running s →
      (s.passTables flush).chunks.keys.length ≤ batch := by
    intro before flush after s heq hm
    have hflush : StoreOp.commit flush ∈ handedOver := by
      rw [heq]
      simp
    obtain rfl : flush = .all := by simpa [handedOver] using hflush
    have hlen := congrArg List.length heq
    have hbefore : before = handedOver.take before.length := by
      rw [heq]
      simp
    have hs := hfew before.length (by simp [handedOver] at hlen; omega)
    rw [← hbefore, Machine.store?_eq_some.mpr hm] at hs
    exact of_decide_eq_true hs
  obtain ⟨s, hopen, hreopened⟩ := crash_always_reconciled 1000 handedOver hops hfits
    (.new .default) 5000 5000 0
  have hrows : ((new 1000).run handedOver).machine.tables.blocks.keys = [] := by decide +kernel
  refine ⟨s, hopen, ?_⟩
  rw [hreopened.db]
  exact hrows

end StoreHistory

end MonitoringAgent.HubStore

import MonitoringAgent.Model.Store.Pass

/-! # What a step of the retention pass changes

A step deletes chunks of spans not in flight, or retires files from the front of its queue, and
touches nothing else. -/

namespace MonitoringAgent.HubStore

open MonitoringAgent.Library

/-! ### Spans and their chunks -/

theorem mem_spanChunks {chunks : Table ChunkKey (List UInt8)} {span : SpanKey} {id seq : ℕ}
    {bytes : List UInt8} :
    (id, seq, bytes) ∈ spanChunks chunks span ↔
      chunks.get? ⟨span.tier, span.span, id, seq⟩ = some bytes := by
  rw [Table.get?_eq_some_iff, spanChunks, List.mem_filterMap]
  constructor
  · rintro ⟨⟨key, bytes'⟩, hmem, heq⟩
    obtain ⟨rfl, ⟨⟩⟩ := Option.ite_none_right_eq_some.mp heq
    exact hmem
  · intro hmem
    exact ⟨_, hmem, if_pos rfl⟩

/-- A span's chunks depend on the entries of the span only. -/
theorem spanChunks_congr {chunks chunks' : Table ChunkKey (List UInt8)} {span : SpanKey}
    (h : ∀ key, key.spanKey = span → chunks'.get? key = chunks.get? key) :
    spanChunks chunks' span = spanChunks chunks span := by
  have hsorted : ∀ chunks : Table ChunkKey (List UInt8), (spanChunks chunks span).Pairwise
      fun a b => toLex (a.1, a.2.1) < toLex (b.1, b.2.1) := by
    intro chunks
    rw [spanChunks, List.pairwise_filterMap]
    refine chunks.sorted.imp ?_
    rintro ⟨key, bytes⟩ ⟨key', bytes'⟩ hlt a ha b hb
    obtain ⟨rfl, ⟨⟩⟩ := Option.ite_none_right_eq_some.mp ha
    obtain ⟨hspan, ⟨⟩⟩ := Option.ite_none_right_eq_some.mp hb
    obtain ⟨htier, hspan⟩ : key'.tier = key.tier ∧ key'.span = key.span := by
      simpa [ChunkKey.spanKey] using hspan
    change ChunkKey.fields _ < ChunkKey.fields _ at hlt
    simpa [ChunkKey.fields, Prod.Lex.toLex_lt_toLex, htier, hspan] using hlt
  have : IsStrictOrder (SeriesId × ℕ × List UInt8)
      fun a b => toLex (a.1, a.2.1) < toLex (b.1, b.2.1) :=
    { irrefl := fun _ => lt_irrefl _, trans := fun _ _ _ => lt_trans }
  refine eq_of_increasing (hsorted chunks') (hsorted chunks) ?_
  rintro ⟨id, seq, bytes⟩
  rw [mem_spanChunks, mem_spanChunks, h ⟨span.tier, span.span, id, seq⟩ rfl]

theorem spanChunks_eq_nil {chunks : Table ChunkKey (List UInt8)} {span : SpanKey} :
    spanChunks chunks span = [] ↔ ∀ key, key.spanKey = span → chunks.get? key = none := by
  rw [List.eq_nil_iff_forall_not_mem]
  constructor
  · rintro h ⟨tier, start, id, seq⟩ rfl
    rw [Option.eq_none_iff_forall_not_mem]
    exact fun bytes hbytes => h (id, seq, bytes) (mem_spanChunks.mpr hbytes)
  · rintro h ⟨id, seq, bytes⟩ hmem
    rw [mem_spanChunks, h _ rfl] at hmem
    cases hmem

/-! ### The scan -/

/-- A chunk of a span in flight is kept. -/
theorem not_inFlight_of_delete {key : ChunkKey} {owner : Option Owner} {world : World}
    (h : chunkFate key owner world = .delete) : key.spanKey ∉ world.inFlight := by
  rw [chunkFate] at h
  split at h
  · cases h
  next span hspan =>
    obtain ⟨-, heq⟩ := Option.ite_none_right_eq_some.mp hspan
    obtain rfl := Option.some.inj heq
    split_ifs at h with hmem
    exact hmem

/-- The scan keeps every chunk `fate` does not delete. -/
theorem deleteDeadChunks_get? (chunks : Table ChunkKey (List UInt8)) (start : ChunkKey) (limit : ℕ)
    (fate : ChunkKey → ChunkFate) (key : ChunkKey) :
    (deleteDeadChunks chunks start limit fate).2.get? key = chunks.get? key ∨
      fate key = .delete ∧ (deleteDeadChunks chunks start limit fate).2.get? key = none := by
  simp only [deleteDeadChunks, Table.get?_foldl_erase]
  split_ifs with hmem
  · exact .inr ⟨by simpa using (List.mem_filter.mp hmem).2, rfl⟩
  · exact .inl rfl

/-- Forgetting a span that was emptied changes nothing of the others. -/
structure Handoffs.Shrinks (h h' : Handoffs) : Prop where
  inFlight : h'.inFlight = h.inFlight
  waiting : h'.waiting ⊆ h.waiting
  due : h'.due ⊆ h.due
  dueWaiting : h.due ⊆ h.waiting → h'.due ⊆ h'.waiting

theorem Handoffs.Shrinks.refl (h : Handoffs) : h.Shrinks h :=
  ⟨rfl, Finset.Subset.refl _, Finset.Subset.refl _, id⟩

theorem forgetEmptied_shrinks (chunks : Table ChunkKey (List UInt8)) (h : Handoffs) :
    h.Shrinks (forgetEmptied chunks h) := by
  rw [forgetEmptied]
  generalize h.idle = spans
  induction spans generalizing h with
  | nil => exact .refl h
  | cons span spans ih =>
      rw [List.foldl_cons]
      split_ifs
      · obtain ⟨hflight, hwaiting, hdue, hsub⟩ := ih (h.emptied span)
        refine ⟨hflight, hwaiting.trans (Finset.erase_subset _ _),
          hdue.trans (Finset.erase_subset _ _), fun hle => hsub ?_⟩
        exact Finset.erase_subset_erase _ hle
      · exact ih h

/-! ### Retirements -/

theorem retire_eq (limit : ℕ) (t : Tables) (retired : List BlockName) (spent : ℕ)
    (queue : List Retirement) :
    ∃ gone rest, queue = gone ++ rest ∧
      retire limit t retired spent queue =
        (gone.foldl retireFile t, rest, retired ++ gone.map Retirement.name) := by
  induction queue generalizing t retired spent with
  | nil => exact ⟨[], [], rfl, by simp [retire]⟩
  | cons file queue ih =>
      rw [retire]
      split_ifs
      · exact ⟨[], file :: queue, rfl, by simp⟩
      · obtain ⟨gone, rest, rfl, heq⟩ := ih (retireFile t file)
          (retired ++ [file.name]) (spent + file.cost)
        exact ⟨file :: gone, rest, rfl, by rw [heq]; simp⟩

/-- The `blockGenerations` entries a file's retirement removes. -/
def Retirement.entries (r : Retirement) : List (ℕ ×ₗ SpanKey) :=
  r.generations.map fun generation => toLex (generation, r.name.spanKey)

/-- The tables after files were retired one after another. -/
theorem foldl_retireFile (t : Tables) (gone : List Retirement) :
    gone.foldl retireFile t = { t with
      blocks := (gone.map fun r => r.name.spanKey).foldl Table.erase t.blocks
      blockGenerations := (gone.flatMap Retirement.entries).foldl Table.erase t.blockGenerations
      pendingUnlinks := (gone.map Retirement.name).foldl
        (fun pending name => pending.insert name ())
        t.pendingUnlinks } := by
  induction gone generalizing t with
  | nil => rfl
  | cons file gone ih =>
      have hentries : file.entries.foldl Table.erase t.blockGenerations =
          (retireFile t file).blockGenerations := List.foldl_map
      rw [List.foldl_cons, ih, List.flatMap_cons, List.foldl_append, hentries]
      rfl

theorem mem_holdersOf {t : Tables} {span : SpanKey} {generation : ℕ} :
    generation ∈ holdersOf t span ↔ ∃ bytes, t.blockGenerations.get?
      (toLex (generation, span)) = some bytes := by
  simp only [holdersOf, List.mem_filterMap, Table.get?_eq_some_iff]
  constructor
  · rintro ⟨⟨key, bytes⟩, hmem, heq⟩
    obtain ⟨rfl, ⟨⟩⟩ := Option.ite_none_right_eq_some.mp heq
    exact ⟨bytes, hmem⟩
  · rintro ⟨bytes, hmem⟩
    exact ⟨_, hmem, if_pos rfl⟩

theorem get?_foldl_pending (pending : Table BlockName Unit) (names : List BlockName)
    (name : BlockName) :
    (names.foldl (fun pending name => pending.insert name ()) pending).get? name =
      if name ∈ names then some () else pending.get? name := by
  induction names generalizing pending with
  | nil => simp
  | cons n names ih =>
      rw [List.foldl_cons, ih, Table.get?_insert]
      by_cases hmem : name ∈ names
      · simp [hmem]
      · by_cases hn : n = name
        · simp [hn]
        · simp [hmem, hn, Ne.symm hn]

/-! ### One step -/

/-- The files the pass has still to retire. -/
def Retention.queued (r : Retention) : List BlockName :=
  match r.stage with
  | some (.files queue) => queue.map Retirement.name
  | _ => []

/-- Files waiting to be retired: each has its row, and no span is named twice. -/
structure Queued (t : Tables) (queue : List BlockName) : Prop where
  nodup : (queue.map BlockName.spanKey).Nodup
  row : ∀ name ∈ queue, ∃ record, t.blocks.get? name.spanKey = some record ∧
    record.rewrite = name.rewrite

theorem planRetirements_queued (t : Tables) (owners : Table SeriesId SeriesKey) (world : World) :
    Queued t ((planRetirements t owners world).map Retirement.name) := by
  have hinventory : ∀ span record, (span, record) ∈ (readInventory t).entries →
      t.blocks.get? span = some record := by
    intro span record hmem
    rw [readInventory, ← Table.get?_eq_some_iff, Table.get?_filter] at hmem
    exact (Option.filter_eq_some_iff.mp hmem).1
  constructor
  · rw [planRetirements, List.Nodup, List.pairwise_map, List.pairwise_map, List.pairwise_filterMap]
    refine (readInventory t).sorted.imp ?_
    rintro ⟨span, record⟩ ⟨span', record'⟩ hlt a ha b hb
    obtain ⟨-, ⟨⟩⟩ := Option.ite_none_right_eq_some.mp ha
    obtain ⟨-, ⟨⟩⟩ := Option.ite_none_right_eq_some.mp hb
    exact ne_of_lt hlt
  · intro name hname
    obtain ⟨r, hr, rfl⟩ := List.mem_map.mp hname
    rw [planRetirements] at hr
    obtain ⟨⟨span, record⟩, hmem, heq⟩ := List.mem_filterMap.mp hr
    obtain ⟨-, ⟨⟩⟩ := Option.ite_none_right_eq_some.mp heq
    exact ⟨record, hinventory span record hmem, rfl⟩

/-- What one step of the pass leaves. -/
structure PassStep (r : Retention) (t : Tables) (h : Handoffs) (r' : Retention) (t' : Tables)
    (h' : Handoffs) (retired : List BlockName) : Prop where
  tables : ∃ chunks blocks blockGenerations pendingUnlinks,
    t' = { t with chunks, blocks, blockGenerations, pendingUnlinks }
  chunks : ∀ key, t'.chunks.get? key = t.chunks.get? key ∨
    key.spanKey ∉ h.inFlight ∧ t'.chunks.get? key = none
  row : ∀ span, t'.blocks.get? span =
    if span ∈ retired.map BlockName.spanKey then none else t.blocks.get? span
  pending : ∀ name, t'.pendingUnlinks.get? name =
    if name ∈ retired then some () else t.pendingUnlinks.get? name
  holders : ∀ span ∉ retired.map BlockName.spanKey, ∀ generation,
    t'.blockGenerations.get? (toLex (generation, span)) =
      t.blockGenerations.get? (toLex (generation, span))
  handoffs : h.Shrinks h'
  clock : r'.clock = r.clock
  queue : Queued t r.queued → Queued t' r'.queued ∧ retired <+: r.queued

theorem Retention.step_spec (r : Retention) (t : Tables) (ctx : Context) {r' : Retention}
    {t' : Tables} {h' : Handoffs} {retired : List BlockName}
    (hstep : r.step t ctx = (r', t', h', retired)) :
    PassStep r t ctx.handoffs r' t' h' retired := by
  have hidle : PassStep r t ctx.handoffs { r with stage := none } t ctx.handoffs [] :=
    ⟨⟨_, _, _, _, rfl⟩, fun _ => .inl rfl, by simp, by simp, fun _ _ _ => rfl, .refl _, rfl,
      fun _ => ⟨⟨List.nodup_nil, by simp [queued]⟩, List.nil_prefix⟩⟩
  rw [step] at hstep
  split at hstep
  next hstage =>
    obtain ⟨rfl, rfl, rfl, rfl⟩ := by simpa [Prod.ext_iff] using hstep
    rwa [← hstage] at hidle
  next start hstage =>
    have hkeep : ∀ stage chunks handoffs,
        (∀ key, chunks.get? key = t.chunks.get? key ∨
          key.spanKey ∉ ctx.handoffs.inFlight ∧ chunks.get? key = none) →
        ctx.handoffs.Shrinks handoffs →
        Queued { t with chunks } (Retention.queued { r with stage }) →
        PassStep r t ctx.handoffs { r with stage } { t with chunks } handoffs [] := by
      intro stage chunks handoffs hchunks hshrinks hqueued
      exact ⟨⟨_, _, _, _, rfl⟩, hchunks, by simp, by simp, fun _ _ _ => rfl, hshrinks, rfl,
        fun _ => ⟨hqueued, List.nil_prefix⟩⟩
    have hdelete := deleteDeadChunks_get? t.chunks start batch
      fun key => chunkFate key (ownerOf ctx.owners t.series key.id) (r.world ctx)
    replace hdelete := fun key => (hdelete key).imp_right fun hfate =>
      (⟨not_inFlight_of_delete hfate.1, hfate.2⟩ : key.spanKey ∉ ctx.handoffs.inFlight ∧ _)
    simp only [scan] at hstep
    split at hstep
    next next chunks hscan =>
      rw [hscan] at hdelete
      obtain ⟨rfl, rfl, rfl, rfl⟩ := by simpa [Prod.ext_iff] using hstep
      exact hkeep _ _ _ hdelete (.refl _) ⟨List.nodup_nil, by simp [queued]⟩
    next chunks hscan =>
      rw [hscan] at hdelete
      obtain ⟨rfl, rfl, rfl, rfl⟩ := by simpa [Prod.ext_iff] using hstep
      exact hkeep _ _ _ hdelete (forgetEmptied_shrinks _ _) (planRetirements_queued _ _ _)
  next hstage =>
    obtain ⟨rfl, rfl, rfl, rfl⟩ := by simpa [Prod.ext_iff] using hstep
    exact hidle
  next queue hne hstage =>
    obtain ⟨gone, rest, hqueue, hretire⟩ := retire_eq batch t [] 0 queue
    rw [hretire] at hstep
    obtain ⟨rfl, rfl, rfl, rfl⟩ := by simpa [Prod.ext_iff] using hstep
    have hqueued : r.queued = gone.map Retirement.name ++ rest.map Retirement.name := by
      rw [queued, hstage, hqueue]
      exact List.map_append
    rw [foldl_retireFile]
    refine ⟨⟨_, _, _, _, rfl⟩, fun _ => .inl rfl, fun span => ?_, fun name => ?_, ?_, .refl _, rfl,
      fun hq => ⟨?_, ⟨_, hqueued.symm⟩⟩⟩
    · simp only [Table.get?_foldl_erase, List.map_map]
      rfl
    · exact get?_foldl_pending _ _ _
    · intro span hspan generation
      simp only [Table.get?_foldl_erase]
      rw [if_neg]
      intro hmem
      obtain ⟨r, hr, hentry⟩ := List.mem_flatMap.mp hmem
      obtain ⟨generation', -, heq⟩ := List.mem_map.mp hentry
      obtain ⟨-, rfl⟩ := Prod.mk.inj (toLex.injective heq)
      exact hspan (List.mem_map_of_mem (List.mem_map_of_mem hr))
    · rw [hqueued] at hq
      have hnodup := hq.nodup
      rw [List.map_append, List.nodup_append] at hnodup
      refine ⟨hnodup.2.1, fun name hname => ?_⟩
      obtain ⟨record, hrow, hrewrite⟩ := hq.row name (List.mem_append_right _ hname)
      refine ⟨record, ?_, hrewrite⟩
      simp only [Table.get?_foldl_erase]
      rw [if_neg, hrow]
      intro hmem
      refine hnodup.2.2 name.spanKey ?_ name.spanKey (List.mem_map_of_mem hname) rfl
      rwa [List.map_map]

end MonitoringAgent.HubStore

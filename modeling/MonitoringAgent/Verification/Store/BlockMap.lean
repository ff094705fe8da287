import MonitoringAgent.Model.Store.BlockMap
import MonitoringAgent.Verification.Store.Handoff

/-! # The block map and the committed rows

The writer's own installs and evictions keep the map at the committed rows. A query's install does
too, as long as no eviction has overtaken the row it read. -/

namespace MonitoringAgent.HubStore

open MonitoringAgent.Library

namespace BlockMap

variable {m : BlockMap}

/-! ### One step -/

/-- The map against the rows, while the writer's installs and evictions are under way. -/
structure Inv (m : BlockMap) : Prop where
  known : ∀ span ∈ m.rows.keys, span ∈ m.known.keys ∨ span ∈ m.landed.map BlockName.spanKey
  rows : ∀ span ∈ m.known.keys, span ∈ m.rows.keys ∨ span ∈ m.retired.map BlockName.spanKey
  landed : ∀ span ∈ m.landed.map BlockName.spanKey, span ∈ m.rows.keys ∨
    span ∈ m.retired.map BlockName.spanKey
  retired : ∀ span ∈ m.retired.map BlockName.spanKey, span ∉ m.rows.keys

/-- A query that keeps a file finds its span's row still committed, or its eviction still to come.
-/
def current (m : BlockMap) : BlockMapOp → Bool
  | .step query _ =>
      match m.reads.get? query with
      | some (name, _, .install _) => name.spanKey ∈ m.rows.keys ∨
          name.spanKey ∈ m.retired.map BlockName.spanKey
      | _ => true
  | _ => true

theorem Inv.open (rows : Table SpanKey BlockRecord) (readable : SpanKey → Bool) :
    (BlockMap.open rows readable).Inv := by
  have hkeys : (BlockMap.open rows readable).known.keys = rows.keys := by
    rw [BlockMap.open, Table.keys, Table.mapValues, List.map_map]
    rfl
  exact ⟨fun span hspan => .inl (hkeys ▸ hspan), fun span hspan => .inl (hkeys ▸ hspan),
    fun span hspan => absurd hspan List.not_mem_nil, fun span hspan =>
      absurd hspan List.not_mem_nil⟩

theorem Inv.commit (h : m.Inv) (landed : List (BlockName × BlockRecord))
    (retired : List BlockName) : (m.step (.commit landed retired)).Inv := by
  rw [step]
  split_ifs with hquiet
  · obtain ⟨hlanded, hretired⟩ := hquiet
    have hrows (span : SpanKey) : span ∈ ((retired.map BlockName.spanKey).foldl Table.erase
        (landed.foldl (fun rows e => rows.insert e.1.spanKey e.2) m.rows)).keys ↔
        (span ∈ m.rows.keys ∨ span ∈ (landed.map Prod.fst).map BlockName.spanKey) ∧
          span ∉ retired.map BlockName.spanKey := by
      have hinsert : landed.foldl (fun rows e => rows.insert e.1.spanKey e.2) m.rows =
          (landed.map fun e => (e.1.spanKey, e.2)).foldl
            (fun rows e => rows.insert e.1 e.2) m.rows := by
        rw [List.foldl_map]
      rw [Table.mem_keys_foldl_erase, hinsert, Table.mem_keys_foldl_insert,
        List.map_map, List.map_map]
      rfl
    refine ⟨fun span hspan => ?_, fun span hspan => ?_, fun span hspan => ?_,
      fun span hspan hrow => ?_⟩
    · obtain ⟨hold | hnew, -⟩ := (hrows span).mp hspan
      · have hknown := h.known span hold
        rw [hlanded] at hknown
        exact hknown.imp_right nofun
      · exact .inr hnew
    · by_cases hgone : span ∈ retired.map BlockName.spanKey
      · exact .inr hgone
      · have hrow := h.rows span hspan
        rw [hretired] at hrow
        exact .inl ((hrows span).mpr ⟨.inl (hrow.resolve_right nofun), hgone⟩)
    · by_cases hgone : span ∈ retired.map BlockName.spanKey
      · exact .inr hgone
      · exact .inl ((hrows span).mpr ⟨.inr hspan, hgone⟩)
    · exact ((hrows span).mp hrow).2 hspan
  · exact h

theorem Inv.install (h : m.Inv) : (m.step .install).Inv := by
  rw [step]
  cases hlanded : m.landed with
  | nil => exact h
  | cons name landed =>
      refine ⟨fun span hspan => ?_, fun span hspan => ?_, fun span hspan => ?_, h.retired⟩
      · have hknown := h.known span hspan
        rw [hlanded, List.map_cons, List.mem_cons] at hknown
        rcases hknown with hknown | rfl | hlater
        · exact .inl (Table.mem_keys_insert.mpr (.inr hknown))
        · exact .inl (Table.mem_keys_insert.mpr (.inl rfl))
        · exact .inr hlater
      · rcases Table.mem_keys_insert.mp hspan with rfl | hspan
        · exact h.landed _ (List.mem_map_of_mem (hlanded ▸ List.mem_cons_self))
        · exact h.rows span hspan
      · refine h.landed span ?_
        rw [hlanded]
        exact List.mem_cons_of_mem _ hspan

theorem Inv.evict (h : m.Inv) : (m.step .evict).Inv := by
  rw [step]
  cases hlanded : m.landed with
  | cons => exact h
  | nil =>
      cases hretired : m.retired with
      | nil => exact h
      | cons name retired =>
          have hname := h.retired name.spanKey (List.mem_map_of_mem (hretired ▸ List.mem_cons_self))
          refine ⟨fun span hspan => ?_, fun span hspan => ?_, ?_, fun span hspan => ?_⟩
          · have hknown := h.known span hspan
            rw [hlanded] at hknown
            refine .inl (Table.mem_keys_erase.mpr ⟨hknown.resolve_right nofun, ?_⟩)
            rintro rfl
            exact hname hspan
          · obtain ⟨hknown, hne⟩ := Table.mem_keys_erase.mp hspan
            have hrow := h.rows span hknown
            rw [hretired, List.map_cons, List.mem_cons] at hrow
            exact hrow.imp_right fun hrow => hrow.resolve_left hne
          · exact fun span hspan => absurd hspan List.not_mem_nil
          · refine h.retired span ?_
            rw [hretired]
            exact List.mem_cons_of_mem _ hspan

/-- A read leaves the map's spans alone, but for the file it keeps. -/
theorem mem_keys_read {name : BlockName} {id : SeriesId} {known : Table SpanKey Known}
    {file : Option Held} {read : FileRead} {span : SpanKey} :
      span ∈ (read.step name id known file).2.keys ↔
      span ∈ known.keys ∨ (∃ found, read = .install found) ∧ span = name.spanKey := by
  cases read with
  | install found => simp [FileRead.step, Table.mem_keys_insert, or_comm]
  | look =>
      rw [FileRead.step]
      cases known.get? name.spanKey with
      | none => simp
      | some current => simp
  | again =>
      rw [FileRead.step]
      cases known.get? name.spanKey with
      | none => simp
      | some current => simp
  | series found =>
      cases found with
      | unreadable => simp [FileRead.step]
      | readable =>
          cases file with
          | none => simp [FileRead.step]
          | some held => simp [FileRead.step]
  | summary => simp [FileRead.step]
  | done answer => simp [FileRead.step]

theorem Inv.read (h : m.Inv) {query : ℕ} {file : Option Held}
    (hcurrent : m.current (.step query file)) : (m.step (.step query file)).Inv := by
  rw [step]
  cases hread : m.reads.get? query with
  | none => exact h
  | some call =>
      obtain ⟨name, id, read⟩ := call
      refine ⟨fun span hspan => ?_, fun span hspan => ?_, h.landed, h.retired⟩
      · exact (h.known span hspan).imp_left fun hknown => mem_keys_read.mpr (.inl hknown)
      · rcases mem_keys_read.mp hspan with hknown | ⟨⟨found, rfl⟩, rfl⟩
        · exact h.rows span hknown
        · exact of_decide_eq_true (by rw [current, hread] at hcurrent; exact hcurrent)

theorem Inv.step (h : m.Inv) {op : BlockMapOp} (hcurrent : m.current op) : (m.step op).Inv := by
  cases op with
  | commit landed retired => exact h.commit landed retired
  | install => exact h.install
  | evict => exact h.evict
  | read query n span id =>
      rw [BlockMap.step]
      split
      · exact h
      · split
        · exact h
        · exact ⟨h.known, h.rows, h.landed, h.retired⟩
  | step query file => exact h.read hcurrent

/-! ### Runs -/

/-- Every file a query keeps in the run is kept while its row is current. -/
def allCurrent : BlockMap → List BlockMapOp → Bool
  | _, [] => true
  | m, op :: ops => m.current op && (m.step op).allCurrent ops

theorem Inv.run (h : m.Inv) {ops : List BlockMapOp} (hcurrent : m.allCurrent ops) :
    (m.run ops).Inv := by
  induction ops generalizing m with
  | nil => exact h
  | cons op ops ih =>
      rw [allCurrent, Bool.and_eq_true] at hcurrent
      exact ih (h.step hcurrent.1) hcurrent.2

theorem Inv.mirrors (h : m.Inv) (hlanded : m.landed = []) (hretired : m.retired = []) :
    m.Mirrors := by
  intro span
  have hknown := h.known span
  have hrows := h.rows span
  rw [hlanded] at hknown
  rw [hretired] at hrows
  exact ⟨fun hspan => (hrows hspan).resolve_right nofun,
    fun hspan => (hknown hspan).resolve_right nofun⟩

/-- A map with the rows' spans counts the rows. -/
theorem Mirrors.keys_eq (h : m.Mirrors) : m.known.keys = m.rows.keys :=
  eq_of_increasing (r := (· < ·)) (List.pairwise_map.mpr m.known.sorted)
    (List.pairwise_map.mpr m.rows.sorted) h

/-- Whatever the commits, installs, evictions and queries, in any order: if every file a query keeps
is kept while its row is current, then once the writer is done with the last commit and no query is
reading, the map's spans are the committed rows', and the files counted are the rows. -/
theorem mirrors_of_current (rows : Table SpanKey BlockRecord) (readable : SpanKey → Bool)
    (ops : List BlockMapOp) (hcurrent : (BlockMap.open rows readable).allCurrent ops)
    (hquiet : ((BlockMap.open rows readable).run ops).quiet) :
    ((BlockMap.open rows readable).run ops).Mirrors ∧
      ∀ tier, ((BlockMap.open rows readable).run ops).blockFiles tier =
      (((BlockMap.open rows readable).run ops).rows.keys.filter fun span => span.tier =
        tier).length := by
  obtain ⟨hlanded, hretired, -⟩ := of_decide_eq_true hquiet
  have hmirrors := ((Inv.open rows readable).run hcurrent).mirrors hlanded hretired
  exact ⟨hmirrors, fun tier => by rw [blockFiles, hmirrors.keys_eq]⟩

/-! ### A query overtaken by a retirement -/

/-- A span's row lands and is retired while a query still holds the snapshot that has it; the query
then reads the file. -/
def overtaken : List BlockMapOp :=
  let name : BlockName := ⟨.raw, 0, 0⟩
  [.commit [(name, ⟨0, 1⟩)] [], .install, .commit [] [name], .evict, .read 0 1 ⟨.raw, 0⟩ 7,
    .step 0 none, .step 0 none, .step 0 none, .step 0 none, .step 0 none]

/-- The file the query kept stays in the map, and is counted, after the query has ended. -/
theorem retired_file_kept :
    let m := (BlockMap.open .empty fun _ => true).run overtaken
    m.quiet ∧ ¬m.Mirrors ∧ m.blockFiles .raw = 1 ∧ m.rows.keys = [] := by
  refine ⟨by decide +kernel, fun h => ?_, by decide +kernel, by decide +kernel⟩
  have hspan := (h ⟨.raw, 0⟩).mp (by decide +kernel)
  revert hspan
  decide +kernel

/-- The same query, ended before the retirement. -/
def inTime : List BlockMapOp :=
  let name : BlockName := ⟨.raw, 0, 0⟩
  [.commit [(name, ⟨0, 1⟩)] [], .read 0 1 ⟨.raw, 0⟩ 7, .step 0 (some []), .step 0 (some []),
    .step 0 (some []), .install, .step 0 (some []), .step 0 (some []), .commit [] [name], .evict]

theorem mirrors_of_current_inTime : ((BlockMap.open .empty fun _ => true).run inTime).Mirrors :=
  (mirrors_of_current .empty (fun _ => true) inTime (by decide +kernel) (by decide +kernel)).1

end BlockMap

/-! ### The store's own steps -/

namespace Store

/-- The block map of a store between two commits. -/
def blockMap (s : Store) (past : List (Table SpanKey BlockRecord))
    (reads : Table ℕ (BlockName × SeriesId × FileRead)) : BlockMap :=
  ⟨s.writer.db.blocks, past, s.known, [], [], reads⟩

/-- The rows of the files the commit in progress lands. -/
def landing (s : Store) : List (BlockName × BlockRecord) :=
  s.landed.filterMap fun name => (s.writer.openTxn.blocks.get? name.spanKey).map (name, ·)

/-- The commit in progress holds the row of each file it lands. -/
def LandedRows (s : Store) : Prop :=
  ∀ name ∈ s.landed, ∃ record, s.writer.openTxn.blocks.get? name.spanKey = some record

theorem landing_fst {s : Store} (h : s.LandedRows) : s.landing.map Prod.fst = s.landed := by
  rw [LandedRows] at h
  rw [landing]
  generalize s.landed = names at h
  induction names with
  | nil => rfl
  | cons name names ih =>
      obtain ⟨record, hrecord⟩ := h name List.mem_cons_self
      rw [List.filterMap_cons, hrecord, Option.map_some, List.map_cons, ih fun name hname =>
        h name (List.mem_cons_of_mem _ hname)]

theorem run_installs (m : BlockMap) (names : List BlockName) (hlanded : m.landed = names) :
    m.run (List.replicate names.length .install) =
      { m with
        known := names.foldl (fun known name => known.insert name.spanKey (.readable name.rewrite))
          m.known
        landed := [] } := by
  induction names generalizing m with
  | nil =>
      obtain ⟨rows, past, known, landed, retired, reads⟩ := m
      obtain rfl := hlanded
      rfl
  | cons name names ih =>
      rw [List.length_cons, List.replicate_succ, BlockMap.run, List.foldl_cons, ← BlockMap.run,
        BlockMap.step, hlanded]
      exact ih _ rfl

theorem run_evicts (m : BlockMap) (names : List BlockName) (hlanded : m.landed = [])
    (hretired : m.retired = names) :
    m.run (List.replicate names.length .evict) =
      { m with known := names.foldl (fun known name => known.erase name.spanKey) m.known
               retired := [] } := by
  induction names generalizing m with
  | nil =>
      obtain ⟨rows, past, known, landed, retired, reads⟩ := m
      obtain rfl := hretired
      rfl
  | cons name names ih =>
      rw [List.length_cons, List.replicate_succ, BlockMap.run, List.foldl_cons, ← BlockMap.run,
        BlockMap.step, hlanded, hretired]
      exact ih _ rfl rfl

end Store

section Commit

variable {s : Store} {l : Ledger} {accepted : List (SeriesKey × RawPoint)}
  {deleted : List (SeriesId × Sealed)} {buffered : ℕ}

/-- A commit's rows: those of the files it lands, then without those its pass retires. -/
theorem StoreInv.commit_rows (h : StoreInv s l accepted deleted buffered)
    (hlanded : s.LandedRows) (flush : Flush) :
    (s.commit flush).writer.db.blocks =
      ((s.writeInterval flush).retired.map BlockName.spanKey).foldl Table.erase
      (s.landing.foldl (fun rows e => rows.insert e.1.spanKey e.2) s.writer.db.blocks) := by
  have hdb : (s.commit flush).writer.db = (s.writeInterval flush).tables := by
    rw [s.commit_writer flush]
  have hagree : ∀ span record record', (span, record) ∈
      s.landing.map (fun e => (e.1.spanKey, e.2)) →
      (span, record') ∈ s.landing.map (fun e => (e.1.spanKey, e.2)) → record = record' := by
    intro span record record' hrecord hrecord'
    have hrow : ∀ record, (span, record) ∈ s.landing.map (fun e => (e.1.spanKey, e.2)) →
        s.writer.openTxn.blocks.get? span = some record := by
      intro record hrecord
      obtain ⟨⟨name, _⟩, hmem, heq⟩ := List.mem_map.mp hrecord
      obtain ⟨rfl, rfl⟩ := Prod.mk.inj heq
      obtain ⟨other, -, hother⟩ := List.mem_filterMap.mp hmem
      obtain ⟨found, hfound, heq⟩ := Option.map_eq_some_iff.mp hother
      obtain ⟨rfl, rfl⟩ := Prod.mk.inj heq
      exact hfound
    exact Option.some.inj ((hrow record hrecord).symm.trans (hrow record' hrecord'))
  refine Table.ext fun span => ?_
  rw [hdb, (s.commit_passStep flush).row, Table.get?_foldl_erase]
  refine if_congr Iff.rfl rfl ?_
  change (s.writer.tablesAfter flush).blocks.get? span = _
  rw [(s.writer.tablesAfter_files flush).1]
  have hinsert : s.landing.foldl (fun rows e => rows.insert e.1.spanKey e.2) s.writer.db.blocks =
      (s.landing.map fun e => (e.1.spanKey, e.2)).foldl
        (fun rows e => rows.insert e.1 e.2) s.writer.db.blocks := by
    rw [List.foldl_map]
  ext record
  rw [hinsert, Table.get?_foldl_insert (hagree span)]
  by_cases hspan : span ∈ s.landed.map BlockName.spanKey
  · obtain ⟨name, hname, rfl⟩ := List.mem_map.mp hspan
    obtain ⟨found, hfound⟩ := hlanded name hname
    have hmem : (name.spanKey, found) ∈ s.landing.map (fun e => (e.1.spanKey, e.2)) :=
      List.mem_map.mpr ⟨(name, found), List.mem_filterMap.mpr ⟨name, hname, by
        rw [hfound]; rfl⟩, rfl⟩
    constructor
    · intro hrecord
      obtain rfl : found = record := Option.some.inj (hfound.symm.trans hrecord)
      exact .inl hmem
    · rintro (hrecord | ⟨hnone, -⟩)
      · rw [hagree _ _ _ hrecord hmem, hfound]
      · exact absurd hmem (hnone found)
  · have hnone : ∀ record, (span, record) ∉ s.landing.map (fun e => (e.1.spanKey, e.2)) := by
      intro record hrecord
      obtain ⟨⟨name, _⟩, hmem, heq⟩ := List.mem_map.mp hrecord
      obtain ⟨other, hother, heq'⟩ := List.mem_filterMap.mp hmem
      obtain ⟨found, -, hfound⟩ := Option.map_eq_some_iff.mp heq'
      obtain ⟨rfl, rfl⟩ := Prod.mk.inj hfound
      obtain ⟨rfl, rfl⟩ := Prod.mk.inj heq
      exact hspan (List.mem_map_of_mem hother)
    rw [h.opened.row span hspan]
    exact ⟨fun hrecord => .inr ⟨hnone, hrecord⟩, fun hrecord =>
      (hrecord.resolve_left (hnone record)).2⟩

/-- A commit of the store, on the block map: its rows, then the writer's installs and evictions. -/
theorem StoreInv.commit_blockMap (h : StoreInv s l accepted deleted buffered)
    (hlanded : s.LandedRows) (flush : Flush) (past : List (Table SpanKey BlockRecord))
    (reads : Table ℕ (BlockName × SeriesId × FileRead)) :
    (s.blockMap past reads).run (.commit s.landing (s.writeInterval flush).retired ::
      (List.replicate s.landed.length .install ++
        List.replicate (s.writeInterval flush).retired.length .evict)) =
      (s.commit flush).blockMap (past ++ [(s.commit flush).writer.db.blocks]) reads := by
  rw [BlockMap.run, List.foldl_cons, List.foldl_append, ← BlockMap.run, ← BlockMap.run,
    BlockMap.step, if_pos ⟨rfl, rfl⟩, Store.run_installs _ _ (Store.landing_fst hlanded),
    Store.run_evicts _ _ rfl rfl, Store.blockMap, Store.blockMap, h.commit_rows hlanded flush]
  rfl

end Commit

/-! ### Runs of the store -/

/-- Between two commits the block map of a running store holds the committed rows' files. -/
def Machine.Mirrored : Machine → Prop
  | .running s => s.LandedRows ∧ (s.blockMap [] .empty).Inv
  | .stopped _ _ => True

section Runs

variable {s s' : Store} {l : Ledger} {accepted : List (SeriesKey × RawPoint)}
  {deleted : List (SeriesId × Sealed)} {buffered : ℕ} {h : StoreHistory}

theorem BlockMap.Inv.allCurrent_writer {m : BlockMap} {ops : List BlockMapOp}
    (hops : ∀ op ∈ ops, ∀ query file, op ≠ .step query file) : m.allCurrent ops := by
  induction ops generalizing m with
  | nil => rfl
  | cons op ops ih =>
      rw [allCurrent, Bool.and_eq_true]
      refine ⟨?_, ih fun op hop => hops op (List.mem_cons_of_mem _ hop)⟩
      cases op with
      | step query file => exact absurd rfl (hops _ List.mem_cons_self query file)
      | _ => rfl

theorem StoreInv.mirrored_commit (hs : StoreInv s l accepted deleted buffered)
    (hm : (Machine.running s).Mirrored) (flush : Flush) :
    (Machine.running (s.commit flush)).Mirrored := by
  refine ⟨nofun, ?_⟩
  have hrun := hs.commit_blockMap hm.1 flush [] .empty
  have hinv : (s.commit flush).blockMap
      ([] ++ [(s.commit flush).writer.db.blocks]) .empty |>.Inv := by
    rw [← hrun]
    refine hm.2.run (BlockMap.Inv.allCurrent_writer ?_)
    simp only [List.mem_cons, List.mem_append, List.mem_replicate]
    rintro op (rfl | ⟨-, rfl⟩ | ⟨-, rfl⟩) query file
    all_goals nofun
  exact ⟨hinv.known, hinv.rows, hinv.landed, hinv.retired⟩

theorem Machine.Mirrored.handle (hm : (Machine.running s).Mirrored) (hhandle : s.handle = some s') :
    (Machine.running s').Mirrored := by
  obtain ⟨hlanded, hinv⟩ := hm
  rw [Store.handle] at hhandle
  split at hhandle
  · cases hhandle
    exact ⟨hlanded, hinv⟩
  next outcome replies _ =>
    cases outcome with
    | written name record generations =>
        rw [Store.handOff, Option.bind_eq_bind, Option.bind_eq_some_iff] at hhandle
        obtain ⟨t, ht, hs'⟩ := hhandle
        cases hs'
        rw [commitHandoff] at ht
        split_ifs at ht
        cases ht
        refine ⟨fun other hother => ?_, hinv⟩
        change ∃ found, (s.writer.openTxn.blocks.insert name.spanKey record).get? other.spanKey =
          some found
        rw [Table.get?_insert]
        split_ifs with heq
        · exact ⟨record, rfl⟩
        · rcases List.mem_append.mp hother with hother | hother
          · exact hlanded other hother
          · exact absurd (List.mem_singleton.mp hother ▸ rfl) heq
    | failed name cause =>
        cases hhandle
        exact ⟨hlanded, hinv⟩
  · cases hhandle
    exact ⟨hlanded, hinv⟩

/-- A step that leaves the rows, the map and the landing files alone keeps it. -/
theorem Machine.Mirrored.frame (hm : (Machine.running s).Mirrored) (hlanded : s'.landed = s.landed)
    (htxn : s'.writer.openTxn = s.writer.openTxn) (hdb : s'.writer.db = s.writer.db)
    (hknown : s'.known = s.known) : (Machine.running s').Mirrored := by
  obtain ⟨hrows, hinv⟩ := hm
  refine ⟨?_, ?_⟩
  · rw [Store.LandedRows, hlanded, htxn]
    exact hrows
  · rw [Store.blockMap, hdb, hknown]
    exact hinv

theorem reconcileAtOpen_known {t : Tables} {files : Files} {head : Table SeriesKey HeadEntry}
    {hubNow : ℕ} {r : Reconciled} (h : reconcileAtOpen t files head hubNow = .ok r) :
    r.known.keys = r.tables.blocks.keys := by
  rw [reconcileAtOpen] at h
  obtain ⟨plan, -, hr⟩ := except_bind_eq_ok.mp h
  cases hr
  dsimp only [catalogued]
  rw [Table.keys, Table.mapValues, Table.mapValues, List.map_map, List.map_map]
  rfl

theorem Store.mirrored_open {t : Tables} {files : Files} {policies : Policies}
    {systemNow passNow : ℕ} {reading : Duration}
    (hopen : Store.open t files policies systemNow passNow reading = .ok s) :
    (Machine.running s).Mirrored := by
  obtain ⟨c, r, w, -, hr, hw, rfl⟩ := Store.open_eq_ok hopen
  have hdb : w.db = r.tables := by
    rw [Writer.open] at hw
    obtain ⟨c', -, hw⟩ := except_bind_eq_ok.mp hw
    cases hw
    rfl
  have hkeys := reconcileAtOpen_known hr
  rw [← hdb] at hkeys
  exact ⟨fun name hname => absurd hname List.not_mem_nil, fun span hspan => .inl (hkeys ▸ hspan),
    fun span hspan => .inl (hkeys ▸ hspan), fun span hspan => absurd hspan List.not_mem_nil,
    fun span hspan => absurd hspan List.not_mem_nil⟩

theorem StoreHistoryInv.mirrored_step (hi : StoreHistoryInv h l buffered) (hm : h.machine.Mirrored)
    {op : StoreOp} (htime : op.InTime) : (h.machine.step op).Mirrored := by
  cases hmachine : h.machine with
  | stopped t files =>
      cases op with
      | reopen policies systemNow passNow reading =>
          rw [Machine.step]
          split
          next s hopen => exact Store.mirrored_open hopen
          · trivial
      | _ => trivial
  | running s =>
      rw [hmachine] at hm
      obtain ⟨accepted, hs⟩ := hi.running hmachine
      cases op with
      | append system generation points systemNow =>
          obtain ⟨report, w, accepted', happend, -⟩ := hs.append system generation points htime
          simp only [Machine.step, happend, Except.toOption, Option.map_some, Machine.ofOption]
          rw [Writer.append] at happend
          obtain ⟨⟨report', core⟩, -, hw⟩ := except_bind_eq_ok.mp happend
          cases hw
          exact hm.frame rfl rfl rfl rfl
      | sweep systemNow =>
          rw [Machine.step]
          cases hsweep : s.sweep systemNow with
          | error backlog => trivial
          | ok s' =>
              rw [Store.sweep] at hsweep
              obtain ⟨handoffs, -, hs'⟩ := except_bind_eq_ok.mp hsweep
              cases hs'
              exact hm.frame rfl rfl rfl rfl
      | beginPass systemNow reading =>
          rw [Machine.step, Store.beginPass]
          split
          · exact hm
          · exact hm.frame rfl rfl rfl rfl
      | commit flush => exact hs.mirrored_commit hm flush
      | handle =>
          rw [Machine.step]
          obtain ⟨s', hhandle, -⟩ := hs.handle
          rw [hhandle]
          exact hm.handle hhandle
      | takeJob fails =>
          rw [Machine.step, Store.takeJob]
          split
          · split_ifs
            · exact hm.frame rfl rfl rfl rfl
            · exact hm.frame rfl rfl rfl rfl
          · split_ifs
            · exact hm.frame rfl rfl rfl rfl
            · exact hm.frame rfl rfl rfl rfl
          · exact hm
      | writeFile fails =>
          rw [Machine.step, Store.writeFile]
          split
          · exact hm
          · dsimp only
            split
            · exact hm.frame rfl rfl rfl rfl
            · exact hm.frame rfl rfl rfl rfl
      | crash => trivial
      | reopen policies systemNow passNow reading => exact hm

/-- In every run of the store that no query reads beside, the block map's spans are the committed
rows'. -/
theorem Machine.run_mirrored (systemNow : ℕ) {ops : List StoreOp}
    (hops : StoreOp.Admissible 0 ops) : ((Machine.new systemNow).run ops).Mirrored := by
  have hrun : ∀ (h : StoreHistory) (l : Ledger) (buffered : ℕ), StoreHistoryInv h l buffered →
      buffered < 2 ^ 64 →
      h.machine.Mirrored → StoreOp.Admissible buffered ops → (h.machine.run ops).Mirrored := by
    clear hops
    induction ops with
    | nil => exact fun h l buffered _ _ hm _ => hm
    | cons op ops ih =>
        intro h l buffered hi hfits hm hops
        obtain ⟨htime, hfits', hops⟩ := hops
        obtain ⟨l', hi', -⟩ := hi.step htime hfits
        have hnext := ih (h.step op) l' _ hi' hfits'
          (h.step_machine op ▸ hi.mirrored_step hm htime) hops
        rwa [h.step_machine op] at hnext
  exact hrun (.new systemNow) _ 0 (StoreHistoryInv.new systemNow) (by norm_num) trivial hops

end Runs

end MonitoringAgent.HubStore

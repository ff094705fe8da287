import MonitoringAgent.Model.Store.Records
import MonitoringAgent.Verification.Store.Handoff

/-! # Retention deletes only what is dead

Every series of the store belongs to the one system of its generation; so a holder the pass names by
its generation is the owner of the chunks it holds, and stays so until the file is retired. -/

namespace MonitoringAgent.HubStore

open MonitoringAgent.Library

/-! ### The series of the head -/

namespace Core

variable {c c' : Core} {key : SeriesKey} {e : HeadEntry}

theorem appendEntry_keys (hget : c.head.get? key = some e) {kind : ValueKind} {value : ℤ}
    {scaled : Scaled} {«at» : ℕ} {k : SeriesKey} {e' : HeadEntry}
    (h : (c.appendEntry key e kind value scaled «at»).2.head.get? k = some e') :
    ∃ e₀, c.head.get? k = some e₀ := by
  rw [appendEntry] at h
  split_ifs at h
  · exact ⟨e', h⟩
  split at h
  · exact ⟨e', h⟩
  · rw [putEntry_head] at h
    split_ifs at h with heq
    · exact ⟨e, heq ▸ hget⟩
    · exact ⟨e', h⟩

theorem activate_keys {txn : Tables} {kind : ValueKind} {answer : Except Rejected Unit}
    (h : c.activate txn key kind = .ok (answer, c')) {k : SeriesKey} {e' : HeadEntry}
    (hget : c'.head.get? k = some e') : (∃ e₀, c.head.get? k = some e₀) ∨ k = key := by
  have hadd : ∀ (c₁ : Core) (entry : HeadEntry), c₁.head = c.head → c' = c₁.addEntry key entry →
      (∃ e₀, c.head.get? k = some e₀) ∨ k = key := by
    intro c₁ entry hhead heq
    rw [heq, addEntry, Table.get?_insert] at hget
    split_ifs at hget with hk
    · exact .inr hk.symm
    · exact .inl ⟨e', hhead ▸ hget⟩
  rw [activate] at h
  split at h
  · dsimp only at h
    split at h
    · split at h
      · exact hadd c _ rfl (congrArg Prod.snd (Except.ok.inj h)).symm
      · cases h
    · exact hadd c _ rfl (congrArg Prod.snd (Except.ok.inj h)).symm
  · split_ifs at h
    · refine hadd _ _ ?_ (congrArg Prod.snd (Except.ok.inj h)).symm
      rfl
    · obtain rfl : c = c' := congrArg Prod.snd (Except.ok.inj h)
      exact .inl ⟨e', hget⟩

theorem appendPoint_keys {txn : Tables} {kind : ValueKind} {value : ℤ} {«at» : ℕ}
    {answer : Except Rejected Unit} (h : c.appendPoint txn key kind value «at» = .ok (answer, c'))
    {k : SeriesKey} {e' : HeadEntry} (hget : c'.head.get? k = some e') :
    (∃ e₀, c.head.get? k = some e₀) ∨ k = key := by
  revert e'
  refine appendPoint_inv (P := fun c' => ∀ {e'}, c'.head.get? k = some e' →
    (∃ e₀, c.head.get? k = some e₀) ∨ k = key)
    (fun c₁ active _ hactive e' hget => activate_keys hactive hget) ?_
    (fun hget => .inl ⟨_, hget⟩) h
  intro c₁ entry scaled hkeys hentry e' hget
  obtain ⟨e₁, he₁⟩ := appendEntry_keys hentry hget
  exact hkeys he₁

/-- An append brings only series of its own system and generation into the head. -/
theorem appendEach_keys {txn : Tables} {system : List UInt8} {generation «at» : ℕ}
    {points : List IncomingPoint} {answers : List (Except Rejected Unit)}
    (h : c.appendEach txn system generation «at» points = .ok (answers, c'))
    {k : SeriesKey} {e' : HeadEntry} (hget : c'.head.get? k = some e') :
    (∃ e₀, c.head.get? k = some e₀) ∨ k.system = system ∧ k.generation = generation := by
  revert e'
  refine appendEach_inv (P := fun c' => ∀ {e'}, c'.head.get? k = some e' →
    (∃ e₀, c.head.get? k = some e₀) ∨ k.system = system ∧ k.generation = generation) ?_
      (fun hget => .inl ⟨_, hget⟩) h
  intro c₁ c₂ p answer hkeys hpoint e' hget
  rcases appendPoint_keys hpoint hget with ⟨e₁, he₁⟩ | rfl
  · exact hkeys he₁
  · exact .inr ⟨rfl, rfl⟩

end Core

/-! ### Generations and systems -/

section Systems

variable (system : ℕ → List UInt8)

/-- The series belongs to the one system of its generation. -/
def SeriesKey.OwnedBy (key : SeriesKey) : Prop := key.system = system key.generation

variable {system}

/-- Each generation of the keys is mapped, and to its own system. -/
theorem foldl_owners {keys : List (SeriesId × SeriesKey)} (hkeys : ∀ e ∈ keys, e.2.OwnedBy system)
    (start : Table ℕ (List UInt8))
    (hstart : ∀ generation name, start.get? generation = some name → name = system generation)
    (generation : ℕ) :
    (∀ name, (keys.foldl (fun m e => m.insert e.2.generation e.2.system) start).get? generation =
      some name → name = system generation) ∧
    ((∃ name, start.get? generation = some name) ∨ (∃ e ∈ keys, e.2.generation = generation) →
      ∃ name, (keys.foldl (fun m e => m.insert e.2.generation e.2.system) start).get? generation =
        some name) := by
  induction keys generalizing start with
  | nil => exact ⟨fun name hname => hstart generation name hname, by simp⟩
  | cons e keys ih =>
      have hnext : ∀ generation name,
          (start.insert e.2.generation e.2.system).get? generation = some name →
          name = system generation := by
        intro generation name hname
        rw [Table.get?_insert] at hname
        split_ifs at hname with heq
        · rw [← Option.some.inj hname, ← heq]
          exact hkeys e List.mem_cons_self
        · exact hstart generation name hname
      obtain ⟨hname, hmapped⟩ := ih (fun e he => hkeys e (List.mem_cons_of_mem _ he)) _ hnext
      refine ⟨hname, fun h => hmapped ?_⟩
      rcases h with ⟨name, hname⟩ | ⟨e', hmem, heq⟩
      · left
        rw [Table.get?_insert]
        split_ifs
        · exact ⟨_, rfl⟩
        · exact ⟨name, hname⟩
      · rcases List.mem_cons.mp hmem with rfl | hmem
        · left
          rw [heq]
          exact ⟨_, Table.get?_insert_self _ _ _⟩
        · exact .inr ⟨e', hmem, heq⟩

/-- The records add generations the head doesn't name, each with its own system. -/
theorem foldl_records {records : List (SeriesId × SeriesRecord)}
    (hrecords : ∀ e ∈ records, e.2.key.OwnedBy system) (start : Table ℕ (List UInt8))
    (hstart : ∀ generation name, start.get? generation = some name → name = system generation)
    (generation : ℕ) :
    (∀ name, (records.foldl (fun m e => if m.contains e.2.key.generation then m
      else m.insert e.2.key.generation e.2.key.system) start).get? generation = some name →
        name = system generation) ∧
    ((∃ name, start.get? generation = some name) →
      ∃ name, (records.foldl (fun m e => if m.contains e.2.key.generation then m
        else m.insert e.2.key.generation e.2.key.system) start).get? generation = some name) := by
  induction records generalizing start with
  | nil => exact ⟨fun name hname => hstart generation name hname, id⟩
  | cons e records ih =>
      have hrest := fun e he => hrecords e (List.mem_cons_of_mem _ he)
      rw [List.foldl_cons]
      split_ifs
      · exact ih hrest start hstart
      · obtain ⟨hname, hmapped⟩ := ih hrest (start.insert e.2.key.generation e.2.key.system) (by
          intro generation name hname
          rw [Table.get?_insert] at hname
          split_ifs at hname with heq
          · rw [← Option.some.inj hname, ← heq]
            exact hrecords e List.mem_cons_self
          · exact hstart generation name hname)
        refine ⟨hname, fun h => hmapped ?_⟩
        rw [Table.get?_insert]
        split_ifs
        · exact ⟨_, rfl⟩
        · exact h

/-- The pass maps a generation of the head to its own system. -/
theorem systemsOf_get? {t : Tables} {owners : Table SeriesId SeriesKey}
    (howners : ∀ id key, owners.get? id = some key → key.OwnedBy system)
    (hseries : ∀ id record, t.series.get? id = some record → record.key.OwnedBy system)
    {id : SeriesId} {key : SeriesKey} (hkey : owners.get? id = some key) :
    (systemsOf t owners).get? key.generation = some key.system := by
  have hkeys : ∀ e ∈ owners.entries, e.2.OwnedBy system :=
    fun e he => howners e.1 e.2 (Table.get?_eq_some_iff.mpr he)
  have hrecords : ∀ e ∈ t.series.entries, e.2.key.OwnedBy system :=
    fun e he => hseries e.1 e.2 (Table.get?_eq_some_iff.mpr he)
  have hhead := foldl_owners hkeys .empty (by simp)
  obtain ⟨name, hname⟩ := (hhead key.generation).2
    (.inr ⟨(id, key), Table.get?_eq_some_iff.mp hkey, rfl⟩)
  have hown : key.system = system key.generation := howners id key hkey
  rw [systemsOf]
  split_ifs
  · obtain ⟨hmine, hmapped⟩ := foldl_records hrecords _
      (fun generation name => (hhead generation).1 name) key.generation
    obtain ⟨name', hname'⟩ := hmapped ⟨name, hname⟩
    rw [hname', hmine name' hname', hown]
  · rw [hname, (hhead key.generation).1 name hname, hown]

end Systems

/-! ### What a step of the pass deletes, and why -/

namespace Retention

/-- The files the pass has still to retire, with the generations that hold them. -/
def files (r : Retention) : List Retirement :=
  match r.stage with
  | some (.files queue) => queue
  | _ => []

theorem queued_eq (r : Retention) : r.queued = r.files.map Retirement.name := by
  obtain ⟨clock, lastStart, stage⟩ := r
  rcases stage with - | (start | queue)
  · rfl
  · rfl
  · rfl

variable {r r' : Retention} {t t' : Tables} {ctx : Context} {h' : Handoffs}
    {retired : List BlockName}

/-- A step plans files over the tables it leaves, or retires the first of those planned. -/
theorem step_files (hstep : r.step t ctx = (r', t', h', retired)) :
    (retired = [] ∧ (∃ chunks, t' = { t with chunks }) ∧
      ∀ file ∈ r'.files, file ∈ planRetirements t' ctx.owners
        (r.world { ctx with handoffs := h' })) ∨
    ∃ gone rest, r.files = gone ++ rest ∧ r'.files = rest ∧ retired = gone.map Retirement.name ∧
      t' = gone.foldl retireFile t := by
  rw [step] at hstep
  split at hstep
  next hstage =>
    obtain ⟨rfl, rfl, rfl, rfl⟩ := by simpa [Prod.ext_iff] using hstep
    exact .inr ⟨[], [], by simp [files, hstage], by simp [files, hstage], rfl, rfl⟩
  next start hstage =>
    left
    simp only [scan] at hstep
    split at hstep
    next next chunks hscan =>
      obtain ⟨rfl, rfl, rfl, rfl⟩ := by simpa [Prod.ext_iff] using hstep
      exact ⟨rfl, ⟨chunks, rfl⟩, fun file hfile => by cases hfile⟩
    next chunks hscan =>
      obtain ⟨rfl, rfl, rfl, rfl⟩ := by simpa [Prod.ext_iff] using hstep
      exact ⟨rfl, ⟨chunks, rfl⟩, fun file hfile => hfile⟩
  next hstage =>
    obtain ⟨rfl, rfl, rfl, rfl⟩ := by simpa [Prod.ext_iff] using hstep
    exact .inr ⟨[], [], by simp [files, hstage], rfl, rfl, rfl⟩
  next queue hne hstage =>
    right
    obtain ⟨gone, rest, hqueue, hretire⟩ := retire_eq batch t [] 0 queue
    rw [hretire] at hstep
    obtain ⟨rfl, rfl, rfl, rfl⟩ := by simpa [Prod.ext_iff] using hstep
    exact ⟨gone, rest, by simp [files, hstage, hqueue], rfl, rfl, rfl⟩

/-- A chunk the step removes is one its fate deletes. -/
theorem step_chunks (hstep : r.step t ctx = (r', t', h', retired)) (key : ChunkKey) :
    t'.chunks.get? key = t.chunks.get? key ∨
      chunkFate key (ownerOf ctx.owners t.series key.id) (r.world ctx) = .delete := by
  rw [step] at hstep
  split at hstep
  · obtain ⟨-, rfl, -, -⟩ := by simpa [Prod.ext_iff] using hstep
    exact .inl rfl
  next start hstage =>
    have hdelete := deleteDeadChunks_get? t.chunks start batch
      (fun key => chunkFate key (ownerOf ctx.owners t.series key.id) (r.world ctx)) key
    simp only [scan] at hstep
    split at hstep
    · next hscan =>
        rw [hscan] at hdelete
        obtain ⟨-, rfl, -, -⟩ := by simpa [Prod.ext_iff] using hstep
        exact hdelete.imp_right And.left
    · next hscan =>
        rw [hscan] at hdelete
        obtain ⟨-, rfl, -, -⟩ := by simpa [Prod.ext_iff] using hstep
        exact hdelete.imp_right And.left
  · obtain ⟨-, rfl, -, -⟩ := by simpa [Prod.ext_iff] using hstep
    exact .inl rfl
  next queue hne hstage =>
    obtain ⟨gone, rest, hqueue, hretire⟩ := retire_eq batch t [] 0 queue
    rw [hretire] at hstep
    obtain ⟨-, rfl, -, -⟩ := by simpa [Prod.ext_iff] using hstep
    rw [foldl_retireFile]
    exact .inl rfl

end Retention

/-- A chunk the pass deletes is dead under the owner it was judged by. -/
theorem dead_of_delete {key : ChunkKey} {owner : Option Owner} {world : World}
    (h : chunkFate key owner world = .delete) :
    ∃ why, chunkLiveness key.tier key.span owner world.policies world.tombstones
      world.retentionNow = .dead why := by
  rw [chunkFate] at h
  split at h
  · cases h
  next span hspan =>
    obtain ⟨-, heq⟩ := Option.ite_none_right_eq_some.mp hspan
    obtain rfl := Option.some.inj heq
    split_ifs at h
    split at h
    · cases h
    next why hwhy => exact ⟨why, hwhy⟩

theorem mem_planRetirements {t : Tables} {owners : Table SeriesId SeriesKey} {world : World}
    {file : Retirement} (h : file ∈ planRetirements t owners world) :
    ∃ span record, t.blocks.get? span = some record ∧
      file = ⟨⟨span.tier, span.span, record.rewrite⟩, holdersOf t span⟩ ∧
      ∀ generation ∈ holdersOf t span, ∃ why, chunkLiveness span.tier span.span
        (((systemsOf t owners).get? generation).map (⟨·, generation⟩))
        world.policies world.tombstones
        world.retentionNow = .dead why := by
  rw [planRetirements] at h
  obtain ⟨⟨span, record⟩, hmem, heq⟩ := List.mem_filterMap.mp h
  obtain ⟨hretires, hfile⟩ := Option.ite_none_right_eq_some.mp heq
  rw [← Table.get?_eq_some_iff, readInventory, Table.get?_filter] at hmem
  refine ⟨span, record, (Option.filter_eq_some_iff.mp hmem).1, (Option.some.inj hfile).symm, ?_⟩
  intro generation hgeneration
  simp only [retires, decide_eq_true_eq, List.all_eq_true] at hretires
  have hdead := hretires.2 generation hgeneration
  cases hlive : chunkLiveness span.tier span.span
      (((systemsOf t owners).get? generation).map (⟨·, generation⟩)) world.policies world.tombstones
      world.retentionNow with
  | live => exact absurd hlive hdead
  | dead why => exact ⟨why, rfl⟩

/-! ### The invariant -/

/-- The chunks of the series in a span are dead. -/
def DeadSeries (t : Tables) (policies : Policies) (tombstones : Tombstones) (now : ℕ)
    (span : SpanKey) (id : SeriesId) : Prop :=
  ∃ record why, t.series.get? id = some record ∧
    chunkLiveness span.tier span.span (some record.key.owner) policies tombstones now = .dead why

/-- Every chunk in the file is dead. -/
def DeadFile (t : Tables) (files : Files) (policies : Policies) (tombstones : Tombstones) (now : ℕ)
    (name : BlockName) : Prop :=
  ∃ held, files.get? name = some held ∧ ∀ id seq bytes, (id, seq, bytes) ∈ held →
    DeadSeries t policies tombstones now name.spanKey id

/-- Every series belongs to the system of its generation, and the files planned are dead, with every
one of their holders named. -/
structure OwnedInv (system : ℕ → List UInt8) (s : Store) : Prop where
  head : ∀ key e, s.writer.core.head.get? key = some e → key.OwnedBy system
  plan : ∀ file ∈ s.retention.files,
    (∀ generation ∈ holdersOf s.writer.db file.name.spanKey, generation ∈ file.generations) ∧
      DeadFile s.writer.db s.files s.policies s.tombstones s.retention.clock file.name

section Owned

variable {system : ℕ → List UInt8} {s s' : Store} {l : Ledger}
  {accepted : List (SeriesKey × RawPoint)} {deleted : List (SeriesId × Sealed)} {buffered : ℕ}

/-- A file planned has its row, so its name is that of its span. -/
theorem StoreInv.planned_row (h : StoreInv s l accepted deleted buffered) {file : Retirement}
    (hfile : file ∈ s.retention.files) :
      ∃ record, s.writer.db.blocks.get? file.name.spanKey = some record ∧
      file.name = handoffName file.name.spanKey := by
  obtain ⟨record, hrow, hrewrite⟩ := h.queued.row file.name
    (s.retention.queued_eq ▸ List.mem_map_of_mem hfile)
  refine ⟨record, hrow, ?_⟩
  have hzero := (h.db.row _ record hrow).rewrite
  rw [hzero] at hrewrite
  generalize file.name = name at hrewrite
  obtain ⟨tier, span, rewrite⟩ := name
  exact congrArg (BlockName.mk tier span) hrewrite.symm

/-- What no step outside a commit changes. -/
theorem OwnedInv.frame (ho : OwnedInv system s) (h : StoreInv s l accepted deleted buffered)
    (hhead : ∀ key e, s'.writer.core.head.get? key = some e → key.OwnedBy system)
    (hdb : s'.writer.db = s.writer.db) (hretention : s'.retention = s.retention)
    (hworld : s'.policies = s.policies ∧ s'.tombstones = s.tombstones)
    (hfiles : ∀ span record, s.writer.db.blocks.get? span = some record →
      s'.files.get? (handoffName span) = s.files.get? (handoffName span)) : OwnedInv system s' := by
  refine ⟨hhead, fun file hfile => ?_⟩
  rw [hretention] at hfile
  obtain ⟨hholders, held, hheld, hdead⟩ := ho.plan file hfile
  obtain ⟨record, hrow, hname⟩ := h.planned_row hfile
  rw [hdb, hretention, hworld.1, hworld.2]
  refine ⟨hholders, held, ?_, hdead⟩
  rw [hname] at hheld ⊢
  exact (hfiles _ record hrow).trans hheld

theorem OwnedInv.append (ho : OwnedInv system s) (h : StoreInv s l accepted deleted buffered)
    {points : List IncomingPoint} {generation systemNow : ℕ} {report : AppendReport} {w : Writer}
    (happend : s.writer.append (system generation) generation points systemNow = .ok (report, w)) :
    OwnedInv system { s with writer := w } := by
  refine ho.frame h (fun key e hget => ?_) (Writer.append_db happend) rfl ⟨rfl, rfl⟩
    fun _ _ _ => rfl
  rw [Writer.append] at happend
  obtain ⟨⟨report', core⟩, hpoints, hw⟩ := except_bind_eq_ok.mp happend
  cases hw
  rw [Core.appendPoints] at hpoints
  obtain ⟨⟨answers, c⟩, heach, hcore⟩ := except_bind_eq_ok.mp hpoints
  cases hcore
  rcases Core.appendEach_keys heach hget with ⟨e₀, he₀⟩ | ⟨hsystem, hgeneration⟩
  · exact ho.head key e₀ he₀
  · rw [SeriesKey.OwnedBy, hsystem, hgeneration]

theorem OwnedInv.sweep (ho : OwnedInv system s) (h : StoreInv s l accepted deleted buffered)
    {systemNow : ℕ} (hsweep : s.sweep systemNow = .ok s') : OwnedInv system s' := by
  rw [Store.sweep] at hsweep
  obtain ⟨handoffs, -, hs'⟩ := except_bind_eq_ok.mp hsweep
  cases hs'
  refine ho.frame h (fun key e hget => ?_) rfl rfl ⟨rfl, rfl⟩ fun _ _ _ => rfl
  obtain ⟨e₀, he₀, -⟩ := Core.sweep_state hget
  exact ho.head key e₀ he₀

theorem OwnedInv.beginPass (ho : OwnedInv system s) (systemNow : ℕ) (reading : Duration) :
    OwnedInv system (s.beginPass systemNow reading) := by
  rw [Store.beginPass]
  split
  · exact ho
  · exact ⟨ho.head, fun file hfile => by cases hfile⟩

theorem OwnedInv.handle (ho : OwnedInv system s) (h : StoreInv s l accepted deleted buffered)
    (hhandle : s.handle = some s') : OwnedInv system s' := by
  rw [Store.handle] at hhandle
  split at hhandle
  · cases hhandle
    exact ho
  next outcome replies _ =>
    cases outcome with
    | written name record generations =>
        rw [Store.handOff, Option.bind_eq_bind, Option.bind_eq_some_iff] at hhandle
        obtain ⟨t, -, hs'⟩ := hhandle
        cases hs'
        exact ho.frame h ho.head rfl rfl ⟨rfl, rfl⟩ fun _ _ _ => rfl
    | failed name cause =>
        cases hhandle
        exact ho.frame h ho.head rfl rfl ⟨rfl, rfl⟩ fun _ _ _ => rfl
  · cases hhandle
    exact ho.frame h ho.head rfl rfl ⟨rfl, rfl⟩ fun _ _ _ => rfl

theorem OwnedInv.takeJob (ho : OwnedInv system s) (h : StoreInv s l accepted deleted buffered)
    (fails : Bool) : OwnedInv system (s.takeJob fails) := by
  rw [Store.takeJob]
  split
  · split_ifs <;> exact ho.frame h ho.head rfl rfl ⟨rfl, rfl⟩ fun _ _ _ => rfl
  next name jobs hreading hjobs =>
    split_ifs
    · exact ho.frame h ho.head rfl rfl ⟨rfl, rfl⟩ fun _ _ _ => rfl
    · refine ho.frame h ho.head rfl rfl ⟨rfl, rfl⟩ fun span record hrow =>
        h.get?_erase_row ?_ (.inl hrow)
      simp [Store.unlinking, hjobs]
  · exact ho

theorem OwnedInv.writeFile (ho : OwnedInv system s) (h : StoreInv s l accepted deleted buffered)
    (fails : Option HandoffFailure) : OwnedInv system (s.writeFile fails) := by
  rw [Store.writeFile]
  split
  · exact ho
  next name held generations hreading =>
    dsimp only
    split
    · exact ho.frame h ho.head rfl rfl ⟨rfl, rfl⟩ fun _ _ _ => rfl
    · exact ho.frame h ho.head rfl rfl ⟨rfl, rfl⟩ fun span record hrow =>
        h.get?_insert_row hreading held (.inl hrow)

theorem Store.passContext_owners (s : Store) (flush : Flush) :
    (s.passContext flush).owners = s.writer.core.index := by
  obtain ⟨head, hcore⟩ := (s.writer.tailsWritten_frame s.writer.openTxn flush).core
  rw [passContext, Writer.writeInterval_eq]
  simp only [hcore]
  rfl

/-- The pass names the owner of every recorded series by its key. -/
theorem StoreInv.owner_of_record (h : StoreInv s l accepted deleted buffered) (flush : Flush)
    {id : SeriesId} {record : SeriesRecord}
    (hrecord : (s.writeInterval flush).tables.series.get? id = some record) :
    (s.passContext flush).owners.get? id = some record.key ∧
      ∃ e, s.writer.core.head.get? record.key = some e := by
  rw [(StoreInv.tables_same flush).series] at hrecord
  obtain ⟨e, hget, rfl, -⟩ := h.writer.commit_record hrecord
  rw [s.passContext_owners flush]
  exact ⟨h.writer.head.index_of_get hget, e, hget⟩

/-- A chunk the commit's tables hold is of a recorded series. -/
theorem DiskInv.recorded {t : Tables} {files : Files} (h : DiskInv t files l deleted)
    (hfile : FileInv t l) {key : ChunkKey} {bytes : List UInt8}
    (hget : t.chunks.get? key = some bytes) :
    ∃ record, t.series.get? key.id = some record := by
  have hstored := h.chunks key.id (key.spanKey.chunk key.seq bytes) hget
  cases hrecord : t.series.get? key.id with
  | none =>
      rw [hfile.fresh key.id hrecord] at hstored
      cases hstored
  | some record => exact ⟨record, rfl⟩

theorem DeadSeries.commit (h : StoreInv s l accepted deleted buffered) (flush : Flush)
    {policies : Policies} {tombstones : Tombstones} {now : ℕ} {span : SpanKey} {id : SeriesId}
    (hdead : DeadSeries s.writer.db policies tombstones now span id) :
    DeadSeries (s.writeInterval flush).tables policies tombstones now span id := by
  obtain ⟨record, why, hrecord, hwhy⟩ := hdead
  obtain ⟨record', hrecord', hkey⟩ := h.writer.commit_key flush hrecord
  exact ⟨record', why, by rw [(StoreInv.tables_same flush).series, hrecord'], by rw [hkey, hwhy]⟩

/-- A file planned over the tables a commit leaves is dead: its holders are the owners of its
chunks. -/
theorem OwnedInv.planned (ho : OwnedInv system s) (h : StoreInv s l accepted deleted buffered)
    (flush : Flush) {world : World} {file : Retirement} (hpolicies : world.policies = s.policies)
    (htombstones : world.tombstones = s.tombstones) (hnow : world.retentionNow = s.retention.clock)
    (hfile : file ∈ planRetirements (s.writeInterval flush).tables
      (s.passContext flush).owners world) :
    (∀ generation ∈ holdersOf (s.writeInterval flush).tables file.name.spanKey,
      generation ∈ file.generations) ∧
      DeadFile (s.writeInterval flush).tables s.files s.policies s.tombstones s.retention.clock
        file.name := by
  obtain ⟨span, row, hrow, rfl, hdead⟩ := mem_planRetirements hfile
  obtain ⟨-, -, hrewrite, held, hheld, hfrom⟩ := (h.disk_commit flush).row span row hrow
  refine ⟨fun generation hgeneration => hgeneration, held, by rw [hrewrite]; exact hheld, ?_⟩
  intro id seq bytes hmem
  obtain ⟨record, hrecord, hgeneration⟩ := hfrom.holder id seq bytes hmem
  obtain ⟨howner, -⟩ := h.owner_of_record flush hrecord
  have howners : ∀ id key, (s.passContext flush).owners.get? id = some key →
      key.OwnedBy system := by
    intro id key hkey
    rw [s.passContext_owners flush] at hkey
    obtain ⟨e, hget, -⟩ := (h.writer.head.index id key).mp hkey
    exact ho.head key e hget
  have hseries : ∀ id record, (s.writeInterval flush).tables.series.get? id = some record →
      record.key.OwnedBy system := by
    intro id record hrecord
    obtain ⟨-, e, hget⟩ := h.owner_of_record flush hrecord
    exact ho.head _ e hget
  obtain ⟨why, hwhy⟩ := hdead _ hgeneration
  rw [systemsOf_get? howners hseries howner, hpolicies, htombstones, hnow] at hwhy
  exact ⟨record, why, hrecord, hwhy⟩

theorem OwnedInv.commit (ho : OwnedInv system s) (h : StoreInv s l accepted deleted buffered)
    (flush : Flush) : OwnedInv system (s.commit flush) := by
  have hdb : (s.commit flush).writer.db = (s.writeInterval flush).tables := by
    rw [s.commit_writer flush]
  have hstep := s.commit_passStep flush
  have hclock : (s.commit flush).retention.clock = s.retention.clock := hstep.clock
  have hworld : (s.commit flush).policies = s.policies ∧
      (s.commit flush).tombstones = s.tombstones ∧
      (s.commit flush).files = s.files ∧
      (s.commit flush).retention = (s.writeInterval flush).retention := ⟨rfl, rfl, rfl, rfl⟩
  constructor
  · intro key e hget
    obtain ⟨head, hcore, hhead⟩ := h.writer.commit_core flush
    rw [s.commit_writer flush] at hget
    simp only [hcore, hhead key] at hget
    obtain ⟨e₀, he₀, -⟩ := Option.map_eq_some_iff.mp hget
    exact ho.head key e₀ he₀
  · intro file hfile
    rw [hdb, hclock, hworld.1, hworld.2.1, hworld.2.2.1]
    rw [hworld.2.2.2] at hfile
    rcases Retention.step_files (s.writeInterval_step flush) with ⟨-, -, hplan⟩ |
      ⟨gone, rest, hqueue, hrest, hretired, -⟩
    · exact ho.planned h flush rfl rfl rfl (hplan file hfile)
    · rw [hrest] at hfile
      have hmem : file ∈ s.retention.files := hqueue ▸ List.mem_append_right _ hfile
      obtain ⟨hholders, held, hheld, hdead⟩ := ho.plan file hmem
      obtain ⟨record, hrow, hname⟩ := h.planned_row hmem
      refine ⟨fun generation hgeneration => hholders generation ?_, held, hheld,
        fun id seq bytes hin => (hdead id seq bytes hin).commit h flush⟩
      -- Only the files retired lose their holders, and no span is queued twice.
      have hkept : file.name.spanKey ∉ (s.writeInterval flush).retired.map BlockName.spanKey := by
        have hnodup := h.queued.nodup
        rw [s.retention.queued_eq, hqueue, List.map_append, List.map_append,
          List.nodup_append] at hnodup
        intro hin
        rw [hretired] at hin
        exact hnodup.2.2 _ hin _ (List.mem_map_of_mem (List.mem_map_of_mem hfile)) rfl
      rw [mem_holdersOf, hstep.holders _ hkept] at hgeneration
      rw [mem_holdersOf, ← h.opened.holders _ (h.not_landed_of_row hrow)]
      rw [← (s.writer.tablesAfter_files flush).2.1]
      exact hgeneration

theorem OwnedInv.opened {t : Tables} {files : Files} (h : StoppedInv t files l deleted)
    (hseries : ∀ id record, t.series.get? id = some record → record.key.OwnedBy system)
    {policies : Policies} {systemNow passNow : ℕ} {reading : Duration}
    (hopen : Store.open t files policies systemNow passNow reading = .ok s) :
    OwnedInv system s := by
  obtain ⟨c, r, w, -, hr, hw, rfl⟩ := Store.open_eq_ok hopen
  obtain ⟨-, ⟨pendingUnlinks, htables⟩, -, -⟩ := reconcileAtOpen_eq_ok hr
  have hfile : FileInv r.tables l := h.file.congr
    (by rw [htables]; exact ⟨rfl, rfl, rfl, rfl, rfl, rfl, rfl⟩)
  obtain ⟨c', hrecover, hc, -⟩ := hfile.recover
  rw [Writer.open, hrecover, except_ok_bind] at hw
  cases hw
  refine ⟨fun key e hget => ?_, fun file hfile => by cases hfile⟩
  obtain ⟨e₀, he₀, -⟩ := Core.sweep_state hget
  obtain ⟨record, hrecord, rfl, -⟩ := hc.record key e₀ he₀
  rw [htables] at hrecord
  exact hseries _ record hrecord

end Owned

/-! ### Records that do not decode -/

/-- What the records are taken to hold: themselves where they decode, anything where they don't. -/
structure Completes (series : Table SeriesId SeriesRecord) (records : Records) : Prop where
  decoded : ∀ id record, records.get? id = some (some record) → series.get? id = some record
  absent : ∀ id, records.get? id = none → series.get? id = none

section Unreadable

variable {t : Tables} {records : Records} {owners : Table SeriesId SeriesKey} {world : World}

theorem readFate_delete (h : Completes t.series records) {key : ChunkKey}
    (hdelete : readFate owners records world key = .delete) :
    chunkFate key (ownerOf owners t.series key.id) world = .delete := by
  rw [readFate, readOwner, recordedKey] at hdelete
  rw [ownerOf]
  cases howner : owners.get? key.id with
  | some owner =>
      rw [howner] at hdelete
      exact hdelete
  | none =>
      rw [howner] at hdelete
      cases hrecord : records.get? key.id with
      | none =>
          rw [hrecord] at hdelete
          dsimp only
          rw [h.absent key.id hrecord]
          exact hdelete
      | some read =>
          rw [hrecord] at hdelete
          cases read with
          | none => cases hdelete
          | some record =>
              dsimp only
              rw [h.decoded key.id record hrecord]
              exact hdelete

/-- One record added to the systems, as `readSystems` folds them. -/
def addRecord (m : Table ℕ (List UInt8)) (e : SeriesId × Option SeriesRecord) :
    Except Unreadable (Table ℕ (List UInt8)) :=
  match e.2 with
  | none => .error .record
  | some record =>
      .ok (if m.contains record.key.generation then m
        else m.insert record.key.generation record.key.system)

theorem foldlM_addRecord {entries : List (SeriesId × Option SeriesRecord)}
    {m m' : Table ℕ (List UInt8)} (h : entries.foldlM addRecord m = .ok m') :
    ∀ e ∈ entries, ∃ record, e.2 = some record := by
  induction entries generalizing m with
  | nil => simp
  | cons e entries ih =>
      rw [List.foldlM_cons] at h
      obtain ⟨next, hnext, hrest⟩ := except_bind_eq_ok.mp h
      obtain ⟨id, read⟩ := e
      cases read with
      | none => cases hnext
      | some record => exact List.forall_mem_cons.mpr ⟨⟨record, rfl⟩, ih hrest⟩

theorem foldlM_addRecord_some (entries : List (SeriesId × SeriesRecord))
    (m : Table ℕ (List UInt8)) :
    (entries.map fun e => (e.1, some e.2)).foldlM addRecord m =
      .ok (entries.foldl (fun m e => if m.contains e.2.key.generation then m
        else m.insert e.2.key.generation e.2.key.system) m) := by
  induction entries generalizing m with
  | nil => rfl
  | cons e entries ih =>
      rw [List.map_cons, List.foldlM_cons]
      exact ih _

/-- Systems are read only from records that decode. -/
theorem readSystems_ok (h : Completes t.series records) {systems : Table ℕ (List UInt8)}
    (hread : readSystems t owners records = .ok systems) : systemsOf t owners = systems := by
  rw [readSystems] at hread
  rw [systemsOf]
  split_ifs at hread ⊢
  · change records.entries.foldlM addRecord _ = _ at hread
    have hall := foldlM_addRecord hread
    have hrecords : records = t.series.mapValues fun _ record => some record := by
      refine Table.ext fun id => ?_
      rw [Table.get?_mapValues]
      cases hget : records.get? id with
      | none => rw [h.absent id hget, Option.map_none]
      | some read =>
          obtain ⟨record, rfl⟩ := hall (id, read) (Table.get?_eq_some_iff.mp hget)
          rw [h.decoded id record hget, Option.map_some]
    rw [hrecords] at hread
    change (t.series.entries.map fun e => (e.1, some e.2)).foldlM addRecord _ = _ at hread
    rw [foldlM_addRecord_some] at hread
    exact Except.ok.inj hread
  · exact Except.ok.inj hread

theorem readRetirements_subset (h : Completes t.series records) {file : Retirement}
    (hfile : file ∈ readRetirements t owners records world) :
    file ∈ planRetirements t owners world := by
  rw [readRetirements] at hfile
  split at hfile
  · cases hfile
  next systems hread =>
    rw [planRetirements, readSystems_ok h hread]
    exact hfile

end Unreadable

/-! ### Whole runs -/

/-- An append names the one system of its generation. -/
def StoreOp.OwnedBy (system : ℕ → List UInt8) : StoreOp → Prop
  | .append name generation _ _ => name = system generation
  | _ => True

/-- Every series of the store belongs to the one system of its generation. -/
def Machine.OwnedBy (system : ℕ → List UInt8) : Machine → Prop
  | .running s => OwnedInv system s
  | .stopped t _ => ∀ id record, t.series.get? id = some record → record.key.OwnedBy system

section Runs

variable {system : ℕ → List UInt8} {h : StoreHistory} {l : Ledger} {buffered : ℕ}

theorem OwnedInv.stop {s : Store} {accepted : List (SeriesKey × RawPoint)}
    {deleted : List (SeriesId × Sealed)} (ho : OwnedInv system s)
    (hs : StoreInv s l accepted deleted buffered) :
    (Machine.stopped s.writer.db s.files).OwnedBy system := by
  intro id record hrecord
  obtain ⟨e, hget, -⟩ := hs.writer.recorded id record hrecord
  exact ho.head _ e hget

theorem StoreHistoryInv.owned_step (hi : StoreHistoryInv h l buffered)
    (ho : h.machine.OwnedBy system) {op : StoreOp} (htime : op.InTime) (hop : op.OwnedBy system) :
    (h.machine.step op).OwnedBy system := by
  cases hm : h.machine with
  | stopped t files =>
      rw [hm] at ho
      cases op with
      | reopen policies systemNow passNow reading =>
          rw [Machine.step]
          split
          next s hopen => exact OwnedInv.opened (hi.stopped hm) ho hopen
          · exact ho
      | _ => exact ho
  | running s =>
      rw [hm] at ho
      obtain ⟨accepted, hs⟩ := hi.running hm
      cases op with
      | append name generation points systemNow =>
          obtain rfl : name = system generation := hop
          obtain ⟨report, w, accepted', happend, -⟩ := hs.append
            (system generation) generation points htime
          simp only [Machine.step, happend, Except.toOption, Option.map_some, Machine.ofOption]
          exact OwnedInv.append ho hs happend
      | sweep systemNow =>
          rw [Machine.step]
          cases hsweep : s.sweep systemNow with
          | error backlog => exact OwnedInv.stop ho hs
          | ok s' => exact OwnedInv.sweep ho hs hsweep
      | beginPass systemNow reading => exact OwnedInv.beginPass ho systemNow reading
      | commit flush => exact OwnedInv.commit ho hs flush
      | handle =>
          rw [Machine.step]
          obtain ⟨s', hhandle, -⟩ := hs.handle
          rw [hhandle]
          exact OwnedInv.handle ho hs hhandle
      | takeJob fails => exact OwnedInv.takeJob ho hs fails
      | writeFile fails => exact OwnedInv.writeFile ho hs fails
      | crash => exact OwnedInv.stop ho hs
      | reopen policies systemNow passNow reading => exact ho

theorem StoreHistoryInv.owned_run (hi : StoreHistoryInv h l buffered) (hfits : buffered < 2 ^ 64)
    (ho : h.machine.OwnedBy system) {ops : List StoreOp} (hops : StoreOp.Admissible buffered ops)
    (howned : ∀ op ∈ ops, op.OwnedBy system) : (h.run ops).machine.OwnedBy system := by
  induction ops generalizing h l buffered with
  | nil => exact ho
  | cons op ops ih =>
      obtain ⟨htime, hfits', hops⟩ := hops
      obtain ⟨l', hi', -⟩ := hi.step htime hfits
      refine ih hi' hfits' ?_ hops fun op hop => howned op (List.mem_cons_of_mem _ hop)
      rw [StoreHistory.step_machine]
      exact hi.owned_step ho htime (howned op List.mem_cons_self)

end Runs

/-! ### What a commit's step of the pass deletes -/

section Deletes

variable {system : ℕ → List UInt8} {s : Store} {l : Ledger} {accepted : List (SeriesKey × RawPoint)}
  {deleted : List (SeriesId × Sealed)} {buffered : ℕ}

/-- A chunk the pass removes is dead under its series' owner, and its span is not in flight. -/
theorem StoreInv.removed_dead (h : StoreInv s l accepted deleted buffered)
    (hfits : buffered < 2 ^ 64) (flush : Flush) {key : ChunkKey} {bytes : List UInt8}
    (hget : (s.passTables flush).chunks.get? key = some bytes)
    (hgone : (s.commit flush).writer.db.chunks.get? key = none) :
    key.spanKey ∉ s.handoffs.inFlight ∧
      DeadSeries (s.commit flush).writer.db s.policies s.tombstones s.retention.clock
        key.spanKey key.id := by
  have hdb : (s.commit flush).writer.db = (s.writeInterval flush).tables := by
    rw [s.commit_writer flush]
  rw [hdb] at hgone ⊢
  have hdisk : DiskInv (s.passTables flush) s.files
      (l.commit s.writer (select accepted) flush) deleted :=
    (h.txn.interval h.writer h.clock_lt flush).congr rfl rfl rfl rfl rfl fun _ hname => hname
  have hfile : FileInv (s.passTables flush) (l.commit s.writer (select accepted) flush) :=
    (h.writer.commit_file (lt_of_le_of_lt h.points hfits) flush).congr
      (StoreInv.passTables_same flush)
  obtain ⟨record, hrecord⟩ := hdisk.recorded hfile hget
  have hafter : (s.writeInterval flush).tables.series.get? key.id = some record := by
    rw [(StoreInv.tables_same flush).series, ← hrecord, (StoreInv.passTables_same flush).series]
  obtain ⟨howner, -⟩ := h.owner_of_record flush hafter
  rcases Retention.step_chunks (s.writeInterval_step flush) key with hsame | hdelete
  · rw [hsame, hget] at hgone
    cases hgone
  · have hidle := not_inFlight_of_delete hdelete
    obtain ⟨why, hwhy⟩ := dead_of_delete hdelete
    rw [ownerOf, howner] at hwhy
    refine ⟨?_, record, why, hafter, hwhy⟩
    rw [← s.sealing_frame.1]
    exact hidle

/-- A file the pass retires is dead and not in flight; its row and its holders go in the commit that
makes it pending. -/
theorem OwnedInv.retired_dead (ho : OwnedInv system s) (h : StoreInv s l accepted deleted buffered)
    (flush : Flush) {span : SpanKey} {record : BlockRecord}
    (hrow : (s.passTables flush).blocks.get? span = some record)
    (hgone : (s.commit flush).writer.db.blocks.get? span = none) :
    span ∉ s.handoffs.inFlight ∧
      DeadFile (s.commit flush).writer.db s.files s.policies s.tombstones s.retention.clock
        ⟨span.tier, span.span, record.rewrite⟩ ∧
      (∀ generation, (s.commit flush).writer.db.blockGenerations.get?
        (toLex (generation, span)) = none) ∧
      (s.commit flush).writer.db.pendingUnlinks.get? ⟨span.tier, span.span, record.rewrite⟩ =
        some () := by
  have hdb : (s.commit flush).writer.db = (s.writeInterval flush).tables := by
    rw [s.commit_writer flush]
  have hstep := s.commit_passStep flush
  rw [hdb] at hgone ⊢
  have hretired : span ∈ (s.writeInterval flush).retired.map BlockName.spanKey := by
    by_contra hkept
    rw [hstep.row, if_neg hkept, hrow] at hgone
    cases hgone
  rcases Retention.step_files (s.writeInterval_step flush) with ⟨hnone, -⟩ |
    ⟨gone, rest, hqueue, -, hnames, htables⟩
  · rw [hnone] at hretired
    cases hretired
  rw [hnames] at hretired
  obtain ⟨name, hname, rfl⟩ := List.mem_map.mp hretired
  obtain ⟨file, hfile, rfl⟩ := List.mem_map.mp hname
  have hmem : file ∈ s.retention.files := hqueue ▸ List.mem_append_left _ hfile
  obtain ⟨row, hdbrow, heq⟩ := h.planned_row hmem
  obtain ⟨hholders, held, hheld, hdead⟩ := ho.plan file hmem
  have hnot := h.not_landed_of_row hdbrow
  have hsame : (s.passTables flush).blocks.get? file.name.spanKey =
      s.writer.db.blocks.get? file.name.spanKey := by
    change (s.writer.tablesAfter flush).blocks.get? file.name.spanKey = _
    rw [(s.writer.tablesAfter_files flush).1, h.opened.row _ hnot]
  obtain rfl : row = record := Option.some.inj (hdbrow.symm.trans (hsame.symm.trans hrow))
  have hzero : (⟨file.name.spanKey.tier, file.name.spanKey.span, row.rewrite⟩ : BlockName) =
      file.name := by
    rw [(h.db.row _ row hdbrow).rewrite]
    exact heq.symm
  rw [hzero]
  refine ⟨?_, ⟨held, hheld, fun id seq bytes hin => (hdead id seq bytes hin).commit h flush⟩,
    ?_, ?_⟩
  · intro hflight
    rw [(h.unfiled _ (.inr (.inr hflight))).row] at hdbrow
    cases hdbrow
  · intro generation
    rw [htables, foldl_retireFile]
    simp only [Table.get?_foldl_erase]
    split_ifs with herased
    · rfl
    · rw [Option.eq_none_iff_forall_not_mem]
      intro size hsize
      -- An entry the plan did not name would be a holder it missed.
      refine herased (List.mem_flatMap.mpr ⟨file, hfile, List.mem_map.mpr ⟨generation, ?_, rfl⟩⟩)
      refine hholders generation (mem_holdersOf.mpr ⟨size, ?_⟩)
      rw [← h.opened.holders _ hnot, ← (s.writer.tablesAfter_files flush).2.1]
      exact hsize
  · rw [hstep.pending, if_pos (hnames ▸ hname)]

end Deletes

/-- Whatever the appends, commits, handoffs, retention steps, crashes and opens before it: a chunk a
commit's step of the pass removes is of a span not in flight and dead under its series' owner at the
pass's retention clock; a file it retires is not in flight, its every chunk is dead so, and its row
and holders go in the commit that makes it pending; and a record that doesn't decode only ever keeps
data. -/
theorem Machine.retention_deletes_dead (systemNow : ℕ) (system : ℕ → List UInt8)
    (ops : List StoreOp) (hops : StoreOp.Admissible 0 ops)
    (howned : ∀ op ∈ ops, op.OwnedBy system) :
    (∀ s flush, (Machine.new systemNow).run ops = .running s →
      (∀ key bytes, (s.passTables flush).chunks.get? key = some bytes →
        (s.commit flush).writer.db.chunks.get? key = none →
        key.spanKey ∉ s.handoffs.inFlight ∧
          DeadSeries (s.commit flush).writer.db s.policies s.tombstones s.retention.clock
            key.spanKey key.id) ∧
      ∀ span record, (s.passTables flush).blocks.get? span = some record →
        (s.commit flush).writer.db.blocks.get? span = none →
        span ∉ s.handoffs.inFlight ∧
          DeadFile (s.commit flush).writer.db s.files s.policies s.tombstones s.retention.clock
            ⟨span.tier, span.span, record.rewrite⟩ ∧
          (∀ generation,
            (s.commit flush).writer.db.blockGenerations.get? (toLex (generation, span)) = none) ∧
          (s.commit flush).writer.db.pendingUnlinks.get? ⟨span.tier, span.span, record.rewrite⟩ =
            some ()) ∧
    ∀ t owners records world, Completes t.series records →
      (∀ key, readFate owners records world key = .delete →
        chunkFate key (ownerOf owners t.series key.id) world = .delete) ∧
      (∀ key, owners.get? key.id = none → records.get? key.id = some none →
        readFate owners records world key = .keep) ∧
      ∀ file ∈ readRetirements t owners records world, file ∈ planRetirements t owners world := by
  refine ⟨fun s flush hm => ?_, fun t owners records world hcompletes => ⟨?_, ?_, ?_⟩⟩
  · obtain ⟨⟨l, hi, -⟩, hfits⟩ := (StoreHistoryInv.new systemNow).run (by norm_num) hops
    have ho := (StoreHistoryInv.new systemNow).owned_run (by norm_num)
      (fun id record hrecord => by cases hrecord) hops howned
    have hmachine : ((StoreHistory.new systemNow).run ops).machine = .running s := by
      rw [StoreHistory.run_machine]
      exact hm
    obtain ⟨accepted, hs⟩ := hi.running hmachine
    rw [hmachine] at ho
    exact ⟨fun key bytes hget hgone => hs.removed_dead hfits flush hget hgone,
      fun span record hrow hgone => OwnedInv.retired_dead ho hs flush hrow hgone⟩
  · exact fun key hdelete => readFate_delete hcompletes hdelete
  · intro key howner hrecord
    rw [readFate, readOwner, howner, recordedKey, hrecord]
    rfl
  · exact fun file hfile => readRetirements_subset hcompletes hfile

/-- Two points an hour apart, the first one's raw chunk committed; two days later a pass begins. -/
def twoDaysOn : List StoreOp :=
  [.reopen (.new .default) 1000 1000 0, .append [1] 0 [⟨[2], .count, 7⟩] 1000,
    .append [1] 0 [⟨[2], .count, 8⟩] 4000, .commit .all, .commit .all,
    .beginPass 200000 (Duration.fromSecs 199000)]

theorem Machine.retention_deletes_dead_twoDaysOn :
    ∃ s key bytes, (Machine.new 1000).run twoDaysOn = .running s ∧
      (s.passTables .all).chunks.get? key = some bytes ∧
      DeadSeries (s.commit .all).writer.db s.policies s.tombstones s.retention.clock
        key.spanKey key.id := by
  have hremoved : ((Machine.new 1000).run twoDaysOn).store?.any (fun s =>
      (s.passTables .all).chunks.entries.head?.any fun e =>
        !(s.commit .all).writer.db.chunks.contains e.1) = true := by decide +kernel
  obtain ⟨s, hstore, hremoved⟩ := (Option.any_eq_true _ _).mp hremoved
  obtain ⟨⟨key, bytes⟩, hentry, hremoved⟩ := (Option.any_eq_true _ _).mp hremoved
  have hm := store?_eq_some.mp hstore
  have hget : (s.passTables .all).chunks.get? key = some bytes :=
    Table.get?_eq_some_iff.mpr (List.mem_of_mem_head? hentry)
  have hgone : (s.commit .all).writer.db.chunks.get? key = none := by
    rw [Table.contains, Bool.not_eq_true', Option.isSome_eq_false_iff,
      Option.isNone_iff_eq_none] at hremoved
    exact hremoved
  obtain ⟨hchunks, -⟩ := (retention_deletes_dead 1000 (fun _ => [1]) twoDaysOn
    (by simp [StoreOp.Admissible, twoDaysOn, StoreOp.InTime, StoreOp.bufferedAfter])
    (by simp [twoDaysOn, StoreOp.OwnedBy])).1 s .all hm
  exact ⟨s, key, bytes, hm, hget, (hchunks key bytes hget hgone).2⟩

end MonitoringAgent.HubStore

import MonitoringAgent.Verification.Hub.Database

/-! # Registry fills

Fills of one system's row, each its read and its three writes as separate database calls,
interleaved with `PUT`s of the row. -/

namespace MonitoringAgent.Hub

open MonitoringAgent.Library AppState

/-! ### Interleaved fills -/

/-- The write a fill makes next. -/
inductive FillStage where
  | info
  | memory
  | name
  deriving DecidableEq, Repr

/-- A fill under way: what it reports, the row it read, and its next write. -/
structure Fill where
  info : ReportedInfo
  read : SystemInfo
  stage : FillStage

structure Filling where
  db : Database
  fills : ℕ → Option Fill := fun _ => none

inductive FillStep where
  /-- A fill reads the row. -/
  | read (fill : ℕ) (info : ReportedInfo)
  /-- A fill's next write, which SQLite may refuse. -/
  | write (fill : ℕ) (refused : Bool)
  | put (update : Database.ConfigUpdate)

namespace Filling

def step (id : SystemId) (s : Filling) : FillStep → Filling
  | .read i info =>
      match s.fills i, s.db.systems.get? id with
      | none, some row => { s with fills := Function.update s.fills i (some ⟨info, row, .info⟩) }
      | _, _ => s
  | .write i refused =>
      match s.fills i with
      | none => s
      | some fill =>
          match fill.stage with
          | .info =>
              { db := if refused then s.db else fillInfo s.db id fill.read fill.info
                fills := Function.update s.fills i (some { fill with stage := .memory }) }
          | .memory =>
              { db := if refused then s.db else fillMemory s.db id fill.read fill.info
                fills := Function.update s.fills i (some { fill with stage := .name }) }
          | .name =>
              { db := if refused then s.db else fillName s.db id fill.read fill.info
                fills := Function.update s.fills i none }
  | .put update => { s with db := s.db.updateSystemConfig id update }

def run (id : SystemId) (s : Filling) (steps : List FillStep) : Filling := steps.foldl (step id) s

end Filling

/-- A fill's four calls in a row are the fill. -/
theorem run_fill (db : Database) (id : SystemId) (info : ReportedInfo) (faults : FillFaults) :
    (Filling.run id ⟨db, fun _ => none⟩
        [.read 0 info, .write 0 faults.info, .write 0 faults.memory, .write 0 faults.name]).db =
      fillRegistry db id info faults := by
  cases hrow : db.systems.get? id with
  | none => simp [Filling.run, Filling.step, fillRegistry, hrow]
  | some row => simp [Filling.run, Filling.step, fillRegistry, hrow]

/-! ### What a fill may change -/

/-- The name the last `PUT` of some steps set. -/
def lastNamed (steps : List FillStep) : Option String :=
  steps.foldl (fun named step => match step with
    | .put update => update.name <|> named
    | _ => named) none

/-- A write that changes the columns a fill may change of a system's row, and of the name a default
one. -/
structure OnlyFills (id : SystemId) (before after : Database) : Prop where
  others : ∀ other, other ≠ id → after.systems.get? other = before.systems.get? other
  rows : ∀ row, before.systems.get? id = some row → ∃ row', after.systems.get? id = some row' ∧
    row' = { row with
      name := row'.name
      os := row'.os
      hostname := row'.hostname
      kernel := row'.kernel
      cpuModel := row'.cpuModel
      cpuCores := row'.cpuCores
      totalMemoryDisplay := row'.totalMemoryDisplay
      totalMemoryBytes := row'.totalMemoryBytes } ∧
    (row'.name = row.name ∨ id.isDefaultName row.name)

/-- Fills never overwrite an operator's name: a name set by a `PUT`, and not the default one, stays
until another; a fill changes nothing else of the row; and the memory columns are of one report. -/
structure FillsKeepRow (id : SystemId) (db : Database) (steps : List FillStep) : Prop where
  named : ∀ before after, steps = before ++ after → ∀ row name,
    (Filling.run id ⟨db, fun _ => none⟩ before).db.systems.get? id = some row →
      lastNamed before = some name → id.isDefaultName name = false → row.name = name
  onlyFills : ∀ before i refused after, steps = before ++ .write i refused :: after →
    OnlyFills id (Filling.run id ⟨db, fun _ => none⟩ before).db
      (Filling.run id ⟨db, fun _ => none⟩ (before ++ [.write i refused])).db
  oneReport : ∀ before after, steps = before ++ after → ∀ row,
    (Filling.run id ⟨db, fun _ => none⟩ before).db.systems.get? id = some row →
      (∃ row₀, db.systems.get? id = some row₀ ∧ row.totalMemoryDisplay = row₀.totalMemoryDisplay ∧
        row.totalMemoryBytes = row₀.totalMemoryBytes) ∨
      ∃ i info capacity, .read i info ∈ before ∧ info.memory = some capacity ∧
        row.totalMemoryDisplay = some capacity.display ∧ row.totalMemoryBytes = some capacity.bytes

/-- No fill that read the default name renames a row that has got another name since. -/
def NotOvertaken (id : SystemId) (db : Database) (steps : List FillStep) : Prop :=
  ∀ before i after, steps = before ++ .write i false :: after →
    ∀ fill row, (Filling.run id ⟨db, fun _ => none⟩ before).fills i = some fill →
      fill.stage = .name →
      id.isDefaultName fill.read.name →
      (Filling.run id ⟨db, fun _ => none⟩ before).db.systems.get? id = some row →
      id.isDefaultName row.name ∨ row.name = fill.info.hostname

/-! ### One write -/

/-- What a fill's write does to the database. -/
inductive Written (id : SystemId) (s : Filling) (i : ℕ) : Bool → Database → Prop
  | kept {refused : Bool} : Written id s i refused s.db
  | info {fill : Fill} (hfill : s.fills i = some fill) (hstage : fill.stage = .info) :
      Written id s i false (fillInfo s.db id fill.read fill.info)
  | memory {fill : Fill} (hfill : s.fills i = some fill) (hstage : fill.stage = .memory) :
      Written id s i false (fillMemory s.db id fill.read fill.info)
  | name {fill : Fill} (hfill : s.fills i = some fill) (hstage : fill.stage = .name) :
      Written id s i false (fillName s.db id fill.read fill.info)

theorem written (id : SystemId) (s : Filling) (i : ℕ) (refused : Bool) :
    Written id s i refused (s.step id (.write i refused)).db := by
  rw [Filling.step]
  cases hfill : s.fills i with
  | none => exact .kept
  | some fill =>
      cases hstage : fill.stage with
      | info =>
          simp only [hstage]
          cases refused with
          | true => exact .kept
          | false => exact .info hfill hstage
      | memory =>
          simp only [hstage]
          cases refused with
          | true => exact .kept
          | false => exact .memory hfill hstage
      | name =>
          simp only [hstage]
          cases refused with
          | true => exact .kept
          | false => exact .name hfill hstage

theorem OnlyFills.refl (id : SystemId) (db : Database) : OnlyFills id db db where
  others _ _ := rfl
  rows row hrow := ⟨row, hrow, rfl, .inl rfl⟩

/-- An update that changes only what a fill may. -/
theorem onlyFills_updateSystem {db : Database} {id : SystemId} {f : SystemInfo → SystemInfo}
    (h : ∀ row, db.systems.get? id = some row → f row = { row with
      name := (f row).name
      os := (f row).os
      hostname := (f row).hostname
      kernel := (f row).kernel
      cpuModel := (f row).cpuModel
      cpuCores := (f row).cpuCores
      totalMemoryDisplay := (f row).totalMemoryDisplay
      totalMemoryBytes := (f row).totalMemoryBytes } ∧
        ((f row).name = row.name ∨ id.isDefaultName row.name)) :
    OnlyFills id db (db.updateSystem id f) where
  others other hne := by rw [Database.get?_updateSystem, if_neg (Ne.symm hne)]
  rows row hrow := by
    obtain ⟨hcolumns, hname⟩ := h row hrow
    refine ⟨f row, ?_, hcolumns, hname⟩
    rw [Database.get?_updateSystem, if_pos rfl, hrow]
    rfl

theorem onlyFills_fillInfo (db : Database) (id : SystemId) (read : SystemInfo)
    (info : ReportedInfo) : OnlyFills id db (fillInfo db id read info) := by
  rw [fillInfo]
  split_ifs
  · exact onlyFills_updateSystem fun row _ => ⟨rfl, .inl rfl⟩
  · exact OnlyFills.refl id db

theorem onlyFills_fillMemory (db : Database) (id : SystemId) (read : SystemInfo)
    (info : ReportedInfo) : OnlyFills id db (fillMemory db id read info) := by
  rw [fillMemory]
  split
  · exact onlyFills_updateSystem fun row _ => ⟨rfl, .inl rfl⟩
  · exact OnlyFills.refl id db

/-- A rename changes a default name alone when no other was set since the read. -/
theorem onlyFills_fillName {db : Database} {id : SystemId} {read : SystemInfo} {info : ReportedInfo}
    (h : id.isDefaultName read.name → ∀ row, db.systems.get? id = some row →
      id.isDefaultName row.name ∨ row.name = info.hostname) : OnlyFills id db
        (fillName db id read info) := by
  rw [fillName]
  split_ifs with hdefault
  · refine onlyFills_updateSystem fun row hrow => ⟨rfl, ?_⟩
    exact (h hdefault row hrow).symm.imp_left Eq.symm
  · exact OnlyFills.refl id db

theorem run_append (id : SystemId) (s : Filling) (steps : List FillStep) (step : FillStep) :
    s.run id (steps ++ [step]) = (s.run id steps).step id step := by
  rw [Filling.run, List.foldl_append]
  rfl

theorem lastNamed_append (steps : List FillStep) (step : FillStep) :
    lastNamed (steps ++ [step]) = match step with
      | .put update => update.name <|> lastNamed steps
      | _ => lastNamed steps := by
  rw [lastNamed, List.foldl_append]
  rfl

/-! ### Runs -/

variable {id : SystemId} {db : Database} {steps : List FillStep}

theorem onlyFills_write (h : NotOvertaken id db steps) {before : List FillStep} {i : ℕ}
    {refused : Bool} {after : List FillStep}
    (hsteps : steps = before ++ .write i refused :: after) :
    OnlyFills id (Filling.run id ⟨db, fun _ => none⟩ before).db
      (Filling.run id ⟨db, fun _ => none⟩ (before ++ [.write i refused])).db := by
  rw [run_append]
  have hwritten := written id (Filling.run id ⟨db, fun _ => none⟩ before) i refused
  generalize ((Filling.run id ⟨db, fun _ => none⟩ before).step id (.write i refused)).db =
    db' at hwritten ⊢
  cases hwritten with
  | kept => exact OnlyFills.refl id _
  | info _ _ => exact onlyFills_fillInfo _ id _ _
  | memory _ _ => exact onlyFills_fillMemory _ id _ _
  | name hfill hstage =>
      exact onlyFills_fillName fun hdefault row hrow =>
        h before i after hsteps _ row hfill hstage hdefault hrow

/-- A fill under way was under way before a step, unless the step is its read. -/
theorem step_fills {s : Filling} {step : FillStep} {i : ℕ} {fill : Fill}
    (h : (s.step id step).fills i = some fill) :
    (∃ before, s.fills i = some before ∧ before.info = fill.info) ∨ step = .read i fill.info := by
  cases step with
  | put update => exact .inl ⟨fill, h, rfl⟩
  | read j info =>
      rw [Filling.step] at h
      split at h
      · dsimp only at h
        by_cases hj : i = j
        · subst hj
          rw [Function.update_self, Option.some.injEq] at h
          rw [← h]
          exact .inr rfl
        · rw [Function.update_of_ne hj] at h
          exact .inl ⟨fill, h, rfl⟩
      · exact .inl ⟨fill, h, rfl⟩
  | write j refused =>
      left
      rw [Filling.step] at h
      cases hfill : s.fills j with
      | none =>
          rw [hfill] at h
          exact ⟨fill, h, rfl⟩
      | some before =>
          rw [hfill] at h
          by_cases hj : i = j
          · subst hj
            refine ⟨before, hfill, ?_⟩
            cases hstage : before.stage with
            | info =>
                simp only [hstage, Function.update_self, Option.some.injEq] at h
                rw [← h]
            | memory =>
                simp only [hstage, Function.update_self, Option.some.injEq] at h
                rw [← h]
            | name =>
                simp only [hstage, Function.update_self] at h
                cases h
          · refine ⟨fill, ?_, rfl⟩
            cases hstage : before.stage with
            | _ => simpa only [hstage, Function.update_of_ne hj] using h

/-- A fill under way reports what it read the row for. -/
theorem reads_run {i : ℕ} {fill : Fill}
    (h : (Filling.run id ⟨db, fun _ => none⟩ steps).fills i = some fill) :
    .read i fill.info ∈ steps := by
  induction steps using List.reverseRecOn generalizing fill with
  | nil => cases h
  | append_singleton steps step ih =>
      rw [run_append] at h
      rw [List.mem_append, List.mem_singleton]
      obtain ⟨before, hbefore, hinfo⟩ | hread := step_fills h
      · rw [← hinfo]
        exact .inl (ih hbefore)
      · exact .inr hread.symm

/-- Where a row's memory columns are from: the row before the run, or one report. -/
def FromOneReport (id : SystemId) (db : Database) (steps : List FillStep)
    (row : SystemInfo) : Prop :=
  (∃ row₀, db.systems.get? id = some row₀ ∧ row.totalMemoryDisplay = row₀.totalMemoryDisplay ∧
      row.totalMemoryBytes = row₀.totalMemoryBytes) ∨
    ∃ i info capacity, .read i info ∈ steps ∧ info.memory = some capacity ∧
      row.totalMemoryDisplay = some capacity.display ∧ row.totalMemoryBytes = some capacity.bytes

theorem FromOneReport.later {row row' : SystemInfo} (h : FromOneReport id db steps row)
    (step : FillStep) (hdisplay : row'.totalMemoryDisplay = row.totalMemoryDisplay)
    (hbytes : row'.totalMemoryBytes = row.totalMemoryBytes) :
    FromOneReport id db (steps ++ [step]) row' := by
  rw [FromOneReport, hdisplay, hbytes]
  obtain hfirst | ⟨i, info, capacity, hread, hreport⟩ := h
  · exact .inl hfirst
  · exact .inr ⟨i, info, capacity, List.mem_append_left _ hread, hreport⟩

theorem memoryCapacityRefresh_some {stored reported : Option MemoryCapacity}
    {capacity : MemoryCapacity} (h : memoryCapacityRefresh stored reported = some capacity) :
    reported = some capacity :=
  (Option.filter_eq_some_iff.mp h).1

/-- An update leaves the memory columns of a row, or a report's. -/
theorem get?_of_updateSystem {before : Database} {f : SystemInfo → SystemInfo} {row' : SystemInfo}
    (h : (before.updateSystem id f).systems.get? id = some row') :
    ∃ row, before.systems.get? id = some row ∧ row' = f row := by
  rw [Database.get?_updateSystem, if_pos rfl, Option.map_eq_some_iff] at h
  obtain ⟨row, hrow, hf⟩ := h
  exact ⟨row, hrow, hf.symm⟩

/-- A step leaves the memory columns, or makes them a report's under way. -/
theorem step_memory {s : Filling} {step : FillStep} {row' : SystemInfo}
    (h : (s.step id step).db.systems.get? id = some row') :
    ∃ row, s.db.systems.get? id = some row ∧
      ((row'.totalMemoryDisplay = row.totalMemoryDisplay ∧
        row'.totalMemoryBytes = row.totalMemoryBytes) ∨
        ∃ i fill capacity, s.fills i = some fill ∧ fill.info.memory = some capacity ∧
          row'.totalMemoryDisplay = some capacity.display ∧
          row'.totalMemoryBytes = some capacity.bytes) := by
  cases step with
  | read j info =>
      have hdb : (s.step id (.read j info)).db = s.db := by
        rw [Filling.step]
        split
        · rfl
        · rfl
      rw [hdb] at h
      exact ⟨row', h, .inl ⟨rfl, rfl⟩⟩
  | put update =>
      simp only [Filling.step, Database.updateSystemConfig] at h
      split_ifs at h
      · exact ⟨row', h, .inl ⟨rfl, rfl⟩⟩
      · obtain ⟨row, hrow, rfl⟩ := get?_of_updateSystem h
        exact ⟨row, hrow, .inl ⟨rfl, rfl⟩⟩
  | write j refused =>
      have hwritten := written id s j refused
      generalize (s.step id (.write j refused)).db = db' at hwritten h
      cases hwritten with
      | kept => exact ⟨row', h, .inl ⟨rfl, rfl⟩⟩
      | @info fill _ _ =>
          rw [fillInfo] at h
          split_ifs at h
          · obtain ⟨row, hrow, rfl⟩ := get?_of_updateSystem h
            exact ⟨row, hrow, .inl ⟨rfl, rfl⟩⟩
          · exact ⟨row', h, .inl ⟨rfl, rfl⟩⟩
      | @memory fill hfill _ =>
          rw [fillMemory] at h
          cases hrefresh : memoryCapacityRefresh
            (MemoryCapacity.stored fill.read) fill.info.memory with
          | none =>
              rw [hrefresh] at h
              exact ⟨row', h, .inl ⟨rfl, rfl⟩⟩
          | some capacity =>
              rw [hrefresh] at h
              obtain ⟨row, hrow, rfl⟩ := get?_of_updateSystem h
              exact ⟨row, hrow, .inr ⟨j, fill, capacity, hfill,
                memoryCapacityRefresh_some hrefresh, rfl, rfl⟩⟩
      | @name fill _ _ =>
          rw [fillName] at h
          split_ifs at h
          · obtain ⟨row, hrow, rfl⟩ := get?_of_updateSystem h
            exact ⟨row, hrow, .inl ⟨rfl, rfl⟩⟩
          · exact ⟨row', h, .inl ⟨rfl, rfl⟩⟩

theorem fromOneReport_run {row : SystemInfo}
    (hrow : (Filling.run id ⟨db, fun _ => none⟩ steps).db.systems.get? id = some row) :
    FromOneReport id db steps row := by
  induction steps using List.reverseRecOn generalizing row with
  | nil => exact .inl ⟨row, hrow, rfl, rfl⟩
  | append_singleton steps step ih =>
      rw [run_append] at hrow
      obtain ⟨before, hbefore, ⟨hdisplay, hbytes⟩ | ⟨i, fill, capacity, hfill, hreport,
          hdisplay, hbytes⟩⟩ :=
        step_memory hrow
      · exact (ih hbefore).later step hdisplay hbytes
      · exact .inr ⟨i, fill.info, capacity, List.mem_append_left _ (reads_run hfill),
          hreport, hdisplay, hbytes⟩

theorem NotOvertaken.of_append {later : List FillStep} (h : NotOvertaken id db (steps ++ later)) :
    NotOvertaken id db steps := by
  intro before i after heq
  refine h before i (after ++ later) ?_
  rw [heq, List.append_assoc, List.cons_append]

/-- While no rename is overtaken, a name set by a `PUT` stays. -/
theorem named_run (h : NotOvertaken id db steps) {row : SystemInfo} {name : String}
    (hrow : (Filling.run id ⟨db, fun _ => none⟩ steps).db.systems.get? id = some row)
    (hnamed : lastNamed steps = some name) (hother : id.isDefaultName name = false) :
    row.name = name := by
  induction steps using List.reverseRecOn generalizing row with
  | nil => cases hnamed
  | append_singleton steps step ih =>
      rw [lastNamed_append] at hnamed
      cases step with
      | read j info =>
          have hdb : (Filling.run id ⟨db, fun _ => none⟩ (steps ++ [.read j info])).db =
              (Filling.run id ⟨db, fun _ => none⟩ steps).db := by
            rw [run_append, Filling.step]
            split
            · rfl
            · rfl
          rw [hdb] at hrow
          exact ih h.of_append hrow hnamed
      | put update =>
          rw [run_append] at hrow
          simp only [Filling.step, Database.updateSystemConfig] at hrow
          cases hname : update.name with
          | some set =>
              have hset : set = name := by simpa [hname] using hnamed
              rw [if_neg (fun hnone => by rw [hnone] at hname; cases hname)] at hrow
              obtain ⟨before, -, rfl⟩ := get?_of_updateSystem hrow
              simp only [hname, Option.getD_some]
              exact hset
          | none =>
              have hbefore : lastNamed steps = some name := by simpa [hname] using hnamed
              split_ifs at hrow
              · exact ih h.of_append hrow hbefore
              · obtain ⟨before, hfound, rfl⟩ := get?_of_updateSystem hrow
                simp only [hname, Option.getD_none]
                exact ih h.of_append hfound hbefore
      | write j refused =>
          obtain ⟨before, hbefore, -⟩ := step_memory (run_append id _ steps _ ▸ hrow)
          have hkept := ih h.of_append hbefore hnamed
          obtain ⟨row', hrow', -, hname | hdefault⟩ := (onlyFills_write h rfl).rows before hbefore
          · rw [hrow, Option.some.injEq] at hrow'
            rw [hrow', hname, hkept]
          · rw [hkept, hother] at hdefault
            cases hdefault

/-- Over any interleaving of fills and `PUT`s, fills keep an operator's name, and write nothing but
what they may, exactly if no fill that read the default name renames a row that got another name
since. -/
theorem fills_keep_row_iff (id : SystemId) (db : Database) (steps : List FillStep) :
    FillsKeepRow id db steps ↔ NotOvertaken id db steps := by
  constructor
  · intro h before i after heq fill row hfill hstage hdefault hrow
    obtain ⟨row', hrow', -, hname⟩ := (h.onlyFills before i false after heq).rows row hrow
    rw [run_append, Filling.step, hfill] at hrow'
    simp only [hstage, fillName, hdefault, if_true, Database.updateName_eq,
      Database.get?_updateSystem, hrow, Option.map_some, Option.some.injEq,
      Bool.false_eq_true, if_false] at hrow'
    obtain hsame | hbefore := hname
    · rw [← hrow'] at hsame
      exact .inr hsame.symm
    · exact .inl hbefore
  · intro h
    constructor
    · intro before after heq row name hrow hnamed hother
      exact named_run (heq ▸ h).of_append hrow hnamed hother
    · intro before i refused after heq
      exact onlyFills_write h heq
    · intro before after heq row hrow
      exact fromOneReport_run hrow

/-- A system that reports its host name under an id of its own. -/
def hostReport : ReportedInfo := ⟨"web-01", "Debian", "6.1", "x86", 4, none⟩

/-- A fill reads the default name, a `PUT` names the system, and the fill renames it. -/
def overtaken : List FillStep :=
  [.read 0 hostReport, .write 0 false, .write 0 false,
    .put { name := some "Billing" }, .write 0 false]

def registeredHost : Database :=
  (Database.new.insertSystemIfAbsent "host" (.registered "host" pushUrl)).2

/-- The name a `PUT` set reverts to the host name. -/
theorem name_overwritten :
    lastNamed overtaken = some "Billing" ∧
      ((Filling.run "host" ⟨registeredHost, fun _ => none⟩ overtaken).db.systems.get? "host").map
        SystemInfo.name = some "web-01" ∧
      ¬ FillsKeepRow "host" registeredHost overtaken := by
  have hname :
      ((Filling.run "host" ⟨registeredHost, fun _ => none⟩ overtaken).db.systems.get? "host").map
      SystemInfo.name = some "web-01" := by
    decide +kernel
  refine ⟨rfl, hname, fun h => ?_⟩
  obtain ⟨row, hrow, hweb⟩ := Option.map_eq_some_iff.mp hname
  have hkept := h.named overtaken [] (List.append_nil _).symm row "Billing" hrow rfl
    (by decide +kernel)
  rw [hweb] at hkept
  exact absurd hkept (by decide)

end MonitoringAgent.Hub

import MonitoringAgent.Verification.Hub.Database

/-! # Mail reports are taken once, in any order

A hub taking deliveries and deleting systems, with the reports it took on record. -/

namespace MonitoringAgent.Hub

open MonitoringAgent.Library

/-! ### Receipts -/

namespace Database

variable {db : Database} {system : SystemId}

theorem mem_currentReceipts {r : MailReceipt} :
    r ∈ db.currentReceipts system ↔ r ∈ db.mailReceipts ∧ r.systemId = system ∧
    r.retired = false := by
  simp [currentReceipts]

theorem maxCreatedAt_eq_some {m : ℕ} :
    db.maxCreatedAt system = some m ↔
      (∃ r ∈ db.currentReceipts system, r.createdAt.seconds = m) ∧
        ∀ r ∈ db.currentReceipts system, r.createdAt.seconds ≤ m := by
  rw [maxCreatedAt, List.max?_eq_some_iff]
  simp

theorem maxCreatedAt_eq_none : db.maxCreatedAt system = none ↔ db.currentReceipts system = [] := by
  rw [maxCreatedAt, List.max?_eq_none_iff, List.map_eq_nil_iff]

/-- The newest current receipt's time is the greatest creation time. -/
theorem newestCurrentReceipt_seconds :
    (db.newestCurrentReceipt system).map SnapshotTime.seconds = db.maxCreatedAt system := by
  rw [newestCurrentReceipt]
  cases hmax : db.maxCreatedAt system with
  | none => rfl
  | some m =>
      obtain ⟨⟨r, -, rfl⟩, -⟩ := maxCreatedAt_eq_some.mp hmax
      rw [Option.bind_some, SnapshotTime.ofSecs, dif_pos r.createdAt.inRange]
      rfl

theorem mem_pruneReceipts {before : SnapshotTime} {r : MailReceipt} :
    r ∈ (db.pruneReceipts system before).mailReceipts ↔
      r ∈ db.mailReceipts ∧ ¬(r.systemId = system ∧ r.createdAt.seconds < before.seconds ∧
        (r.retired = true ∨ (db.maxCreatedAt system).any (r.createdAt.seconds < ·))) := by
  rw [pruneReceipts]
  simp only [List.mem_filter, decide_eq_true_eq]

/-- A prune keeps each system's newest current receipts. -/
theorem maxCreatedAt_pruneReceipts (before : SnapshotTime) (s : SystemId) :
    (db.pruneReceipts system before).maxCreatedAt s = db.maxCreatedAt s := by
  cases hmax : db.maxCreatedAt s with
  | none =>
      rw [maxCreatedAt_eq_none, List.eq_nil_iff_forall_not_mem] at hmax ⊢
      intro r hr
      rw [mem_currentReceipts, mem_pruneReceipts] at hr
      exact hmax r (mem_currentReceipts.mpr ⟨hr.1.1, hr.2⟩)
  | some m =>
      obtain ⟨⟨newest, hnewest, hm⟩, hle⟩ := maxCreatedAt_eq_some.mp hmax
      rw [maxCreatedAt_eq_some]
      refine ⟨⟨newest, ?_, hm⟩, fun r hr => ?_⟩
      · obtain ⟨hmem, hsystem, hcurrent⟩ := mem_currentReceipts.mp hnewest
        rw [mem_currentReceipts, mem_pruneReceipts]
        refine ⟨⟨hmem, ?_⟩, hsystem, hcurrent⟩
        rintro ⟨hs, -, hretired | hlater⟩
        · rw [hcurrent] at hretired
          cases hretired
        · rw [← hs, hsystem, hmax] at hlater
          simp [hm] at hlater
      · rw [mem_currentReceipts, mem_pruneReceipts] at hr
        exact hle r (mem_currentReceipts.mpr ⟨hr.1.1, hr.2⟩)

/-- A new current receipt raises its own system's greatest creation time alone. -/
theorem maxCreatedAt_append {db' : Database} {receipt : MailReceipt}
    (h : db'.mailReceipts = db.mailReceipts ++ [receipt])
    (hcurrent : receipt.retired = false) (s : SystemId) :
    db'.maxCreatedAt s =
      if receipt.systemId = s then
        some (((db.maxCreatedAt s).map (max · receipt.createdAt.seconds)).getD
          receipt.createdAt.seconds)
      else db.maxCreatedAt s := by
  have hreceipts : db'.currentReceipts s =
      db.currentReceipts s ++ if receipt.systemId = s then [receipt] else [] := by
    rw [currentReceipts, currentReceipts, h, List.filter_append]
    split_ifs with heq <;> simp [heq, hcurrent]
  rw [maxCreatedAt, hreceipts]
  split_ifs with heq
  · rw [List.map_append, maxCreatedAt]
    cases hmax : ((db.currentReceipts s).map fun r => r.createdAt.seconds) with
    | nil => simp
    | cons m rest =>
        simp only [List.cons_append, List.max?_cons', List.map_cons, List.map_nil,
          List.foldl_append, List.foldl_cons, List.foldl_nil, Option.map_some, Option.getD_some]
  · rw [List.append_nil, maxCreatedAt]

/-! ### The transaction -/

theorem insertReceipt_some {db' : Database} {receipt : MailReceipt}
    (h : db.insertReceipt receipt = .ok (some db')) :
    (∀ r ∈ db.mailReceipts,
      ¬(r.systemId = receipt.systemId ∧ r.run = receipt.run ∧ r.seq = receipt.seq)) ∧
      db' = { db with mailReceipts := db.mailReceipts ++ [receipt] } := by
  rw [insertReceipt] at h
  split_ifs at h with hseq hknown
  · simp at h
  · obtain rfl := Option.some.inj (Except.ok.inj h)
    refine ⟨fun r hr hkey => hknown ?_, rfl⟩
    rw [List.any_eq_true]
    exact ⟨r, hr, by simpa using hkey⟩

/-- What a committed report wrote: its system's row, its receipt, its points and its alert
records. -/
theorem storeMailReport_stored {db' : Database} {write : MailWrite}
    {decide : Option SnapshotTime → Recency} {fails : Bool} {recency : Recency} {expired : ℕ}
    {newest : Option (Snapshot × SnapshotTime)}
    (h : db.storeMailReport write decide fails = .ok (.stored recency expired newest, db')) :
    (∀ row, db.systems.get? write.systemId = some row → row.url = write.system.url) ∧
      recency = decide (db.newestCurrentReceipt write.systemId) ∧
      newest = write.snapshots.getLast? ∧
      (∀ r ∈ db.mailReceipts, ¬(r.systemId = write.receipt.systemId ∧ r.run = write.receipt.run ∧
        r.seq = write.receipt.seq)) ∧
      ∃ tx : Database, db' = tx.pruneReceipts write.systemId write.pruneBefore ∧
        tx.mailReceipts = db.mailReceipts ++ [write.receipt] ∧
        tx.alerts = write.alerts.foldl keepAlert db.alerts ∧
        ∀ s, tx.systems.get? s =
          if write.systemId = s then
            some (let row := (db.systems.get? s).getD write.system
              if recency = .newest then
                { row with
                  status := write.status.status
                  lastSeen := write.status.lastSeen.getD row.lastSeen
                  lastError := write.status.error }
              else row)
          else db.systems.get? s := by
  rw [storeMailReport] at h
  split_ifs at h with hfails
  dsimp only at h
  -- The transaction after the registration, whether it inserted the row or not.
  generalize htx : (if (db.systems.get? write.systemId).isNone then
    { db with systems := db.systems.insert write.systemId write.system } else db) = tx₀ at h
  by_cases hknown : (db.systems.get? write.systemId).any (·.url ≠ write.system.url) = true
  · rw [if_pos hknown] at h
    cases h
  rw [if_neg hknown] at h
  have hurl : ∀ row, db.systems.get? write.systemId = some row → row.url = write.system.url := by
    intro row hrow
    by_contra hne
    exact hknown (by simp [hrow, hne])
  have hreceipts : tx₀.mailReceipts = db.mailReceipts := by
    rw [← htx]
    split_ifs <;> rfl
  have hrecords : tx₀.alerts = db.alerts := by
    rw [← htx]
    split_ifs <;> rfl
  have hnewest : tx₀.newestCurrentReceipt write.systemId =
      db.newestCurrentReceipt write.systemId := by
    simp only [newestCurrentReceipt, maxCreatedAt, currentReceipts, hreceipts]
  have hrows : ∀ s, tx₀.systems.get? s =
      if write.systemId = s then some ((db.systems.get? s).getD write.system)
        else db.systems.get? s := by
    intro s
    rw [← htx]
    cases hrow : db.systems.get? write.systemId with
    | none =>
        simp only [Option.isNone_none, if_true, Table.get?_insert]
        split_ifs with heq
        · rw [← heq, hrow]
          rfl
        · rfl
    | some row =>
        simp only [Option.isNone_some, Bool.false_eq_true, if_false]
        split_ifs with heq
        · rw [← heq, hrow]
          rfl
        · rfl
  obtain ⟨inserted, hinsert, h⟩ := except_bind_eq_ok.mp h
  cases inserted with
  | none => cases h
  | some tx₁ =>
      obtain ⟨hfresh, rfl⟩ := insertReceipt_some hinsert
      rw [hreceipts] at hfresh
      obtain ⟨hlast, metrics, nextRowid, hsamples⟩ := storeSamples_eq
        { tx₀ with mailReceipts := tx₀.mailReceipts ++ [write.receipt] } write.systemId
          write.snapshots write.now
      dsimp only at h
      rw [hsamples, hnewest] at h
      obtain ⟨tx₂, halerts, h⟩ := except_bind_eq_ok.mp h
      obtain rfl := foldlM_insertAlert_eq halerts
      simp only [Except.ok.injEq, Prod.mk.injEq, MailStored.stored.injEq] at h
      obtain ⟨⟨rfl, rfl, rfl⟩, rfl⟩ := h
      refine ⟨hurl, rfl, hlast, hfresh, _, rfl, ?_, ?_, fun s => ?_⟩
      · dsimp only
        split_ifs
        · rw [writeStatus, updateSystem_eq, hreceipts]
        · rw [hreceipts]
      · dsimp only
        split_ifs
        · rw [writeStatus, updateSystem_eq, hrecords]
        · rw [hrecords]
      · dsimp only
        split_ifs with hrecent heq heq
        · rw [writeStatus, get?_updateSystem, if_pos heq]
          dsimp only
          rw [hrows, if_pos heq]
          rfl
        · rw [writeStatus, get?_updateSystem, if_neg heq]
          dsimp only
          rw [hrows, if_neg heq]
        · dsimp only
          rw [hrows, if_pos heq]
        · dsimp only
          rw [hrows, if_neg heq]

/-- A transaction that doesn't take the report leaves the tables as they were. -/
theorem storeMailReport_unchanged {db' : Database} {write : MailWrite}
    {decide : Option SnapshotTime → Recency} {fails : Bool} {outcome : MailStored}
    (h : db.storeMailReport write decide fails = .ok (outcome, db'))
    (hnot : ∀ recency expired newest, outcome ≠ .stored recency expired newest) : db' = db := by
  rw [storeMailReport] at h
  split_ifs at h
  dsimp only at h
  split at h
  · obtain ⟨-, rfl⟩ := Prod.mk.inj (Except.ok.inj h)
    rfl
  · obtain ⟨inserted, -, h⟩ := except_bind_eq_ok.mp h
    cases inserted with
    | none =>
        obtain ⟨-, rfl⟩ := Prod.mk.inj (Except.ok.inj h)
        rfl
    | some tx =>
        obtain ⟨_, -, h⟩ := except_bind_eq_ok.mp h
        obtain ⟨rfl, -⟩ := Prod.mk.inj (Except.ok.inj h)
        exact absurd rfl (hnot _ _ _)

end Database

/-! ### One delivery -/

namespace AppState

theorem storeMailedRound_eq (app : AppState) (system : SystemId) (report : MailReport)
    (arrival : Arrival) (fails : Bool) :
    ∃ metrics nextRowid liveApplications, app.storeMailedRound system report arrival fails =
      { app with db := { app.db with metrics, nextRowid }, liveApplications } := by
  rw [storeMailedRound]
  split
  · exact ⟨_, _, _, rfl⟩
  · split_ifs
    · exact ⟨_, _, _, rfl⟩
    · exact app.store_eq system _ arrival _ _

/-- What follows a newest report leaves the receipts, the alert records, the live metrics and every
row's status columns alone. -/
theorem afterNewest_eq (app : AppState) (system : SystemId) (report : MailReport)
    (arrival : Arrival) (faults : IngestFaults) :
    (app.afterNewest system report arrival faults).liveMetrics = app.liveMetrics ∧
      (app.afterNewest system report arrival faults).db.mailReceipts = app.db.mailReceipts ∧
      (app.afterNewest system report arrival faults).db.alerts = app.db.alerts ∧
      ∀ s, Option.Rel SameStatus (app.db.systems.get? s)
        ((app.afterNewest system report arrival faults).db.systems.get? s) := by
  rw [afterNewest]
  cases report.newestSample.info with
  | none =>
      obtain ⟨_, _, _, hround⟩ := app.storeMailedRound_eq system report arrival faults.round
      dsimp only
      rw [hround]
      exact ⟨rfl, rfl, rfl, (KeepsStatus.refl app.db).2⟩
  | some info =>
      obtain ⟨⟨_, hfill⟩, hrows⟩ := keepsStatus_fillRegistry app.db system info faults.fill
      obtain ⟨_, _, _, hround⟩ := storeMailedRound_eq
        { app with db := fillRegistry app.db system info faults.fill } system report
          arrival faults.round
      dsimp only at hround ⊢
      rw [hround]
      refine ⟨rfl, ?_, ?_, hrows⟩
      · dsimp only
        rw [hfill]
      · dsimp only
        rw [hfill]

/-- A report taken from `app` at `now` as its system's `recency`, leaving `app'`. -/
structure Takes (app : AppState) (system : SystemId) (report : MailReport) (now : SnapshotTime)
    (recency : Recency) (app' : AppState) : Prop where
  fresh : Hub.fresh report.createdAt now = .ok ()
  recency_eq : recency = Hub.recency report.createdAt (app.db.newestCurrentReceipt system)
  url : ∀ row, app.db.systems.get? system = some row → row.url = mailUrl
  unknown : ∀ r ∈ app.db.mailReceipts,
    ¬(r.systemId = system ∧ r.run = report.run ∧ r.seq = report.seq)
  receipts : ∃ tx : Database, tx.mailReceipts =
    app.db.mailReceipts ++ [(mailWrite system report now).receipt] ∧
    app'.db.mailReceipts = (tx.pruneReceipts system (now.cutoff receiptWindowSecs)).mailReceipts
  alerts : app'.db.alerts = (alertRecords system report now).foldl Database.keepAlert app.db.alerts
  /-- Every other row keeps its status columns. -/
  others : ∀ s, system ≠ s → Option.Rel SameStatus (app.db.systems.get? s) (app'.db.systems.get? s)
  newest : recency = .newest →
    (∃ row, app'.db.systems.get? system = some row ∧ row.url = mailUrl ∧ row.status = .online ∧
      row.lastSeen = .reportedAt report.createdAt ∧ row.lastError = none) ∧
    app'.liveMetrics =
      app.liveMetrics.insert system ⟨report.newestSample.snapshot, report.newestSample.time⟩
  backfill : recency = .backfill →
    app'.db.systems.get? system =
      some ((app.db.systems.get? system).getD (.registered system.defaultName mailUrl)) ∧
    app'.liveMetrics = app.liveMetrics

theorem storeReport_takes {app app' : AppState} {system : SystemId} {report : MailReport}
    {now : SnapshotTime} {instant : Instant} {faults : IngestFaults} {recency : Recency}
    {expired : ℕ} (hfresh : Hub.fresh report.createdAt now = .ok ())
    (h : app.storeReport system report now instant faults = (.ok (.stored recency expired), app')) :
    app.Takes system report now recency app' := by
  rw [storeReport] at h
  have hlast : (mailWrite system report now).snapshots.getLast? =
      some (report.newestSample.snapshot, report.newestSample.time) := by
    rw [mailWrite, List.getLast?_map, List.getLast?_eq_some_getLast report.samplesNonempty]
    rfl
  split at h
  · cases h
  · cases h
  · cases h
  · next expired db hstored =>
      obtain ⟨hurl, hrecency, -, hunknown, tx, hdb, hreceipts, halerts, hrows⟩ :=
        Database.storeMailReport_stored hstored
      simp only [Prod.mk.injEq, Except.ok.injEq, Ingested.stored.injEq] at h
      obtain ⟨⟨rfl, -⟩, rfl⟩ := h
      subst hdb
      refine ⟨hfresh, hrecency, hurl, hunknown, ⟨tx, hreceipts, rfl⟩, halerts, fun s hne => ?_,
        nofun, fun _ => ⟨?_, rfl⟩⟩
      · change Option.Rel SameStatus _ (tx.systems.get? s)
        rw [(hrows s).trans (if_neg hne)]
        exact (KeepsStatus.refl app.db).2 s
      · exact (hrows system).trans (if_pos rfl)
  · next expired newest db hstored =>
      obtain ⟨hurl, hrecency, hnewest, hunknown, tx, hdb, hreceipts, halerts, hrows⟩ :=
        Database.storeMailReport_stored hstored
      rw [hlast] at hnewest
      simp only [Prod.mk.injEq, Except.ok.injEq, Ingested.stored.injEq] at h
      obtain ⟨⟨rfl, -⟩, rfl⟩ := h
      subst hdb hnewest
      dsimp only
      obtain ⟨hlive, hreceipts', halerts', hstatus⟩ := afterNewest_eq
        (keepLiveMetrics { app with db := tx.pruneReceipts system (now.cutoff receiptWindowSecs) }
          system
          report.newestSample.snapshot report.newestSample.time) system report
            ⟨instant, now.seconds⟩ faults
      refine ⟨hfresh, hrecency, hurl, hunknown, ⟨tx, hreceipts, hreceipts'⟩, halerts'.trans halerts,
        fun s hne => ?_, fun _ => ⟨?_, hlive⟩, nofun⟩
      · have hrel := hstatus s
        change Option.Rel SameStatus (tx.systems.get? s) _ at hrel
        rw [(hrows s).trans (if_neg hne)] at hrel
        exact hrel
      · have hrel := hstatus system
        change Option.Rel SameStatus (tx.systems.get? system) _ at hrel
        rw [(hrows system).trans (if_pos rfl), if_pos rfl] at hrel
        obtain ⟨row, hrow, hurl', hstatus', hseen, herror, -⟩ := SameStatus.of_rel hrel
        refine ⟨row, hrow, hurl'.trans ?_, hstatus', hseen, herror⟩
        cases hknown : app.db.systems.get? system with
        | none => rfl
        | some known => exact hurl known hknown

/-- A taken report raises its own system's greatest creation time alone. -/
theorem Takes.maxCreatedAt {app app' : AppState} {system : SystemId} {report : MailReport}
    {now : SnapshotTime} {recency : Recency} (htakes : app.Takes system report now recency app')
    (s : SystemId) :
    app'.db.maxCreatedAt s =
      if system = s then
        some (((app.db.maxCreatedAt s).map (max · report.createdAt.seconds)).getD
          report.createdAt.seconds)
      else app.db.maxCreatedAt s := by
  obtain ⟨tx, htx, hpruned⟩ := htakes.receipts
  have hsame : app'.db.maxCreatedAt s =
      (tx.pruneReceipts system (now.cutoff receiptWindowSecs)).maxCreatedAt s := by
    simp only [Database.maxCreatedAt, Database.currentReceipts, hpruned]
  rw [hsame, Database.maxCreatedAt_pruneReceipts, Database.maxCreatedAt_append htx rfl]
  rfl

theorem storeReport_unchanged {app : AppState} {system : SystemId} {report : MailReport}
    {now : SnapshotTime} {instant : Instant} {faults : IngestFaults}
    (h : ∀ recency expired,
      (app.storeReport system report now instant faults).1 ≠ .ok (.stored recency expired)) :
    (app.storeReport system report now instant faults).2 = app := by
  rw [storeReport] at h ⊢
  split at h
  · rfl
  · next db hstored => rw [Database.storeMailReport_unchanged hstored nofun]
  · next db hstored => rw [Database.storeMailReport_unchanged hstored nofun]
  · exact absurd rfl (h _ _)
  · exact absurd rfl (h _ _)

/-- A delivery either takes its report, fresh at `now`, or changes nothing. -/
theorem ingestMessage_cases (app : AppState)
    (opened : Except MessageRefusal (SystemId × MailReport)) (now : ℕ) (instant : Instant)
    (faults : IngestFaults) :
    (∃ system report at' recency expired app', opened = .ok (system, report) ∧
      SnapshotTime.ofSecs now = some at' ∧
      app.ingestMessage opened now instant faults = (.ok (.stored recency expired), app') ∧
      app.Takes system report at' recency app') ∨
    ((∀ recency expired, (app.ingestMessage opened now instant faults).1 ≠
      .ok (.stored recency expired)) ∧
      (app.ingestMessage opened now instant faults).2 = app) := by
  cases opened with
  | error refusal => exact .inr ⟨nofun, rfl⟩
  | ok pair =>
      obtain ⟨system, report⟩ := pair
      cases hat : SnapshotTime.ofSecs now with
      | none => exact .inr (by simp [ingestMessage, hat])
      | some at' =>
          cases hfresh : fresh report.createdAt at' with
          | error why => exact .inr (by simp [ingestMessage, hat, hfresh])
          | ok _ =>
              have hingest : app.ingestMessage (.ok (system, report)) now instant faults =
                  app.storeReport system report at' instant faults := by
                simp only [ingestMessage, hat, hfresh]
              rw [hingest]
              by_cases hstored : ∃ recency expired,
                  (app.storeReport system report at' instant faults).1 =
                    .ok (.stored recency expired)
              · obtain ⟨recency, expired, hstored⟩ := hstored
                have hresult : app.storeReport system report at' instant faults =
                    (.ok (.stored recency expired),
                      (app.storeReport system report at' instant faults).2) :=
                  Prod.ext hstored rfl
                exact .inl ⟨_, _, _, _, _, _, rfl, rfl, hresult, storeReport_takes hfresh hresult⟩
              · refine .inr ⟨fun recency expired h => hstored ⟨recency, expired, h⟩, ?_⟩
                exact storeReport_unchanged fun recency expired h => hstored ⟨recency, expired, h⟩

end AppState

/-! ### Deliveries and deletions -/

inductive MailAction where
  | deliver (opened : Except MessageRefusal (SystemId × MailReport)) (instant : Instant)
    (faults : IngestFaults)
  | delete (system : SystemId) (fails : Bool)

structure MailStep where
  /-- The hub's clock, in unix seconds. -/
  now : ℕ
  action : MailAction

/-- A hub that takes mail, and what it took. -/
structure MailHistory where
  app : AppState
  /-- The clock of the last step. -/
  clock : ℕ
  /-- Every report stored, oldest first. -/
  stored : List (SystemId × MailReport)
  /-- Each system's reports stored since its last registration. -/
  accepted : SystemId → List MailReport

namespace MailHistory

def new (app : AppState) : MailHistory := ⟨app, 0, [], fun _ => []⟩

def step (h : MailHistory) (step : MailStep) : MailHistory :=
  match step.action with
  | .deliver opened instant faults =>
      match opened, h.app.ingestMessage opened step.now instant faults with
      | .ok (system, report), (.ok (.stored _ _), app) =>
          { app
            clock := step.now
            stored := h.stored ++ [(system, report)]
            accepted := Function.update h.accepted system (h.accepted system ++ [report]) }
      | _, (_, app) => { h with app, clock := step.now }
  | .delete system fails =>
      if fails then { h with clock := step.now }
      else
        { h with
          app := h.app.deleteSystem system
          clock := step.now
          accepted := Function.update h.accepted system [] }

def run (app : AppState) (steps : List MailStep) : MailHistory := steps.foldl step (new app)

/-- What tells one report from another. -/
def reportKey (stored : SystemId × MailReport) : SystemId × String × ℕ × SnapshotTime :=
  (stored.1, stored.2.run, stored.2.seq, stored.2.createdAt)

end MailHistory

/-- `report` has the greatest creation time of `reports`, and of those it is the last. -/
def IsNewest (reports : List MailReport) (report : MailReport) : Prop :=
  ∃ before after, reports = before ++ report :: after ∧
    (∀ r ∈ before, r.createdAt.seconds ≤ report.createdAt.seconds) ∧
    ∀ r ∈ after, r.createdAt.seconds < report.createdAt.seconds

/-- A report no older than the others is the newest after them. -/
theorem IsNewest.eq_last {reports : List MailReport} {last report : MailReport}
    (h : IsNewest (reports ++ [last]) report)
    (hle : ∀ r ∈ reports, r.createdAt.seconds ≤ last.createdAt.seconds) : report = last := by
  obtain ⟨before, after, heq, -, hafter⟩ := h
  rcases List.eq_nil_or_concat after with rfl | ⟨after', x, rfl⟩
  · obtain ⟨-, heq⟩ := List.append_inj' heq rfl
    exact (List.cons.inj heq).1.symm
  · rw [List.concat_eq_append, ← List.cons_append, ← List.append_assoc] at heq
    obtain ⟨hreports, hlast⟩ := List.append_inj' heq rfl
    obtain rfl := (List.cons.inj hlast).1
    have hlt := hafter last (by simp)
    have hge := hle report (by simp [hreports])
    omega

theorem IsNewest.le {reports : List MailReport} {report r : MailReport}
    (h : IsNewest reports report) (hr : r ∈ reports) :
    r.createdAt.seconds ≤ report.createdAt.seconds := by
  obtain ⟨before, after, rfl, hbefore, hafter⟩ := h
  rcases List.mem_append.mp hr with hr | hr
  · exact hbefore r hr
  · rcases List.mem_cons.mp hr with rfl | hr
    · exact le_rfl
    · exact (hafter r hr).le

theorem exists_isNewest {reports : List MailReport} (h : reports ≠ []) :
    ∃ report, IsNewest reports report := by
  induction reports using List.reverseRecOn with
  | nil => exact absurd rfl h
  | append_singleton reports last ih =>
      by_cases hlt : ∃ r ∈ reports, last.createdAt.seconds < r.createdAt.seconds
      · obtain ⟨r, hr, hlt⟩ := hlt
        obtain ⟨report, hnewest⟩ := ih (List.ne_nil_of_mem hr)
        have hle := hnewest.le hr
        obtain ⟨before, after, rfl, hbefore, hafter⟩ := hnewest
        refine ⟨report, before, after ++ [last], by simp, hbefore, fun x hx => ?_⟩
        rcases List.mem_append.mp hx with hx | hx
        · exact hafter x hx
        · obtain rfl := List.mem_singleton.mp hx
          exact hlt.trans_le hle
      · refine ⟨last, reports, [], rfl, fun r hr => ?_, nofun⟩
        exact not_lt.mp fun hr' => hlt ⟨r, hr, hr'⟩

/-- A report older than another changes nothing. -/
theorem IsNewest.of_append {reports : List MailReport} {last report : MailReport}
    (h : IsNewest (reports ++ [last]) report)
    (hlt : ∃ r ∈ reports, last.createdAt.seconds < r.createdAt.seconds) :
    IsNewest reports report := by
  obtain ⟨before, after, heq, hbefore, hafter⟩ := h
  rcases List.eq_nil_or_concat after with rfl | ⟨after', x, rfl⟩
  · obtain ⟨rfl, hlast⟩ := List.append_inj' heq rfl
    obtain rfl := (List.cons.inj hlast).1
    obtain ⟨r, hr, hlt⟩ := hlt
    exact absurd hlt (not_lt.mpr (hbefore r hr))
  · rw [List.concat_eq_append, ← List.cons_append, ← List.append_assoc] at heq
    obtain ⟨hreports, -⟩ := List.append_inj' heq rfl
    refine ⟨before, after', hreports, hbefore, fun r hr => hafter r ?_⟩
    rw [List.concat_eq_append]
    exact List.mem_append_left _ hr

theorem le_of_fresh {createdAt now : SnapshotTime} (h : fresh createdAt now = .ok ()) :
    now.seconds ≤ createdAt.seconds + receiptWindowSecs := by
  rw [fresh] at h
  split_ifs at h
  omega

theorem recency_eq_newest {createdAt : SnapshotTime} {previous : Option SnapshotTime}
    (h : recency createdAt previous = .newest) :
    ∀ n ∈ previous.map SnapshotTime.seconds, n ≤ createdAt.seconds := by
  cases previous with
  | none => exact nofun
  | some newest =>
      rw [recency] at h
      split_ifs at h with hlt
      intro n hn
      obtain rfl := Option.some.inj hn
      exact not_lt.mp hlt

theorem recency_eq_backfill {createdAt : SnapshotTime} {previous : Option SnapshotTime}
    (h : recency createdAt previous = .backfill) :
    ∃ n ∈ previous.map SnapshotTime.seconds, createdAt.seconds < n := by
  cases previous with
  | none => cases h
  | some newest =>
      rw [recency] at h
      split_ifs at h with hlt
      exact ⟨_, rfl, hlt⟩

/-- A hub that has taken no mail yet. -/
def AppState.NoMail (app : AppState) : Prop :=
  app.db.mailReceipts = [] ∧ ∀ s row, app.db.systems.get? s = some row → row.url ≠ mailUrl

namespace MailHistory

/-- What one step can do: take a fresh report, delete a system, or nothing. -/
theorem step_cases (h : MailHistory) (s : MailStep) :
    (∃ system report at' recency app', SnapshotTime.ofSecs s.now = some at' ∧
      h.app.Takes system report at' recency app' ∧
      h.step s = ⟨app', s.now, h.stored ++ [(system, report)],
        Function.update h.accepted system (h.accepted system ++ [report])⟩) ∨
    (∃ system, h.step s = ⟨h.app.deleteSystem system, s.now, h.stored,
        Function.update h.accepted system []⟩) ∨
    h.step s = { h with clock := s.now } := by
  obtain ⟨now, action⟩ := s
  cases action with
  | delete system fails =>
      rw [step]
      dsimp only
      split_ifs
      · exact .inr (.inr rfl)
      · exact .inr (.inl ⟨system, rfl⟩)
  | deliver opened instant faults =>
      rcases h.app.ingestMessage_cases opened now instant faults with
        ⟨system, report, at', recency, expired, app', rfl, hat, hingest, htakes⟩ | ⟨hnot, happ⟩
      · refine .inl ⟨system, report, at', recency, app', hat, htakes, ?_⟩
        simp only [step, hingest]
      · refine .inr (.inr ?_)
        generalize hresult : h.app.ingestMessage opened now instant faults = result at hnot happ
        obtain ⟨outcome, app'⟩ := result
        dsimp only at happ
        subst happ
        simp only [step, hresult]
        split
        · next heq =>
            obtain ⟨rfl, -⟩ := Prod.mk.inj heq
            exact absurd rfl (hnot _ _)
        · next heq =>
            obtain ⟨-, rfl⟩ := Prod.mk.inj heq
            rfl

/-- The receipts and rows behind what a hub took. -/
structure Inv (h : MailHistory) : Prop where
  /-- A stored report's receipt is kept while the report would still be fresh. -/
  receipts : ∀ x ∈ h.stored,
    (∃ r ∈ h.app.db.mailReceipts, r.systemId = x.1 ∧ r.run = x.2.run ∧ r.seq = x.2.seq ∧
      r.createdAt = x.2.createdAt) ∨ x.2.createdAt.seconds + receiptWindowSecs < h.clock
  nodup : (h.stored.map reportKey).Nodup
  /-- The greatest creation time the receipts give is the accepted reports'. -/
  newestReceipt : ∀ s, h.app.db.maxCreatedAt s =
    ((h.accepted s).map fun r => r.createdAt.seconds).max?
  newestRow : ∀ s report, IsNewest (h.accepted s) report →
    (∃ row, h.app.db.systems.get? s = some row ∧ row.url = mailUrl ∧ row.status = .online ∧
      row.lastSeen = .reportedAt report.createdAt ∧ row.lastError = none) ∧
    h.app.liveMetrics.get? s = some ⟨report.newestSample.snapshot, report.newestSample.time⟩
  unregistered : ∀ s row, h.accepted s = [] → h.app.db.systems.get? s = some row → row.url ≠ mailUrl

theorem inv_new {app : AppState} (happ : app.NoMail) : (new app).Inv where
  receipts := nofun
  nodup := List.nodup_nil
  newestReceipt s := by
    change app.db.maxCreatedAt s = none
    rw [Database.maxCreatedAt_eq_none, Database.currentReceipts, happ.1]
    rfl
  newestRow s report hnewest := by
    obtain ⟨before, after, heq, -⟩ := hnewest
    simp [new] at heq
  unregistered s row _ hrow := happ.2 s row hrow

section Take

variable {h : MailHistory} {system : SystemId} {report : MailReport} {now : SnapshotTime}
  {recency : Recency} {app' : AppState}

/-- The receipts after a report is taken at `now`: those before and its own, less the ones no
fresh report can match. -/
theorem receipt_kept (htakes : h.app.Takes system report now recency app') {r : MailReceipt}
    (hr : r ∈ h.app.db.mailReceipts ∨ r = (mailWrite system report now).receipt) :
    r ∈ app'.db.mailReceipts ∨ r.createdAt.seconds + receiptWindowSecs < now.seconds := by
  obtain ⟨tx, htx, hpruned⟩ := htakes.receipts
  by_cases hold : r.createdAt.seconds + receiptWindowSecs < now.seconds
  · exact .inr hold
  · left
    rw [hpruned, Database.mem_pruneReceipts, htx]
    refine ⟨by simpa using hr, ?_⟩
    rintro ⟨-, hlt, -⟩
    rw [SnapshotTime.cutoff] at hlt
    dsimp only at hlt
    omega

/-- A report taken once is not taken again: its receipt is there as long as it is fresh. -/
theorem take_unstored (hinv : h.Inv) (hclock : h.clock ≤ now.seconds)
    (htakes : h.app.Takes system report now recency app') :
    reportKey (system, report) ∉ h.stored.map reportKey := by
  intro hmem
  obtain ⟨x, hx, hkey⟩ := List.mem_map.mp hmem
  simp only [reportKey, Prod.mk.injEq] at hkey
  obtain ⟨hsystem, hrun, hseq, hcreated⟩ := hkey
  rcases hinv.receipts x hx with ⟨r, hr, hrs, hrr, hrq, -⟩ | hold
  · exact htakes.unknown r hr ⟨hrs.trans hsystem, hrr.trans hrun, hrq.trans hseq⟩
  · have hfresh := le_of_fresh htakes.fresh
    rw [hcreated] at hold
    omega

theorem take_newestReceipt (hinv : h.Inv) (htakes : h.app.Takes system report now recency app')
    (s : SystemId) :
    app'.db.maxCreatedAt s =
      ((Function.update h.accepted system (h.accepted system ++ [report]) s).map
        fun r => r.createdAt.seconds).max? := by
  rw [htakes.maxCreatedAt s, hinv.newestReceipt s]
  split_ifs with heq
  · subst heq
    rw [Function.update_self, List.map_append]
    cases (h.accepted system).map fun r => r.createdAt.seconds with
    | nil => rfl
    | cons m rest =>
        simp only [List.map_cons, List.map_nil, List.cons_append, List.max?_cons',
          List.foldl_append, List.foldl_cons, List.foldl_nil, Option.map_some, Option.getD_some]
  · rw [Function.update_of_ne (Ne.symm heq)]

/-- The reports a recency compares with: the system's accepted ones. -/
theorem take_previous (hinv : h.Inv) (system : SystemId) :
    (h.app.db.newestCurrentReceipt system).map SnapshotTime.seconds =
      ((h.accepted system).map fun r => r.createdAt.seconds).max? := by
  rw [Database.newestCurrentReceipt_seconds, hinv.newestReceipt]

theorem take_newestRow (hinv : h.Inv) (htakes : h.app.Takes system report now recency app')
    (s : SystemId) (r : MailReport)
    (hr : IsNewest (Function.update h.accepted system (h.accepted system ++ [report]) s) r) :
    (∃ row, app'.db.systems.get? s = some row ∧ row.url = mailUrl ∧ row.status = .online ∧
      row.lastSeen = .reportedAt r.createdAt ∧ row.lastError = none) ∧
    app'.liveMetrics.get? s = some ⟨r.newestSample.snapshot, r.newestSample.time⟩ := by
  have hrecency := htakes.recency_eq
  by_cases heq : system = s
  · subst heq
    rw [Function.update_self] at hr
    cases recency with
    | newest =>
        have hle : ∀ x ∈ h.accepted system, x.createdAt.seconds ≤ report.createdAt.seconds := by
          intro x hx
          have hmem : x.createdAt.seconds ∈ (h.accepted system).map fun r => r.createdAt.seconds :=
            List.mem_map_of_mem hx
          cases hmax : ((h.accepted system).map fun r => r.createdAt.seconds).max? with
          | none => simp [List.max?_eq_none_iff.mp hmax] at hmem
          | some m =>
              have hm := recency_eq_newest hrecency.symm m (by rw [take_previous hinv, hmax]; rfl)
              exact ((List.max?_eq_some_iff.mp hmax).2 _ hmem).trans hm
        obtain rfl := hr.eq_last hle
        obtain ⟨hrow, hlive⟩ := htakes.newest rfl
        exact ⟨hrow, by rw [hlive, Table.get?_insert, if_pos rfl]⟩
    | backfill =>
        obtain ⟨m, hm, hlt⟩ := recency_eq_backfill hrecency.symm
        rw [take_previous hinv] at hm
        obtain ⟨x, hx, rfl⟩ := List.mem_map.mp (List.max?_eq_some_iff.mp hm).1
        obtain ⟨⟨row, hrow, hstatus⟩, hlive⟩ := hinv.newestRow system r (hr.of_append ⟨x, hx, hlt⟩)
        obtain ⟨hrow', hlive'⟩ := htakes.backfill rfl
        rw [hrow, Option.getD_some] at hrow'
        exact ⟨⟨row, hrow', hstatus⟩, by rw [hlive', hlive]⟩
  · rw [Function.update_of_ne (Ne.symm heq)] at hr
    obtain ⟨⟨row, hrow, hurl, hstatus, hseen, herror⟩, hlive⟩ := hinv.newestRow s r hr
    have hrel := htakes.others s heq
    rw [hrow] at hrel
    obtain ⟨row', hrow', hurl', hstatus', hseen', herror', -⟩ := AppState.SameStatus.of_rel hrel
    refine ⟨⟨row', hrow', hurl'.trans hurl, hstatus'.trans hstatus, hseen'.trans hseen,
      herror'.trans herror⟩, ?_⟩
    have hother : app'.liveMetrics.get? s = h.app.liveMetrics.get? s := by
      cases recency with
      | newest => rw [(htakes.newest rfl).2, Table.get?_insert, if_neg heq]
      | backfill => rw [(htakes.backfill rfl).2]
    rw [hother, hlive]

theorem inv_take (hinv : h.Inv) (hclock : h.clock ≤ now.seconds)
    (htakes : h.app.Takes system report now recency app') :
    Inv ⟨app', now.seconds, h.stored ++ [(system, report)],
      Function.update h.accepted system (h.accepted system ++ [report])⟩ where
  receipts x hx := by
    rcases List.mem_append.mp hx with hx | hx
    · rcases hinv.receipts x hx with ⟨r, hr, hkey⟩ | hold
      · rcases receipt_kept htakes (.inl hr) with hr' | hold
        · exact .inl ⟨r, hr', hkey⟩
        · rw [hkey.2.2.2] at hold
          exact .inr hold
      · exact .inr (lt_of_lt_of_le hold hclock)
    · obtain rfl := List.mem_singleton.mp hx
      rcases receipt_kept htakes (.inr rfl) with hr' | hold
      · exact .inl ⟨_, hr', rfl, rfl, rfl, rfl⟩
      · exact .inr hold
  nodup := by
    rw [List.map_append, List.nodup_append_comm]
    exact List.nodup_cons.mpr ⟨take_unstored hinv hclock htakes, hinv.nodup⟩
  newestReceipt := take_newestReceipt hinv htakes
  newestRow := take_newestRow hinv htakes
  unregistered s row hnil hrow := by
    by_cases heq : system = s
    · subst heq
      simp at hnil
    · change Function.update h.accepted system _ s = [] at hnil
      rw [Function.update_of_ne (Ne.symm heq)] at hnil
      have hrel := htakes.others s heq
      rw [hrow] at hrel
      cases hbefore : h.app.db.systems.get? s with
      | none =>
          rw [hbefore] at hrel
          cases hrel
      | some row₀ =>
          rw [hbefore] at hrel
          obtain ⟨_, hsome, hsame⟩ := AppState.SameStatus.of_rel hrel
          obtain rfl := Option.some.inj hsome
          rw [hsame.1]
          exact hinv.unregistered s row₀ hnil hbefore

end Take

theorem maxCreatedAt_deleteSystem (db : Database) (id s : SystemId) :
    (db.deleteSystem id).maxCreatedAt s = if id = s then none else db.maxCreatedAt s := by
  have hcurrent : (db.deleteSystem id).currentReceipts s = if id = s then []
      else db.currentReceipts s := by
    rw [Database.currentReceipts, Database.deleteSystem, Database.currentReceipts]
    dsimp only
    split_ifs with hs
    · rw [List.filter_eq_nil_iff]
      intro r' hr'
      obtain ⟨r, -, rfl⟩ := List.mem_map.mp hr'
      split_ifs with hr
      · simp
      · simp [← hs, hr]
    · induction db.mailReceipts with
      | nil => rfl
      | cons r rest ih =>
          rw [List.map_cons, List.filter_cons, List.filter_cons, ih]
          by_cases hr : r.systemId = id
          · simp [hr, hs]
          · simp [hr]
  rw [Database.maxCreatedAt, hcurrent]
  split_ifs
  · rfl
  · rfl

/-- A deleted system's receipts stay, retired. -/
theorem inv_delete {h : MailHistory} (hinv : h.Inv) (system : SystemId) {now : ℕ}
    (hclock : h.clock ≤ now) :
    Inv ⟨h.app.deleteSystem system, now, h.stored, Function.update h.accepted system []⟩ where
  receipts x hx := by
    rcases hinv.receipts x hx with ⟨r, hr, hkey⟩ | hold
    · refine .inl ⟨_, List.mem_map_of_mem hr, ?_⟩
      split_ifs
      · exact hkey
      · exact hkey
    · exact .inr (lt_of_lt_of_le hold hclock)
  nodup := hinv.nodup
  newestReceipt s := by
    change (h.app.db.deleteSystem system).maxCreatedAt s = _
    rw [maxCreatedAt_deleteSystem, hinv.newestReceipt]
    split_ifs with heq
    · subst heq
      simp
    · dsimp only
      rw [Function.update_of_ne (Ne.symm heq)]
  newestRow s report hnewest := by
    dsimp only at hnewest
    by_cases heq : system = s
    · subst heq
      obtain ⟨before, after, heq, -⟩ := hnewest
      simp at heq
    · rw [Function.update_of_ne (Ne.symm heq)] at hnewest
      obtain ⟨hrow, hlive⟩ := hinv.newestRow s report hnewest
      change (∃ row, (h.app.db.systems.erase system).get? s = some row ∧ _) ∧
        (h.app.liveMetrics.erase system).get? s = _
      rw [Table.get?_erase, if_neg (Ne.symm heq), Table.get?_erase, if_neg (Ne.symm heq)]
      exact ⟨hrow, hlive⟩
  unregistered s row hnil hrow := by
    change (h.app.db.systems.erase system).get? s = some row at hrow
    rw [Table.get?_erase] at hrow
    split_ifs at hrow with heq
    change Function.update h.accepted system _ s = [] at hnil
    rw [Function.update_of_ne heq] at hnil
    exact hinv.unregistered s row hnil hrow

theorem inv_step {h : MailHistory} (hinv : h.Inv) {s : MailStep} (hclock : h.clock ≤ s.now) :
    (h.step s).Inv ∧ (h.step s).clock = s.now := by
  rcases h.step_cases s with ⟨system, report, at', recency, app', hat, htakes, hstep⟩
    | ⟨system, hstep⟩ | hstep
  · rw [hstep]
    rw [SnapshotTime.ofSecs] at hat
    split_ifs at hat
    obtain rfl := Option.some.inj hat
    exact ⟨inv_take hinv hclock htakes, rfl⟩
  · rw [hstep]
    exact ⟨inv_delete hinv system hclock, rfl⟩
  · rw [hstep]
    refine ⟨⟨fun x hx => ?_, hinv.nodup, hinv.newestReceipt, hinv.newestRow,
      hinv.unregistered⟩, rfl⟩
    exact (hinv.receipts x hx).imp_right fun hold => lt_of_lt_of_le hold hclock

theorem inv_run {app : AppState} (happ : app.NoMail) {steps : List MailStep}
    (htimes : steps.Pairwise fun a b => a.now ≤ b.now) :
    (run app steps).Inv ∧ ∀ s ∈ steps.getLast?, (run app steps).clock = s.now := by
  induction steps using List.reverseRecOn with
  | nil => exact ⟨inv_new happ, nofun⟩
  | append_singleton steps s ih =>
      obtain ⟨hbefore, -, hlast⟩ := List.pairwise_append.mp htimes
      obtain ⟨hinv, hclock⟩ := ih hbefore
      have hle : (run app steps).clock ≤ s.now := by
        rcases List.eq_nil_or_concat steps with rfl | ⟨steps', last, rfl⟩
        · exact Nat.zero_le _
        · rw [hclock last (by simp)]
          exact hlast last (by simp) s (by simp)
      have hrun : run app (steps ++ [s]) = (run app steps).step s := by
        rw [run, List.foldl_append]
        rfl
      rw [hrun]
      obtain ⟨hinv', hclock'⟩ := inv_step hinv hle
      refine ⟨hinv', fun last hsome => ?_⟩
      rw [List.getLast?_concat] at hsome
      obtain rfl := Option.some.inj hsome
      exact hclock'

/-- Whatever the order, the delays, the replays and the deletions: a report is stored at most
once, a delivery that isn't stored changes nothing, and each system shows its newest report since
its last registration. -/
theorem stored_once_newest_shown {app : AppState} (happ : app.NoMail) {steps : List MailStep}
    (htimes : steps.Pairwise fun a b => a.now ≤ b.now) :
    ((run app steps).stored.map reportKey).Nodup ∧
    (∀ opened now instant faults,
      (∀ recency expired, ((run app steps).app.ingestMessage opened now instant faults).1 ≠
        .ok (.stored recency expired)) →
      ((run app steps).app.ingestMessage opened now instant faults).2 = (run app steps).app) ∧
    ∀ s,
      ((run app steps).accepted s = [] →
        ∀ row, (run app steps).app.db.systems.get? s = some row → row.url ≠ mailUrl) ∧
      ((run app steps).accepted s ≠ [] → ∃ report, IsNewest ((run app steps).accepted s) report ∧
        (∃ row, (run app steps).app.db.systems.get? s = some row ∧ row.url = mailUrl ∧
          row.status = .online ∧ row.lastSeen = .reportedAt report.createdAt ∧
          row.lastError = none) ∧
        (run app steps).app.liveMetrics.get? s =
          some ⟨report.newestSample.snapshot, report.newestSample.time⟩) := by
  obtain ⟨hinv, -⟩ := inv_run happ htimes
  refine ⟨hinv.nodup, fun opened now instant faults hnot => ?_, fun s => ⟨?_, fun hsome => ?_⟩⟩
  · rcases (run app steps).app.ingestMessage_cases opened now instant faults with
      ⟨_, _, _, recency, expired, app', -, -, hstored, -⟩ | ⟨-, hsame⟩
    · exact absurd (congrArg Prod.fst hstored) (hnot recency expired)
    · exact hsame
  · intro hnil row hrow
    exact hinv.unregistered s row hnil hrow
  · obtain ⟨report, hnewest⟩ := exists_isNewest hsome
    exact ⟨report, hnewest, hinv.newestRow s report hnewest⟩

/-- A report of one sample with no points, with its run's seq and its creation time. -/
def bareReport (seq created : ℕ) (h : created < 2 ^ 63) : MailReport where
  run := "run"
  seq := seq
  createdAt := ⟨created, h⟩
  interval := ⟨60, by decide⟩
  samples := [⟨⟨created, h⟩, ⟨[], Snapshot.notNaN_nil⟩, none⟩]
  samplesNonempty := by simp
  alerts := []
  round := none

/-- Two reports, the newer first, a replay, a deletion and another replay. -/
def replayedSteps : List MailStep :=
  let deliver now seq created h : MailStep :=
    ⟨now, .deliver (.ok ("host", bareReport seq created h)) 0 {}⟩
  [deliver 300 2 200 SnapshotTime.inRange_two_hundred, deliver 301 1 100
    SnapshotTime.inRange_hundred, deliver 302 2 200 SnapshotTime.inRange_two_hundred,
    ⟨303, .delete "host" false⟩, deliver 304 1 100 SnapshotTime.inRange_hundred,
    deliver 305 3 50 (by decide)]

theorem stored_once_newest_shown_replayed :
    AppState.new.NoMail ∧ replayedSteps.Pairwise (fun a b => a.now ≤ b.now) ∧
      ((run .new replayedSteps).stored.map reportKey).Nodup ∧
      (run .new replayedSteps).stored.map (·.2.seq) = [2, 1, 3] ∧
      ∃ report, IsNewest ((run .new replayedSteps).accepted "host") report ∧ report.seq = 3 := by
  have happ : AppState.new.NoMail := by
    refine ⟨rfl, fun s row hrow => ?_⟩
    simp [AppState.new, Database.new] at hrow
  have htimes : replayedSteps.Pairwise fun a b => a.now ≤ b.now := by decide
  obtain ⟨hnodup, -, hshown⟩ := stored_once_newest_shown happ htimes
  have haccepted : (run .new replayedSteps).accepted "host" = [bareReport 3 50 (by decide)] := by
    decide +kernel
  obtain ⟨report, hnewest, -⟩ := (hshown "host").2 (by rw [haccepted]; simp)
  refine ⟨happ, htimes, hnodup, by decide +kernel, report, hnewest, ?_⟩
  obtain ⟨before, after, heq, -⟩ := hnewest
  have hmem : report ∈ [bareReport 3 50 (by decide)] := by
    rw [← haccepted, heq]
    simp
  rw [List.mem_singleton.mp hmem]
  rfl

end MailHistory

end MonitoringAgent.Hub

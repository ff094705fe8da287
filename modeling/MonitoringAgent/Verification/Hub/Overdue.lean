import MonitoringAgent.Verification.Hub.Mail

/-! # The overdue sweep and the reports it races

Passes of the sweep, one lock at a time, interleaved with deliveries. -/

namespace MonitoringAgent.Hub

open MonitoringAgent.Library

inductive SweepOp where
  /-- A pass starts, once the one before is done. -/
  | read (now : SnapshotTime)
  | sweep (fails : Bool)
  | deliver (opened : Except MessageRefusal (SystemId × MailReport)) (now : ℕ) (instant : Instant)
    (faults : IngestFaults)

/-- A hub and its sweep, with the reports that made its systems online. -/
structure SweptHub where
  app : AppState
  pass : OverduePass
  /-- Each system's last report stored as its newest. -/
  shown : SystemId → Option MailReport
  /-- Whether one was stored since the pass read the rows. -/
  sinceRead : SystemId → Bool

namespace SweptHub

def new (app : AppState) : SweptHub :=
  ⟨app, ⟨⟨0, by decide⟩, none, []⟩, fun _ => none, fun _ => false⟩

def step (h : SweptHub) : SweepOp → SweptHub
  | .read now =>
      if h.pass.evicting = none ∧ h.pass.rows = [] then
        { h with pass := h.app.readPresence now, sinceRead := fun _ => false }
      else h
  | .sweep fails =>
      let (app, pass) := h.app.overdueStep h.pass fails
      { h with app, pass }
  | .deliver opened now instant faults =>
      match opened, h.app.ingestMessage opened now instant faults with
      | .ok (system, report), (.ok (.stored .newest _), app) =>
          { h with
            app
            shown := Function.update h.shown system (some report)
            sinceRead := Function.update h.sinceRead system true }
      | _, (_, app) => { h with app }

def run (app : AppState) (ops : List SweepOp) : SweptHub := ops.foldl step (new app)

end SweptHub

/-- Whether `report`, opened at `now`, is to be stored as its system's newest. -/
def Database.StoresNewest (db : Database) (system : SystemId)
    (report : MailReport) (now : ℕ) : Prop :=
  (∃ at', SnapshotTime.ofSecs now = some at' ∧ fresh report.createdAt at' = .ok ()) ∧
    (∀ row, db.systems.get? system = some row → row.url = mailUrl) ∧
    (∀ r ∈ db.mailReceipts, ¬(r.systemId = system ∧ r.run = report.run ∧ r.seq = report.seq)) ∧
    recency report.createdAt (db.newestCurrentReceipt system) = .newest

namespace SweptHub

/-- No report is stored as a system's newest while the eviction of its live metrics is due, nor
with the very creation time that an overdue row still to be marked was read with. -/
def Clear (h : SweptHub) : SweepOp → Prop
  | .deliver (.ok (system, report)) now _ _ =>
      h.app.db.StoresNewest system report now →
        h.pass.evicting ≠ some system ∧
        ∀ row ∈ h.pass.rows, row.id = system → isOverdue row h.pass.now = true →
          row.newest.map Prod.fst ≠ some report.createdAt
  | _ => True

/-! ### One step -/

/-- What a delivery can do: take a report as its system's newest, take it as a backfill, or
nothing. -/
theorem step_deliver (h : SweptHub) (opened : Except MessageRefusal (SystemId × MailReport))
    (now : ℕ) (instant : Instant) (faults : IngestFaults) :
    (∃ system report at' app', opened = .ok (system, report) ∧ SnapshotTime.ofSecs now = some at' ∧
      h.app.Takes system report at' .newest app' ∧
      h.step (.deliver opened now instant faults) =
        ⟨app', h.pass, Function.update h.shown system (some report),
          Function.update h.sinceRead system true⟩) ∨
    (∃ system report at' app', h.app.Takes system report at' .backfill app' ∧
      h.step (.deliver opened now instant faults) = { h with app := app' }) ∨
    h.step (.deliver opened now instant faults) = h := by
  rcases h.app.ingestMessage_cases opened now instant faults with
    ⟨system, report, at', recency, expired, app', rfl, hat, hingest, htakes⟩ | ⟨hnot, happ⟩
  · cases recency with
    | newest =>
        refine .inl ⟨system, report, at', app', rfl, hat, htakes, ?_⟩
        simp only [step, hingest]
    | backfill =>
        refine .inr (.inl ⟨system, report, at', app', htakes, ?_⟩)
        simp only [step, hingest]
  · refine .inr (.inr ?_)
    generalize hresult : h.app.ingestMessage opened now instant faults = result at hnot happ
    obtain ⟨outcome, app'⟩ := result
    dsimp only at happ
    subst happ
    simp only [step, hresult]
    split
    · next heq =>
        obtain ⟨rfl, -⟩ := Prod.mk.inj heq
        exact absurd rfl (hnot _ _)
    · next heq =>
        obtain ⟨-, rfl⟩ := Prod.mk.inj heq
        rfl

/-- What a step of the pass can do: evict, mark its next row, or go past rows. -/
theorem overdueStep_cases (app : AppState) (pass : OverduePass) (fails : Bool) :
    (∃ id, pass.evicting = some id ∧
      app.overdueStep pass fails = (app.evictLiveMetrics id, { pass with evicting := none })) ∨
    (∃ row rows system, pass.evicting = none ∧ pass.rows = row :: rows ∧
      isOverdue row pass.now = true ∧
      app.db.systems.get? row.id = some system ∧
      app.db.maxCreatedAt row.id = row.newest.map (·.1.seconds) ∧
      app.overdueStep pass fails =
        ({ app with db := app.db.updateSystem row.id fun system =>
            { system with status := .offline, lastError := some overdueError } },
          ⟨pass.now, some row.id, rows⟩)) ∨
    (∃ rows, pass.evicting = none ∧ rows ⊆ pass.rows ∧
      app.overdueStep pass fails = (app, { pass with rows })) := by
  obtain ⟨now, evicting, rows⟩ := pass
  cases evicting with
  | some id => exact .inl ⟨id, rfl, rfl⟩
  | none =>
      cases rows with
      | nil => exact .inr (.inr ⟨[], rfl, List.Subset.refl _, rfl⟩)
      | cons row rows =>
          have hpast : rows ⊆ row :: rows := fun _ => List.mem_cons_of_mem row
          rw [AppState.overdueStep]
          dsimp only
          split_ifs with hoverdue
          · exact .inr (.inr ⟨[], rfl, List.nil_subset _, rfl⟩)
          · rw [Database.markMailOverdue]
            split_ifs with hmark
            · obtain ⟨hsystem, hmax⟩ := hmark
              obtain ⟨system, hsystem, -⟩ := (Option.any_eq_true _ _).mp hsystem
              refine .inr (.inl ⟨row, rows, system, rfl, rfl, hoverdue, hsystem, ?_, rfl⟩)
              rw [hmax, Option.map_map]
              rfl
            · exact .inr (.inr ⟨rows, rfl, hpast, rfl⟩)
          · exact .inr (.inr ⟨rows, rfl, hpast, rfl⟩)

/-- A fold that keeps what it holds or takes the next item holds what it started with, or one of the
items. -/
theorem foldl_taken {α : Type} {take : Option α → α → Option α}
    (htake : ∀ held item, take held item = held ∨ take held item = some item) (items : List α)
    {held : Option α} {last : α} (h : items.foldl take held = some last) :
    held = some last ∨ last ∈ items := by
  induction items generalizing held with
  | nil => exact .inl h
  | cons item items ih =>
      rcases ih h with hnext | hmem
      · rcases htake held item with heq | heq
        · exact .inl (heq.symm.trans hnext)
        · obtain rfl := Option.some.inj (heq.symm.trans hnext)
          exact .inr List.mem_cons_self
      · exact .inr (List.mem_cons_of_mem item hmem)

theorem newestReceipt_mem {db : Database} {system : SystemId} {receipt : MailReceipt}
    (h : db.newestReceipt system = some receipt) : receipt ∈ db.currentReceipts system := by
  rw [Database.newestReceipt] at h
  refine (foldl_taken (fun newest r => ?_) _ h).resolve_left (Option.some_ne_none _).symm
  cases newest with
  | none => exact .inr rfl
  | some n =>
      dsimp only
      split_ifs
      · exact .inr rfl
      · exact .inl rfl

/-- The row of a system the sweep read is no newer than the system's receipts. -/
theorem mem_mailPresence {db : Database} {row : MailPresenceRow} (h : row ∈ db.mailPresence)
    {newest : SnapshotTime × MailInterval} (hnewest : row.newest = some newest) :
    ∃ m, db.maxCreatedAt row.id = some m ∧ newest.1.seconds ≤ m := by
  obtain ⟨⟨id, system⟩, -, hentry⟩ := List.mem_filterMap.mp h
  dsimp only at hentry
  split_ifs at hentry
  obtain rfl := Option.some.inj hentry
  dsimp only at hnewest ⊢
  obtain ⟨receipt, hreceipt, hnewest⟩ := Option.bind_eq_some_iff.mp hnewest
  obtain ⟨interval, -, hnewest⟩ := Option.bind_eq_some_iff.mp hnewest
  obtain rfl := Option.some.inj hnewest
  have hmem := newestReceipt_mem hreceipt
  cases hmax : db.maxCreatedAt id with
  | none =>
      rw [Database.maxCreatedAt_eq_none.mp hmax] at hmem
      exact absurd hmem List.not_mem_nil
  | some m => exact ⟨m, rfl, (Database.maxCreatedAt_eq_some.mp hmax).2 receipt hmem⟩

/-! ### Runs -/

structure Inv (h : SweptHub) : Prop where
  online : ∀ s, h.sinceRead s = true → ∃ row, h.app.db.systems.get? s = some row ∧
    row.status = .online
  /-- A report stored since the read left a receipt newer than the one read. -/
  newer : ∀ s, h.sinceRead s = true → ∀ row ∈ h.pass.rows, row.id = s →
    isOverdue row h.pass.now = true →
    ∃ m, h.app.db.maxCreatedAt s = some m ∧ ∀ n, row.newest = some n → n.1.seconds < m
  read : ∀ row ∈ h.pass.rows, ∀ n, row.newest = some n →
    ∃ m, h.app.db.maxCreatedAt row.id = some m ∧ n.1.seconds ≤ m
  live : ∀ s report row, h.shown s = some report → h.app.db.systems.get? s = some row →
    row.status = .online →
    h.app.liveMetrics.get? s = some ⟨report.newestSample.snapshot, report.newestSample.time⟩
  marked : ∀ s, h.pass.evicting = some s → ∃ row, h.app.db.systems.get? s = some row ∧
    row.status = .offline

theorem inv_new (app : AppState) : (new app).Inv where
  online _ hs := absurd hs Bool.false_ne_true
  newer _ hs := absurd hs Bool.false_ne_true
  read _ hrow := absurd hrow List.not_mem_nil
  live _ _ _ hshown := absurd hshown (Option.some_ne_none _).symm
  marked _ hs := absurd hs (Option.some_ne_none _).symm

theorem inv_read {h : SweptHub} (hinv : h.Inv) (now : SnapshotTime) : (h.step (.read now)).Inv := by
  rw [step]
  split_ifs with hdone
  · exact {
      online := fun _ hs => absurd hs Bool.false_ne_true
      newer := fun _ hs => absurd hs Bool.false_ne_true
      read := fun row hrow n hn => mem_mailPresence hrow hn
      live := hinv.live
      marked := fun _ hs => absurd hs (Option.some_ne_none _).symm }
  · exact hinv

theorem inv_sweep {h : SweptHub} (hinv : h.Inv) (fails : Bool) : (h.step (.sweep fails)).Inv := by
  rcases overdueStep_cases h.app h.pass fails with ⟨id, hid, hstep⟩ |
    ⟨row, rows, system, hnone, hrows, hoverdue, hsystem, hmax, hstep⟩ | ⟨rows, hnone, hsub, hstep⟩
  · -- The system evicted is offline: it has no report to show.
    rw [step, hstep]
    refine ⟨hinv.online, hinv.newer, hinv.read, fun s report row hshown hrow honline => ?_,
      fun _ hs => absurd hs (Option.some_ne_none _).symm⟩
    change (h.app.liveMetrics.erase id).get? s = _
    rw [Table.get?_erase, if_neg ?_]
    · exact hinv.live s report row hshown hrow honline
    · rintro rfl
      obtain ⟨row', hrow', hoffline⟩ := hinv.marked s hid
      change h.app.db.systems.get? s = some row at hrow
      rw [hrow] at hrow'
      obtain rfl := Option.some.inj hrow'
      rw [honline] at hoffline
      cases hoffline
  · rw [step, hstep]
    have hstored : h.sinceRead row.id = false := by
      rw [← Bool.not_eq_true]
      intro hsince
      obtain ⟨m, hm, hlt⟩ := hinv.newer row.id hsince row (by simp [hrows]) rfl hoverdue
      cases hread : row.newest with
      | none => simp [hm, hread] at hmax
      | some n =>
          rw [hm, hread] at hmax
          exact (hlt n hread).ne' (Option.some.inj hmax)
    have hother : ∀ s, row.id ≠ s → (h.app.db.updateSystem row.id fun system =>
        { system with status := .offline, lastError := some overdueError }).systems.get? s =
        h.app.db.systems.get? s := by
      intro s hne
      rw [Database.get?_updateSystem, if_neg hne]
    have hself : (h.app.db.updateSystem row.id fun system =>
        { system with status := .offline, lastError := some overdueError }).systems.get? row.id =
        some { system with status := .offline, lastError := some overdueError } := by
      rw [Database.get?_updateSystem, if_pos rfl, hsystem]
      rfl
    have hreceipts : ∀ s, (h.app.db.updateSystem row.id fun system =>
        { system with status := .offline, lastError := some overdueError }).maxCreatedAt s =
        h.app.db.maxCreatedAt s := by
      intro s
      rw [Database.updateSystem_eq]
      rfl
    have hsub : rows ⊆ h.pass.rows := by
      rw [hrows]
      exact fun _ => List.mem_cons_of_mem row
    refine ⟨fun s hs => ?_, fun s hs r hr hid ho => ?_, fun r hr n hn => ?_,
      fun s report r hshown hr honline => ?_, fun s hs => ?_⟩
    · have hne : row.id ≠ s := by
        rintro rfl
        rw [hstored] at hs
        cases hs
      rw [hother s hne]
      exact hinv.online s hs
    · rw [hreceipts]
      exact hinv.newer s hs r (hsub hr) hid ho
    · rw [hreceipts]
      exact hinv.read r (hsub hr) n hn
    · by_cases hne : row.id = s
      · subst hne
        rw [hself] at hr
        obtain rfl := Option.some.inj hr
        cases honline
      · rw [hother s hne] at hr
        exact hinv.live s report r hshown hr honline
    · obtain rfl := Option.some.inj hs
      exact ⟨_, hself, rfl⟩
  · rw [step, hstep]
    refine ⟨hinv.online, fun s hs row hrow => hinv.newer s hs row (hsub hrow),
      fun row hrow => hinv.read row (hsub hrow), hinv.live, fun s hs => ?_⟩
    exact hinv.marked s hs

/-- A taken report leaves the receipts of every system at least as new. -/
theorem maxCreatedAt_le {app app' : AppState} {system : SystemId} {report : MailReport}
    {now : SnapshotTime} {recency : Recency} (htakes : app.Takes system report now recency app')
    {s : SystemId} {m : ℕ} (hm : app.db.maxCreatedAt s = some m) :
    ∃ m', app'.db.maxCreatedAt s = some m' ∧ m ≤ m' := by
  rw [htakes.maxCreatedAt, hm]
  split_ifs
  · exact ⟨_, rfl, le_max_left _ _⟩
  · exact ⟨m, rfl, le_rfl⟩

section Take

variable {app app' : AppState} {system s : SystemId} {report : MailReport} {now : SnapshotTime}
  {recency : Recency}

/-- A report leaves the status of other systems alone, and as a backfill its own system's. -/
theorem status_kept (htakes : app.Takes system report now recency app')
    (hs : recency = .backfill ∨ system ≠ s) {row : SystemInfo}
    (hrow : app.db.systems.get? s = some row) :
    ∃ row', app'.db.systems.get? s = some row' ∧ row'.status = row.status := by
  by_cases heq : system = s
  · subst heq
    have hback := (htakes.backfill (hs.resolve_right (absurd rfl))).1
    rw [hrow] at hback
    exact ⟨row, hback, rfl⟩
  · have hrel := htakes.others s heq
    rw [hrow] at hrel
    obtain ⟨row', hrow', hsame⟩ := AppState.SameStatus.of_rel hrel
    exact ⟨row', hrow', hsame.2.1⟩

theorem online_before (htakes : app.Takes system report now recency app')
    (hs : recency = .backfill ∨ system ≠ s) {row' : SystemInfo}
    (hrow' : app'.db.systems.get? s = some row') (honline : row'.status = .online) :
    ∃ row, app.db.systems.get? s = some row ∧ row.status = .online := by
  cases hrow : app.db.systems.get? s with
  | some row =>
      obtain ⟨row'', hrow'', hstatus⟩ := status_kept htakes hs hrow
      rw [hrow'] at hrow''
      obtain rfl := Option.some.inj hrow''
      exact ⟨row, rfl, hstatus.symm.trans honline⟩
  | none =>
      exfalso
      by_cases heq : system = s
      · subst heq
        -- A row registered for a backfill is unknown.
        have hback := (htakes.backfill (hs.resolve_right (absurd rfl))).1
        rw [hrow, hrow'] at hback
        obtain rfl := Option.some.inj hback
        cases honline
      · have hrel := htakes.others s heq
        rw [hrow, hrow'] at hrel
        cases hrel

theorem live_kept (htakes : app.Takes system report now recency app')
    (hs : recency = .backfill ∨ system ≠ s) : app'.liveMetrics.get? s = app.liveMetrics.get? s := by
  cases recency with
  | newest => rw [(htakes.newest rfl).2, Table.get?_insert, if_neg (hs.resolve_left nofun)]
  | backfill => rw [(htakes.backfill rfl).2]

end Take

theorem inv_takeBackfill {h : SweptHub} (hinv : h.Inv) {system : SystemId} {report : MailReport}
    {now : SnapshotTime} {app' : AppState} (htakes : h.app.Takes system report now .backfill app') :
    Inv { h with app := app' } where
  online s hs := by
    obtain ⟨row, hrow, honline⟩ := hinv.online s hs
    obtain ⟨row', hrow', hstatus⟩ := status_kept htakes (.inl rfl) hrow
    exact ⟨row', hrow', hstatus.trans honline⟩
  newer s hs row hrow hid hoverdue := by
    obtain ⟨m, hm, hlt⟩ := hinv.newer s hs row hrow hid hoverdue
    obtain ⟨m', hm', hle⟩ := maxCreatedAt_le htakes hm
    exact ⟨m', hm', fun n hn => (hlt n hn).trans_le hle⟩
  read row hrow n hn := by
    obtain ⟨m, hm, hle⟩ := hinv.read row hrow n hn
    obtain ⟨m', hm', hle'⟩ := maxCreatedAt_le htakes hm
    exact ⟨m', hm', hle.trans hle'⟩
  live s r row' hshown hrow' honline := by
    obtain ⟨row, hrow, honline⟩ := online_before htakes (.inl rfl) hrow' honline
    exact (live_kept htakes (.inl rfl)).trans (hinv.live s r row hshown hrow honline)
  marked s hs := by
    obtain ⟨row, hrow, hoffline⟩ := hinv.marked s hs
    obtain ⟨row', hrow', hstatus⟩ := status_kept htakes (.inl rfl) hrow
    exact ⟨row', hrow', hstatus.trans hoffline⟩

theorem inv_takeNewest {h : SweptHub} (hinv : h.Inv) {system : SystemId} {report : MailReport}
    {now : SnapshotTime} {app' : AppState} (htakes : h.app.Takes system report now .newest app')
    (hevicting : h.pass.evicting ≠ some system)
    (hread : ∀ row ∈ h.pass.rows, row.id = system → isOverdue row h.pass.now = true →
      row.newest.map Prod.fst ≠ some report.createdAt) :
    Inv ⟨app', h.pass, Function.update h.shown system (some report),
      Function.update h.sinceRead system true⟩ := by
  obtain ⟨⟨row₀, hrow₀, -, honline₀, -⟩, hlive₀⟩ := htakes.newest rfl
  refine ⟨fun s hs => ?_, fun s hs row hrow hid hoverdue => ?_, fun row hrow n hn => ?_,
    fun s r row' hshown hrow' honline => ?_, fun s hs => ?_⟩
  · by_cases heq : system = s
    · subst heq
      exact ⟨row₀, hrow₀, honline₀⟩
    · dsimp only at hs
      rw [Function.update_of_ne (Ne.symm heq)] at hs
      obtain ⟨row, hrow, honline⟩ := hinv.online s hs
      obtain ⟨row', hrow', hstatus⟩ := status_kept htakes (.inr heq) hrow
      exact ⟨row', hrow', hstatus.trans honline⟩
  · by_cases heq : system = s
    · subst heq
      -- The report is at least as new as every receipt, and not what the pass read.
      have hself := htakes.maxCreatedAt system
      rw [if_pos rfl] at hself
      refine ⟨_, hself, fun n hn => ?_⟩
      obtain ⟨m, hm, hle⟩ := hinv.read row hrow n hn
      rw [hid] at hm
      rw [hm]
      have hnewest := recency_eq_newest htakes.recency_eq.symm m
        (by rw [Database.newestCurrentReceipt_seconds, hm]; rfl)
      have hne : n.1.seconds ≠ report.createdAt.seconds := by
        intro hsame
        refine hread row hrow hid hoverdue ?_
        rw [hn, Option.map_some]
        congr 1
        cases hn1 : n.1
        cases hr1 : report.createdAt
        simp only [hn1, hr1] at hsame
        simp only [hsame]
      simp only [Option.map_some, Option.getD_some]
      omega
    · dsimp only at hs
      rw [Function.update_of_ne (Ne.symm heq)] at hs
      obtain ⟨m, hm, hlt⟩ := hinv.newer s hs row hrow hid hoverdue
      obtain ⟨m', hm', hle⟩ := maxCreatedAt_le htakes hm
      exact ⟨m', hm', fun n hn => (hlt n hn).trans_le hle⟩
  · obtain ⟨m, hm, hle⟩ := hinv.read row hrow n hn
    obtain ⟨m', hm', hle'⟩ := maxCreatedAt_le htakes hm
    exact ⟨m', hm', hle.trans hle'⟩
  · dsimp only at hshown hrow' ⊢
    by_cases heq : system = s
    · subst heq
      rw [Function.update_self] at hshown
      obtain rfl := Option.some.inj hshown
      rw [hlive₀, Table.get?_insert, if_pos rfl]
    · rw [Function.update_of_ne (Ne.symm heq)] at hshown
      obtain ⟨row, hrow, honline⟩ := online_before htakes (.inr heq) hrow' honline
      exact (live_kept htakes (.inr heq)).trans (hinv.live s r row hshown hrow honline)
  · have heq : system ≠ s := by
      rintro rfl
      exact hevicting hs
    obtain ⟨row, hrow, hoffline⟩ := hinv.marked s hs
    obtain ⟨row', hrow', hstatus⟩ := status_kept htakes (.inr heq) hrow
    exact ⟨row', hrow', hstatus.trans hoffline⟩

theorem inv_step {h : SweptHub} (hinv : h.Inv) {op : SweepOp} (hclear : h.Clear op) :
    (h.step op).Inv := by
  cases op with
  | read now => exact inv_read hinv now
  | sweep fails => exact inv_sweep hinv fails
  | deliver opened now instant faults =>
      rcases h.step_deliver opened now instant faults with
        ⟨system, report, at', app', rfl, hat, htakes, hstep⟩
          | ⟨system, report, at', app', htakes, hstep⟩ | hstep
      · obtain ⟨hevicting, hread⟩ := hclear ⟨⟨at', hat, htakes.fresh⟩, htakes.url, htakes.unknown,
          htakes.recency_eq.symm⟩
        rw [hstep]
        exact inv_takeNewest hinv htakes hevicting hread
      · rw [hstep]
        exact inv_takeBackfill hinv htakes
      · rw [hstep]
        exact hinv

/-- In a run whose deliveries are all clear of the sweep, a report stored as its system's newest
since the pass read the rows leaves the system online, and an online system shows the newest sample
of the report that made it so. -/
theorem sweep_keeps_reports (app : AppState) {ops : List SweepOp}
    (hclear : ∀ before op after, ops = before ++ op :: after → (run app before).Clear op) :
    (∀ s, (run app ops).sinceRead s = true →
      ∃ row, (run app ops).app.db.systems.get? s = some row ∧ row.status = .online) ∧
    ∀ s report row, (run app ops).shown s = some report →
      (run app ops).app.db.systems.get? s = some row → row.status = .online →
      (run app ops).app.liveMetrics.get? s =
        some ⟨report.newestSample.snapshot, report.newestSample.time⟩ := by
  suffices hinv : (run app ops).Inv from ⟨hinv.online, hinv.live⟩
  induction ops using List.reverseRecOn with
  | nil => exact inv_new app
  | append_singleton ops op ih =>
      have hrun : run app (ops ++ [op]) = (run app ops).step op := by
        rw [run, List.foldl_append]
        rfl
      rw [hrun]
      refine inv_step (ih fun before op' after heq => hclear before op' (after ++ [op]) ?_)
        (hclear ops op [] rfl)
      rw [heq, List.append_assoc, List.cons_append]

/-- A report of one bare sample, delivered at `now`. -/
def mailed (seq created : ℕ) (h : created < 2 ^ 63) (now : ℕ) : SweepOp :=
  .deliver (.ok ("host", MailHistory.bareReport seq created h)) now 0 {}

/-- A pass that reads an overdue system, with a newer report before it marks the row. -/
def overtakenOps : List SweepOp :=
  [mailed 1 100 SnapshotTime.inRange_hundred 100, .read ⟨1181, by decide⟩,
    mailed 2 1150 (by decide) 1182, .sweep false]

theorem sweep_keeps_reports_overtaken :
    (∀ before op after, overtakenOps = before ++ op :: after → (run .new before).Clear op) ∧
      (run .new overtakenOps).sinceRead "host" = true ∧
      ∃ row, (run .new overtakenOps).app.db.systems.get? "host" = some row ∧
        row.status = .online := by
  have hclear : ∀ before op after, overtakenOps = before ++ op :: after →
      (run .new before).Clear op := by
    intro before op after heq
    rcases before with _ | ⟨a, _ | ⟨b, _ | ⟨c, _ | ⟨d, before⟩⟩⟩⟩ <;>
      simp only [overtakenOps, List.cons_append, List.nil_append, List.cons.injEq] at heq
    · obtain ⟨rfl, -⟩ := heq
      exact fun _ => by decide +kernel
    · obtain ⟨rfl, rfl, -⟩ := heq
      trivial
    · obtain ⟨rfl, rfl, rfl, -⟩ := heq
      exact fun _ => by decide +kernel
    · obtain ⟨rfl, rfl, rfl, rfl, -⟩ := heq
      trivial
    · simp at heq
  have hsince : (run .new overtakenOps).sinceRead "host" = true := by decide +kernel
  exact ⟨hclear, hsince, (sweep_keeps_reports .new hclear).1 "host" hsince⟩

/-- A newer report stored between the marking of its system and the eviction. -/
def evictedOps : List SweepOp :=
  [mailed 1 100 SnapshotTime.inRange_hundred 100, .read ⟨1181, by decide⟩, .sweep false,
    mailed 2 1150 (by decide) 1182, .sweep false]

/-- A report created in the second the pass read, stored before the marking. -/
def markedOps : List SweepOp :=
  [mailed 1 100 SnapshotTime.inRange_hundred 100, .read ⟨1181, by decide⟩,
    mailed 2 100 SnapshotTime.inRange_hundred 1182, .sweep false]

/-- The first leaves an online system without live metrics once the pass is done; the second marks
a system offline whose report was stored since the read. -/
theorem sweep_undoes_report :
    ((run .new evictedOps).pass.evicting = none ∧ (run .new evictedOps).pass.rows = [] ∧
      ((run .new evictedOps).app.db.systems.get? "host").map SystemInfo.status = some .online ∧
      (run .new evictedOps).shown "host" = some (MailHistory.bareReport 2 1150 (by decide)) ∧
      (run .new evictedOps).app.liveMetrics.get? "host" = none) ∧
    (run .new markedOps).sinceRead "host" = true ∧
      ((run .new markedOps).app.db.systems.get? "host").map SystemInfo.status = some .offline := by
  decide +kernel

end SweptHub

end MonitoringAgent.Hub

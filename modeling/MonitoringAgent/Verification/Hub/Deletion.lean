import MonitoringAgent.Model.Hub.Poll
import MonitoringAgent.Verification.Hub.Database

/-! # A deletion and the stores it races

One deletion of a system, interleaved with polls under way and with open push connections. -/

namespace MonitoringAgent.Hub

open MonitoringAgent.Library

/-- One hold of the locks by a task on the system being deleted. -/
inductive TaskStep where
  /-- The deletion's three, in this order. -/
  | deleteRows
  | evictLiveMetrics
  | removeLiveApplications
  /-- A poll's, or a push frame's, snapshot, and the registry fill after it. -/
  | storeSnapshot (snapshot : Snapshot) (time : SnapshotTime) (lastSeen : Option LastSeen)
  | recordSystemInfo (info : Database.InfoColumns)
  | refreshMemoryCapacity (row : SystemInfo) (reported : Option MemoryCapacity)
  | fillRegistry (info : AppState.ReportedInfo) (faults : AppState.FillFaults)
  /-- A poll's. -/
  | insertAlert (name : String) (alert : PolledAlert) (storedAt : ℕ) (uuid : String)
  | storePolledRound (round : ScrapeRound) (arrival : AppState.Arrival)
  | logRefusedRound (now : Instant)
  | forgetShownRound
  | markOffline (now error : String)
  /-- A push connection's. -/
  | claim (number : ℕ)
  | storeRound (round : ScrapeRound) (pace : TokenBucket) (arrival : AppState.Arrival)
  | «end» (number : ℕ)

/-- How far the deletion got. -/
inductive DeletionStage where
  | before
  | rowsDeleted
  | liveMetricsEvicted
  | finished
  deriving DecidableEq, Repr

/-- A hub with one deletion, and the numbers of the system's open push connections. -/
structure Deleting where
  app : AppState
  stage : DeletionStage
  connections : List ℕ

namespace Deleting

/-- One step on `s`. A step out of its turn, or of a connection that isn't open, does nothing. -/
def step (s : SystemId) (d : Deleting) : TaskStep → Deleting
  | .deleteRows =>
      if d.stage = .before then
        { d with app := { d.app with db := d.app.db.deleteSystem s }, stage := .rowsDeleted }
      else d
  | .evictLiveMetrics =>
      if d.stage = .rowsDeleted then
        { d with app := d.app.evictLiveMetrics s, stage := .liveMetricsEvicted }
      else d
  | .removeLiveApplications =>
      if d.stage = .liveMetricsEvicted then
        { d with app := d.app.removeLiveApplications s, stage := .finished }
      else d
  | .storeSnapshot snapshot time lastSeen =>
      { d with app := (d.app.storeSnapshot s snapshot time lastSeen).2 }
  | .recordSystemInfo info => { d with app := d.app.recordSystemInfo s info }
  | .refreshMemoryCapacity row reported =>
      { d with app := d.app.refreshMemoryCapacity s row reported }
  | .fillRegistry info faults =>
      { d with app := { d.app with db := AppState.fillRegistry d.app.db s info faults } }
  | .insertAlert name alert storedAt uuid =>
      { d with app := d.app.storeAgentAlert (alertRecord s name alert storedAt uuid) }
  | .storePolledRound round arrival => { d with app := (d.app.storePolledRound s round arrival).2 }
  | .logRefusedRound now => { d with app := d.app.logRefusedRound s now }
  | .forgetShownRound => { d with app := d.app.forgetShownRound s }
  | .markOffline now error => { d with app := d.app.markOffline s now error }
  | .claim number =>
      if number ∈ d.connections then
        { d with app := { d.app with presence := d.app.presence.claim s number } }
      else d
  | .storeRound round pace arrival => { d with app := (d.app.storeRound s round pace arrival).2 }
  | .end number =>
      if number ∈ d.connections then
        { d with app := d.app.endConnection s number, connections := d.connections.erase number }
      else d

def run (s : SystemId) (d : Deleting) (steps : List TaskStep) : Deleting := steps.foldl (step s) d

/-- Before the deletion: the open connections have their own numbers, and one of them is current,
if any is. -/
def Starts (s : SystemId) (d : Deleting) : Prop :=
  d.stage = .before ∧ d.connections.Nodup ∧
    ∀ current, d.app.presence.current.get? s = some current → current.number ∈ d.connections

/-- Every task is done: the deletion's three steps, and every connection's end. -/
def Complete (d : Deleting) : Prop := d.stage = .finished ∧ d.connections = []

end Deleting

namespace AppState

/-- Nothing of `s` in a table of points, alert records or retentions, nor in memory. -/
structure NothingOf (app : AppState) (s : SystemId) : Prop where
  metrics : ∀ r ∈ app.db.metrics, r.systemId ≠ s
  alerts : ∀ id alert, app.db.alerts.get? id = some alert → alert.systemId ≠ s
  metricRetention : ∀ r ∈ app.db.metricRetention, r.systemId ≠ s
  liveMetrics : app.liveMetrics.get? s = none
  liveApplications : app.liveApplications.get? s = none
  presence : app.presence.current.get? s = none

end AppState

/-! ### Stores of a system that is gone -/

namespace Database

/-- No row of `s`, and no point, alert record or retention of it. -/
structure Gone (db : Database) (s : SystemId) : Prop where
  system : db.systems.get? s = none
  metrics : ∀ r ∈ db.metrics, r.systemId ≠ s
  alerts : ∀ id alert, db.alerts.get? id = some alert → alert.systemId ≠ s
  metricRetention : ∀ r ∈ db.metricRetention, r.systemId ≠ s

theorem gone_deleteSystem (db : Database) (s : SystemId) : (db.deleteSystem s).Gone s where
  system := by
    rw [deleteSystem, Table.get?_erase, if_pos rfl]
  metrics r hr := by
    simpa using (List.mem_filter.mp hr).2
  alerts id alert halert := by
    rw [deleteSystem, Table.get?_filter] at halert
    obtain ⟨-, hne⟩ := Option.filter_eq_some_iff.mp halert
    simpa using hne
  metricRetention r hr := by
    simpa using (List.mem_filter.mp hr).2

variable {db : Database} {s : SystemId}

theorem systemExists_gone (h : db.systems.get? s = none) : db.systemExists s = false := by
  rw [systemExists, Table.contains, h]
  rfl

theorem updateSystem_gone (h : db.systems.get? s = none) (f : SystemInfo → SystemInfo) :
    db.updateSystem s f = db := by
  rw [updateSystem, h]

end Database

namespace AppState

variable {app : AppState} {s : SystemId}

theorem storeSnapshot_gone (h : app.db.systems.get? s = none) (snapshot : Snapshot)
    (time : SnapshotTime) (lastSeen : Option LastSeen) :
    (app.storeSnapshot s snapshot time lastSeen).2 = app := by
  simp [storeSnapshot, Database.storeSnapshot, Database.systemExists_gone h]

theorem store_gone (h : app.db.systems.get? s = none) (round : ScrapeRound) (arrival : Arrival)
    (paceOf : Option SystemApplications → TokenBucket)
    (keep : SystemApplications → TokenBucket → SystemApplications) :
    (app.store s round arrival paceOf keep).2 = app := by
  simp [store, Database.storeRound, Database.systemExists_gone h]

theorem storeAgentAlert_gone (h : app.db.systems.get? s = none) {alert : AlertRecord}
    (halert : alert.systemId = s) : app.storeAgentAlert alert = app := by
  rw [storeAgentAlert, Database.insertAlert, halert, Database.systemExists_gone h]
  split
  · next db hok =>
      split_ifs at hok with _ _ hexists
      · obtain rfl := Except.ok.inj hok
        rfl
      · obtain rfl := Except.ok.inj hok
        rfl
      · exact hexists.elim
  · rfl

theorem endConnection_eq (app : AppState) (s : SystemId) (number : ℕ) :
    app.endConnection s number =
      if (app.presence.current.get? s).any (·.number = number) then
        { app with
          presence := { app.presence with current := app.presence.current.erase s }
          db := app.db.updateSystemStatus s .offline .blank (some "push disconnected")
          liveMetrics := app.liveMetrics.erase s }
      else app := by
  rw [endConnection, PushPresence.end]
  split_ifs <;> rfl

end AppState

namespace Deleting

/-- The steps that write whether their system has a row or not. -/
def Unguarded : TaskStep → Prop
  | .deleteRows | .evictLiveMetrics | .removeLiveApplications => True
  | .logRefusedRound _ | .forgetShownRound => True
  | .claim _ | .end _ => True
  | _ => False

/-- Every other store finds the system gone. -/
theorem step_gone {s : SystemId} {d : Deleting} (h : d.app.db.systems.get? s = none) {t : TaskStep}
    (ht : ¬Unguarded t) : d.step s t = d := by
  cases t with
  | deleteRows => exact absurd trivial ht
  | evictLiveMetrics => exact absurd trivial ht
  | removeLiveApplications => exact absurd trivial ht
  | logRefusedRound now => exact absurd trivial ht
  | forgetShownRound => exact absurd trivial ht
  | claim number => exact absurd trivial ht
  | «end» number => exact absurd trivial ht
  | storeSnapshot snapshot time lastSeen =>
      rw [step, AppState.storeSnapshot_gone h]
  | recordSystemInfo info =>
      rw [step, AppState.recordSystemInfo, Database.updateSystemInfo, Database.updateSystem_gone h]
  | refreshMemoryCapacity row reported =>
      rw [step, AppState.refreshMemoryCapacity]
      split
      · rw [Database.updateMemoryCapacity, Database.updateSystem_gone h]
      · rfl
  | fillRegistry info faults =>
      rw [step, AppState.fillRegistry, h]
  | insertAlert name alert storedAt uuid =>
      rw [step, AppState.storeAgentAlert_gone h rfl]
  | storePolledRound round arrival =>
      rw [step, AppState.storePolledRound, AppState.store_gone h]
  | markOffline now error =>
      rw [step, AppState.markOffline, Database.updateSystemStatus, Database.updateSystem_gone h]
  | storeRound round pace arrival =>
      rw [step, AppState.storeRound, AppState.store_gone h]

/-- A step of no connection leaves the presence alone. -/
theorem step_presence (s : SystemId) (d : Deleting) {t : TaskStep} (hclaim : ∀ n, t ≠ .claim n)
    (hend : ∀ n, t ≠ .end n) :
    (d.step s t).app.presence = d.app.presence ∧ (d.step s t).connections = d.connections := by
  cases t with
  | claim number => exact absurd rfl (hclaim number)
  | «end» number => exact absurd rfl (hend number)
  | deleteRows =>
      rw [step]
      split_ifs <;> exact ⟨rfl, rfl⟩
  | evictLiveMetrics =>
      rw [step]
      split_ifs <;> exact ⟨rfl, rfl⟩
  | removeLiveApplications =>
      rw [step]
      split_ifs <;> exact ⟨rfl, rfl⟩
  | storeSnapshot snapshot time lastSeen =>
      rw [step, AppState.storeSnapshot]
      split <;> exact ⟨rfl, rfl⟩
  | refreshMemoryCapacity row reported =>
      rw [step, AppState.refreshMemoryCapacity]
      split <;> exact ⟨rfl, rfl⟩
  | insertAlert name alert storedAt uuid =>
      rw [step, AppState.storeAgentAlert]
      split <;> exact ⟨rfl, rfl⟩
  | storePolledRound round arrival =>
      rw [step, AppState.storePolledRound]
      obtain ⟨_, _, _, hstore⟩ := d.app.store_eq s round arrival
        (fun entry => (entry.bind SystemApplications.pollPace).getD (.full Hub.pace arrival.now))
        fun entry spent => { entry with pollPace := some spent }
      rw [hstore]
      exact ⟨rfl, rfl⟩
  | storeRound round pace arrival =>
      rw [step, AppState.storeRound]
      obtain ⟨_, _, _, hstore⟩ := d.app.store_eq s round arrival (fun _ => pace)
        fun entry _ => entry
      rw [hstore]
      exact ⟨rfl, rfl⟩
  | forgetShownRound =>
      rw [step, AppState.forgetShownRound]
      split <;> exact ⟨rfl, rfl⟩
  | recordSystemInfo info => exact ⟨rfl, rfl⟩
  | fillRegistry info faults => exact ⟨rfl, rfl⟩
  | logRefusedRound now => exact ⟨rfl, rfl⟩
  | markOffline now error => exact ⟨rfl, rfl⟩

/-! ### The invariant -/

structure Inv (s : SystemId) (d : Deleting) : Prop where
  nodup : d.connections.Nodup
  /-- The current connection is open. -/
  current : ∀ current, d.app.presence.current.get? s = some current → current.number ∈ d.connections
  rows : d.stage ≠ .before → d.app.db.Gone s
  live : d.stage = .liveMetricsEvicted ∨ d.stage = .finished → d.app.liveMetrics.get? s = none

theorem current_step {s : SystemId} {d : Deleting} (hinv : d.Inv s) (t : TaskStep) :
    (d.step s t).connections.Nodup ∧
      ∀ current, (d.step s t).app.presence.current.get? s = some current →
        current.number ∈ (d.step s t).connections := by
  by_cases hclaim : ∃ n, t = .claim n
  · obtain ⟨n, rfl⟩ := hclaim
    rw [step]
    split_ifs with hopen
    · refine ⟨hinv.nodup, fun current hcurrent => ?_⟩
      rw [PushPresence.claim, Table.get?_insert, if_pos rfl] at hcurrent
      obtain rfl := Option.some.inj hcurrent
      exact hopen
    · exact ⟨hinv.nodup, hinv.current⟩
  by_cases hend : ∃ n, t = .end n
  · obtain ⟨n, rfl⟩ := hend
    rw [step]
    split_ifs with hopen
    · refine ⟨hinv.nodup.erase n, fun current hcurrent => ?_⟩
      dsimp only at hcurrent ⊢
      rw [AppState.endConnection_eq] at hcurrent
      split_ifs at hcurrent with hnumber
      · rw [Table.get?_erase, if_pos rfl] at hcurrent
        cases hcurrent
      · rw [hcurrent] at hnumber
        have hne : current.number ≠ n := by simpa using hnumber
        exact (List.mem_erase_of_ne hne).mpr (hinv.current current hcurrent)
    · exact ⟨hinv.nodup, hinv.current⟩
  obtain ⟨hpresence, hconnections⟩ := step_presence s d (fun n h => hclaim ⟨n, h⟩)
    fun n h => hend ⟨n, h⟩
  rw [hpresence, hconnections]
  exact ⟨hinv.nodup, hinv.current⟩

/-- Once the rows are gone, what a step changes of the tables and the live metrics: nothing, but
for the eviction. -/
theorem step_rows {s : SystemId} {d : Deleting} (hgone : d.app.db.Gone s)
    (hstage : d.stage ≠ .before) (t : TaskStep) :
    (d.step s t).app.db = d.app.db ∧
      ((d.step s t).app.liveMetrics.get? s = d.app.liveMetrics.get? s ∨
        (d.step s t).app.liveMetrics.get? s = none) := by
  by_cases ht : Unguarded t
  · cases t with
    | deleteRows =>
        rw [step, if_neg hstage]
        exact ⟨rfl, .inl rfl⟩
    | evictLiveMetrics =>
        rw [step]
        split_ifs
        · refine ⟨rfl, .inr ?_⟩
          dsimp only
          rw [AppState.evictLiveMetrics, Table.get?_erase, if_pos rfl]
        · exact ⟨rfl, .inl rfl⟩
    | removeLiveApplications =>
        rw [step]
        split_ifs <;> exact ⟨rfl, .inl rfl⟩
    | logRefusedRound now => exact ⟨rfl, .inl rfl⟩
    | forgetShownRound =>
        rw [step, AppState.forgetShownRound]
        split <;> exact ⟨rfl, .inl rfl⟩
    | claim number =>
        rw [step]
        split_ifs <;> exact ⟨rfl, .inl rfl⟩
    | «end» number =>
        rw [step]
        split_ifs
        · dsimp only
          rw [AppState.endConnection_eq]
          split_ifs
          · refine ⟨Database.updateSystem_gone hgone.system _, .inr ?_⟩
            rw [Table.get?_erase, if_pos rfl]
          · exact ⟨rfl, .inl rfl⟩
        · exact ⟨rfl, .inl rfl⟩
    | _ => exact ht.elim
  · rw [step_gone hgone.system ht]
    exact ⟨rfl, .inl rfl⟩

/-- The deletion goes on in its order. -/
theorem step_stage (s : SystemId) (d : Deleting) (t : TaskStep) :
    (d.step s t).stage = d.stage ∨
      (t = .deleteRows ∧ d.stage = .before ∧
        d.step s t = { d with app := { d.app with db := d.app.db.deleteSystem s }, stage :=
          .rowsDeleted }) ∨
      (t = .evictLiveMetrics ∧ d.stage = .rowsDeleted ∧
        d.step s t = { d with app := d.app.evictLiveMetrics s, stage := .liveMetricsEvicted }) ∨
      (t = .removeLiveApplications ∧ d.stage = .liveMetricsEvicted ∧
        d.step s t = { d with app := d.app.removeLiveApplications s, stage := .finished }) := by
  cases t with
  | deleteRows =>
      rw [step]
      split_ifs with hstage
      · exact .inr (.inl ⟨rfl, hstage, rfl⟩)
      · exact .inl rfl
  | evictLiveMetrics =>
      rw [step]
      split_ifs with hstage
      · exact .inr (.inr (.inl ⟨rfl, hstage, rfl⟩))
      · exact .inl rfl
  | removeLiveApplications =>
      rw [step]
      split_ifs with hstage
      · exact .inr (.inr (.inr ⟨rfl, hstage, rfl⟩))
      · exact .inl rfl
  | claim number =>
      rw [step]
      split_ifs <;> exact .inl rfl
  | «end» number =>
      rw [step]
      split_ifs <;> exact .inl rfl
  | _ => exact .inl rfl

theorem inv_step {s : SystemId} {d : Deleting} (hinv : d.Inv s) (t : TaskStep) :
    (d.step s t).Inv s := by
  obtain ⟨hnodup, hcurrent⟩ := current_step hinv t
  refine ⟨hnodup, hcurrent, fun hstage' => ?_, fun hstage' => ?_⟩
  · rcases d.step_stage s t with hstage | ⟨-, -, hstep⟩ | ⟨-, hstage, hstep⟩ | ⟨-, hstage, hstep⟩
    · rw [hstage] at hstage'
      rw [(step_rows (hinv.rows hstage') hstage' t).1]
      exact hinv.rows hstage'
    · rw [hstep]
      exact d.app.db.gone_deleteSystem s
    · rw [hstep]
      exact hinv.rows (by rw [hstage]; decide)
    · rw [hstep]
      exact hinv.rows (by rw [hstage]; decide)
  · rcases d.step_stage s t with hstage | ⟨-, -, hstep⟩ | ⟨-, -, hstep⟩ | ⟨-, hstage, hstep⟩
    · rw [hstage] at hstage'
      have hnot : d.stage ≠ .before := by
        rcases hstage' with h | h <;> rw [h] <;> decide
      rcases (step_rows (hinv.rows hnot) hnot t).2 with hlive | hlive
      · rw [hlive, hinv.live hstage']
      · exact hlive
    · rw [hstep] at hstage'
      rcases hstage' with h | h <;> cases h
    · rw [hstep]
      dsimp only
      rw [AppState.evictLiveMetrics, Table.get?_erase, if_pos rfl]
    · rw [hstep]
      exact hinv.live (.inl hstage)

theorem inv_run {s : SystemId} {d : Deleting} (hstart : d.Starts s) (steps : List TaskStep) :
    (d.run s steps).Inv s := by
  have hinit : d.Inv s := by
    obtain ⟨hstage, hnodup, hcurrent⟩ := hstart
    refine ⟨hnodup, hcurrent, fun h => absurd hstage h, fun h => ?_⟩
    rw [hstage] at h
    rcases h with h | h <;> cases h
  rw [run]
  clear hstart
  induction steps generalizing d with
  | nil => exact hinit
  | cons t steps ih => exact ih (inv_step hinit t)

/-! ### The live applications -/

/-- Whether a refused round of `s` is logged after its live applications were removed. -/
def LogsAfter (s : SystemId) (d : Deleting) (steps : List TaskStep) : Prop :=
  ∃ before now after, steps = before ++ .logRefusedRound now :: after ∧
    (d.run s before).stage = .finished

theorem run_append (s : SystemId) (d : Deleting) (steps : List TaskStep) (t : TaskStep) :
    d.run s (steps ++ [t]) = (d.run s steps).step s t := by
  rw [run, List.foldl_append]
  rfl

theorem finished_append {s : SystemId} {d : Deleting} {before : List TaskStep}
    (h : (d.run s before).stage = .finished) (after : List TaskStep) :
    (d.run s (before ++ after)).stage = .finished := by
  induction after using List.reverseRecOn with
  | nil => rwa [List.append_nil]
  | append_singleton after t ih =>
      rw [← List.append_assoc, run_append]
      rcases (d.run s (before ++ after)).step_stage s t with hstage | ⟨-, hstage, -⟩
        | ⟨-, hstage, -⟩ | ⟨-, hstage, -⟩
      · rw [hstage, ih]
      all_goals
        rw [ih] at hstage
        cases hstage

theorem logsAfter_append {s : SystemId} {d : Deleting} {steps : List TaskStep} {t : TaskStep} :
    d.LogsAfter s (steps ++ [t]) ↔
      d.LogsAfter s steps ∨ (d.run s steps).stage = .finished ∧
      ∃ now, t = .logRefusedRound now := by
  constructor
  · rintro ⟨before, now, after, heq, hstage⟩
    rcases List.eq_nil_or_concat after with rfl | ⟨after', x, rfl⟩
    · obtain ⟨rfl, hlast⟩ := List.append_inj' heq rfl
      exact .inr ⟨hstage, now, (List.cons.inj hlast).1⟩
    · rw [List.concat_eq_append, ← List.cons_append, ← List.append_assoc] at heq
      obtain ⟨rfl, -⟩ := List.append_inj' heq rfl
      exact .inl ⟨before, now, after', rfl, hstage⟩
  · rintro (⟨before, now, after, rfl, hstage⟩ | ⟨hstage, now, rfl⟩)
    · exact ⟨before, now, after ++ [t], by simp, hstage⟩
    · exact ⟨steps, now, [], rfl, hstage⟩

/-- After the removal only a logged refusal makes an entry. -/
theorem liveApplications_step {s : SystemId} {d : Deleting} (hgone : d.app.db.Gone s)
    (hstage : d.stage = .finished) (t : TaskStep) :
    (d.step s t).app.liveApplications.get? s = none ↔
      d.app.liveApplications.get? s = none ∧ ¬∃ now, t = .logRefusedRound now := by
  by_cases ht : Unguarded t
  · cases t with
    | deleteRows => simp [step, hstage]
    | evictLiveMetrics => simp [step, hstage]
    | removeLiveApplications => simp [step, hstage]
    | logRefusedRound now => simp [step, AppState.logRefusedRound]
    | forgetShownRound =>
        rw [step, AppState.forgetShownRound]
        cases hentry : d.app.liveApplications.get? s with
        | none => simp [hentry]
        | some entry => simp
    | claim number =>
        rw [step]
        split_ifs <;> simp
    | «end» number =>
        rw [step]
        split_ifs
        · dsimp only
          rw [AppState.endConnection_eq]
          split_ifs <;> simp
        · simp
    | _ => exact ht.elim
  · rw [step_gone hgone.system ht]
    refine ⟨fun hnone => ⟨hnone, ?_⟩, And.left⟩
    rintro ⟨now, rfl⟩
    exact ht trivial

theorem liveApplications_run {s : SystemId} {d : Deleting} (hstart : d.Starts s)
    {steps : List TaskStep} (hdone : (d.run s steps).stage = .finished) :
    (d.run s steps).app.liveApplications.get? s = none ↔ ¬d.LogsAfter s steps := by
  induction steps using List.reverseRecOn with
  | nil =>
      rw [run, List.foldl_nil, hstart.1] at hdone
      cases hdone
  | append_singleton steps t ih =>
      have hinv := inv_run hstart steps
      rw [run_append] at hdone ⊢
      rw [logsAfter_append]
      rcases (d.run s steps).step_stage s t with hstage | ⟨-, -, hstep⟩ | ⟨-, -, hstep⟩
        | ⟨rfl, hstage, hstep⟩
      · rw [hstage] at hdone
        rw [liveApplications_step (hinv.rows (by rw [hdone]; decide)) hdone, ih hdone, not_or]
        simp only [hdone, true_and]
      · rw [hstep] at hdone
        cases hdone
      · rw [hstep] at hdone
        cases hdone
      · -- The removal: no step before it came after it.
        rw [hstep]
        refine ⟨fun _ => ?_, fun _ => ?_⟩
        · rintro (⟨before, now, after, rfl, hbefore⟩ | ⟨-, now, hnow⟩)
          · rw [finished_append hbefore] at hstage
            cases hstage
          · cases hnow
        · dsimp only
          rw [AppState.removeLiveApplications, Table.get?_erase, if_pos rfl]

/-- Once every task is done, nothing of a deleted system remains exactly when no refused round of
it was logged after the deletion removed its live applications. -/
theorem nothing_left_iff {s : SystemId} {d : Deleting} (hstart : d.Starts s) {steps : List TaskStep}
    (hdone : (d.run s steps).Complete) :
    (d.run s steps).app.NothingOf s ↔ ¬d.LogsAfter s steps := by
  obtain ⟨hstage, hconnections⟩ := hdone
  have hinv := inv_run hstart steps
  have hgone := hinv.rows (by rw [hstage]; decide)
  rw [← liveApplications_run hstart hstage]
  refine ⟨fun h => h.liveApplications, fun h => ?_⟩
  refine ⟨hgone.metrics, hgone.alerts, hgone.metricRetention, hinv.live (.inr hstage), h, ?_⟩
  rw [Option.eq_none_iff_forall_ne_some]
  intro current hcurrent
  have hopen := hinv.current current hcurrent
  rw [hconnections] at hopen
  exact List.not_mem_nil hopen

/-- A hub with one polled system, registered and up. -/
def polledHub : Deleting where
  app := { AppState.new with
    db := { Database.new with systems := .insert .empty "host" (.registered "host"
      "http://host:8090") } }
  stage := .before
  connections := [0]

/-- A poll's snapshot, its alert and a push claim, each racing the deletion. -/
def racedSteps : List TaskStep :=
  [.storeSnapshot ⟨[("cpu", 0#32)], Snapshot.notNaN_cpu⟩ ⟨100, SnapshotTime.inRange_hundred⟩
    (some (.polledAt "t")), .claim 0, .deleteRows,
    .storeSnapshot ⟨[("cpu", 0#32)], Snapshot.notNaN_cpu⟩ ⟨101, by decide⟩ (some (.polledAt "t")),
    .insertAlert "host" ⟨none, none, none, none, none⟩ 101 "uuid", .evictLiveMetrics,
    .removeLiveApplications, .storePolledRound ⟨⟨"run", 1⟩, 0, []⟩ ⟨0, 101⟩, .end 0]

theorem nothing_left_iff_raced :
    polledHub.Starts "host" ∧ (polledHub.run "host" racedSteps).Complete ∧
      ((polledHub.run "host" racedSteps).app.NothingOf "host" ↔
        ¬polledHub.LogsAfter "host" racedSteps) := by
  have hstart : polledHub.Starts "host" := by
    refine ⟨rfl, by decide, fun current hcurrent => ?_⟩
    simp [polledHub, AppState.new, PushPresence.new] at hcurrent
  have hdone : (polledHub.run "host" racedSteps).Complete := by
    constructor <;> decide +kernel
  exact ⟨hstart, hdone, nothing_left_iff hstart hdone⟩

/-- A poll whose snapshot is stored before the deletion and whose round is refused after it. -/
def refusedSteps : List TaskStep :=
  [.storeSnapshot ⟨[("cpu", 0#32)], Snapshot.notNaN_cpu⟩ ⟨100, SnapshotTime.inRange_hundred⟩
    (some (.polledAt "t")), .deleteRows, .evictLiveMetrics, .removeLiveApplications,
    .logRefusedRound 7, .end 0]

/-- Every task is done and the system is gone, but its live applications have an entry again. -/
theorem refusal_left_behind :
    ((polledHub.run "host" refusedSteps).stage = .finished ∧
      (polledHub.run "host" refusedSteps).connections = []) ∧
    (polledHub.run "host" refusedSteps).app.db.systems.get? "host" = none ∧
    (polledHub.run "host" refusedSteps).app.liveApplications.get? "host" =
      some { pollRefusalWarnedAt := some 7 } ∧
    ¬(polledHub.run "host" refusedSteps).app.NothingOf "host" := by
  have hentry : (polledHub.run "host" refusedSteps).app.liveApplications.get? "host" =
      some { pollRefusalWarnedAt := some 7 } := by decide +kernel
  refine ⟨by decide +kernel, by decide +kernel, hentry, fun h => ?_⟩
  rw [h.liveApplications] at hentry
  cases hentry

end Deleting

end MonitoringAgent.Hub

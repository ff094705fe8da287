import MonitoringAgent.Library.Except
import MonitoringAgent.Model.Hub.Mail

/-! # What each statement of the hub leaves alone -/

namespace MonitoringAgent.Hub

open MonitoringAgent.Library

namespace Database

/-! ### Systems -/

theorem get?_updateSystem (db : Database) (id : SystemId)
    (f : SystemInfo → SystemInfo) (s : SystemId) :
    (db.updateSystem id f).systems.get? s =
      if id = s then (db.systems.get? s).map f else db.systems.get? s := by
  rw [updateSystem]
  cases hrow : db.systems.get? id with
  | none =>
      split_ifs with heq
      · rw [← heq, hrow]
        rfl
      · rfl
  | some system =>
      dsimp only
      rw [Table.get?_insert]
      split_ifs with heq
      · rw [← heq, hrow]
        rfl
      · rfl

/-- An update writes the `systems` table alone. -/
theorem updateSystem_eq (db : Database) (id : SystemId) (f : SystemInfo → SystemInfo) :
    db.updateSystem id f = { db with systems := (db.updateSystem id f).systems } := by
  rw [updateSystem]
  split <;> rfl

theorem updateName_eq (db : Database) (id : SystemId) (name : String) :
    db.updateName id name = db.updateSystem id fun system => { system with name } := by
  have hname : ({ name := some name } : ConfigUpdate) ≠ {} := by simp
  rw [updateName, updateSystemConfig, if_neg hname]
  rfl

/-! ### Points and alert records -/

theorem storePoint_eq {db db' : Database} {system : SystemId} {time : SnapshotTime}
    {now : Option SnapshotTime} {point : String × Value}
    (h : db.storePoint system time now point = some db') :
    ∃ metrics nextRowid, db' = { db with metrics, nextRowid } := by
  rw [storePoint] at h
  split_ifs at h
  obtain rfl := Option.some.inj h
  exact ⟨_, _, rfl⟩

/-- A snapshot's points go into `metrics` alone. -/
theorem storeUnexpiredPoints_eq (db : Database) (system : SystemId) (snapshot : Snapshot)
    (time : SnapshotTime) (now : Option SnapshotTime) :
    ∃ metrics nextRowid,
      (db.storeUnexpiredPoints system snapshot time now).2 = { db with metrics, nextRowid } := by
  rw [storeUnexpiredPoints]
  generalize hstart : (0, db) = start
  have hdb : ∃ metrics nextRowid, start.2 = { db with metrics, nextRowid } := by
    rw [← hstart]
    exact ⟨_, _, rfl⟩
  clear hstart
  induction snapshot.metricPoints generalizing start with
  | nil => exact hdb
  | cons point points ih =>
      obtain ⟨expired, db₁⟩ := start
      refine ih _ ?_
      dsimp only at hdb ⊢
      cases hstored : db₁.storePoint system time now point with
      | none => exact hdb
      | some db' =>
          obtain ⟨metrics, nextRowid, rfl⟩ := hdb
          obtain ⟨metrics', nextRowid', rfl⟩ := storePoint_eq hstored
          exact ⟨metrics', nextRowid', rfl⟩

theorem storeSamples_eq (db : Database) (system : SystemId)
    (snapshots : List (Snapshot × SnapshotTime)) (now : SnapshotTime) :
    (db.storeSamples system snapshots now).2.1 = snapshots.getLast? ∧
      ∃ metrics nextRowid, (db.storeSamples system snapshots now).2.2 =
        { db with metrics, nextRowid } := by
  induction snapshots using List.reverseRecOn with
  | nil => exact ⟨rfl, _, _, rfl⟩
  | append_singleton snapshots sample ih =>
      obtain ⟨-, metrics, nextRowid, hdb⟩ := ih
      have hstep : db.storeSamples system (snapshots ++ [sample]) now =
          ((db.storeSamples system snapshots now).1 +
              ((db.storeSamples system snapshots now).2.2.storeUnexpiredPoints
              system sample.1 sample.2 (some now)).1, some sample,
            ((db.storeSamples system snapshots now).2.2.storeUnexpiredPoints system sample.1
              sample.2 (some now)).2) := by
        rw [storeSamples, List.foldl_append]
        rfl
      rw [hstep]
      refine ⟨by rw [List.getLast?_concat], ?_⟩
      obtain ⟨metrics', nextRowid', hpoints⟩ := storeUnexpiredPoints_eq
        (db.storeSamples system snapshots now).2.2 system sample.1 sample.2 (some now)
      refine ⟨metrics', nextRowid', ?_⟩
      dsimp only
      rw [hpoints, hdb]

/-- The table after `INSERT OR IGNORE` of a record whose system has a row. -/
def keepAlert (alerts : Table String AlertRecord) (alert : AlertRecord) :
    Table String AlertRecord :=
  if isNaN alert.currentValue then alerts
  else if alerts.contains alert.id then alerts
  else alerts.insert alert.id alert

theorem insertAlert_eq {db db' : Database} {alert : AlertRecord}
    (h : db.insertAlert alert = .ok db') :
    db' = { db with alerts := keepAlert db.alerts alert } := by
  rw [insertAlert] at h
  rw [keepAlert]
  split_ifs at h ⊢
  · exact (Except.ok.inj h).symm
  · exact (Except.ok.inj h).symm
  · exact (Except.ok.inj h).symm

/-- Alert records go into `alerts` alone. -/
theorem foldlM_insertAlert_eq {db db' : Database} {alerts : List AlertRecord}
    (h : alerts.foldlM insertAlert db = .ok db') :
    db' = { db with alerts := alerts.foldl keepAlert db.alerts } := by
  induction alerts generalizing db with
  | nil => exact (Except.ok.inj h).symm
  | cons alert alerts ih =>
      rw [List.foldlM_cons] at h
      obtain ⟨db₁, hfirst, hrest⟩ := except_bind_eq_ok.mp h
      obtain rfl := insertAlert_eq hfirst
      exact ih hrest

theorem foldl_insertPoint_eq (db : Database) (system : SystemId) (points : List (String × Value))
    (receivedAt : ℕ) :
    ∃ metrics nextRowid, points.foldl (·.insertPoint system · receivedAt) db =
      { db with metrics, nextRowid } := by
  induction points generalizing db with
  | nil => exact ⟨_, _, rfl⟩
  | cons point points ih =>
      obtain ⟨metrics, nextRowid, hpoints⟩ := ih (db.insertPoint system point receivedAt)
      exact ⟨metrics, nextRowid, hpoints⟩

/-- A round's points go into `metrics` alone. -/
theorem storeRound_eq (db : Database) (system : SystemId) (points : List (String × Value))
    (receivedAt : ℕ) (decide : Unit → Admission) :
    ∃ metrics nextRowid, (db.storeRound system points receivedAt decide).2 =
      { db with metrics, nextRowid } := by
  rw [storeRound]
  split
  · split
    · exact foldl_insertPoint_eq db system points receivedAt
    · exact ⟨_, _, rfl⟩
    · exact ⟨_, _, rfl⟩
  · exact ⟨_, _, rfl⟩

end Database

/-! ### The registry fill and the rounds -/

namespace AppState

/-- The columns of a row that a registry fill leaves alone. -/
def SameStatus (a b : SystemInfo) : Prop :=
  b.url = a.url ∧ b.status = a.status ∧ b.lastSeen = a.lastSeen ∧ b.lastError = a.lastError ∧
    b.enabled = a.enabled

/-- A write that leaves every row's status columns alone, and every table but `systems`. -/
def KeepsStatus (db db' : Database) : Prop :=
  (∃ systems, db' = { db with systems }) ∧
    ∀ s, Option.Rel SameStatus (db.systems.get? s) (db'.systems.get? s)

/-- A row that is there before is there after. -/
theorem SameStatus.of_rel {a : SystemInfo} {row : Option SystemInfo}
    (h : Option.Rel SameStatus (some a) row) :
    ∃ b, row = some b ∧ SameStatus a b := by
  cases h with
  | some h => exact ⟨_, rfl, h⟩

theorem SameStatus.refl (a : SystemInfo) : SameStatus a a := ⟨rfl, rfl, rfl, rfl, rfl⟩

theorem KeepsStatus.refl (db : Database) : KeepsStatus db db := by
  refine ⟨⟨_, rfl⟩, fun s => ?_⟩
  cases db.systems.get? s with
  | none => exact .none
  | some row => exact .some (.refl row)

theorem KeepsStatus.trans {db₁ db₂ db₃ : Database} (h : KeepsStatus db₁ db₂)
    (h' : KeepsStatus db₂ db₃) : KeepsStatus db₁ db₃ := by
  obtain ⟨⟨systems, rfl⟩, hrows⟩ := h
  obtain ⟨⟨systems', rfl⟩, hrows'⟩ := h'
  refine ⟨⟨_, rfl⟩, fun s => ?_⟩
  have h₁ := hrows s
  have h₂ := hrows' s
  revert h₁ h₂
  generalize db₁.systems.get? s = a
  generalize systems.get? s = b
  generalize systems'.get? s = c
  intro h₁ h₂
  cases h₁ with
  | none =>
      cases h₂
      exact .none
  | some h₁ =>
      cases h₂ with
      | some h₂ =>
          obtain ⟨hu, hs, hl, he, hn⟩ := h₁
          obtain ⟨hu', hs', hl', he', hn'⟩ := h₂
          exact .some ⟨hu'.trans hu, hs'.trans hs, hl'.trans hl, he'.trans he, hn'.trans hn⟩

theorem keepsStatus_updateSystem (db : Database) (id : SystemId) {f : SystemInfo → SystemInfo}
    (hf : ∀ a, SameStatus a (f a)) : KeepsStatus db (db.updateSystem id f) := by
  refine ⟨⟨_, db.updateSystem_eq id f⟩, fun s => ?_⟩
  rw [Database.get?_updateSystem]
  cases db.systems.get? s with
  | none => split_ifs <;> exact .none
  | some row =>
      split_ifs
      · exact .some (hf row)
      · exact .some (.refl row)

theorem keepsStatus_fillRegistry (db : Database) (id : SystemId) (info : ReportedInfo)
    (faults : FillFaults) : KeepsStatus db (fillRegistry db id info faults) := by
  have hinfo : ∀ db system, KeepsStatus db (fillInfo db id system info) := by
    intro db system
    rw [fillInfo]
    split_ifs
    · exact keepsStatus_updateSystem _ _ fun a => ⟨rfl, rfl, rfl, rfl, rfl⟩
    · exact .refl db
  have hmemory : ∀ db system, KeepsStatus db (fillMemory db id system info) := by
    intro db system
    rw [fillMemory]
    split
    · exact keepsStatus_updateSystem _ _ fun a => ⟨rfl, rfl, rfl, rfl, rfl⟩
    · exact .refl db
  have hname : ∀ db system, KeepsStatus db (fillName db id system info) := by
    intro db system
    rw [fillName]
    split_ifs
    · exact keepsStatus_updateSystem _ _ fun a => ⟨rfl, rfl, rfl, rfl, rfl⟩
    · exact .refl db
  have hunless : ∀ (fails : Bool) (db db' : Database), KeepsStatus db db' →
      KeepsStatus db (if fails then db else db') := by
    intro fails db db' h
    split_ifs
    · exact .refl db
    · exact h
  rw [fillRegistry]
  split
  · exact .refl db
  · next system _ =>
      exact ((hunless _ _ _ (hinfo _ _)).trans (hunless _ _ _ (hmemory _ _))).trans
        (hunless _ _ _ (hname _ _))

/-- A round is stored in `metrics` and in its system's live applications alone. -/
theorem store_eq (app : AppState) (system : SystemId) (round : ScrapeRound) (arrival : Arrival)
    (paceOf : Option SystemApplications → TokenBucket)
    (keep : SystemApplications → TokenBucket → SystemApplications) :
    ∃ metrics nextRowid liveApplications, (app.store system round arrival paceOf keep).2 =
      { app with db := { app.db with metrics, nextRowid }, liveApplications } := by
  rw [store]
  obtain ⟨metrics, nextRowid, hdb⟩ := app.db.storeRound_eq system round.points arrival.receivedAt
    (fun _ => admitRound ((Option.map SystemApplications.recent
      (app.liveApplications.get? system)).getD [])
        (paceOf (app.liveApplications.get? system)) round arrival.now)
  dsimp only
  split
  · next spent db hstored =>
      rw [hstored] at hdb
      obtain rfl := hdb
      exact ⟨metrics, nextRowid, _, rfl⟩
  · next other db _ hstored =>
      rw [hstored] at hdb
      obtain rfl := hdb
      exact ⟨metrics, nextRowid, _, rfl⟩

end AppState

/-! ### Values that the examples use -/

theorem SnapshotTime.inRange_hundred : 100 < 2 ^ 63 := by decide

theorem SnapshotTime.inRange_two_hundred : 200 < 2 ^ 63 := by decide

theorem Snapshot.notNaN_nil : ∀ p ∈ ([] : List (String × Value)), isNaN p.2 = false := by simp

theorem Snapshot.notNaN_cpu : ∀ p ∈ [("cpu", (0#32 : Value))], isNaN p.2 = false := by decide

end MonitoringAgent.Hub

import MonitoringAgent.Model.Hub.PushHub
import MonitoringAgent.Verification.Hub.Database

/-! # What a push step does

The steps of the push connections and of the sweep, each by what it changes of the presence, of the
systems' statuses and of their live metrics. -/

namespace MonitoringAgent.Hub

open MonitoringAgent.Library

namespace PushHub

/-! ### What a step changes -/

/-- What the connections and the sweep read and write of the hub. -/
@[ext]
structure View where
  entry : SystemId → Option Current
  next : ℕ
  status : SystemId → Option SystemStatus
  metrics : SystemId → Bool
  ending : Option SystemId

def view (h : PushHub) : View where
  entry := h.app.presence.current.get?
  next := h.app.presence.next
  status system := (h.app.db.systems.get? system).map SystemInfo.status
  metrics := h.app.liveMetrics.contains
  ending := h.ending

/-- Every task of the one is a task of the other, no less running and no less storing. -/
def Calms (before after : Table ℕ PushTask) : Prop :=
  ∀ number task, after.get? number = some task → ∃ earlier, before.get? number = some earlier ∧
    task.systemId = earlier.systemId ∧ (task.running = true → earlier.running = true) ∧
    (task.storing = true → earlier.storing = true)

theorem Calms.refl (tasks : Table ℕ PushTask) : Calms tasks tasks :=
  fun _ task h => ⟨task, h, rfl, id, id⟩

theorem calms_insert {tasks : Table ℕ PushTask} {number : ℕ} {task task' : PushTask}
    (h : tasks.get? number = some task) (hsystem : task'.systemId = task.systemId)
    (hrunning : task'.running = true → task.running = true)
    (hstoring : task'.storing = true → task.storing = true) :
    Calms tasks (tasks.insert number task') := by
  intro n found hfound
  rw [Table.get?_insert] at hfound
  split_ifs at hfound with hn
  · obtain rfl := Option.some.inj hfound
    exact ⟨task, hn ▸ h, hsystem, hrunning, hstoring⟩
  · exact ⟨found, hfound, rfl, id, id⟩

theorem calms_erase (tasks : Table ℕ PushTask) (number : ℕ) : Calms tasks (tasks.erase number) := by
  intro n found hfound
  rw [Table.get?_erase] at hfound
  split_ifs at hfound
  exact ⟨found, hfound, rfl, id, id⟩

/-- What asking for a system's connection leaves of the entries: an entry whose task is gone is
removed. -/
def Forgets (h : PushHub) (system : SystemId) (entry : SystemId → Option Current) : Prop :=
  entry = h.view.entry ∨
    entry = Function.update h.view.entry system none ∧ ∀ e, h.view.entry system = some e →
      h.live e.number = false

/-- What one step does, by its event. -/
inductive Stepped (h : PushHub) : Option PushEvent → PushHub → Prop
  | quiet {h'} (hview : h'.view = h.view) (htasks : Calms h.tasks h'.tasks) : Stepped h none h'
  | evicted {h'} (system : SystemId) (hending : h.ending = some system)
      (hview : h'.view = { h.view
        with metrics := Function.update h.view.metrics system false, ending := none })
      (htasks : h'.tasks = h.tasks) : Stepped h none h'
  | accepted {h'} (id : SystemId) (current : Bool) (hfree : h.ending = none)
      (hview : h'.view = { h.view with
        next := (h.view.next + 1) % 2 ^ 64
        entry := if ((h.view.entry id).any fun e => h.live e.number) = true then h.view.entry
          else Function.update h.view.entry id (some ⟨h.view.next, false⟩)
        status := Function.update h.view.status id (some ((h.view.status id).getD .unknown)) })
      (hcurrent : current = (h'.view.entry id).any (·.number = h.view.next))
      (htasks : h'.tasks = h.tasks.insert h.view.next ⟨id, true, false⟩) :
      Stepped h (some (.accepted id h.view.next current)) h'
  | claimed {h'} (number : ℕ) (task : PushTask) (hfree : h.ending = none)
      (htask : h.tasks.get? number = some task)
      (hview : h'.view = { h.view with
        entry := Function.update h.view.entry task.systemId (some ⟨number, true⟩) })
      (htasks : h'.tasks = h.tasks.insert number { task with storing := true }) :
      Stepped h (some (.claimed task.systemId number)) h'
  | stored {h'} (number : ℕ) (task : PushTask) (htask : h.tasks.get? number = some task)
      (hstoring : task.storing = true)
      (hview : h'.view = { h.view with
        status := Function.update h.view.status task.systemId (some .online)
        metrics := Function.update h.view.metrics task.systemId true })
      (htasks : h'.tasks = h.tasks.insert number { task with storing := false }) :
      Stepped h (some (.stored task.systemId number)) h'
  | endedCurrent {h'} (number : ℕ) (task : PushTask) (fails : Bool) (hfree : h.ending = none)
      (htask : h.tasks.get? number = some task) (hrunning : task.running = true)
      (hdone : task.storing = false) (hcurrent : ∃ claimed, h.view.entry task.systemId =
        some ⟨number, claimed⟩)
      (hview : h'.view = { h.view with
        entry := Function.update h.view.entry task.systemId none
        status := if fails then h.view.status
          else Function.update h.view.status task.systemId
            ((h.view.status task.systemId).map fun _ => .offline)
        ending := some task.systemId })
      (htasks : h'.tasks = h.tasks.erase number) :
      Stepped h (some (.ended task.systemId number .current fails)) h'
  | endedOther {h'} (number : ℕ) (task : PushTask) (fails : Bool) (hfree : h.ending = none)
      (htask : h.tasks.get? number = some task) (hrunning : task.running = true)
      (hdone : task.storing = false) (hother : ∀ claimed, h.view.entry task.systemId ≠
        some ⟨number, claimed⟩)
      (hview : h'.view = h.view) (htasks : h'.tasks = h.tasks.erase number) :
      Stepped h (some (.ended task.systemId number .notCurrent fails)) h'
  | sweptLeave {h'} (system : SystemId) (hfree : h.ending = none)
      (entry : SystemId → Option Current)
      (hforgets : h.Forgets system entry) (hview : h'.view = { h.view with entry })
      (htasks : h'.tasks = h.tasks) :
      Stepped h (some (.swept system .leave)) h'
  | sweptMark {h'} (system : SystemId) (reason : OfflineReason) (fails : Bool)
      (hfree : h.ending = none) (hunclaimed : ∀ number, h.view.entry system = some ⟨number, true⟩ →
        h.live number = false)
      (entry : SystemId → Option Current) (hforgets : h.Forgets system entry)
      (hview : h'.view = { h.view with
        entry
        status := if fails then h.view.status
          else Function.update h.view.status system
            ((h.view.status system).map fun _ => .offline) })
      (htasks : h'.tasks = h.tasks) :
      Stepped h (some (.swept system (.markOffline reason))) h'

/-! ### Views of the parts -/

theorem get?_insert_eq {K V : Type} [LinearOrder K] (t : Table K V) (key : K) (value : V) :
    (t.insert key value).get? = Function.update t.get? key (some value) := by
  funext k
  rw [Table.get?_insert, Function.update_apply]
  simp only [eq_comm]

theorem get?_erase_eq {K V : Type} [LinearOrder K] (t : Table K V) (key : K) :
    (t.erase key).get? = Function.update t.get? key none := by
  funext k
  rw [Table.get?_erase, Function.update_apply]

theorem contains_insert_eq {K V : Type} [LinearOrder K] (t : Table K V) (key : K) (value : V) :
    (t.insert key value).contains = Function.update t.contains key true := by
  funext k
  rw [Table.contains, Table.get?_insert, Function.update_apply]
  split_ifs <;> simp_all [Table.contains]

theorem contains_erase_eq {K V : Type} [LinearOrder K] (t : Table K V) (key : K) :
    (t.erase key).contains = Function.update t.contains key false := by
  funext k
  rw [Table.contains, Table.get?_erase, Function.update_apply]
  split_ifs <;> simp_all [Table.contains]

/-- A write of a row's status, if the row is there. -/
theorem status_updateSystem (db : Database) (id : SystemId) {f : SystemInfo → SystemInfo}
    {status : SystemStatus} (hf : ∀ row, (f row).status = status) :
    (fun s => ((db.updateSystem id f).systems.get? s).map SystemInfo.status) =
      Function.update (fun s => (db.systems.get? s).map SystemInfo.status) id
        (((db.systems.get? id).map SystemInfo.status).map fun _ => status) := by
  funext s
  rw [Database.get?_updateSystem, Function.update_apply]
  by_cases hs : id = s
  · subst hs
    rw [if_pos rfl, if_pos rfl]
    cases db.systems.get? id with
    | none => rfl
    | some row => exact congrArg some (hf row)
  · rw [if_neg hs, if_neg fun h => hs h.symm]

/-- An offline write changes its system's status, unless it fails. -/
theorem writeOffline_spec (app : AppState) (system : SystemId) (error : String) (fails : Bool) :
    (writeOffline app system error fails).presence = app.presence ∧
      (writeOffline app system error fails).liveMetrics = app.liveMetrics ∧
      (fun s => ((writeOffline app system error fails).db.systems.get? s).map SystemInfo.status) =
        if fails then fun s => (app.db.systems.get? s).map SystemInfo.status
        else Function.update (fun s => (app.db.systems.get? s).map SystemInfo.status) system
          (((app.db.systems.get? system).map SystemInfo.status).map fun _ => .offline) := by
  rw [writeOffline]
  cases fails with
  | true => exact ⟨rfl, rfl, rfl⟩
  | false => exact ⟨rfl, rfl, status_updateSystem app.db system fun _ => rfl⟩

/-! ### Each step -/

/-- A registration writes at most a row of a system that has none, its status unknown. -/
theorem view_registerIfNew (h : PushHub) (id : SystemId) :
    let (registration, app) := h.app.registerIfNew id
    app.presence = h.app.presence ∧
      ((registration = .inserted ∨ registration = .known .same) →
        { h with app }.view = { h.view with
          status := Function.update h.view.status id (some ((h.view.status id).getD .unknown)) }) ∧
      (registration ≠ .inserted → app = h.app) := by
  rw [AppState.registerIfNew, Database.insertSystemIfAbsent]
  cases hrow : h.app.db.systems.get? id with
  | some known =>
      refine ⟨rfl, fun _ => View.ext rfl rfl ?_ rfl rfl, fun _ => rfl⟩
      have hstatus : h.view.status id = some known.status :=
        congrArg (Option.map SystemInfo.status) hrow
      dsimp only
      rw [hstatus, Option.getD_some, ← hstatus, Function.update_eq_self]
  | none =>
      refine ⟨rfl, fun _ => View.ext rfl rfl ?_ rfl rfl, fun hne => absurd rfl hne⟩
      have hstatus : h.view.status id = none := congrArg (Option.map SystemInfo.status) hrow
      dsimp only
      rw [hstatus]
      funext s
      change (((h.app.db.systems.insert id _).get? s).map SystemInfo.status) = _
      rw [get?_insert_eq, Function.update_apply, Function.update_apply]
      split_ifs
      · rfl
      · rfl

theorem stepped_handshake (h : PushHub) (id : SystemId) (hfree : h.ending = none) :
    Stepped h (h.handshake id).1 (h.handshake id).2 := by
  have hview := view_registerIfNew h id
  rw [handshake, AppState.registerAndAccept]
  generalize h.app.registerIfNew id = registered at hview ⊢
  obtain ⟨registration, app⟩ := registered
  obtain ⟨hpresence, hpush, hsame⟩ := hview
  have haccept : registration = .inserted ∨ registration = .known .same →
      Stepped h (some (.accepted id h.view.next
        (((app.presence.accept id h.live).2.current.get? id).any (·.number = h.view.next))))
        { h with
          app := { app with presence := (app.presence.accept id h.live).2 }
          tasks := h.tasks.insert h.view.next ⟨id, true, false⟩ } := by
    intro hcase
    have hview := hpush hcase
    refine .accepted id _ hfree ?_ rfl rfl
    have hstatus := congrArg View.status hview
    have hmetrics := congrArg View.metrics hview
    refine View.ext ?_ ?_ hstatus hmetrics rfl
    · by_cases htaken : ((h.view.entry id).any fun e => h.live e.number) = true
      · rw [if_pos htaken]
        dsimp only [view]
        rw [hpresence, PushPresence.accept]
        exact congrArg Table.get? (if_pos htaken)
      · rw [if_neg htaken]
        dsimp only [view]
        rw [hpresence, PushPresence.accept]
        exact (congrArg Table.get? (if_neg htaken)).trans (get?_insert_eq _ _ _)
    · dsimp only [view]
      rw [hpresence, PushPresence.accept]
  cases registration with
  | inserted =>
      have hnumber : (app.presence.accept id h.live).1 = h.view.next :=
        congrArg PushPresence.next hpresence
      dsimp only
      rw [hnumber]
      exact haccept (.inl rfl)
  | known url =>
      cases url with
      | same =>
          have hnumber : (app.presence.accept id h.live).1 = h.view.next :=
            congrArg PushPresence.next hpresence
          dsimp only
          rw [hnumber]
          exact haccept (.inr rfl)
      | mail =>
          obtain rfl := hsame (by simp)
          exact .quiet rfl (.refl _)
      | other =>
          obtain rfl := hsame (by simp)
          exact .quiet rfl (.refl _)

/-- A stored snapshot writes points and its system's status. -/
theorem storeSnapshot_eq {db db' : Database} {system : SystemId} {snapshot : Snapshot}
    {time : SnapshotTime} {status : StatusUpdate}
    (h : db.storeSnapshot system snapshot time status = some db') :
    (db.systems.get? system).isSome ∧ ∃ metrics nextRowid,
      db' = { db with metrics, nextRowid }.writeStatus system status := by
  rw [Database.storeSnapshot] at h
  split_ifs at h with hrow
  obtain ⟨metrics, nextRowid, hpoints⟩ := db.storeUnexpiredPoints_eq system snapshot time none
  rw [hpoints] at h
  exact ⟨hrow, metrics, nextRowid, (Option.some.inj h).symm⟩

theorem stepped_claim (h : PushHub) {number : ℕ} {task : PushTask} (hfree : h.ending = none)
    (htask : h.tasks.get? number = some task) :
    Stepped h (h.claim number task).1 (h.claim number task).2 := by
  refine .claimed number task hfree htask ?_ rfl
  refine View.ext ?_ rfl rfl rfl rfl
  exact get?_insert_eq _ _ _

theorem stepped_store (h : PushHub) {number : ℕ} {task : PushTask}
    (htask : h.tasks.get? number = some task) (hstoring : task.storing = true) (snapshot : Snapshot)
    (time : SnapshotTime) (lastSeen : Option LastSeen) (fails : Bool) :
    Stepped h (h.store number task snapshot time lastSeen fails).1
      (h.store number task snapshot time lastSeen fails).2 := by
  have hcalms : Calms h.tasks (h.tasks.insert number { task with storing := false }) :=
    calms_insert htask rfl id fun h => by cases h
  rw [store]
  cases fails with
  | true => exact .quiet rfl hcalms
  | false =>
      rw [AppState.storeSnapshot]
      cases hstored : h.app.db.storeSnapshot task.systemId snapshot time
        (.afterSnapshot lastSeen) with
      | none => exact .quiet rfl hcalms
      | some db =>
          obtain ⟨hrow, metrics, nextRowid, hdb⟩ := storeSnapshot_eq hstored
          refine .stored number task htask hstoring
            (View.ext rfl rfl ?_ (contains_insert_eq _ _ _) rfl) rfl
          have hstatus := status_updateSystem { h.app.db with metrics, nextRowid } task.systemId
              (f := fun system =>
            { system with status := .online, lastSeen :=
              lastSeen.getD system.lastSeen, lastError := none })
            (fun _ => rfl)
          refine (congrArg (fun db : Database => fun s => (db.systems.get? s).map SystemInfo.status)
            hdb).trans ?_
          refine hstatus.trans ?_
          obtain ⟨row, hrow⟩ := Option.isSome_iff_exists.mp hrow
          have hsome :
              ((({ h.app.db with metrics, nextRowid } : Database).systems.get? task.systemId).map
              SystemInfo.status).map (fun _ => SystemStatus.online) = some .online := by
            change ((h.app.db.systems.get? task.systemId).map SystemInfo.status).map _ = _
            rw [hrow]
            rfl
          rw [hsome]
          rfl

theorem stepped_end (h : PushHub) {number : ℕ} {task : PushTask} (hfree : h.ending = none)
    (htask : h.tasks.get? number = some task) (hrunning : task.running = true)
    (hdone : task.storing = false) (fails : Bool) :
    Stepped h (h.endTask number task fails).1 (h.endTask number task fails).2 := by
  rw [endTask, PushPresence.end]
  by_cases hcurrent : (h.app.presence.current.get? task.systemId).any (·.number = number) = true
  · rw [if_pos hcurrent]
    obtain ⟨⟨found, claimed⟩, hentry, hnumber⟩ := (Option.any_eq_true _ _).mp hcurrent
    obtain rfl : found = number := of_decide_eq_true hnumber
    refine .endedCurrent found task fails hfree htask hrunning hdone ⟨claimed, hentry⟩ ?_ rfl
    obtain ⟨hpresence, hmetrics, hstatus⟩ := writeOffline_spec
      { h.app with presence := { h.app.presence with
      current := h.app.presence.current.erase task.systemId } } task.systemId
        "push disconnected" fails
    refine View.ext ?_ ?_ hstatus (congrArg Table.contains hmetrics) rfl
    · exact (congrArg (fun p : PushPresence => p.current.get?) hpresence).trans (get?_erase_eq _ _)
    · have hnext := congrArg PushPresence.next hpresence
      exact hnext
  · rw [if_neg hcurrent]
    refine .endedOther number task fails hfree htask hrunning hdone ?_ rfl rfl
    intro claimed hentry
    refine hcurrent ?_
    change (h.view.entry task.systemId).any _ = true
    rw [hentry]
    simp

/-- What asking for a system's connection finds. -/
theorem connectionOf_spec (h : PushHub) (system : SystemId) :
    let (connection, p) := h.app.presence.connectionOf system h.live
    h.Forgets system p.current.get? ∧ p.next = h.app.presence.next ∧
      (connection ≠ .claimed → ∀ number, h.view.entry system = some ⟨number, true⟩ →
        h.live number = false) := by
  rw [PushPresence.connectionOf]
  cases hentry : h.app.presence.current.get? system with
  | none =>
      refine ⟨.inl rfl, rfl, fun _ number hsome => ?_⟩
      exact absurd (hentry.symm.trans hsome) (by simp)
  | some current =>
      dsimp only
      split_ifs with hlive hclaimed
      · exact ⟨.inl rfl, rfl, fun hne => absurd rfl hne⟩
      · refine ⟨.inl rfl, rfl, fun _ number hsome => ?_⟩
        obtain rfl := Option.some.inj (hentry.symm.trans hsome)
        exact absurd rfl hclaimed
      · rw [Bool.not_eq_true] at hlive
        refine ⟨.inr ⟨get?_erase_eq _ _, fun e he => ?_⟩, rfl, fun _ number hsome => ?_⟩
        · obtain rfl := Option.some.inj (hentry.symm.trans he)
          exact hlive
        · obtain rfl := Option.some.inj (hentry.symm.trans hsome)
          exact hlive

theorem stepped_sweepRow (h : PushHub) (rest : List (SystemId × SystemStatus)) (system : SystemId)
    (status : SystemStatus) (upFor : ℕ) (fails : Bool) (hfree : h.ending = none) :
    Stepped h ({ h with pass := rest }.sweepRow system status upFor fails).1
      ({ h with pass := rest }.sweepRow system status upFor fails).2 := by
  have hspec := connectionOf_spec { h with pass := rest } system
  rw [sweepRow, PushPresence.sweep]
  generalize ({ h with pass := rest } : PushHub).app.presence.connectionOf system
    ({ h with pass := rest } : PushHub).live = found at hspec ⊢
  obtain ⟨connection, p⟩ := found
  obtain ⟨hforgets, hnext, hunclaimed⟩ := hspec
  have hleave : Stepped h (some (.swept system .leave))
      { h with app := { h.app with presence := p }, pass := rest } :=
    .sweptLeave system hfree _ hforgets (View.ext rfl hnext rfl rfl rfl) rfl
  have hmark : ∀ reason, connection ≠ .claimed →
      Stepped h (some (.swept system (.markOffline reason)))
      { h with
        app := writeOffline { h.app with presence := p } system reason.lastError fails,
        pass := rest } := by
    intro reason hne
    obtain ⟨hpresence, hmetrics, hstatus⟩ :=
      writeOffline_spec { h.app with presence := p } system reason.lastError fails
    refine .sweptMark system reason fails hfree (hunclaimed hne) _ hforgets ?_ rfl
    refine View.ext ?_ ?_ hstatus (congrArg Table.contains hmetrics) rfl
    · exact congrArg (fun p : PushPresence => p.current.get?) hpresence
    · exact (congrArg PushPresence.next hpresence).trans hnext
  dsimp only
  split_ifs with hstay
  · exact hleave
  · have hne : connection ≠ .claimed := by
      rintro rfl
      refine hstay ?_
      cases status <;> rfl
    cases SystemId.tryFrom system with
    | ok _ => exact hmark _ hne
    | error _ => exact hmark _ hne

/-- Every step is one of these. -/
theorem stepped_step (h : PushHub) (s : PushStep) : Stepped h (h.step s).1 (h.step s).2 := by
  cases s with
  | handshake id =>
      rw [step]
      split_ifs with hfree
      · exact stepped_handshake h id (Option.isNone_iff_eq_none.mp hfree)
      · exact .quiet rfl (.refl _)
  | claim number =>
      rw [step]
      cases htask : h.tasks.get? number with
      | none => exact .quiet rfl (.refl _)
      | some task =>
          dsimp only
          split_ifs with hready
          · rw [Bool.and_eq_true] at hready
            exact stepped_claim h (Option.isNone_iff_eq_none.mp hready.1) htask
          · exact .quiet rfl (.refl _)
  | store number snapshot time lastSeen fails =>
      rw [step]
      cases htask : h.tasks.get? number with
      | none => exact .quiet rfl (.refl _)
      | some task =>
          dsimp only
          split_ifs with hstoring
          · exact stepped_store h htask hstoring snapshot time lastSeen fails
          · exact .quiet rfl (.refl _)
  | «end» number fails =>
      rw [step]
      cases htask : h.tasks.get? number with
      | none => exact .quiet rfl (.refl _)
      | some task =>
          dsimp only
          split_ifs with hready
          · rw [Bool.and_eq_true, Bool.and_eq_true, Bool.not_eq_true'] at hready
            obtain ⟨⟨hfree, hrunning⟩, hdone⟩ := hready
            exact stepped_end h (Option.isNone_iff_eq_none.mp hfree) htask hrunning hdone fails
          · exact .quiet rfl (.refl _)
  | evict =>
      rw [step]
      cases hending : h.ending with
      | none => exact .quiet rfl (.refl _)
      | some system =>
          exact .evicted system hending (View.ext rfl rfl rfl (contains_erase_eq _ _) rfl) rfl
  | die number =>
      rw [step]
      cases htask : h.tasks.get? number with
      | none => exact .quiet rfl (.refl _)
      | some task => exact .quiet rfl (calms_insert htask rfl
          (fun hrunning => by cases hrunning) id)
  | readRegistry =>
      rw [step]
      split_ifs
      · exact .quiet rfl (.refl _)
      · exact .quiet rfl (.refl _)
  | sweepRow upFor fails =>
      rw [step]
      cases hpass : h.pass with
      | nil => exact .quiet rfl (.refl _)
      | cons row rest =>
          dsimp only
          split_ifs with hfree
          · exact stepped_sweepRow h rest row.1 row.2 upFor fails
              (Option.isNone_iff_eq_none.mp hfree)
          · exact .quiet rfl (.refl _)

end PushHub

end MonitoringAgent.Hub

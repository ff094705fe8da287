import MonitoringAgent.Model.Hub.Push
import MonitoringAgent.Verification.Hub.Mail

/-! # Push and mail over the same ids

Handshakes, frames on accepted connections, mail reports and deletions, in any order. A connection's
url check is made once, at its handshake. -/

namespace MonitoringAgent.Hub

open MonitoringAgent.Library

inductive TransportStep where
  /-- A handshake for an id; `live` says which connections' tasks still run. -/
  | handshake (id : SystemId) (live : ℕ → Bool) (now : Instant) (fails : Bool)
  /-- The claim before a snapshot frame's store, on the connection at an index. -/
  | claim (i : ℕ)
  | snapshot (i : ℕ) (snapshot : Snapshot) (time : SnapshotTime)
      (lastSeen : Option LastSeen) (fails : Bool)
  /-- The registry fill after a stored snapshot frame. -/
  | fill (i : ℕ) (info : AppState.ReportedInfo) (faults : AppState.FillFaults)
  | round (i : ℕ) (round : ScrapeRound) (arrival : AppState.Arrival) (fails : Bool)
  /-- A connection ends, or its task dies without an end. -/
  | «end» (i : ℕ)
  | die (i : ℕ)
  /-- `store_mail_report` of an opened report. -/
  | mail (system : SystemId) (report : MailReport) (now : SnapshotTime) (fails : Bool)
  | delete (system : SystemId)

/-- The hub and its accepted push connections. -/
structure Transports where
  app : AppState
  connections : List ConnectionState

namespace Transports

/-- A frame's connection ends when its system's row is gone. -/
def afterFrame (h : Transports) (i : ℕ) (gone : Bool) (app : AppState) : Transports :=
  ⟨app, if gone then h.connections.eraseIdx i else h.connections⟩

def storeSnapshot (h : Transports) (i : ℕ) (connection : ConnectionState) (snapshot : Snapshot)
    (time : SnapshotTime) (lastSeen : Option LastSeen) : Transports :=
  match h.app.storeSnapshot connection.systemId snapshot time lastSeen with
  | (outcome, app) => h.afterFrame i (outcome = .systemGone) app

def storeRound (h : Transports) (i : ℕ) (connection : ConnectionState) (round : ScrapeRound)
    (arrival : AppState.Arrival) : Transports :=
  match h.app.storeRound connection.systemId round connection.pace arrival with
  | (.stored spent, app) => ⟨app, h.connections.set i { connection with pace := spent }⟩
  | (outcome, app) => h.afterFrame i (outcome = .systemGone) app

/-- One mail report's transaction; the newest one's live metrics are kept under the same mutex. -/
def storeMail (h : Transports) (system : SystemId) (report : MailReport)
    (now : SnapshotTime) (fails : Bool) : Transports :=
  match h.app.db.storeMailReport (mailWrite system report now) (recency report.createdAt) fails with
  | .error _ => h
  | .ok (.stored .newest _ (some (snapshot, time)), db) =>
      { h with app := { h.app with db }.keepLiveMetrics system snapshot time }
  | .ok (_, db) => { h with app := { h.app with db } }

def accept (h : Transports) (id : SystemId) (live : ℕ → Bool) (now : Instant) : Transports :=
  match h.app.registerAndAccept id live with
  | (.push lease, app) => ⟨app, h.connections ++ [⟨id, some lease, .full Hub.pace now⟩]⟩
  | (.polled, app) => ⟨app, h.connections ++ [⟨id, none, .full Hub.pace now⟩]⟩
  | (.mailSystem, app) => { h with app }

/-- One step; a step of no connection does nothing. -/
def step (h : Transports) : TransportStep → Transports
  | .handshake id live now fails => if fails then h else h.accept id live now
  | .claim i =>
      match h.connections[i]? with
      | some connection => { h with app := h.app.claimFor connection }
      | none => h
  | .snapshot i snapshot time lastSeen fails =>
      match h.connections[i]? with
      | some connection => if fails then h else h.storeSnapshot i connection snapshot time lastSeen
      | none => h
  | .fill i info faults =>
      match h.connections[i]? with
      | some connection =>
          { h with app :=
            { h.app with db := AppState.fillRegistry h.app.db connection.systemId info faults } }
      | none => h
  | .round i round arrival fails =>
      match h.connections[i]? with
      | some connection => if fails then h else h.storeRound i connection round arrival
      | none => h
  | .end i =>
      match h.connections[i]? with
      | some connection => ⟨h.app.endFor connection, h.connections.eraseIdx i⟩
      | none => h
  | .die i => { h with connections := h.connections.eraseIdx i }
  | .mail system report now fails => h.storeMail system report now fails
  | .delete system => { h with app := h.app.deleteSystem system }

def run (app : AppState) (steps : List TransportStep) : Transports := steps.foldl step ⟨app, []⟩

/-- The system a push frame is stored into by a step, if it stores one. -/
def frameStored (h : Transports) : TransportStep → Option SystemId
  | .snapshot i snapshot time lastSeen fails => do
      let connection ← h.connections[i]?
      if ¬fails ∧ (h.app.storeSnapshot connection.systemId snapshot time lastSeen).1 = .stored then
        some connection.systemId
      else none
  | .round i round arrival fails => do
      let connection ← h.connections[i]?
      match fails, (h.app.storeRound connection.systemId round connection.pace arrival).1 with
      | false, .stored _ => some connection.systemId
      | _, _ => none
  | _ => none

/-- What a step must not do: store a frame into a mail system, write a report into another system,
or give a lease for an id that is no push system's. -/
structure Separate (h : Transports) (s : TransportStep) : Prop where
  frame : ∀ id, h.frameStored s = some id → ∀ row, h.app.db.systems.get? id = some row →
    row.url ≠ mailUrl
  mail : ∀ system report now fails, s = .mail system report now fails →
    ∀ row, h.app.db.systems.get? system = some row → row.url ≠ mailUrl → h.step s = h
  lease : ∀ id live now number, s = .handshake id live now false →
    (h.app.registerAndAccept id live).1 = .push number →
      ∃ row, (h.step s).app.db.systems.get? id = some row ∧ row.url = pushUrl

/-- A report registers an id only while no push connection of it is open. -/
def clear (h : Transports) : TransportStep → Bool
  | .mail system .. => (h.app.db.systems.get? system).isSome ||
      h.connections.all (·.systemId ≠ system)
  | _ => true

def runClear (h : Transports) : List TransportStep → Bool
  | [] => true
  | s :: steps => h.clear s && runClear (h.step s) steps

end Transports

/-! ### The urls of the rows -/

namespace Database

/-- No row is new, and every row keeps its url. -/
def KeepsUrls (db db' : Database) : Prop :=
  ∀ s row', db'.systems.get? s = some row' → ∃ row, db.systems.get? s = some row ∧
    row.url = row'.url

theorem KeepsUrls.refl (db : Database) : KeepsUrls db db := fun _ row h => ⟨row, h, rfl⟩

theorem keepsUrls_of_systems {db db' : Database} (h : db'.systems = db.systems) :
    KeepsUrls db db' := by
  intro s row hrow
  exact ⟨row, h ▸ hrow, rfl⟩

theorem keepsUrls_updateSystem (db : Database) (id : SystemId) {f : SystemInfo → SystemInfo}
    (hf : ∀ row, (f row).url = row.url) : KeepsUrls db (db.updateSystem id f) := by
  intro s row' hrow
  rw [get?_updateSystem] at hrow
  split_ifs at hrow
  · obtain ⟨row, hbefore, rfl⟩ := Option.map_eq_some_iff.mp hrow
    exact ⟨row, hbefore, (hf row).symm⟩
  · exact ⟨row', hrow, rfl⟩

theorem keepsUrls_storeSnapshot {db db' : Database} {system : SystemId} {snapshot : Snapshot}
    {time : SnapshotTime} {status : StatusUpdate}
    (h : db.storeSnapshot system snapshot time status = some db') : KeepsUrls db db' := by
  rw [storeSnapshot] at h
  split_ifs at h
  obtain rfl := Option.some.inj h
  obtain ⟨metrics, nextRowid, hpoints⟩ := db.storeUnexpiredPoints_eq system snapshot time none
  rw [hpoints]
  exact keepsUrls_updateSystem { db with metrics, nextRowid } system fun _ => rfl

theorem keepsUrls_deleteSystem (db : Database) (id : SystemId) :
    KeepsUrls db (db.deleteSystem id) := by
  intro s row hrow
  rw [deleteSystem, Table.get?_erase] at hrow
  split_ifs at hrow
  exact ⟨row, hrow, rfl⟩

end Database

namespace AppState

theorem keepsUrls_of_keepsStatus {db db' : Database} (h : KeepsStatus db db') :
    Database.KeepsUrls db db' := by
  intro s row' hrow
  have hrel := h.2 s
  rw [hrow] at hrel
  revert hrel
  cases hbefore : db.systems.get? s with
  | none => intro hrel; cases hrel
  | some row =>
      intro hrel
      cases hrel with
      | some hsame => exact ⟨row, rfl, hsame.1.symm⟩

theorem keepsUrls_snapshot (app : AppState) (system : SystemId) (snapshot : Snapshot)
    (time : SnapshotTime) (lastSeen : Option LastSeen) :
    Database.KeepsUrls app.db (app.storeSnapshot system snapshot time lastSeen).2.db := by
  rw [storeSnapshot]
  split
  · exact .refl app.db
  · next db hstored => exact Database.keepsUrls_storeSnapshot hstored

theorem keepsUrls_round (app : AppState) (system : SystemId) (round : ScrapeRound)
    (pace : TokenBucket) (arrival : Arrival) :
    Database.KeepsUrls app.db (app.storeRound system round pace arrival).2.db := by
  obtain ⟨metrics, nextRowid, live, hstore⟩ := app.store_eq system round arrival (fun _ => pace)
    fun entry _ => entry
  rw [storeRound, hstore]
  exact Database.keepsUrls_of_systems rfl

theorem keepsUrls_end (app : AppState) (connection : ConnectionState) :
    Database.KeepsUrls app.db (app.endFor connection).db := by
  rw [endFor]
  split
  · rw [endConnection]
    split
    · exact Database.keepsUrls_updateSystem app.db _ fun _ => rfl
    · exact .refl app.db
  · exact .refl app.db

/-- A handshake leaves every row alone but a new push row of its id. -/
theorem registerAndAccept_db (app : AppState) (id : SystemId) (live : ℕ → Bool) :
    ((app.db.systems.get? id = none ∧ ∃ number, (app.registerAndAccept id live).1 = .push number ∧
        (app.registerAndAccept id live).2.db =
          { app.db with systems :=
            app.db.systems.insert id (.registered id.defaultName pushUrl) }) ∨
      (∃ row, app.db.systems.get? id = some row ∧ (app.registerAndAccept id live).2.db = app.db ∧
        ((∃ number, (app.registerAndAccept id live).1 = .push number) → row.url = pushUrl) ∧
        ((app.registerAndAccept id live).1 ≠ .mailSystem → row.url ≠ mailUrl))) := by
  rw [registerAndAccept, registerIfNew, Database.insertSystemIfAbsent]
  cases hrow : app.db.systems.get? id with
  | none => exact .inl ⟨rfl, _, rfl, rfl⟩
  | some row =>
      refine .inr ⟨row, rfl, ?_⟩
      dsimp only [SystemInfo.registered]
      by_cases hpush : row.url = pushUrl
      · simp only [hpush, if_true]
        exact ⟨trivial, fun _ => trivial, fun _ => by decide⟩
      by_cases hmail : row.url = mailUrl
      · have hdiffer : mailUrl ≠ pushUrl := by decide
        simp only [hmail, hdiffer, if_false, if_true]
        refine ⟨trivial, ?_, fun h => absurd rfl h⟩
        rintro ⟨number, ⟨⟩⟩
      · simp only [hpush, hmail, if_false]
        refine ⟨trivial, ?_, fun _ => hmail⟩
        rintro ⟨number, ⟨⟩⟩

end AppState

namespace Transports

/-- No open push connection is of a system that is mail's. -/
def NoneMail (h : Transports) : Prop :=
  ∀ c ∈ h.connections, ∀ row, h.app.db.systems.get? c.systemId = some row → row.url ≠ mailUrl

theorem NoneMail.of_keeps {h h' : Transports} (hinv : h.NoneMail)
    (hconnections : ∀ c ∈ h'.connections, ∃ c₀ ∈ h.connections, c₀.systemId = c.systemId)
    (hurls : Database.KeepsUrls h.app.db h'.app.db) : h'.NoneMail := by
  intro c hc row hrow
  obtain ⟨c₀, hc₀, hid⟩ := hconnections c hc
  obtain ⟨before, hbefore, hurl⟩ := hurls c.systemId row hrow
  rw [← hurl]
  exact hinv c₀ hc₀ before (hid ▸ hbefore)

theorem afterFrame_connections {h : Transports} {i : ℕ} {gone : Bool} {app : AppState}
    {c : ConnectionState} (hc : c ∈ (h.afterFrame i gone app).connections) :
    ∃ c₀ ∈ h.connections, c₀.systemId = c.systemId := by
  rw [afterFrame] at hc
  dsimp only at hc
  split_ifs at hc
  · exact ⟨c, List.mem_of_mem_eraseIdx hc, rfl⟩
  · exact ⟨c, hc, rfl⟩

theorem noneMail_storeRound {h : Transports} (hinv : h.NoneMail) {i : ℕ}
    {connection : ConnectionState} (hconnection : h.connections[i]? = some connection)
    (round : ScrapeRound) (arrival : AppState.Arrival) :
    (h.storeRound i connection round arrival).NoneMail := by
  have hurls := h.app.keepsUrls_round connection.systemId round connection.pace arrival
  rw [storeRound]
  split
  · next spent app hstored =>
      rw [hstored] at hurls
      refine hinv.of_keeps ?_ hurls
      intro c hc
      rcases List.mem_or_eq_of_mem_set hc with hc | rfl
      · exact ⟨c, hc, rfl⟩
      · exact ⟨connection, List.mem_of_getElem? hconnection, rfl⟩
  · next outcome app _ hstored =>
      rw [hstored] at hurls
      exact hinv.of_keeps (fun c hc => afterFrame_connections hc) hurls

theorem noneMail_storeMail {h : Transports} (hinv : h.NoneMail) {system : SystemId}
    {report : MailReport} {now : SnapshotTime} {fails : Bool}
    (hclear : h.clear (.mail system report now fails) = true) :
    (h.storeMail system report now fails).NoneMail := by
  -- Only the report's own row changes, and it isn't a push connection's unless it was there.
  have hrows : ∀ {outcome : MailStored} {db : Database},
      h.app.db.storeMailReport (mailWrite system report now) (recency report.createdAt) fails =
        .ok (outcome, db) →
      ∀ c ∈ h.connections, ∀ row, db.systems.get? c.systemId = some row → row.url ≠ mailUrl := by
    intro outcome db hstored c hc row hrow
    by_cases hoff : ∀ recency expired newest, outcome ≠ .stored recency expired newest
    · rw [Database.storeMailReport_unchanged hstored hoff] at hrow
      exact hinv c hc row hrow
    · push Not at hoff
      obtain ⟨rec, expired, newest, rfl⟩ := hoff
      obtain ⟨hurl, -, -, -, tx, rfl, -, -, hsystems⟩ := Database.storeMailReport_stored hstored
      change tx.systems.get? c.systemId = some row at hrow
      rw [hsystems] at hrow
      by_cases hsame : system = c.systemId
      · subst hsame
        have hknown : (h.app.db.systems.get? c.systemId).isSome = true := by
          rw [clear, Bool.or_eq_true] at hclear
          rcases hclear with hknown | hnone
          · exact hknown
          · exact absurd (List.all_eq_true.mp hnone c hc) (by simp)
        obtain ⟨known, hknown⟩ := Option.isSome_iff_exists.mp hknown
        exact absurd (hurl known hknown) (hinv c hc known hknown)
      · rw [if_neg (show ¬ (mailWrite system report now).systemId = c.systemId from hsame)] at hrow
        exact hinv c hc row hrow
  rw [storeMail]
  split
  · exact hinv
  · next hstored => exact hrows hstored
  · next hstored => exact hrows hstored

theorem noneMail_accept {h : Transports} (hinv : h.NoneMail) (id : SystemId)
    (live : ℕ → Bool) (now : Instant) : (h.accept id live now).NoneMail := by
  -- Whatever was accepted before, its row is as it was, or is the new push row.
  have hrows : ∀ s row, (h.app.registerAndAccept id live).2.db.systems.get? s = some row →
      h.app.db.systems.get? s = some row ∨ row.url = pushUrl := by
    intro s row hrow
    rcases h.app.registerAndAccept_db id live with ⟨-, number, -, hdb⟩ | ⟨known, -, hdb, -, -⟩
    · rw [hdb] at hrow
      rw [Table.get?_insert] at hrow
      split_ifs at hrow
      · obtain rfl := Option.some.inj hrow
        exact .inr rfl
      · exact .inl hrow
    · rw [hdb] at hrow
      exact .inl hrow
  have hown : (h.app.registerAndAccept id live).1 ≠ .mailSystem → ∀ row,
      (h.app.registerAndAccept id live).2.db.systems.get? id = some row → row.url ≠ mailUrl := by
    intro hadmitted row hrow
    rcases h.app.registerAndAccept_db id live with ⟨-, number, -, hdb⟩
      | ⟨known, hknown, hdb, -, hother⟩
    · rw [hdb, Table.get?_insert_self] at hrow
      obtain rfl := Option.some.inj hrow
      exact (by decide : pushUrl ≠ mailUrl)
    · rw [hdb, hknown] at hrow
      obtain rfl := Option.some.inj hrow
      exact hother hadmitted
  have hbefore : ∀ c ∈ h.connections, ∀ row,
      (h.app.registerAndAccept id live).2.db.systems.get? c.systemId = some row →
      row.url ≠ mailUrl := by
    intro c hc row hrow
    rcases hrows c.systemId row hrow with hrow | hpush
    · exact hinv c hc row hrow
    · rw [hpush]
      decide
  rw [accept]
  split
  · next lease app hadmitted =>
      rw [hadmitted] at hown hbefore
      intro c hc
      rcases List.mem_append.mp hc with hc | hc
      · exact hbefore c hc
      · obtain rfl := List.mem_singleton.mp hc
        exact hown nofun
  · next app hadmitted =>
      rw [hadmitted] at hown hbefore
      intro c hc
      rcases List.mem_append.mp hc with hc | hc
      · exact hbefore c hc
      · obtain rfl := List.mem_singleton.mp hc
        exact hown nofun
  · next app hadmitted =>
      rw [hadmitted] at hbefore
      exact hbefore

theorem noneMail_step {h : Transports} (hinv : h.NoneMail) {s : TransportStep}
    (hclear : h.clear s = true) : (h.step s).NoneMail := by
  have hsame : ∀ c ∈ h.connections, ∃ c₀ ∈ h.connections, c₀.systemId = c.systemId :=
    fun c hc => ⟨c, hc, rfl⟩
  have herased : ∀ i, ∀ c ∈ h.connections.eraseIdx i, ∃ c₀ ∈ h.connections,
      c₀.systemId = c.systemId :=
    fun i c hc => ⟨c, List.mem_of_mem_eraseIdx hc, rfl⟩
  cases s with
  | handshake id live now fails =>
      rw [step]
      split_ifs
      · exact hinv
      · exact noneMail_accept hinv id live now
  | claim i =>
      rw [step]
      split
      · refine hinv.of_keeps hsame (Database.keepsUrls_of_systems ?_)
        rw [AppState.claimFor]
        split <;> rfl
      · exact hinv
  | snapshot i snapshot time lastSeen fails =>
      rw [step]
      split
      · next connection hconnection =>
          split_ifs
          · exact hinv
          · exact hinv.of_keeps (fun c hc => afterFrame_connections hc)
              (h.app.keepsUrls_snapshot connection.systemId snapshot time lastSeen)
      · exact hinv
  | fill i info faults =>
      rw [step]
      split
      · next connection _ =>
          exact hinv.of_keeps hsame (AppState.keepsUrls_of_keepsStatus
            (AppState.keepsStatus_fillRegistry h.app.db connection.systemId info faults))
      · exact hinv
  | round i round arrival fails =>
      rw [step]
      split
      · next connection hconnection =>
          split_ifs
          · exact hinv
          · exact noneMail_storeRound hinv hconnection round arrival
      · exact hinv
  | «end» i =>
      rw [step]
      split
      · next connection _ => exact hinv.of_keeps (herased i) (h.app.keepsUrls_end connection)
      · exact hinv
  | die i => exact hinv.of_keeps (herased i) (.refl _)
  | mail system report now fails => exact noneMail_storeMail hinv hclear
  | delete system => exact hinv.of_keeps hsame (Database.keepsUrls_deleteSystem h.app.db system)

/-- While no push connection is a mail system's, a step keeps the transports apart. -/
theorem separate_step {h : Transports} (hinv : h.NoneMail) (s : TransportStep) : h.Separate s := by
  refine ⟨?_, ?_, ?_⟩
  · intro id hstored
    -- A frame is stored into its connection's system.
    have hconnection : ∃ c ∈ h.connections, c.systemId = id := by
      cases s with
      | snapshot i snapshot time lastSeen fails =>
          obtain ⟨c, hc, hstored⟩ := Option.bind_eq_some_iff.mp hstored
          obtain ⟨-, hid⟩ := Option.ite_none_right_eq_some.mp hstored
          exact ⟨c, List.mem_of_getElem? hc, Option.some.inj hid⟩
      | round i round arrival fails =>
          obtain ⟨c, hc, hstored⟩ := Option.bind_eq_some_iff.mp hstored
          split at hstored
          · exact ⟨c, List.mem_of_getElem? hc, Option.some.inj hstored⟩
          · cases hstored
      | handshake id live now fails => cases hstored
      | claim i => cases hstored
      | fill i info faults => cases hstored
      | «end» i => cases hstored
      | die i => cases hstored
      | mail system report now fails => cases hstored
      | delete system => cases hstored
    obtain ⟨c, hc, rfl⟩ := hconnection
    exact hinv c hc
  · rintro system report now fails rfl row hrow hurl
    rw [step, storeMail]
    split
    · rfl
    · next hstored =>
        obtain ⟨hmail, -⟩ := Database.storeMailReport_stored hstored
        exact absurd (hmail row hrow) hurl
    · next outcome db _ hstored =>
        have hsame : db = h.app.db := by
          refine Database.storeMailReport_unchanged hstored ?_
          rintro rec expired newest rfl
          obtain ⟨hmail, -⟩ := Database.storeMailReport_stored hstored
          exact absurd (hmail row hrow) hurl
        rw [hsame]
  · rintro id live now number rfl hadmitted
    have happ : (h.step (.handshake id live now false)).app =
        (h.app.registerAndAccept id live).2 := by
      rw [step, if_neg (by simp), accept]
      split <;> simp_all
    rw [happ]
    rcases h.app.registerAndAccept_db id live with ⟨-, -, -, hdb⟩ | ⟨known, hknown, hdb, hpush, -⟩
    · refine ⟨.registered id.defaultName pushUrl, ?_, rfl⟩
      rw [hdb, Table.get?_insert_self]
    · exact ⟨known, by rw [hdb, hknown], hpush ⟨number, hadmitted⟩⟩

theorem noneMail_foldl {steps : List TransportStep} {h : Transports} (hinv : h.NoneMail)
    (hclear : runClear h steps = true) : (steps.foldl step h).NoneMail := by
  induction steps generalizing h with
  | nil => exact hinv
  | cons s steps ih =>
      rw [runClear, Bool.and_eq_true] at hclear
      exact ih (noneMail_step hinv hclear.1) hclear.2

theorem runClear_append {h : Transports} {earlier later : List TransportStep}
    (hclear : runClear h (earlier ++ later) = true) : runClear h earlier = true := by
  induction earlier generalizing h with
  | nil => rfl
  | cons s earlier ih =>
      rw [List.cons_append, runClear, Bool.and_eq_true] at hclear
      rw [runClear, hclear.1, ih hclear.2]
      rfl

/-- The transports don't mix in a run in which no mail report registers an id while a push
connection of it is open: no frame is stored into a mail system, no report writes into another, and
a lease is a push system's. -/
theorem transports_separate (app : AppState) {steps : List TransportStep}
    (hclear : runClear ⟨app, []⟩ steps = true) :
    ∀ earlier s later, steps = earlier ++ s :: later → (run app earlier).Separate s := by
  rintro earlier s later rfl
  refine separate_step (noneMail_foldl ?_ (runClear_append hclear)) s
  intro c hc
  cases hc

/-- A snapshot frame with no point, on the first connection. -/
def bareFrame : TransportStep :=
  .snapshot 0 ⟨[], Snapshot.notNaN_nil⟩ ⟨200, SnapshotTime.inRange_two_hundred⟩ none false

/-- `web-01` connects, and a report of `web-02` arrives. -/
def apart : List TransportStep :=
  [.handshake "web-01" (fun _ => true) 0 false,
    .mail "web-02" (MailHistory.bareReport 1 100 SnapshotTime.inRange_hundred) ⟨100,
      SnapshotTime.inRange_hundred⟩ false]

theorem transports_separate_apart :
    (run .new apart).frameStored bareFrame = some "web-01" ∧ (run .new apart).Separate bareFrame :=
  ⟨by decide +kernel, transports_separate .new (by decide +kernel) apart bareFrame [] rfl⟩

/-- `web-01` connects and is deleted, and a report of it arrives, all while its connection stays
open. -/
def takenOver : List TransportStep :=
  [.handshake "web-01" (fun _ => true) 0 false, .delete "web-01",
    .mail "web-01" (MailHistory.bareReport 1 100 SnapshotTime.inRange_hundred) ⟨100,
      SnapshotTime.inRange_hundred⟩ false]

/-- The connection's next frame is stored into the mail system. -/
theorem frame_stored_into_mail :
    (run .new takenOver).frameStored bareFrame = some "web-01" ∧
      ((run .new takenOver).app.db.systems.get? "web-01").map SystemInfo.url = some mailUrl := by
  exact ⟨by decide +kernel, by decide +kernel⟩

end Transports

end MonitoringAgent.Hub

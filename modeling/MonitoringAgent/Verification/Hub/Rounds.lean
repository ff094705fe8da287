import Mathlib.Data.List.DropRight
import MonitoringAgent.Model.Hub.App
import MonitoringAgent.Model.Hub.Round
import MonitoringAgent.Verification.Hub.Database
import MonitoringAgent.Verification.Hub.Pace

/-! # Scrape rounds of one system

Rounds pushed over any connections, polled and mailed, in any order, each admitted and stored in one
hold of the locks, with whatever the rest of the hub does to the database in between. -/

namespace MonitoringAgent.Hub

open MonitoringAgent.Library

/-! ### The points of a round -/

namespace Applications

end Applications

/-! ### One admission -/

namespace Database

/-- Points are appended in order, each once. -/
theorem metrics_foldl_insertPoint (db : Database) (system : SystemId)
    (points : List (String × Value)) (time : ℕ) :
    (points.foldl (·.insertPoint system · time) db).metrics =
      db.metrics ++ points.mapIdx fun i point =>
        ⟨db.nextRowid + i, system, point.1, point.2, time⟩ := by
  induction points generalizing db with
  | nil => simp
  | cons point points ih =>
      rw [List.foldl_cons, ih, List.mapIdx_cons]
      simp only [insertPoint, List.append_assoc, List.singleton_append, Nat.add_zero, Nat.add_assoc,
        Nat.add_comm 1]

end Database

namespace AppState

/-- The system's recent rounds; none before its first. -/
def recentOf (app : AppState) (system : SystemId) : RecentRounds :=
  ((app.liveApplications.get? system).map SystemApplications.recent).getD []

def pollPaceOf (app : AppState) (system : SystemId) : Option TokenBucket :=
  (app.liveApplications.get? system).bind SystemApplications.pollPace

/-- What storing a round did: the points appended, the round remembered and shown, and the pace
kept. -/
structure StoresRound (app : AppState) (system : SystemId) (round : ScrapeRound) (arrival : Arrival)
    (pace spent : TokenBucket) (keep : SystemApplications → TokenBucket → SystemApplications)
    (app' : AppState) : Prop where
  exists_system : app.db.systemExists system = true
  new : (round.id, round.digest) ∉ app.recentOf system
  take : pace.take arrival.now = some spent
  metrics : app'.db.metrics = app.db.metrics ++
    round.points.mapIdx fun i point =>
      ⟨app.db.nextRowid + i, system, point.1, point.2, arrival.receivedAt⟩
  entry : app'.liveApplications = app.liveApplications.insert system
    (keep { (app.liveApplications.get? system).getD {} with
      recent := RecentRounds.remember (app.recentOf system) round
      shown := some ⟨round, arrival.receivedAt⟩ } spent)

/-- A round is stored, or nothing changes. -/
theorem store_cases (app : AppState) (system : SystemId) (round : ScrapeRound) (arrival : Arrival)
    (paceOf : Option SystemApplications → TokenBucket)
    (keep : SystemApplications → TokenBucket → SystemApplications) :
    (∃ spent, (app.store system round arrival paceOf keep).1 = .stored spent ∧
      app.StoresRound system round arrival (paceOf (app.liveApplications.get? system)) spent keep
        (app.store system round arrival paceOf keep).2) ∨
    ((∀ spent, (app.store system round arrival paceOf keep).1 ≠ .stored spent) ∧
      (app.store system round arrival paceOf keep).2 = app) := by
  have hrecent : (Option.map SystemApplications.recent (app.liveApplications.get? system)).getD [] =
      ((app.liveApplications.get? system).getD {}).recent := by
    cases app.liveApplications.get? system <;> rfl
  rw [store, Database.storeRound, admitRound]
  by_cases hexists : app.db.systemExists system = true
  swap
  · simp only [hexists, Bool.false_eq_true, if_false]
    exact .inr ⟨by simp, trivial⟩
  simp only [hexists, if_true]
  by_cases hknown : (round.id, round.digest) ∈ app.recentOf system
  · rw [recentOf] at hknown
    simp only [hknown, if_true]
    exact .inr ⟨by simp, trivial⟩
  rw [recentOf] at hknown
  simp only [hknown, if_false]
  cases htake : (paceOf (app.liveApplications.get? system)).take arrival.now with
  | none => exact .inr ⟨by simp, rfl⟩
  | some spent =>
      refine .inl ⟨spent, rfl, hexists, hknown, htake, ?_, ?_⟩
      · exact Database.metrics_foldl_insertPoint app.db system round.points arrival.receivedAt
      · simp only [hold, recentOf, hrecent]

/-- The recent rounds and the poll pace stay when the shown round goes. -/
theorem forgetShownRound_keeps (app : AppState) (s : SystemId) :
    (app.forgetShownRound s).recentOf s = app.recentOf s ∧
      (app.forgetShownRound s).pollPaceOf s = app.pollPaceOf s := by
  rw [forgetShownRound]
  cases hentry : app.liveApplications.get? s with
  | none => exact ⟨rfl, rfl⟩
  | some entry =>
      simp only [recentOf, pollPaceOf, hentry, Table.get?_insert_self]
      exact ⟨rfl, rfl⟩

theorem logRefusedRound_keeps (app : AppState) (s : SystemId) (now : Instant) :
    (app.logRefusedRound s now).recentOf s = app.recentOf s ∧
      (app.logRefusedRound s now).pollPaceOf s = app.pollPaceOf s := by
  simp only [logRefusedRound, recentOf, pollPaceOf, Table.get?_insert_self]
  cases app.liveApplications.get? s with
  | none =>
      dsimp only [Option.getD_none]
      split_ifs <;> exact ⟨rfl, rfl⟩
  | some entry =>
      dsimp only [Option.getD_some]
      split_ifs <;> exact ⟨rfl, rfl⟩

end AppState

/-! ### The history -/

/-- Where a round comes from; a connection is its number. -/
inductive RoundSource where
  | push (connection : ℕ)
  | poll
  | mail
  deriving DecidableEq, Repr

inductive RoundStep where
  /-- A push connection opens, under a full pace. -/
  | connect (connection : ℕ) (now : Instant)
  /-- A round is admitted and stored; `fails` says whether SQLite refuses a statement or the commit.
  -/
  | round (source : RoundSource) (round : Applications.ScrapeRound)
      (arrival : AppState.Arrival) (fails : Bool)
  /-- A poll answers without a round. -/
  | forgetShownRound
  /-- A polled round is refused before its admission. -/
  | logRefusedRound (now : Instant)
  /-- What the rest of the hub makes of the database. -/
  | database (db : Database)
  /-- The system is deleted. -/
  | delete

/-- The instant a step is taken at, if it reads the clock. -/
def RoundStep.instant : RoundStep → Option ℕ
  | .connect _ now => some now
  | .round _ _ arrival _ => some arrival.now
  | .logRefusedRound now => some now
  | .forgetShownRound | .database _ | .delete => none

/-- The hub, the paces of its push connections, and what was stored. -/
structure RoundHistory where
  app : AppState
  paces : ℕ → TokenBucket
  clock : ℕ
  /-- The rounds stored, oldest first, since the system was last deleted. -/
  stored : List Applications.ScrapeRound
  /-- When each connection's rounds were stored, since it opened. -/
  pushed : ℕ → List ℕ
  /-- When polled rounds were stored, since the system was last deleted. -/
  polled : List ℕ

namespace RoundHistory

section

variable (s : SystemId) (digest : Applications.RoundContent → ℕ) (toF32 : Applications.F64 → Value)

def new : RoundHistory := ⟨.new, fun _ => .full Hub.pace 0, 0, [], fun _ => [], []⟩

/-- What a round is answered, and the hub after it. A mailed round brings a full pace of its own. -/
def answer (h : RoundHistory) (source : RoundSource) (round : Applications.ScrapeRound)
    (arrival : AppState.Arrival) (fails : Bool) : Except DbError Database.RoundStored × AppState :=
  if fails then (.error .dbError, h.app)
  else
    let (stored, app) := match source with
      | .push connection => h.app.storeRound s (round.incoming digest toF32)
          (h.paces connection) arrival
      | .poll => h.app.storePolledRound s (round.incoming digest toF32) arrival
      | .mail => h.app.storeRound s (round.incoming digest toF32)
          (.full Hub.pace arrival.now) arrival
    (.ok stored, app)

def step (h : RoundHistory) : RoundStep → RoundHistory
  | .connect connection now =>
      { h with
        paces := Function.update h.paces connection (.full Hub.pace now)
        pushed := Function.update h.pushed connection []
        clock := now }
  | .round source round arrival fails =>
      match h.answer s digest toF32 source round arrival fails with
      | (.ok (.stored spent), app) =>
          let h := { h with app, clock := arrival.now, stored := h.stored ++ [round] }
          match source with
          | .push connection =>
              { h with
                paces := Function.update h.paces connection spent
                pushed := Function.update h.pushed connection
                  (h.pushed connection ++ [arrival.now]) }
          | .poll => { h with polled := h.polled ++ [arrival.now] }
          | .mail => h
      | (_, app) => { h with app, clock := arrival.now }
  | .forgetShownRound => { h with app := h.app.forgetShownRound s }
  | .logRefusedRound now => { h with app := h.app.logRefusedRound s now, clock := now }
  | .database db => { h with app := { h.app with db } }
  | .delete => { h with app := h.app.deleteSystem s, stored := [], polled := [] }

def run (steps : List RoundStep) : RoundHistory := steps.foldl (step s digest toF32) new

/-- What the recent rounds and the paces tell of what was stored. -/
structure Inv (h : RoundHistory) : Prop where
  recent : h.app.recentOf s =
    (h.stored.rtake recentRounds).map fun r => ((r.incoming digest toF32).id, digest r.content)
  pushPace : ∀ connection, (h.paces connection).refill = Hub.pace ∧
    (h.paces connection).Paced (h.pushed connection) h.clock
  pollPace : ∀ b, h.app.pollPaceOf s = some b → b.refill = Hub.pace ∧ b.Paced h.polled h.clock
  unpaced : h.app.pollPaceOf s = none → h.polled = []

end

/-- The pace a round is admitted under. -/
def paceFor (s : SystemId) (h : RoundHistory) (source : RoundSource) (now : Instant) :
    TokenBucket :=
  match source with
  | .push connection => h.paces connection
  | .poll => (h.app.pollPaceOf s).getD (.full Hub.pace now)
  | .mail => .full Hub.pace now

/-- Where a stored round's spent pace is kept in the system's entry. -/
def keepFor : RoundSource → SystemApplications → TokenBucket → SystemApplications
  | .poll => fun entry spent => { entry with pollPace := some spent }
  | .push _ | .mail => fun entry _ => entry

section Steps

variable {s : SystemId} {digest : Applications.RoundContent → ℕ} {toF32 : Applications.F64 → Value}
  {h : RoundHistory}

variable (s digest toF32 h) in
theorem answer_cases (source : RoundSource) (round : Applications.ScrapeRound)
    (arrival : AppState.Arrival) (fails : Bool) :
    (∃ spent, (h.answer s digest toF32 source round arrival fails).1 = .ok (.stored spent) ∧
      h.app.StoresRound s (round.incoming digest toF32) arrival
        (h.paceFor s source arrival.now) spent
        (keepFor source) (h.answer s digest toF32 source round arrival fails).2) ∨
    ((∀ spent, (h.answer s digest toF32 source round arrival fails).1 ≠ .ok (.stored spent)) ∧
      (h.answer s digest toF32 source round arrival fails).2 = h.app) := by
  have hlift : ∀ {stored : Database.RoundStored} {spent : TokenBucket},
      (Except.ok stored : Except DbError _) = .ok (.stored spent) ↔ stored = .stored spent := by
    intro stored spent
    exact ⟨Except.ok.inj, congrArg _⟩
  unfold answer
  split_ifs with hfails
  · exact .inr ⟨nofun, rfl⟩
  · simp only [ne_eq, hlift]
    cases source with
    | push connection => exact h.app.store_cases s (round.incoming digest toF32) arrival _ _
    | poll => exact h.app.store_cases s (round.incoming digest toF32) arrival _ _
    | mail => exact h.app.store_cases s (round.incoming digest toF32) arrival _ _

/-- The last elements of a list, after one more. -/
theorem rtake_concat {α : Type} (l : List α) (x : α) {n : ℕ} (hn : 0 < n) :
    (l ++ [x]).rtake n = (if (l.rtake n).length = n then (l.rtake n).tail else l.rtake n) ++
      [x] := by
  simp only [List.rtake, List.length_append, List.length_singleton, List.length_drop]
  rw [List.drop_append_of_le_length (by omega)]
  split_ifs with hfull
  · rw [List.tail_drop]
    congr 2
    omega
  · congr 2
    omega

variable {source : RoundSource} {round : Applications.ScrapeRound} {arrival : AppState.Arrival}
  {spent : TokenBucket} {app' : AppState}

theorem recentOf_stores (hstores : h.app.StoresRound s (round.incoming digest toF32) arrival
    (h.paceFor s source arrival.now) spent (keepFor source) app') :
    app'.recentOf s = RecentRounds.remember (h.app.recentOf s) (round.incoming digest toF32) := by
  rw [AppState.recentOf, hstores.entry, Table.get?_insert_self]
  cases source <;> rfl

theorem pollPaceOf_stores (hstores : h.app.StoresRound s (round.incoming digest toF32) arrival
    (h.paceFor s source arrival.now) spent (keepFor source) app') :
    app'.pollPaceOf s = if source = .poll then some spent else h.app.pollPaceOf s := by
  have hentry : (h.app.liveApplications.get? s).bind SystemApplications.pollPace =
      ((h.app.liveApplications.get? s).getD {}).pollPace := by
    cases h.app.liveApplications.get? s <;> rfl
  rw [AppState.pollPaceOf, AppState.pollPaceOf, hstores.entry, Table.get?_insert_self, hentry]
  cases source <;> rfl

variable (source) in
/-- The pace a round is admitted under is its source's. -/
theorem paceFor_paced (hinv : h.Inv s digest toF32) (hclock : h.clock ≤ arrival.now) :
    (h.paceFor s source arrival.now).refill = Hub.pace ∧
      (h.paceFor s source arrival.now).Paced
        (match source with
          | .push connection => h.pushed connection
          | .poll => h.polled
          | .mail => []) arrival.now := by
  cases source with
  | push connection =>
      obtain ⟨hrefill, hpaced⟩ := hinv.pushPace connection
      exact ⟨hrefill, hpaced.mono hclock⟩
  | poll =>
      rw [paceFor]
      cases hpace : h.app.pollPaceOf s with
      | none =>
          dsimp only [Option.getD_none]
          rw [hinv.unpaced hpace]
          exact ⟨rfl, TokenBucket.paced_full Hub.pace arrival.now⟩
      | some b =>
          obtain ⟨hrefill, hpaced⟩ := hinv.pollPace b hpace
          exact ⟨hrefill, hpaced.mono hclock⟩
  | mail => exact ⟨rfl, TokenBucket.paced_full Hub.pace arrival.now⟩

/-- A round that isn't stored changes nothing. -/
theorem step_refused {fails : Bool}
    (h' : ∀ spent, (h.answer s digest toF32 source round arrival fails).1 ≠ .ok (.stored spent)) :
    h.step s digest toF32 (.round source round arrival fails) =
      { h with clock := arrival.now } := by
  have hsame : (h.answer s digest toF32 source round arrival fails).2 = h.app := by
    rcases answer_cases s digest toF32 h source round arrival fails with
      ⟨spent, hstored, -⟩ | ⟨-, hsame⟩
    · exact absurd hstored (h' spent)
    · exact hsame
  rw [step]
  split
  · next spent app hanswer =>
      rw [hanswer] at h'
      exact absurd rfl (h' spent)
  · next outcome app _ hanswer =>
      rw [hanswer] at hsame
      rw [← hsame]

/-- A stored round keeps the invariant. -/
theorem inv_stored (hinv : h.Inv s digest toF32) (hclock : h.clock ≤ arrival.now) {fails : Bool}
    (hstored : (h.answer s digest toF32 source round arrival fails).1 = .ok (.stored spent))
    (hstores : h.app.StoresRound s (round.incoming digest toF32) arrival
      (h.paceFor s source arrival.now) spent
      (keepFor source) (h.answer s digest toF32 source round arrival fails).2) :
    (h.step s digest toF32 (.round source round arrival fails)).Inv s digest toF32 := by
  have hpair : h.answer s digest toF32 source round arrival fails =
      (.ok (.stored spent), (h.answer s digest toF32 source round arrival fails).2) :=
        Prod.ext hstored rfl
  generalize (h.answer s digest toF32 source round arrival fails).2 = app' at hstores hpair
  obtain ⟨hrefill, hpaced⟩ := paceFor_paced source hinv hclock
  have hperiod : 0 < (h.paceFor s source arrival.now).refill.period := by
    rw [hrefill]
    decide
  obtain ⟨hrefill', hpaced'⟩ := hpaced.take hperiod le_rfl hstores.take
  rw [hrefill] at hrefill'
  have hrecent : app'.recentOf s = ((h.stored ++ [round]).rtake recentRounds).map fun r =>
      ((r.incoming digest toF32).id, digest r.content) := by
    rw [recentOf_stores hstores, hinv.recent, rtake_concat _ _ (by decide), RecentRounds.remember,
      List.length_map, List.map_append]
    split_ifs
    · rw [List.map_tail]
      rfl
    · rfl
  have hpoll := pollPaceOf_stores hstores
  rw [step, hpair]
  cases source with
  | push connection =>
      rw [if_neg nofun] at hpoll
      refine ⟨hrecent, ?_, ?_, ?_⟩
      · intro c
        dsimp only
        by_cases hc : c = connection
        · subst hc
          rw [Function.update_self, Function.update_self]
          exact ⟨hrefill', hpaced'⟩
        · rw [Function.update_of_ne hc, Function.update_of_ne hc]
          exact ⟨(hinv.pushPace c).1, (hinv.pushPace c).2.mono hclock⟩
      · intro b hb
        obtain ⟨hb, hpaced⟩ := hinv.pollPace b (hpoll ▸ hb)
        exact ⟨hb, hpaced.mono hclock⟩
      · intro hnone
        exact hinv.unpaced (hpoll ▸ hnone)
  | poll =>
      rw [if_pos rfl] at hpoll
      refine ⟨hrecent, ?_, ?_, ?_⟩
      · intro c
        exact ⟨(hinv.pushPace c).1, (hinv.pushPace c).2.mono hclock⟩
      · intro b hb
        obtain rfl := Option.some.inj (hpoll.symm.trans hb)
        exact ⟨hrefill', hpaced'⟩
      · intro hnone
        exact absurd (hpoll.symm.trans hnone) nofun
  | mail =>
      rw [if_neg nofun] at hpoll
      refine ⟨hrecent, ?_, ?_, ?_⟩
      · intro c
        exact ⟨(hinv.pushPace c).1, (hinv.pushPace c).2.mono hclock⟩
      · intro b hb
        obtain ⟨hb, hpaced⟩ := hinv.pollPace b (hpoll ▸ hb)
        exact ⟨hb, hpaced.mono hclock⟩
      · intro hnone
        exact hinv.unpaced (hpoll ▸ hnone)

/-- The invariant tells nothing of the rest of the hub. -/
theorem Inv.of_same {h' : RoundHistory} (hinv : h.Inv s digest toF32) (hclock : h.clock ≤ h'.clock)
    (hrecent : h'.app.recentOf s = h.app.recentOf s)
    (hpoll : h'.app.pollPaceOf s = h.app.pollPaceOf s) (hpaces : h'.paces = h.paces)
    (hstored : h'.stored = h.stored) (hpushed : h'.pushed = h.pushed)
    (hpolled : h'.polled = h.polled) : h'.Inv s digest toF32 := by
  refine ⟨?_, ?_, ?_, ?_⟩
  · rw [hrecent, hstored]
    exact hinv.recent
  · intro c
    rw [hpaces, hpushed]
    exact ⟨(hinv.pushPace c).1, (hinv.pushPace c).2.mono hclock⟩
  · intro b hb
    rw [hpolled]
    obtain ⟨hb, hpaced⟩ := hinv.pollPace b (hpoll ▸ hb)
    exact ⟨hb, hpaced.mono hclock⟩
  · intro hnone
    rw [hpolled]
    exact hinv.unpaced (hpoll ▸ hnone)

theorem inv_step (hinv : h.Inv s digest toF32) {t : RoundStep}
    (hclock : ∀ now ∈ t.instant, h.clock ≤ now) : (h.step s digest toF32 t).Inv s digest toF32 := by
  cases t with
  | connect connection now =>
      refine ⟨hinv.recent, ?_, ?_, hinv.unpaced⟩
      · intro c
        rw [step]
        dsimp only
        by_cases hc : c = connection
        · subst hc
          rw [Function.update_self, Function.update_self]
          exact ⟨rfl, TokenBucket.paced_full Hub.pace now⟩
        · rw [Function.update_of_ne hc, Function.update_of_ne hc]
          exact ⟨(hinv.pushPace c).1, (hinv.pushPace c).2.mono (hclock now rfl)⟩
      · intro b hb
        exact ⟨(hinv.pollPace b hb).1, (hinv.pollPace b hb).2.mono (hclock now rfl)⟩
  | round source round arrival fails =>
      rcases answer_cases s digest toF32 h source round arrival fails with
        ⟨spent, hstored, hstores⟩ | ⟨hrefused, -⟩
      · exact inv_stored hinv (hclock arrival.now rfl) hstored hstores
      · rw [step_refused hrefused]
        exact hinv.of_same (hclock arrival.now rfl) rfl rfl rfl rfl rfl rfl
  | forgetShownRound =>
      obtain ⟨hrecent, hpoll⟩ := h.app.forgetShownRound_keeps s
      exact hinv.of_same le_rfl hrecent hpoll rfl rfl rfl rfl
  | logRefusedRound now =>
      obtain ⟨hrecent, hpoll⟩ := h.app.logRefusedRound_keeps s now
      exact hinv.of_same (hclock now rfl) hrecent hpoll rfl rfl rfl rfl
  | database db => exact hinv.of_same le_rfl rfl rfl rfl rfl rfl rfl
  | delete =>
      have hgone : (h.app.deleteSystem s).liveApplications.get? s = none := by
        rw [AppState.deleteSystem, AppState.removeLiveApplications, Table.get?_erase, if_pos rfl]
      refine ⟨?_, hinv.pushPace, ?_, fun _ => rfl⟩
      · change (h.app.deleteSystem s).recentOf s = _
        rw [AppState.recentOf, hgone]
        rfl
      · intro b hb
        change (h.app.deleteSystem s).pollPaceOf s = some b at hb
        rw [AppState.pollPaceOf, hgone] at hb
        cases hb

theorem clock_step (t : RoundStep) : (h.step s digest toF32 t).clock = t.instant.getD h.clock := by
  cases t with
  | round source round arrival fails =>
      rw [step]
      split
      · cases source <;> rfl
      · rfl
  | connect connection now => rfl
  | forgetShownRound => rfl
  | logRefusedRound now => rfl
  | database db => rfl
  | delete => rfl

theorem inv_new : new.Inv s digest toF32 where
  recent := rfl
  pushPace connection := ⟨rfl, TokenBucket.paced_full Hub.pace 0⟩
  pollPace b h := by cases h
  unpaced _ := rfl

/-- The clock is no later than what every step's instant is no later than. -/
theorem clock_run_le {steps : List RoundStep} {bound : ℕ}
    (h : ∀ now ∈ steps.filterMap RoundStep.instant, now ≤ bound) :
    (run s digest toF32 steps).clock ≤ bound := by
  induction steps using List.reverseRecOn with
  | nil => exact Nat.zero_le bound
  | append_singleton steps t ih =>
      rw [List.filterMap_append] at h
      rw [run, List.foldl_append, List.foldl_cons, List.foldl_nil, clock_step]
      cases hinstant : t.instant with
      | none => exact ih fun now hnow => h now (List.mem_append_left _ hnow)
      | some now => exact h now (List.mem_append_right _ (by simp [hinstant]))

variable (s digest toF32) in
theorem inv_run {steps : List RoundStep}
    (hordered : (steps.filterMap RoundStep.instant).Pairwise (· ≤ ·)) :
    (run s digest toF32 steps).Inv s digest toF32 := by
  induction steps using List.reverseRecOn with
  | nil => exact inv_new
  | append_singleton steps t ih =>
      rw [List.filterMap_append, List.pairwise_append] at hordered
      obtain ⟨hbefore, -, hacross⟩ := hordered
      rw [run, List.foldl_append]
      refine inv_step (ih hbefore) fun now hnow => ?_
      exact clock_run_le fun earlier hearlier => hacross earlier hearlier now (by simpa using hnow)

end Steps

end RoundHistory

end MonitoringAgent.Hub

import MonitoringAgent.Library.Except
import MonitoringAgent.Model.Store.Store
import MonitoringAgent.Verification.Store.Pass
import MonitoringAgent.Verification.Writer.Commit

/-! # How fast the retention clock moves

Along any run of the store, whatever the system clock reads, the retention clock gains at most two
seconds for each whole second the monotonic clock measured between passes; a restart resumes the
clock last committed and gains nothing. -/

namespace MonitoringAgent.HubStore

open Library

namespace Machine

/-- The retention clock: in memory while the store runs, else as last committed. -/
def retentionClock : Machine → ℕ
  | .running s => s.retention.clock
  | .stopped t _ => t.meta.retentionClock

/-- The retention clock as last committed, from which a restart resumes and which queries read. -/
def committedClock : Machine → ℕ
  | .running s => s.writer.db.meta.retentionClock
  | .stopped t _ => t.meta.retentionClock

/-- The whole seconds a step measures between the pass it starts and the one before it. -/
def measuredBy : Machine → StoreOp → ℕ
  | .running s, .beginPass _ reading =>
      match s.retention.stage, s.retention.lastStart with
      | none, some last => Duration.asSecs (reading - last)
      | _, _ => 0
  | _, _ => 0

/-- The whole seconds measured between passes along a run. -/
def measured (m : Machine) : List StoreOp → ℕ
  | [] => 0
  | op :: ops => m.measuredBy op + (m.step op).measured ops

/-- Whether the clock's present value outlives the run's restarts: a commit comes before the first
stop, or the store is stopped already. -/
def Kept : Machine → List StoreOp → Prop
  | _, [] => True
  | .stopped _ _, _ :: _ => True
  | .running s, op :: ops =>
      (∃ flush, op = .commit flush) ∨
        ∃ s', Machine.step (.running s) op = .running s' ∧ Kept (.running s') ops

end Machine

/-! ### One step -/

theorem retentionNow_le_hub (previous hubNow systemNow : ℕ) (since : Elapsed) :
    retentionNow previous hubNow systemNow since ≤ hubNow :=
  (min_le_left _ _).trans (min_le_left _ _)

theorem retentionNow_le_system (previous hubNow systemNow : ℕ) (since : Elapsed) :
    retentionNow previous hubNow systemNow since ≤ systemNow :=
  (min_le_left _ _).trans (min_le_right _ _)

theorem retentionNow_sinceOpen_le (previous hubNow systemNow : ℕ) :
    retentionNow previous hubNow systemNow .sinceOpen ≤ previous :=
  (min_le_right _ _).trans (min_le_left _ _)

theorem retentionNow_measured_le (previous hubNow systemNow : ℕ) (d : Duration) :
    retentionNow previous hubNow systemNow (.measured d) ≤ previous + 2 * Duration.asSecs d := by
  simp only [retentionNow]
  omega

namespace Retention

theorem begin_le_hub (r : Retention) (hubNow systemNow : ℕ) (reading : Duration) :
    (r.begin hubNow systemNow reading).clock ≤ hubNow :=
  retentionNow_le_hub _ _ _ _

theorem begin_le_system (r : Retention) (hubNow systemNow : ℕ) (reading : Duration) :
    (r.begin hubNow systemNow reading).clock ≤ systemNow :=
  retentionNow_le_system _ _ _ _

/-- The first pass since the open moves the clock by nothing forwards. -/
theorem begin_new_le (clock hubNow systemNow : ℕ) (reading : Duration) :
    ((new clock).begin hubNow systemNow reading).clock ≤ clock :=
  retentionNow_sinceOpen_le _ _ _

end Retention

theorem Writer.append_db {w w' : Writer} {system : List UInt8} {generation : ℕ}
    {points : List IncomingPoint} {systemNow : ℕ} {report : AppendReport}
    (h : w.append system generation points systemNow = .ok (report, w')) : w'.db = w.db := by
  rw [Writer.append] at h
  obtain ⟨⟨report', core⟩, -, hw⟩ := except_bind_eq_ok.mp h
  cases hw
  rfl

theorem reconcileAtOpen_meta {t : Tables} {files : Files} {head : Table SeriesKey HeadEntry}
    {hubNow : ℕ} {r : Reconciled} (h : reconcileAtOpen t files head hubNow = .ok r) :
    r.tables.meta = t.meta := by
  rw [reconcileAtOpen] at h
  obtain ⟨plan, -, hr⟩ := except_bind_eq_ok.mp h
  cases hr
  rfl

namespace Store

/-- The first pass of an open resumes the committed clock, and moves it by nothing forwards. -/
theorem open_clock {t : Tables} {files : Files} {policies : Policies} {systemNow passNow : ℕ}
    {reading : Duration} {s : Store}
    (h : Store.open t files policies systemNow passNow reading = .ok s) :
    s.writer.db.meta.retentionClock = t.meta.retentionClock ∧
      s.retention.clock ≤ t.meta.retentionClock ∧ s.retention.clock ≤ s.writer.core.clock ∧
      s.retention.clock ≤ passNow := by
  rw [Store.open] at h
  obtain ⟨c, -, h⟩ := except_bind_eq_ok.mp h
  dsimp only at h
  split at h
  next r hr =>
    rw [except_ok_bind] at h
    obtain ⟨c', -, h⟩ := except_bind_eq_ok.mp h
    have hmeta := reconcileAtOpen_meta hr
    cases h
    refine ⟨congrArg _ hmeta, ?_, Retention.begin_le_hub _ _ _ _, Retention.begin_le_system _ _ _ _⟩
    rw [← hmeta]
    exact Retention.begin_new_le _ _ _ _
  · cases h

theorem commit_clock (s : Store) (flush : Flush) :
    (s.commit flush).writer.db.meta.retentionClock = s.retention.clock ∧
      (s.commit flush).retention.clock = s.retention.clock := by
  obtain ⟨⟨chunks, blocks, blockGenerations, pendingUnlinks, htables⟩, -, -, -, -, -, hclock, -⟩ :=
    s.retention.step_spec { (s.writer.writeInterval s.writer.openTxn flush).2 with
      «meta» := { (s.writer.writeInterval s.writer.openTxn flush).2.meta with
        retentionClock := s.retention.clock } }
      ⟨s.policies, s.tombstones, (s.writer.writeInterval s.writer.openTxn flush).1.core.index,
        s.writer.core.sealed.foldl (fun h e => h.sealed ⟨e.2.tier, e.2.span⟩) s.handoffs⟩ rfl
  refine ⟨?_, hclock⟩
  rw [show (s.commit flush).writer.db = (s.writeInterval flush).tables from Writer.afterCommit_db _]
  exact congrArg (fun t : Tables => t.meta.retentionClock) htables

theorem handle_clock {s s' : Store} (h : s.handle = some s') :
    s'.writer.db = s.writer.db ∧ s'.retention = s.retention := by
  rw [handle] at h
  split at h
  · cases h
    exact ⟨rfl, rfl⟩
  next outcome replies _ =>
    cases outcome with
    | written name record generations =>
        rw [handOff, Option.bind_eq_bind, Option.bind_eq_some_iff] at h
        obtain ⟨t, -, h⟩ := h
        cases h
        exact ⟨rfl, rfl⟩
    | failed name cause =>
        cases h
        exact ⟨rfl, rfl⟩
  · cases h
    exact ⟨rfl, rfl⟩

theorem takeJob_clock (s : Store) (fails : Bool) :
    (s.takeJob fails).writer = s.writer ∧ (s.takeJob fails).retention = s.retention := by
  rw [takeJob]
  split
  · split_ifs <;> exact ⟨rfl, rfl⟩
  · split_ifs <;> exact ⟨rfl, rfl⟩
  · exact ⟨rfl, rfl⟩

theorem writeFile_clock (s : Store) (fails : Option HandoffFailure) :
    (s.writeFile fails).writer = s.writer ∧ (s.writeFile fails).retention = s.retention := by
  rw [writeFile]
  split
  · exact ⟨rfl, rfl⟩
  · dsimp only
    split <;> exact ⟨rfl, rfl⟩

theorem sweep_clock {s s' : Store} {systemNow : ℕ} (h : s.sweep systemNow = .ok s') :
    s'.writer.db = s.writer.db ∧ s'.retention = s.retention := by
  rw [sweep] at h
  obtain ⟨handoffs, -, h⟩ := except_bind_eq_ok.mp h
  cases h
  exact ⟨rfl, rfl⟩

/-- A pass moves the clock by at most twice the seconds measured since the one before it, and not
past hub time or the system clock. -/
theorem beginPass_clock (s : Store) (systemNow : ℕ) (reading : Duration) :
    (s.beginPass systemNow reading).writer.db = s.writer.db ∧
      (s.beginPass systemNow reading).retention.clock ≤ s.retention.clock +
        2 * (Machine.running s).measuredBy (.beginPass systemNow reading) ∧
      (s.retention.stage = none →
        (s.beginPass systemNow reading).retention.clock ≤
          (s.beginPass systemNow reading).writer.core.clock ∧
        (s.beginPass systemNow reading).retention.clock ≤ systemNow) := by
  rw [beginPass, Machine.measuredBy]
  cases hstage : s.retention.stage with
  | some stage => exact ⟨rfl, Nat.le_add_right _ _, fun h => by cases h⟩
  | none =>
      refine ⟨rfl, ?_, fun _ => ⟨Retention.begin_le_hub _ _ _ _, Retention.begin_le_system _ _ _ _⟩⟩
      cases hlast : s.retention.lastStart with
      | none =>
          simp only [Retention.begin, hlast]
          exact (retentionNow_sinceOpen_le _ _ _).trans (Nat.le_add_right _ _)
      | some last =>
          simp only [Retention.begin, hlast]
          exact retentionNow_measured_le _ _ _ _

end Store

namespace Machine

/-- The larger of the two clocks: what the retention clock can be after a restart, or without
one. -/
def latestClock (m : Machine) : ℕ := max m.retentionClock m.committedClock

theorem latestClock_stopped (t : Tables) (files : Files) :
    latestClock (.stopped t files) = t.meta.retentionClock :=
  max_self _

/-- A store that runs on or stops with its clocks unchanged. -/
theorem ofOption_clocks {s : Store} {next : Option Store}
    (h : ∀ s', next = some s' → s'.writer.db = s.writer.db ∧ s'.retention = s.retention) :
    (ofOption s next).latestClock ≤ latestClock (.running s) ∧
      ∀ s', ofOption s next = .running s' → s'.retention.clock ≤ s.retention.clock := by
  cases next with
  | none => exact ⟨by rw [ofOption, latestClock_stopped]; exact le_max_right _ _,
      fun s' h' => by cases h'⟩
  | some s' =>
      obtain ⟨hdb, hretention⟩ := h s' rfl
      refine ⟨?_, fun s'' h' => ?_⟩
      · simp [ofOption, latestClock, retentionClock, committedClock, hdb, hretention]
      · cases h'
        rw [hretention]

/-- A step moves the clocks by at most twice the seconds it measured; while the store keeps
running, so it moves the clock in memory alone. -/
theorem step_clocks (m : Machine) (op : StoreOp) :
    (m.step op).latestClock ≤ m.latestClock + 2 * m.measuredBy op ∧
      ∀ s s', m = .running s → m.step op = .running s' →
        s'.retention.clock ≤ s.retention.clock + 2 * m.measuredBy op := by
  have hsame : ∀ {s : Store} (next : Option Store),
      (∀ s', next = some s' → s'.writer.db = s.writer.db ∧ s'.retention = s.retention) →
      (ofOption s next).latestClock ≤ latestClock (.running s) + 2 * measuredBy (.running s) op ∧
        ∀ s₀ s', Machine.running s = .running s₀ → ofOption s next = .running s' →
          s'.retention.clock ≤ s₀.retention.clock + 2 * measuredBy (.running s) op := by
    intro s next h
    obtain ⟨hlatest, hrun⟩ := ofOption_clocks h
    refine ⟨hlatest.trans (Nat.le_add_right _ _), fun s₀ s' h₀ h' => ?_⟩
    cases h₀
    exact (hrun s' h').trans (Nat.le_add_right _ _)
  cases m with
  | stopped t files =>
      refine ⟨?_, fun s s' h => by cases h⟩
      cases op with
      | reopen policies systemNow passNow reading =>
          rw [step, latestClock_stopped]
          split
          next s hopen =>
            obtain ⟨hdb, hclock, -, -⟩ := Store.open_clock hopen
            exact (max_le hclock hdb.le).trans (Nat.le_add_right _ _)
          · rw [latestClock_stopped]
            exact Nat.le_add_right _ _
      | _ => exact Nat.le_add_right _ _
  | running s =>
      cases op with
      | append system generation points systemNow =>
          refine hsame _ fun s' hs' => ?_
          rw [Option.map_eq_some_iff] at hs'
          obtain ⟨⟨report, w⟩, happend, rfl⟩ := hs'
          cases hresult : s.writer.append system generation points systemNow with
          | error e =>
              rw [hresult] at happend
              cases happend
          | ok answer =>
              rw [hresult] at happend
              cases happend
              exact ⟨Writer.append_db hresult, rfl⟩
      | sweep systemNow =>
          refine hsame _ fun s' hs' => ?_
          cases hresult : s.sweep systemNow with
          | error e =>
              rw [hresult] at hs'
              cases hs'
          | ok next =>
              rw [hresult] at hs'
              cases hs'
              exact Store.sweep_clock hresult
      | beginPass systemNow reading =>
          obtain ⟨hdb, hclock, -⟩ := s.beginPass_clock systemNow reading
          refine ⟨max_le (hclock.trans (Nat.add_le_add_right (le_max_left _ _) _)) ?_, ?_⟩
          · have hcommitted : committedClock (.running (s.beginPass systemNow reading)) =
                committedClock (.running s) :=
                  congrArg (fun t : Tables => t.meta.retentionClock) hdb
            exact hcommitted.le.trans ((le_max_right _ _).trans (Nat.le_add_right _ _))
          · intro s₀ s' h₀ h'
            cases h₀
            cases h'
            exact hclock
      | commit flush =>
          obtain ⟨hdb, hclock⟩ := s.commit_clock flush
          refine ⟨max_le ?_ ?_, ?_⟩
          · exact hclock.le.trans ((le_max_left _ _).trans (Nat.le_add_right _ _))
          · exact hdb.le.trans ((le_max_left _ _).trans (Nat.le_add_right _ _))
          · intro s₀ s' h₀ h'
            cases h₀
            cases h'
            exact hclock.le.trans (Nat.le_add_right _ _)
      | handle => exact hsame _ fun s' hs' => Store.handle_clock hs'
      | takeJob fails =>
          obtain ⟨hwriter, hretention⟩ := s.takeJob_clock fails
          exact hsame (some (s.takeJob fails)) fun s' hs' => by
            cases hs'
            exact ⟨congrArg Writer.db hwriter, hretention⟩
      | writeFile fails =>
          obtain ⟨hwriter, hretention⟩ := s.writeFile_clock fails
          exact hsame (some (s.writeFile fails)) fun s' hs' => by
            cases hs'
            exact ⟨congrArg Writer.db hwriter, hretention⟩
      | crash =>
          refine ⟨?_, fun s₀ s' h₀ h' => by cases h'⟩
          rw [step, latestClock_stopped]
          exact (le_max_right _ _).trans (Nat.le_add_right _ _)
      | reopen policies systemNow passNow reading =>
          refine ⟨Nat.le_add_right _ _, fun s₀ s' h₀ h' => ?_⟩
          cases h₀
          cases h'
          exact Nat.le_add_right _ _

/-! ### Whole runs -/

theorem run_cons (m : Machine) (op : StoreOp) (ops : List StoreOp) :
    m.run (op :: ops) = (m.step op).run ops := rfl

theorem run_latestClock (m : Machine) (ops : List StoreOp) :
    (m.run ops).latestClock ≤ m.latestClock + 2 * m.measured ops := by
  induction ops generalizing m with
  | nil => exact Nat.le_add_right _ _
  | cons op ops ih =>
      have hstep := (m.step_clocks op).1
      have hrest := ih (m.step op)
      rw [run_cons, measured]
      omega

/-- A clock value that outlives the run's restarts is exceeded by at most twice the seconds
measured. -/
theorem run_retentionClock {m : Machine} {ops : List StoreOp} (h : m.Kept ops) :
    (m.run ops).retentionClock ≤ m.retentionClock + 2 * m.measured ops := by
  induction ops generalizing m with
  | nil => exact Nat.le_add_right _ _
  | cons op ops ih =>
      cases m with
      | stopped t files =>
          have hle := run_latestClock (.stopped t files) (op :: ops)
          rw [latestClock_stopped] at hle
          exact (le_max_left _ _).trans hle
      | running s =>
          rw [run_cons, measured]
          rcases h with ⟨flush, rfl⟩ | ⟨s', hstep, hkept⟩
          · obtain ⟨hdb, hclock⟩ := s.commit_clock flush
            have hlatest : latestClock (.running (s.commit flush)) = s.retention.clock := by
              simp [latestClock, retentionClock, committedClock, hdb, hclock]
            have hle := run_latestClock (.running (s.commit flush)) ops
            rw [hlatest] at hle
            calc (run (.running (s.commit flush)) ops).retentionClock
                ≤ s.retention.clock + 2 * measured (.running (s.commit flush)) ops :=
                  (le_max_left _ _).trans hle
              _ ≤ s.retention.clock + 2 * (0 + measured (.running (s.commit flush)) ops) := by omega
          · have hclock := ((Machine.running s).step_clocks op).2 s s' rfl hstep
            have hrest := ih hkept
            rw [hstep]
            simp only [retentionClock] at hrest ⊢
            omega

end Machine

/-! ### Age -/

/-- A chunk judged expired is older than its period by the retention clock. -/
theorem spanEnd_add_period_le {tier : Tier} {span : SpanStart} {owner : Owner} {policies : Policies}
    {tombstones : Tombstones} {now : ℕ}
    (h : chunkLiveness tier span (some owner) policies tombstones now = .dead .expired) :
    span.spanEnd tier + Duration.asSecs (policies.effective owner.system tier).period ≤ now := by
  have hpos : 0 < span.spanEnd tier := by
    have hsecs : 0 < tier.spanSecs := by cases tier <;> decide
    rw [SpanStart.spanEnd]
    omega
  have hexpired : expired tier span (policies.effective owner.system tier) now = true := by
    by_contra hnot
    simp only [chunkLiveness, if_neg hnot] at h
    split_ifs at h
    cases h
  simp only [expired, decide_eq_true_eq] at hexpired
  omega

/-- Over any history of the store, with the system clock reading anything: each pass leaves the
retention clock at or before hub time and the system clock; the clock exceeds a value that outlives
the history's restarts by at most twice the whole seconds measured between passes since, and after
a restart it exceeds the clock last committed by no more; and a chunk that a commit wrote is not
judged expired while twice the seconds measured since fall short of its span's end plus its period
less the clock of that commit. -/
theorem Machine.clock_guarded :
    (∀ t files policies systemNow passNow reading s,
      Store.open t files policies systemNow passNow reading = .ok s →
      s.retention.clock ≤ s.writer.core.clock ∧ s.retention.clock ≤ passNow) ∧
    (∀ (s : Store) systemNow reading, s.retention.stage = none →
      (s.beginPass systemNow reading).retention.clock ≤
        (s.beginPass systemNow reading).writer.core.clock ∧
        (s.beginPass systemNow reading).retention.clock ≤ systemNow) ∧
    (∀ (m : Machine) ops, m.Kept ops →
      (m.run ops).retentionClock ≤ m.retentionClock + 2 * m.measured ops) ∧
    (∀ (m : Machine) ops, max (m.run ops).retentionClock (m.run ops).committedClock ≤
      max m.retentionClock m.committedClock + 2 * m.measured ops) ∧
    ∀ (s : Store) flush ops tier span owner policies tombstones now,
      now = (run (.running (s.commit flush)) ops).retentionClock ∨
        now = (run (.running (s.commit flush)) ops).committedClock →
      2 * measured (.running (s.commit flush)) ops < SpanStart.spanEnd span tier +
        Duration.asSecs (policies.effective owner.system tier).period - s.retention.clock →
      chunkLiveness tier span (some owner) policies tombstones now ≠ .dead .expired := by
  refine ⟨?_, ?_, fun m ops => run_retentionClock, run_latestClock, ?_⟩
  · intro t files policies systemNow passNow reading s hopen
    exact (Store.open_clock hopen).2.2
  · intro s systemNow reading
    exact (s.beginPass_clock systemNow reading).2.2
  · intro s flush ops tier span owner policies tombstones now hnow hyoung hexpired
    obtain ⟨hdb, hclock⟩ := s.commit_clock flush
    have hlatest : latestClock (.running (s.commit flush)) = s.retention.clock := by
      simp [latestClock, retentionClock, committedClock, hdb, hclock]
    have hle := run_latestClock (.running (s.commit flush)) ops
    rw [hlatest] at hle
    have hnowLe : now ≤ latestClock (run (.running (s.commit flush)) ops) := by
      rcases hnow with rfl | rfl
      · exact le_max_left _ _
      · exact le_max_right _ _
    have hold := spanEnd_add_period_le hexpired
    omega

namespace Machine

/-- A new store whose second pass, after two commits, reads a system clock stepped back by half. -/
def steppedBack : List StoreOp :=
  [.reopen (.new .default) 100 100 0, .commit (.rotation 0), .commit (.rotation 0), .beginPass 50 0]

/-- The pass lowers the clock, and the next commit keeps it low over a restart. -/
theorem clock_guarded_steppedBack :
    ((new 100).run steppedBack).retentionClock = 50 ∧
      ((new 100).run steppedBack).Kept
        [.commit (.rotation 0), .crash, .reopen (.new .default) 100 100 0] ∧
      (((new 100).run steppedBack).run
        [.commit (.rotation 0), .crash, .reopen (.new .default) 100 100 0]).retentionClock ≤
          50 := by
  have hclock : ((new 100).run steppedBack).retentionClock = 50 := by decide +kernel
  have hmeasured : ((new 100).run steppedBack).measured
      [.commit (.rotation 0), .crash, .reopen (.new .default) 100 100 0] = 0 := by decide +kernel
  have hkept : ((new 100).run steppedBack).Kept
      [.commit (.rotation 0), .crash, .reopen (.new .default) 100 100 0] := by
    cases (new 100).run steppedBack with
    | running s => exact Or.inl ⟨_, rfl⟩
    | stopped t files => trivial
  have hle := clock_guarded.2.2.1 _ _ hkept
  rw [hclock, hmeasured] at hle
  exact ⟨hclock, hkept, hle⟩

/-- A pass that lowered the clock is lost in a crash before the commit: the restart resumes the
higher clock, with nothing measured. -/
theorem lost_pass_raises_clock :
    ¬∀ systemNow before after,
      (((new systemNow).run before).run after).retentionClock ≤
        ((new systemNow).run before).retentionClock + 2 *
          ((new systemNow).run before).measured after := by
  intro h
  have hlost := h 100 steppedBack [.crash, .reopen (.new .default) 100 100 0]
  revert hlost
  decide +kernel

end Machine

end MonitoringAgent.HubStore

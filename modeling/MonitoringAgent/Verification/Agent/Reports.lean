import MonitoringAgent.Verification.Agent.Alerts
import MonitoringAgent.Verification.Agent.MailIncidents

/-! # Reports within their bounds

What every report of a mail client keeps to: how many samples and alerts it carries, how old its
samples are and how long the texts of its alerts. -/

namespace MonitoringAgent.Agent

open MonitoringAgent.Library

/-! ### Texts -/

theorem utf8ByteSize_padded {width n k : ℕ} (hwidth : width ≤ k) (hk : 0 < k) (h : n < 10 ^ k) :
    (padded width n).utf8ByteSize ≤ k := by
  have hdigits := length_toString_le hk h
  rw [padded, String.utf8ByteSize_append, utf8ByteSize_zeros, utf8ByteSize_toString]
  omega

theorem daysInYear_le (y : ℕ) : 365 ≤ daysInYear y ∧ daysInYear y ≤ 366 := by
  rw [daysInYear]
  split_ifs
  · decide
  · decide

theorem yearOf_le (y d : ℕ) : (yearOf y d).1 ≤ y + d ∧ (yearOf y d).2 < 366 := by
  fun_induction yearOf y d with
  | case1 y d hin =>
      have hdays := daysInYear_le y
      exact ⟨Nat.le_add_right y d, by omega⟩
  | case2 y d hover ih =>
      have hdays := daysInYear_le y
      omega

theorem monthOf_le (m d : ℕ) (days : List ℕ) :
    (monthOf m d days).1 ≤ m + days.length ∧ (monthOf m d days).2 ≤ d := by
  fun_induction monthOf m d days with
  | case1 m d => exact ⟨le_rfl, le_rfl⟩
  | case2 m d days rest hin => exact ⟨Nat.le_add_right _ _, le_rfl⟩
  | case3 m d days rest hover ih =>
      rw [List.length_cons]
      omega

/-- The text of a 64-bit time is short. -/
theorem utf8ByteSize_unixToIso8601 {secs : ℕ} (h : secs < 2 ^ 64) :
    (unixToIso8601 secs).utf8ByteSize ≤ 64 := by
  have hyear := yearOf_le 1970 (secs / 86400)
  have hmonth : ∀ days : List ℕ, days.length = 12 →
      (monthOf 1 (yearOf 1970 (secs / 86400)).2 days).1 < 10 ^ 2 ∧
      (monthOf 1 (yearOf 1970 (secs / 86400)).2 days).2 + 1 < 10 ^ 3 := by
    intro days hdays
    have hle := monthOf_le 1 (yearOf 1970 (secs / 86400)).2 days
    omega
  have hdash : "-".utf8ByteSize = 1 ∧ "T".utf8ByteSize = 1 ∧ ":".utf8ByteSize = 1 ∧
      "Z".utf8ByteSize = 1 :=
    ⟨rfl, rfl, rfl, rfl⟩
  have hclock : ∀ n < 10 ^ 2, (padded 2 n).utf8ByteSize ≤ 2 := fun n hn =>
    utf8ByteSize_padded le_rfl (by decide) hn
  rw [unixToIso8601]
  dsimp only
  generalize hdays : (if isLeap (yearOf 1970 (secs / 86400)).1 = true then
    [31, 29, 31, 30, 31, 30, 31, 31, 30, 31, 30, 31]
    else [31, 28, 31, 30, 31, 30, 31, 31, 30, 31, 30, 31]) = days
  obtain ⟨hm, hd⟩ := hmonth days (by rw [← hdays]; split_ifs <;> rfl)
  have hy : (padded 4 (yearOf 1970 (secs / 86400)).1).utf8ByteSize ≤ 15 :=
    utf8ByteSize_padded (by decide) (by decide) (by omega)
  have hday : (padded 2 _).utf8ByteSize ≤ 3 := utf8ByteSize_padded (by decide) (by decide) hd
  have hhour := hclock (secs % 86400 / 3600) (by omega)
  have hminute := hclock (secs % 86400 % 3600 / 60) (by omega)
  have hsecond := hclock (secs % 86400 % 60) (by omega)
  have hmonths := hclock _ hm
  simp only [String.utf8ByteSize_append]
  omega

theorem utf8ByteSize_display (id : IncidentId) (h : id.sequence < 2 ^ 64) :
    id.display.utf8ByteSize ≤ 64 := by
  have hdigits : (toString id.sequence).length ≤ 20 :=
    length_toString_le (by decide) (h.trans (by decide))
  rw [IncidentId.display, String.utf8ByteSize_append, String.utf8ByteSize_append,
    Uuid.utf8ByteSize_hyphenated, utf8ByteSize_toString]
  have hdash : "-".utf8ByteSize = 1 := rfl
  omega

theorem sum_takeBytes_le (max : ℕ) (cs : List Char) :
    ((takeBytes max cs).map Char.utf8Size).sum ≤ max := by
  fun_induction takeBytes max cs with
  | case1 max => exact Nat.zero_le _
  | case2 max c cs hfits ih =>
      rw [List.map_cons, List.sum_cons]
      omega
  | case3 max c cs hover => exact Nat.zero_le _

theorem utf8ByteSize_cutTo (text : String) (max : ℕ) : (cutTo text max).utf8ByteSize ≤ max := by
  rw [cutTo, utf8ByteSize_ofList]
  exact sum_takeBytes_le max text.toList

/-! ### Alerts -/

/-- The longest of an alert's texts but its message, in bytes. -/
def maxAlertFieldBytes : ℕ := 64

/-- The alert's texts are short; its message is cut by the report. -/
structure Brief (alert : MailedAlert) : Prop where
  id_le : alert.id.utf8ByteSize ≤ maxAlertFieldBytes
  firedAt_le : alert.firedAt.utf8ByteSize ≤ maxAlertFieldBytes
  message_le : alert.message.utf8ByteSize ≤ maxAlertMessageBytes

/-- The alerts that a manager of the run may have active. Its clock and its count of incidents are
`u64`s. -/
def ActiveIn (f : Floats F32) (run : AgentRun) (alerts : List (ActiveAlert F32)) : Prop :=
  ∃ rules ops, (∀ r now, .evaluate r now ∈ ops → now < 2 ^ 64) ∧
    ((AlertManager.new run rules).run f ops).incidents.minted < 2 ^ 64 ∧
    ((AlertManager.new run rules).run f ops).activeAlerts = alerts

/-- Every incident became active at a `u64` time. -/
def Timed {V : Type} (states : ℕ → RuleState V) : Prop :=
  ∀ i incident, Alive states i incident → incident.activatedAt < 2 ^ 64

section Timed

variable {V : Type} {f : Floats V} {r : Readings V} {now : ℕ}

theorem Timed.rule {e : Evaluation V} (hnow : now < 2 ^ 64) (h : Timed e.states)
    (entry : AlertRule V × ℕ) : Timed (e.rule f r now entry).states := by
  intro i incident halive
  obtain ⟨hother, hcases⟩ := Evaluation.rule_incident f r now e entry
  by_cases hi : i = entry.2
  · subst hi
    rw [Alive] at halive
    obtain ⟨-, hnone, -⟩ | ⟨-, hsame, -⟩ | ⟨-, -, hfresh, -⟩ := hcases
    · rw [hnone] at halive
      cases halive
    · exact h entry.2 incident (hsame.symm.trans halive)
    · rw [hfresh] at halive
      cases halive
      exact hnow
  · rw [Alive, hother i hi] at halive
    exact h i incident halive

theorem timed_run (run : AgentRun) (rules : List (AlertRule V)) {ops : List (AlertOp V)}
    (hops : ∀ r now, .evaluate r now ∈ ops → now < 2 ^ 64) :
    Timed ((AlertManager.new run rules).run f ops).states := by
  have hempty : Timed fun _ => (RuleState.default : RuleState V) :=
    fun i incident halive => by cases halive
  refine List.foldlRecOn (motive := fun m : AlertManager V => Timed m.states) ops _ hempty ?_
  intro m hm op hop
  cases op with
  | evaluate r now =>
      exact List.foldlRecOn (motive := fun e : Evaluation V => Timed e.states) m.entries _ hm
        fun e he entry _ => he.rule (hops r now hop) entry
  | replaceRules rules => exact hempty

end Timed

/-- Active alerts are mailed with short texts. -/
theorem ActiveIn.brief {f : Floats F32} {run : AgentRun} {alerts : List (ActiveAlert F32)}
    (h : ActiveIn f run alerts) : ∀ alert ∈ alerts, Brief (.from alert) := by
  obtain ⟨rules, ops, hops, hminted, rfl⟩ := h
  intro alert hmem
  have hids := AlertManager.ids_run (f := f) run rules ops
  have htimed := timed_run (f := f) run rules hops
  cases ops using List.reverseRecOn with
  | nil => cases hmem
  | append_singleton ops op =>
      rw [AlertManager.run_append] at hmem hminted hids htimed
      generalize (AlertManager.new run rules).run f ops = m at hmem hminted hids htimed
      cases op with
      | replaceRules rules => cases hmem
      | evaluate r now =>
          obtain ⟨-, -, hactive, -⟩ := AlertManager.evaluate_spec f m r now
          have hin : alert ∈ (m.evaluate f r now).2.activeAlerts := hmem
          rw [hactive, List.mem_filterMap] at hin
          obtain ⟨entry, -, hfound⟩ := hin
          obtain ⟨rule, incident, -, -, halive, hid, hfired⟩ := AlertManager.alertOf_eq_some hfound
          have hsequence := (hids.minted _ incident halive).2
          refine ⟨?_, ?_, utf8ByteSize_cutTo _ _⟩
          · exact (congrArg String.utf8ByteSize hid).trans_le
              (utf8ByteSize_display _ (hsequence.trans_lt hminted))
          · exact (congrArg String.utf8ByteSize hfired).trans_le
              (utf8ByteSize_unixToIso8601 (htimed _ _ halive))

/-! ### Clocks -/

/-- The wall clock at an instant, in Unix seconds, and 0 before 1970; `epoch` is its time at instant
0, in nanoseconds. -/
def wallClock (epoch : ℤ) (time : ℕ) : ℕ := ((epoch + time) / 1000000000).toNat

/-- The tick reads a wall clock that advances with the monotonic one, and so was its snapshot's
collected, which may still be served. A wall clock's seconds are an `i64`. -/
structure OnClock (epoch : ℤ) (tick : MailTick) : Prop where
  createdAt_eq : tick.createdAt.toNat = wallClock epoch tick.now
  inRange : wallClock epoch tick.now < 2 ^ 63
  fresh : ∀ snapshot, tick.fresh = some snapshot → snapshot.readAt ≤ tick.now ∧
    freshSnapshot snapshot tick.now = some snapshot ∧
    snapshot.collectedAt.toNat = wallClock epoch snapshot.readAt

/-- Ticks on the clock, none before `start` and none over 60 s after the last. -/
structure OnTime (epoch : ℤ) (start : ℕ) (ticks : List MailTick) : Prop where
  onClock : ∀ tick ∈ ticks, OnClock epoch tick
  started : ∀ tick ∈ ticks, start ≤ tick.now
  spaced : ticks.IsChain fun earlier later => earlier.now ≤ later.now ∧
    later.now ≤ earlier.now + seconds 60

theorem wallClock_mono (epoch : ℤ) {earlier later : ℕ} (h : earlier ≤ later) :
    wallClock epoch earlier ≤ wallClock epoch later := by
  rw [wallClock, wallClock]
  omega

/-- The wall clock advances by the time passed, and a second at most for the parts of seconds. -/
theorem wallClock_le_add (epoch : ℤ) {earlier later secs : ℕ} (h : later ≤ earlier + seconds secs) :
    wallClock epoch later ≤ wallClock epoch earlier + secs + 1 := by
  rw [seconds] at h
  rw [wallClock, wallClock]
  omega

/-! ### Samples -/

/-- What a batch holds at `now`, its window open since `opened`: snapshots read in order and no
earlier than the window allows, and few alerts with short texts. -/
structure Held (epoch : ℤ) (opened now : ℕ) (b : MailBatch)
    (kept : List (PublishedSnapshot SystemSnapshot)) : Prop where
  samples_eq : b.samples = kept.map MailedSnapshot.from
  few : kept.length ≤ maxSamples
  collected : ∀ s ∈ kept, s.collectedAt.toNat = wallClock epoch s.readAt
  recent : ∀ s ∈ kept, opened ≤ s.readAt + stalenessBound
  past : ∀ s ∈ kept, s.readAt ≤ now
  sorted : kept.Pairwise fun earlier later => earlier.readAt ≤ later.readAt
  lastKept : ∀ s ∈ kept, ∃ last, b.lastKept = some last ∧ s.readAt ≤ last
  fewAlerts : b.alerts.length ≤ maxAlerts
  brief : ∀ alert ∈ b.alerts, Brief alert

/-- A report within the bounds the agent keeps to. -/
structure Bounded (mail : MailInterval) (report : MailReport) : Prop where
  interval_eq : report.interval = mail
  created_lt : report.createdAt.toNat < 2 ^ 63
  nonempty : report.snapshots ≠ []
  few : report.snapshots.length ≤ maxSamples
  recent : ∀ s ∈ report.snapshots, report.createdAt.toNat ≤ s.collectedAt.toNat + mail.secs + 91
  past : ∀ s ∈ report.snapshots, s.collectedAt.toNat ≤ report.createdAt.toNat
  sorted : report.snapshots.Pairwise fun earlier later => earlier.collectedAt.toNat ≤
    later.collectedAt.toNat
  fewAlerts : report.alerts.length ≤ maxAlerts
  brief : ∀ alert ∈ report.alerts, Brief alert

section Held

variable {epoch : ℤ} {opened now : ℕ} {b : MailBatch}
    {kept : List (PublishedSnapshot SystemSnapshot)}

/-- An offer keeps what a batch holds in order: a sample is due only a while after the last one
kept. -/
theorem Held.offer (h : Held epoch opened now b kept) {snapshot : PublishedSnapshot SystemSnapshot}
    {later : ℕ} (hlater : now ≤ later) (hopened : opened ≤ later) (hread : snapshot.readAt ≤ later)
    (hfresh : later ≤ snapshot.readAt + stalenessBound)
    (hcollected : snapshot.collectedAt.toNat = wallClock epoch snapshot.readAt) :
    ∃ kept', Held epoch opened later (b.offer (.from snapshot) snapshot.readAt).2 kept' ∧
      ∀ s ∈ kept', s ∈ kept ∨ s = snapshot := by
  have hpast : ∀ s ∈ kept, s.readAt ≤ later := fun s hs => (h.past s hs).trans hlater
  rw [MailBatch.offer]
  split_ifs with hdue
  · have hbefore : ∀ s ∈ kept, s.readAt ≤ snapshot.readAt := by
      intro s hs
      obtain ⟨last, hlast, hle⟩ := h.lastKept s hs
      have hspaced := (due_iff b snapshot.readAt).mp hdue last hlast
      have hten := b.sampleInterval.ten_le
      rw [SampleInterval.asDuration, seconds] at hspaced
      omega
    refine ⟨pushBounded maxSamples kept snapshot,
      ⟨?_, ?_, ?_, ?_, ?_, ?_, ?_, h.fewAlerts, h.brief⟩, fun s => mem_pushBounded⟩
    · simp only [h.samples_eq, pushBounded, List.length_map]
      split_ifs
      · simp
      · simp
    · exact length_pushBounded_le (by decide) h.few snapshot
    · intro s hs
      obtain hs | rfl := mem_pushBounded hs
      · exact h.collected s hs
      · exact hcollected
    · intro s hs
      obtain hs | rfl := mem_pushBounded hs
      · exact h.recent s hs
      · exact hopened.trans hfresh
    · intro s hs
      obtain hs | rfl := mem_pushBounded hs
      · exact hpast s hs
      · exact hread
    · rw [pushBounded, List.pairwise_append]
      split_ifs
      · exact ⟨h.sorted.sublist (List.drop_sublist 1 kept),
            List.pairwise_singleton _ _, fun s hs t ht =>
          List.mem_singleton.mp ht ▸ hbefore s (List.mem_of_mem_drop hs)⟩
      · exact ⟨h.sorted, List.pairwise_singleton _ _,
          fun s hs t ht => List.mem_singleton.mp ht ▸ hbefore s hs⟩
    · intro s hs
      refine ⟨snapshot.readAt, rfl, ?_⟩
      obtain hs | rfl := mem_pushBounded hs
      · exact hbefore s hs
      · exact le_rfl
  · exact ⟨kept, { h with past := hpast }, fun s hs => .inl hs⟩

theorem Held.noteAlerts (h : Held epoch opened now b kept) {alerts : List (ActiveAlert F32)}
    (hbrief : ∀ alert ∈ alerts, Brief (.from alert)) :
    Held epoch opened now (b.noteAlerts alerts).2 kept where
  __ := h
  fewAlerts := by
    change (alerts.foldl MailBatch.noteAlert b.alerts).length ≤ maxAlerts
    refine List.foldlRecOn (motive := fun noted : List MailedAlert => noted.length ≤
      maxAlerts) alerts _ h.fewAlerts ?_
    intro noted hnoted alert _
    rw [MailBatch.noteAlert]
    split_ifs
    · exact hnoted
    · exact length_pushBounded_le (by decide) hnoted _
  brief alert hmem := by
    have hin : alert ∈ (alerts.map MailedAlert.from).foldl
        (noteBounded maxAlerts (·.id)) b.alerts := by
      rw [← foldl_noteAlert]
      exact hmem
    obtain hheld | hnew := foldl_noteBounded_keys hin
    · exact h.brief alert hheld
    · obtain ⟨active, hactive, rfl⟩ := List.mem_map.mp hnew
      exact hbrief active hactive

/-- A tick's gathering keeps what the batch holds in order, and adds what may still be served. -/
theorem Held.gather (h : Held epoch opened now b kept) {tick : MailTick} (hnow : now ≤ tick.now)
    (hopened : opened ≤ now) (htick : OnClock epoch tick)
    (hbrief : ∀ alert ∈ tick.alerts, Brief (.from alert)) :
    ∃ kept', Held epoch opened tick.now (b.gather tick).2 kept' ∧
      ∀ s ∈ kept', s ∈ kept ∨ tick.now ≤ s.readAt + stalenessBound := by
  rw [MailBatch.gather]
  cases hfresh : tick.fresh with
  | none =>
      have hpast : ∀ s ∈ kept, s.readAt ≤ tick.now := fun s hs => (h.past s hs).trans hnow
      have hlater : Held epoch opened tick.now b kept := { h with past := hpast }
      exact ⟨kept, hlater.noteAlerts hbrief, fun s hs => .inl hs⟩
  | some snapshot =>
      obtain ⟨hread, hserved, hcollected⟩ := htick.fresh snapshot hfresh
      have hstale : tick.now ≤ snapshot.readAt + stalenessBound := by
        rw [freshSnapshot, Option.ite_none_right_eq_some, PublishedSnapshot.isFresh,
          decide_eq_true_eq] at hserved
        omega
      obtain ⟨kept', hheld, hmem⟩ := h.offer hnow (hopened.trans hnow) hread hstale hcollected
      refine ⟨kept', hheld.noteAlerts hbrief, fun s hs => (hmem s hs).imp_right ?_⟩
      rintro rfl
      exact hstale

/-- A close empties the batch of its samples, and reports them all. -/
theorem Held.close (h : Held epoch opened now b kept) {mail : MailInterval} (reason : ReportReason)
    {createdAt : UInt64} (round : Option (ScrapeRound F64))
    (hcreated : createdAt.toNat = wallClock epoch now) (hrange : wallClock epoch now < 2 ^ 63)
    (hrecent : ∀ s ∈ kept, now ≤ s.readAt + seconds (mail.secs + 90)) (opened' : ℕ) :
    Held epoch opened' now (b.close mail reason createdAt round).2 [] ∧
      ∀ report, (b.close mail reason createdAt round).1 = some report → Bounded mail report := by
  rw [MailBatch.close]
  split_ifs with hempty
  · refine ⟨⟨hempty, Nat.zero_le _, ?_, ?_, ?_, List.Pairwise.nil, ?_, h.fewAlerts, h.brief⟩, ?_⟩
    iterate 4 exact fun s hs => absurd hs List.not_mem_nil
    exact fun report hreport => by cases hreport
  · refine ⟨⟨rfl, Nat.zero_le _, ?_, ?_, ?_, List.Pairwise.nil, ?_, Nat.zero_le _, ?_⟩, ?_⟩
    iterate 5 exact fun s hs => absurd hs List.not_mem_nil
    rintro report ⟨⟩
    have hsample : ∀ sample ∈ b.samples, ∃ s ∈ kept, MailedSnapshot.from s = sample := by
      intro sample hsample
      rw [h.samples_eq] at hsample
      exact List.mem_map.mp hsample
    refine ⟨rfl, hcreated ▸ hrange, hempty, ?_, ?_, ?_, ?_, h.fewAlerts, h.brief⟩
    · exact (congrArg List.length h.samples_eq).trans_le ((List.length_map _).trans_le h.few)
    · intro sample hmem
      obtain ⟨s, hs, rfl⟩ := hsample sample hmem
      rw [hcreated, MailedSnapshot.from_collectedAt, h.collected s hs]
      exact wallClock_le_add epoch (hrecent s hs)
    · intro sample hmem
      obtain ⟨s, hs, rfl⟩ := hsample sample hmem
      rw [hcreated, MailedSnapshot.from_collectedAt, h.collected s hs]
      exact wallClock_mono epoch (h.past s hs)
    · dsimp only
      rw [h.samples_eq, List.pairwise_map]
      refine h.sorted.imp_of_mem fun hs ht hle => ?_
      rw [MailedSnapshot.from_collectedAt, MailedSnapshot.from_collectedAt,
        h.collected _ hs, h.collected _ ht]
      exact wallClock_mono epoch hle

end Held

/-! ### Runs -/

/-- A client after its tick at `now`: its next report is ahead, and its window opened a mail
interval before it. -/
structure Waiting (epoch : ℤ) (mail : MailInterval) (now : ℕ) (c : MailClient) : Prop where
  ahead : now < c.nextReport
  held : ∃ opened kept, c.nextReport = opened + mail.asDuration ∧ opened ≤ now ∧
    Held epoch opened now c.batch kept

section Waiting

variable {epoch : ℤ} {mail : MailInterval} {now : ℕ} {c : MailClient}

theorem waiting_new (epoch : ℤ) (run : AgentRun) (mail : MailInterval)
    (interval : SampleInterval) (start : ℕ) :
    Waiting epoch mail start (MailClient.new run mail interval start) := by
  have hmail := mail.inRange
  refine ⟨?_, start, [], rfl, le_rfl, rfl, Nat.zero_le _, ?_, ?_, ?_, List.Pairwise.nil,
    ?_, Nat.zero_le _, ?_⟩
  · rw [MailClient.new, MailInterval.asDuration, seconds]
    dsimp only
    omega
  all_goals exact fun s hs => absurd hs List.not_mem_nil

/-- A tick at most 60 s after the last reports only what is within the bounds. -/
theorem Waiting.tick (h : Waiting epoch mail now c) {tick : MailTick} (hnow : now ≤ tick.now)
    (hgap : c.batch.samples = [] ∨ tick.now ≤ now + seconds 60) (htick : OnClock epoch tick)
    (hbrief : ∀ alert ∈ tick.alerts, Brief (.from alert)) :
    Waiting epoch mail tick.now (c.tick mail tick).2 ∧
      ∀ report, (c.tick mail tick).1.report = some report → Bounded mail report := by
  obtain ⟨hahead, opened, kept, hnext, hopened, hheld⟩ := h
  obtain ⟨kept', hgathered, hmem⟩ := hheld.gather hnow hopened htick hbrief
  have hmail := mail.inRange
  rw [MailInterval.asDuration, seconds] at hnext
  -- A sample is of this tick, or of a window that was open a minute ago.
  have hrecent : ∀ s ∈ kept', tick.now ≤ s.readAt + seconds (mail.secs + 90) := by
    intro s hs
    rw [seconds] at hgap ⊢
    obtain hold | hnew := hmem s hs
    · have hread := hheld.recent s hold
      rw [stalenessBound, seconds] at hread
      obtain hempty | hgap := hgap
      · rw [hheld.samples_eq, List.map_eq_nil_iff] at hempty
        rw [hempty] at hold
        cases hold
      · omega
    · exact hnew.trans (Nat.add_le_add_left (Nat.mul_le_mul_right _ (by omega)) _)
  have hclosed := fun reason opened' =>
    hgathered.close reason tick.round htick.createdAt_eq htick.inRange hrecent opened'
  have hticked := tick_ticked mail c tick
  generalize (c.tick mail tick).1 = did at hticked ⊢
  generalize (c.tick mail tick).2 = c' at hticked ⊢
  cases hticked with
  | scheduled hdue =>
      obtain ⟨hempty, hreport⟩ := hclosed .scheduled tick.now
      refine ⟨⟨?_, tick.now, [], rfl, le_rfl, hempty⟩, hreport⟩
      rw [MailInterval.asDuration, seconds]
      dsimp only
      omega
  | incident hdue hnew hallows =>
      obtain ⟨hempty, hreport⟩ := hclosed .incident opened
      refine ⟨⟨hdue, opened, [], ?_, hopened.trans hnow, hempty⟩, hreport⟩
      rw [MailInterval.asDuration, seconds]
      exact hnext
  | none hdue hno =>
      refine ⟨⟨hdue, opened, kept', ?_, hopened.trans hnow, hgathered⟩, fun report hreport => by
        cases hreport⟩
      rw [MailInterval.asDuration, seconds]
      exact hnext

theorem Waiting.run (h : Waiting epoch mail now c) {ticks : List MailTick}
    (hnow : ∀ tick ∈ ticks.head?, now ≤ tick.now)
    (hgap : c.batch.samples = [] ∨ ∀ tick ∈ ticks.head?, tick.now ≤ now + seconds 60)
    (hclock : ∀ tick ∈ ticks, OnClock epoch tick)
    (hspaced : ticks.IsChain fun earlier later => earlier.now ≤ later.now ∧
      later.now ≤ earlier.now + seconds 60)
    (hbrief : ∀ tick ∈ ticks, ∀ alert ∈ tick.alerts, Brief (.from alert)) :
    ∀ did ∈ (c.run mail ticks).1, ∀ report, did.report = some report → Bounded mail report := by
  induction ticks generalizing now c with
  | nil => exact fun did hdid => absurd hdid List.not_mem_nil
  | cons tick ticks ih =>
      obtain ⟨hnext, hrest⟩ := List.isChain_cons.mp hspaced
      obtain ⟨hwaiting, hreport⟩ := h.tick (hnow tick rfl) (hgap.imp_right fun hle => hle tick rfl)
        (hclock tick List.mem_cons_self) (hbrief tick List.mem_cons_self)
      rw [MailClient.run]
      intro did hdid
      obtain rfl | hdid := List.mem_cons.mp hdid
      · exact hreport
      · exact ih hwaiting (fun later hlater => (hnext later hlater).1)
          (.inr fun later hlater => (hnext later hlater).2)
          (fun t ht => hclock t (List.mem_cons_of_mem _ ht)) hrest
          (fun t ht => hbrief t (List.mem_cons_of_mem _ ht)) did hdid

end Waiting

/-- Every report of a run on time keeps to the bounds. -/
theorem reports_bounded (run : AgentRun) (mail : MailInterval) (interval : SampleInterval)
    {epoch : ℤ} {start : ℕ} {ticks : List MailTick} (htime : OnTime epoch start ticks)
    {f : Floats F32} (hactive : ∀ tick ∈ ticks, ActiveIn f run tick.alerts) :
    ∀ did ∈ (started run mail interval start ticks).1, ∀ report, did.report = some report →
      Bounded mail report :=
  (waiting_new epoch run mail interval start).run
    (fun tick htick => htime.started tick (List.mem_of_mem_head? htick))
    (.inl rfl) htime.onClock htime.spaced
    fun tick htick => (hactive tick htick).brief

end MonitoringAgent.Agent

import MonitoringAgent.Verification.Agent.Mail
import MonitoringAgent.Verification.Agent.MailSamples

/-! # Incident reports

When a new incident is mailed at its own tick: exactly while the batch has a sample to carry it. -/

namespace MonitoringAgent.Agent

open MonitoringAgent.Library

/-- Ticks 2 s apart from `first` on, each with a snapshot that may still be served. -/
def ServedFrom (first : ℕ) (ticks : List MailTick) : Prop :=
  ∀ k tick, ticks[k]? = some tick → tick.now = first + k * mailTick ∧
    ∃ snapshot, tick.fresh = some snapshot ∧ freshSnapshot snapshot tick.now = some snapshot

/-- The incidents active on the last of some ticks. -/
def activeBefore (ticks : List MailTick) : List String :=
  (ticks.getLast?.map fun tick => tick.alerts.map (·.id)).getD []

/-- When a run mailed its incident reports. -/
def incidentReports (ticks : List MailTick) (did : List MailTicked) : List ℕ :=
  (ticks.zip did).filterMap fun (tick, did) =>
    if did.report.map (·.reason) = some .incident then some tick.now else none

/-- What a client started at `start` did over some ticks, and as what they left it. -/
def started (run : AgentRun) (mail : MailInterval) (interval : SampleInterval) (start : ℕ)
    (ticks : List MailTick) : List MailTicked × MailClient :=
  (MailClient.new run mail interval start).run mail ticks

/-- Incident reports go out at once: an incident that became active, with no incident report in the
60 s before, is in a report of its own tick, and no tick uses up the incident pace without a report.
-/
structure MailsAtOnce (run : AgentRun) (mail : MailInterval) (interval : SampleInterval) (start : ℕ)
    (ticks : List MailTick) : Prop where
  mailed : ∀ earlier tick later, ticks = earlier ++ tick :: later →
    ∀ alert ∈ tick.alerts, alert.id ∉ activeBefore earlier →
      (∀ time ∈ incidentReports earlier (started run mail interval start earlier).1,
        time + incidentSpacing ≤ tick.now) →
      ∃ report, ((started run mail interval start earlier).2.tick mail tick).1.report =
        some report ∧
        alert.id ∈ report.alerts.map (·.id)
  paced : ∀ earlier tick later, ticks = earlier ++ tick :: later →
    ((started run mail interval start earlier).2.tick mail tick).1.report = none →
      ((started run mail interval start earlier).2.tick mail tick).2.pace =
        (started run mail interval start earlier).2.pace

/-- Whether a tick finds an incident that wasn't active on the one before, which the pace lets be
mailed. -/
def WantsReport (c : MailClient) (tick : MailTick) : Prop :=
  (∃ alert ∈ tick.alerts, alert.id ∉ c.batch.active) ∧ (c.pace.allows tick.now).1 = true

/-- Whether a tick has a sample to mail: one waits, or one is due. -/
def HasSample (c : MailClient) (tick : MailTick) : Prop :=
  c.batch.samples ≠ [] ∨ ∃ snapshot, tick.fresh = some snapshot ∧ c.batch.due snapshot.readAt = true

/-- Whether a tick's new incidents fit their report: at most 64 are noted since the last, or at most
64 are active at once and the new ones weren't noted since the last. -/
def Fits (c : MailClient) (tick : MailTick) : Prop :=
  (firstOfEach (·.id) (c.batch.alerts ++ tick.alerts.map MailedAlert.from)).length ≤ maxAlerts ∨
    tick.alerts.length ≤ maxAlerts ∧
      ∀ alert ∈ tick.alerts, alert.id ∉ c.batch.active → alert.id ∉ c.batch.alerts.map (·.id)

/-! ### One tick -/

theorem gather_alerts (b : MailBatch) (tick : MailTick) :
    (b.gather tick).2.alerts = tick.alerts.foldl MailBatch.noteAlert b.alerts ∧
      (b.gather tick).2.active = tick.alerts.map (·.id) ∧
      (b.gather tick).1.2 = tick.alerts.any (fun alert => !b.active.contains alert.id) := by
  rw [MailBatch.gather]
  cases tick.fresh with
  | none => exact ⟨rfl, rfl, rfl⟩
  | some snapshot =>
      have hframe : (b.offer (.from snapshot) snapshot.readAt).2.alerts = b.alerts ∧
          (b.offer (.from snapshot) snapshot.readAt).2.active = b.active := by
        rw [MailBatch.offer]
        split_ifs
        · exact ⟨rfl, rfl⟩
        · exact ⟨rfl, rfl⟩
      obtain ⟨halerts, hactive⟩ := hframe
      refine ⟨?_, rfl, ?_⟩
      · rw [← halerts]
        rfl
      · rw [← hactive]
        rfl

theorem gather_new (b : MailBatch) (tick : MailTick) :
    (b.gather tick).1.2 = true ↔ ∃ alert ∈ tick.alerts, alert.id ∉ b.active := by
  rw [(gather_alerts b tick).2.2]
  simp

/-- A gathered batch has a sample when one waited or one was due. -/
theorem gather_samples (c : MailClient) (tick : MailTick) :
    (c.batch.gather tick).2.samples ≠ [] ↔ HasSample c tick := by
  rw [HasSample]
  cases hfresh : tick.fresh with
  | none =>
      have hsame : (c.batch.gather tick).2.samples = c.batch.samples := by
        rw [MailBatch.gather, hfresh]
        rfl
      rw [hsame]
      simp
  | some snapshot =>
      rw [(gather_fresh hfresh c.batch).2.1, MailBatch.offer]
      split_ifs with hdue
      · simp [pushBounded, hdue]
      · simp [hdue]

/-- A report carries every incident of its tick that fits. -/
theorem mem_gather_alerts {c : MailClient} {tick : MailTick}
    (hheld : HoldsFirsts maxAlerts (·.id) c.batch.alerts c.batch.alerts) (hfits : Fits c tick)
    {alert : ActiveAlert F32} (hmem : alert ∈ tick.alerts) (hnew : alert.id ∉ c.batch.active) :
    alert.id ∈ ((c.batch.gather tick).2.alerts).map (·.id) := by
  have hin : alert.id ∈ (tick.alerts.map MailedAlert.from).map (·.id) := by
    rw [List.map_map]
    exact List.mem_map_of_mem hmem
  rw [(gather_alerts c.batch tick).1, foldl_noteAlert]
  obtain hfew | ⟨hactive, hunnoted⟩ := hfits
  · rw [(hheld.notes (by decide) _).eq_firsts hfew, mem_firstOfEach_keys,
      List.map_append, List.mem_append]
    exact .inr hin
  · exact mem_keys_foldl_noteBounded (by rwa [List.length_map]) (hunnoted alert hmem hnew) hin

/-- A close with a sample has a report, which carries the alerts noted. -/
theorem close_report {b : MailBatch} (h : b.samples ≠ []) (mail : MailInterval)
    (reason : ReportReason) (createdAt : UInt64) (round : Option (ScrapeRound F64)) :
    ∃ report, (b.close mail reason createdAt round).1 = some report ∧ report.alerts = b.alerts ∧
      report.reason = reason := by
  rw [MailBatch.close, if_neg h]
  exact ⟨_, rfl, rfl, rfl⟩

theorem close_none {b : MailBatch} (h : b.samples = []) (mail : MailInterval)
    (reason : ReportReason) (createdAt : UInt64) (round : Option (ScrapeRound F64)) :
    (b.close mail reason createdAt round).1 = none := by
  rw [MailBatch.close, if_pos h]

/-- A tick that wants a report, and has a sample, mails what it gathered. -/
theorem tick_report {mail : MailInterval} {c : MailClient} {tick : MailTick}
    (hwants : WantsReport c tick) (hsample : HasSample c tick) :
    ∃ report, (c.tick mail tick).1.report = some report ∧
      report.alerts = (c.batch.gather tick).2.alerts := by
  have hsamples := (gather_samples c tick).mpr hsample
  have hticked := tick_ticked mail c tick
  generalize (c.tick mail tick).1 = did at hticked ⊢
  generalize (c.tick mail tick).2 = c' at hticked
  cases hticked with
  | scheduled _ =>
      obtain ⟨report, hreport, halerts, -⟩ :=
        close_report hsamples mail .scheduled tick.createdAt tick.round
      exact ⟨report, hreport, halerts⟩
  | incident _ _ _ =>
      obtain ⟨report, hreport, halerts, -⟩ :=
        close_report hsamples mail .incident tick.createdAt tick.round
      exact ⟨report, hreport, halerts⟩
  | none _ hno =>
      have hrefused := hno ((gather_new c.batch tick).mpr hwants.1)
      rw [hwants.2] at hrefused
      cases hrefused

/-- A tick without a sample mails nothing. -/
theorem tick_no_report {mail : MailInterval} {c : MailClient} {tick : MailTick}
    (h : ¬ HasSample c tick) : (c.tick mail tick).1.report = none := by
  have hsamples : (c.batch.gather tick).2.samples = [] := by
    by_contra hsome
    exact h ((gather_samples c tick).mp hsome)
  have hticked := tick_ticked mail c tick
  generalize (c.tick mail tick).1 = did at hticked ⊢
  generalize (c.tick mail tick).2 = c' at hticked
  cases hticked with
  | scheduled _ => exact close_none hsamples mail .scheduled tick.createdAt tick.round
  | incident _ _ _ => exact close_none hsamples mail .incident tick.createdAt tick.round
  | none _ _ => rfl

theorem allows_iff (pace : IncidentPace) (now : ℕ) :
    (pace.allows now).1 = true ↔ ∀ last, pace.last = some last → last + incidentSpacing ≤ now := by
  have hpositive : 0 < incidentSpacing := by decide
  rw [IncidentPace.allows]
  cases pace.last with
  | none => simp
  | some last =>
      simp only [Option.all_some, Option.some.injEq, forall_eq']
      split_ifs with hlate
      · rw [decide_eq_true_eq] at hlate
        simp only [true_iff]
        omega
      · rw [decide_eq_true_eq] at hlate
        simp only [false_iff]
        omega

/-! ### Runs -/

/-- The client after some ticks, as its incident reports have it. -/
structure Mailing (ticks : List MailTick) (did : List MailTicked) (c : MailClient) : Prop where
  active_eq : c.batch.active = activeBefore ticks
  held : HoldsFirsts maxAlerts (·.id) c.batch.alerts c.batch.alerts
  /-- The pace is as of the last incident report or later. -/
  paced : ∀ time ∈ incidentReports ticks did, ∃ last, c.pace.last = some last ∧ time ≤ last
  /-- No instant of the pace is to come. -/
  last_le : ∀ last, c.pace.last = some last → ∃ tick ∈ ticks, last ≤ tick.now

theorem close_alerts (b : MailBatch) (mail : MailInterval) (reason : ReportReason)
    (createdAt : UInt64) (round : Option (ScrapeRound F64)) :
    (b.close mail reason createdAt round).2.active = b.active ∧
      ((b.close mail reason createdAt round).2.alerts = [] ∨
        (b.close mail reason createdAt round).2.alerts = b.alerts) := by
  rw [MailBatch.close]
  split_ifs
  · exact ⟨rfl, .inr rfl⟩
  · exact ⟨rfl, .inl rfl⟩

/-- A tick leaves its incidents active, and noted unless it mailed them. -/
theorem Ticked.alerts {mail : MailInterval} {c c' : MailClient} {tick : MailTick} {did : MailTicked}
    (h : Ticked mail c tick did c') :
    c'.batch.active = tick.alerts.map (·.id) ∧
      (c'.batch.alerts = [] ∨ c'.batch.alerts = (c.batch.gather tick).2.alerts) := by
  obtain ⟨-, hactive, -⟩ := gather_alerts c.batch tick
  cases h with
  | scheduled _ =>
      obtain ⟨hsame, halerts⟩ :=
        close_alerts (c.batch.gather tick).2 mail .scheduled tick.createdAt tick.round
      exact ⟨hsame.trans hactive, halerts⟩
  | incident _ _ _ =>
      obtain ⟨hsame, halerts⟩ :=
        close_alerts (c.batch.gather tick).2 mail .incident tick.createdAt tick.round
      exact ⟨hsame.trans hactive, halerts⟩
  | none _ _ => exact ⟨hactive, .inr rfl⟩

/-- Only an incident report is one, and it counts against the pace. -/
theorem Ticked.pace {mail : MailInterval} {c c' : MailClient} {tick : MailTick} {did : MailTicked}
    (h : Ticked mail c tick did c') :
    (c'.pace = c.pace ∧ did.report.map (·.reason) ≠ some .incident) ∨
      (c'.pace = ⟨some tick.now⟩ ∧ WantsReport c tick ∧
        (HasSample c tick → did.report.map (·.reason) = some .incident)) := by
  cases h with
  | scheduled _ =>
      refine .inl ⟨rfl, ?_⟩
      by_cases hsamples : (c.batch.gather tick).2.samples = []
      · simp [close_none hsamples]
      · obtain ⟨report, hreport, -, hreason⟩ :=
          close_report hsamples mail .scheduled tick.createdAt tick.round
        simp [hreport, hreason]
  | incident _ hnew hallows =>
      refine .inr ⟨rfl, ⟨(gather_new c.batch tick).mp hnew, hallows⟩, fun hsample => ?_⟩
      obtain ⟨report, hreport, -, hreason⟩ :=
        close_report ((gather_samples c tick).mpr hsample) mail .incident tick.createdAt tick.round
      simp [hreport, hreason]
  | none _ _ => exact .inl ⟨rfl, by simp⟩

theorem incidentReports_append {ticks : List MailTick} {did : List MailTicked}
    (h : did.length = ticks.length) (tick : MailTick) (d : MailTicked) :
    incidentReports (ticks ++ [tick]) (did ++ [d]) =
      incidentReports ticks did ++ if d.report.map (·.reason) = some .incident
        then [tick.now] else [] := by
  rw [incidentReports, List.zip_append h.symm, List.filterMap_append, incidentReports]
  congr 1
  simp only [List.zip_cons_cons, List.zip_nil_left, List.filterMap_cons, List.filterMap_nil]
  split_ifs with hincident
  · rfl
  · rfl

theorem activeBefore_append (ticks : List MailTick) (tick : MailTick) :
    activeBefore (ticks ++ [tick]) = tick.alerts.map (·.id) := by
  rw [activeBefore, List.getLast?_concat]
  rfl

theorem mailing_new (run : AgentRun) (mail : MailInterval) (interval : SampleInterval) (start : ℕ) :
    Mailing [] [] (MailClient.new run mail interval start) where
  active_eq := rfl
  held := holdsFirsts_nil
  paced time h := absurd h List.not_mem_nil
  last_le last h := by cases h

theorem Mailing.tick {ticks : List MailTick} {did : List MailTicked} {c : MailClient}
    (h : Mailing ticks did c) (hlen : did.length = ticks.length) (mail : MailInterval)
    {tick : MailTick} (hlater : ∀ earlier ∈ ticks, earlier.now ≤ tick.now) :
    Mailing (ticks ++ [tick]) (did ++ [(c.tick mail tick).1]) (c.tick mail tick).2 := by
  have hticked := tick_ticked mail c tick
  generalize (c.tick mail tick).1 = d at hticked ⊢
  generalize (c.tick mail tick).2 = c' at hticked ⊢
  obtain ⟨hactive, halerts⟩ := hticked.alerts
  have hgathered : HoldsFirsts maxAlerts (·.id) (c.batch.gather tick).2.alerts
      (c.batch.gather tick).2.alerts := by
    have hnotes := h.held.notes (by decide) (tick.alerts.map MailedAlert.from)
    rw [(gather_alerts c.batch tick).1, foldl_noteAlert]
    exact holdsFirsts_of_nodup hnotes.nodup hnotes.length_le
  constructor
  · rw [hactive, activeBefore_append]
  · obtain hnil | hsame := halerts
    · rw [hnil]
      exact holdsFirsts_nil
    · rw [hsame]
      exact hgathered
  · intro time htime
    rw [incidentReports_append hlen, List.mem_append] at htime
    obtain ⟨hpace, hreason⟩ | ⟨hpace, -, -⟩ := hticked.pace
    · rw [if_neg hreason] at htime
      rw [hpace]
      exact h.paced time (htime.resolve_right List.not_mem_nil)
    · rw [hpace]
      refine ⟨tick.now, rfl, ?_⟩
      obtain hbefore | hnow := htime
      · obtain ⟨last, hlast, hle⟩ := h.paced time hbefore
        obtain ⟨earlier, hmem, hnow⟩ := h.last_le last hlast
        exact hle.trans (hnow.trans (hlater earlier hmem))
      · split_ifs at hnow
        · exact (List.mem_singleton.mp hnow).le
        · cases hnow
  · intro last hlast
    obtain ⟨hpace, -⟩ | ⟨hpace, -, -⟩ := hticked.pace
    · rw [hpace] at hlast
      obtain ⟨earlier, hmem, hle⟩ := h.last_le last hlast
      exact ⟨earlier, List.mem_append_left _ hmem, hle⟩
    · rw [hpace, Option.some.injEq] at hlast
      exact ⟨tick, List.mem_append_right _ List.mem_cons_self, hlast.symm.le⟩

variable {run : AgentRun} {mail : MailInterval} {interval : SampleInterval} {start first : ℕ}
  {ticks earlier later : List MailTick} {tick : MailTick}

theorem ServedFrom.of_append (h : ServedFrom first (earlier ++ later)) :
    ServedFrom first earlier := by
  intro k tick hk
  refine h k tick ?_
  rw [List.getElem?_append_left (List.getElem?_eq_some_iff.mp hk).1]
  exact hk

theorem ServedFrom.before_le (h : ServedFrom first (earlier ++ tick :: later)) :
    ∀ before ∈ earlier, before.now ≤ tick.now := by
  intro before hmem
  obtain ⟨k, hk⟩ := List.getElem?_of_mem hmem
  have hlt := (List.getElem?_eq_some_iff.mp hk).1
  have hbefore := (h k before (by rw [List.getElem?_append_left hlt]; exact hk)).1
  have hnow := (h earlier.length tick (by simp)).1
  have hmul := Nat.mul_le_mul_right mailTick hlt.le
  omega

/-- The invariant, over a run of ticks in order. -/
theorem mailing_started (run : AgentRun) (mail : MailInterval) (interval : SampleInterval)
    (start : ℕ) (hticks : ServedFrom first ticks) :
    Mailing ticks (started run mail interval start ticks).1
      (started run mail interval start ticks).2 := by
  induction ticks using List.reverseRecOn with
  | nil => exact mailing_new run mail interval start
  | append_singleton ticks tick ih =>
      rw [started, run_append]
      exact (ih hticks.of_append).tick (length_run _ _ _) mail hticks.before_le

/-- While every tick that wants a report has a sample, the pace is as of an incident report. -/
theorem pace_reported (h : ∀ earlier tick later, ticks = earlier ++ tick :: later →
      WantsReport (started run mail interval start earlier).2 tick →
      HasSample (started run mail interval start earlier).2 tick) {last : ℕ}
    (hlast : (started run mail interval start ticks).2.pace.last = some last) :
    last ∈ incidentReports ticks (started run mail interval start ticks).1 := by
  induction ticks using List.reverseRecOn with
  | nil => cases hlast
  | append_singleton ticks tick ih =>
      have hbefore : ∀ earlier tick' later, ticks = earlier ++ tick' :: later →
          WantsReport (started run mail interval start earlier).2 tick' →
          HasSample (started run mail interval start earlier).2 tick' := by
        intro earlier tick' later heq
        exact h earlier tick' (later ++ [tick]) (by rw [heq, List.append_assoc, List.cons_append])
      have hhas := h ticks tick [] rfl
      rw [started, run_append] at hlast ⊢
      rw [incidentReports_append (length_run _ _ _), List.mem_append]
      obtain ⟨hpace, -⟩ | ⟨hpace, hwants, hreason⟩ :=
        (tick_ticked mail (started run mail interval start ticks).2 tick).pace
      · exact .inl (ih hbefore (hpace ▸ hlast))
      · refine .inr ?_
        simp only [started] at hreason hpace hhas hwants
        rw [if_pos (hreason (hhas hwants)), List.mem_singleton]
        rw [hpace, Option.some.injEq] at hlast
        exact hlast.symm

/-- Incident reports go out at once while every tick that wants one has a sample and room for its
new incidents; and only while every such tick has a sample. -/
theorem mails_at_once (run : AgentRun) (mail : MailInterval) (interval : SampleInterval) (start : ℕ)
    (hticks : ServedFrom first ticks) :
    ((∀ earlier tick later, ticks = earlier ++ tick :: later →
        WantsReport (started run mail interval start earlier).2 tick →
        HasSample (started run mail interval start earlier).2 tick ∧
          Fits (started run mail interval start earlier).2 tick) →
      MailsAtOnce run mail interval start ticks) ∧
    (MailsAtOnce run mail interval start ticks →
      ∀ earlier tick later, ticks = earlier ++ tick :: later →
        WantsReport (started run mail interval start earlier).2 tick →
        HasSample (started run mail interval start earlier).2 tick) := by
  constructor
  · intro h
    have hsample : ∀ earlier tick later, ticks = earlier ++ tick :: later →
        WantsReport (started run mail interval start earlier).2 tick →
        HasSample (started run mail interval start earlier).2 tick :=
      fun earlier tick later heq hwants => (h earlier tick later heq hwants).1
    constructor
    · intro earlier tick later heq alert hmem hnew hquiet
      have hmailing := mailing_started run mail interval start (heq ▸ hticks).of_append
      rw [← hmailing.active_eq] at hnew
      have hwants : WantsReport (started run mail interval start earlier).2 tick := by
        refine ⟨⟨alert, hmem, hnew⟩, (allows_iff _ _).mpr fun last hlast => hquiet last ?_⟩
        refine pace_reported (fun before tick' after hbefore => ?_) hlast
        refine hsample before tick' (after ++ tick :: later) ?_
        rw [heq, hbefore, List.append_assoc, List.cons_append]
      obtain ⟨hhas, hfits⟩ := h earlier tick later heq hwants
      obtain ⟨report, hreport, halerts⟩ := tick_report hwants hhas
      refine ⟨report, hreport, ?_⟩
      rw [halerts]
      exact mem_gather_alerts hmailing.held hfits hmem hnew
    · intro earlier tick later heq hnone
      obtain ⟨hpace, -⟩ | ⟨-, hwants, hreason⟩ :=
        (tick_ticked mail (started run mail interval start earlier).2 tick).pace
      · exact hpace
      · have hincident := hreason (hsample earlier tick later heq hwants)
        rw [hnone] at hincident
        cases hincident
  · intro h earlier tick later heq hwants
    by_contra hhas
    have hmailing := mailing_started run mail interval start (heq ▸ hticks).of_append
    obtain ⟨⟨alert, hmem, hnew⟩, hallows⟩ := hwants
    rw [hmailing.active_eq] at hnew
    obtain ⟨report, hreport, -⟩ := h.mailed earlier tick later heq alert hmem hnew (by
      intro time htime
      obtain ⟨last, hlast, hle⟩ := hmailing.paced time htime
      exact (Nat.add_le_add_right hle _).trans ((allows_iff _ _).mp hallows last hlast))
    rw [tick_no_report hhas] at hreport
    cases hreport

theorem MailsAtOnce.paced_last (h : MailsAtOnce run mail interval start (earlier ++ [tick]))
    (hnone : ((started run mail interval start earlier).2.tick mail tick).1.report = none) :
    ((started run mail interval start earlier).2.tick mail tick).2.pace =
      (started run mail interval start earlier).2.pace :=
  h.paced earlier tick [] rfl hnone

/-- A snapshot read at its tick may be served. -/
theorem RegularFrom.served (h : RegularFrom first ticks) : ServedFrom first ticks := by
  intro k tick hk
  obtain ⟨hnow, snapshot, hfresh, hread⟩ := h k tick hk
  refine ⟨hnow, snapshot, hfresh, ?_⟩
  rw [freshSnapshot, if_pos]
  rw [PublishedSnapshot.isFresh, hread, Nat.sub_self]
  exact decide_eq_true (Nat.zero_le _)

theorem RegularFrom.concat (h : RegularFrom first ticks)
    (hnow : tick.now = first + ticks.length * mailTick)
    {snapshot : PublishedSnapshot SystemSnapshot} (hfresh : tick.fresh = some snapshot)
    (hread : snapshot.readAt = tick.now) : RegularFrom first (ticks ++ [tick]) := by
  intro k found hk
  obtain hlt | hge := Nat.lt_or_ge k ticks.length
  · rw [List.getElem?_append_left hlt] at hk
    exact h k found hk
  · rw [List.getElem?_append_right hge, List.getElem?_singleton] at hk
    split_ifs at hk with hlast
    cases hk
    rw [show k = ticks.length by omega]
    exact ⟨hnow, snapshot, hfresh, hread⟩

/-- A CPU alert of a run's first incident. -/
def cpuAlert : ActiveAlert F32 where
  id := "00000000-0000-0000-0000-000000000000-1"
  rule := ⟨.cpu, .gt, 0x42b40000, .warning, 0, 300, none, true⟩
  currentValue := 0x42c80000
  firedAt := "1970-01-01T00:05:02Z"
  message := "WARNING CPU > 100.0% (threshold: 90.0%) for 0s"

def fiveMinutes : MailInterval := ⟨300, by decide⟩

def oneMinute : SampleInterval := ⟨60, by decide⟩

/-- A minute after the first scheduled report, 362 s in: the tick after the one whose sample is kept
finds a first incident. -/
def afterSample : MailTick := { quietTick idleSystem 181 with alerts := [cpuAlert] }

/-- The client as that tick finds it. -/
def sampledClient : MailClient :=
  (started ⟨⟨0⟩⟩ fiveMinutes oneMinute 0 (quietTicks idleSystem 181)).2

theorem regularFrom_alerted (k : ℕ) (tick : MailTick)
    (hnow : tick.now = (quietTick idleSystem k).now)
    (hfresh : tick.fresh = (quietTick idleSystem k).fresh) :
    RegularFrom 0 (quietTicks idleSystem k ++ [tick]) := by
  refine (regularFrom_quietTicks idleSystem k).concat ?_ hfresh hnow.symm
  rw [quietTicks, List.length_map, List.length_range, Nat.zero_add]
  exact hnow

/-- A tick of a quiet run finds no incident. -/
theorem not_wantsReport_quietTicks {earlier later : List MailTick} {tick : MailTick} {n : ℕ}
    (heq : quietTicks idleSystem n = earlier ++ tick :: later) (c : MailClient) :
    ¬ WantsReport c tick := by
  rintro ⟨⟨alert, hmem, -⟩, -⟩
  have htick : tick ∈ quietTicks idleSystem n := heq ▸ List.mem_append_right _ List.mem_cons_self
  obtain ⟨k, -, rfl⟩ := List.mem_map.mp htick
  cases hmem

/-- The scheduled report has gone out, an incident report hasn't; the sample kept since carries the
incident at its own tick. -/
theorem mails_at_once_afterSample :
    (started ⟨⟨0⟩⟩ fiveMinutes oneMinute 0 (quietTicks idleSystem 181)).1.countP
      (·.report.isSome) = 1 ∧
      MailsAtOnce ⟨⟨0⟩⟩ fiveMinutes oneMinute 0 (quietTicks idleSystem 181 ++ [afterSample]) ∧
      ∃ report, (sampledClient.tick fiveMinutes afterSample).1.report = some report ∧
        cpuAlert.id ∈ report.alerts.map (·.id) := by
  have hserved : ServedFrom 0 (quietTicks idleSystem 181 ++ [afterSample]) :=
    (regularFrom_alerted 181 afterSample rfl rfl).served
  have hhas : HasSample sampledClient afterSample := .inl (by decide +kernel)
  have hfits : Fits sampledClient afterSample := .inl (by decide +kernel)
  rw [sampledClient] at hhas hfits
  have honce : MailsAtOnce ⟨⟨0⟩⟩ fiveMinutes oneMinute 0
      (quietTicks idleSystem 181 ++ [afterSample]) := by
    refine (mails_at_once _ _ _ 0 hserved).1 ?_
    intro earlier tick later heq hwants
    cases later using List.reverseRecOn with
    | nil =>
        -- The last tick: the sample of 360 s waits.
        obtain ⟨rfl, htick⟩ := List.append_inj' heq rfl
        obtain rfl := (List.cons.inj htick).1
        exact ⟨hhas, hfits⟩
    | append_singleton later last =>
        rw [← List.cons_append, ← List.append_assoc] at heq
        exact absurd hwants (not_wantsReport_quietTicks (List.append_inj' heq rfl).1 _)
  refine ⟨by decide +kernel, honce, ?_⟩
  have hunreported :
      incidentReports (quietTicks idleSystem 181)
        (started ⟨⟨0⟩⟩ fiveMinutes oneMinute 0 (quietTicks idleSystem 181)).1 = [] := by
    decide +kernel
  rw [sampledClient]
  refine honce.mailed _ afterSample [] rfl cpuAlert List.mem_cons_self
    (by decide +kernel) fun time hmem => ?_
  rw [hunreported] at hmem
  cases hmem

/-- With samples every 60 s in reports every 300 s: the tick after the first scheduled report, 302 s
in, which finds a first incident. -/
def afterScheduled : MailTick := { quietTick idleSystem 151 with alerts := [cpuAlert] }

/-- The client as that tick finds it. -/
def closedClient : MailClient :=
  (started ⟨⟨0⟩⟩ fiveMinutes oneMinute 0 (quietTicks idleSystem 151)).2

/-- An incident that becomes active right after a report, before the next sample is due, is in no
report of its tick, and uses up the incident pace. -/
theorem incident_after_close_unmailed :
    SampleInterval.new 60 fiveMinutes = some oneMinute ∧
      ServedFrom 0 (quietTicks idleSystem 151 ++ [afterScheduled]) ∧
      closedClient.pace = ⟨none⟩ ∧
      (closedClient.tick fiveMinutes afterScheduled).1.newIncident = true ∧
      (closedClient.tick fiveMinutes afterScheduled).1.report = none ∧
      (closedClient.tick fiveMinutes afterScheduled).2.pace = ⟨some (seconds 302)⟩ ∧
      ¬ MailsAtOnce ⟨⟨0⟩⟩ fiveMinutes oneMinute 0
        (quietTicks idleSystem 151 ++ [afterScheduled]) := by
  have hpace : closedClient.pace = ⟨none⟩ := by decide +kernel
  have hreport : (closedClient.tick fiveMinutes afterScheduled).1.report = none :=
    Option.isNone_iff_eq_none.mp (by decide +kernel)
  have hafter : (closedClient.tick fiveMinutes afterScheduled).2.pace = ⟨some (seconds 302)⟩ := by
    decide +kernel
  refine ⟨rfl, (regularFrom_alerted 151 afterScheduled rfl rfl).served, hpace, by
    decide +kernel, hreport, hafter, fun h => ?_⟩
  rw [closedClient] at hpace hreport hafter
  have hsame := h.paced_last hreport
  rw [hafter, hpace] at hsame
  cases hsame

end MonitoringAgent.Agent

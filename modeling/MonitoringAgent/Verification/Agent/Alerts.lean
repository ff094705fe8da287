import Mathlib.Tactic
import Std.Data.String.ToNat
import MonitoringAgent.Model.Agent.Alerts

/-! # Ticks of the alert manager

What one tick does to a rule, what an evaluation does to every rule, and from these which incidents
live through any sequence of ticks and rule changes. -/

namespace MonitoringAgent.Agent

variable {V : Type} {f : Floats V}

/-! ### One rule's tick -/

/-- What a tick's reading is to a rule. -/
inductive Seen where
  /-- Measured without a breach, or unavailable. -/
  | clear
  | carried
  /-- Measured, and breached. -/
  | breached
  deriving DecidableEq, Repr

def Readings.seen (f : Floats V) (r : Readings V) (rule : AlertRule V) : Seen :=
  match r.valueFor f rule with
  | .measured value => if isBreached f rule.operator value (r.thresholdFor f rule)
      then .breached else .clear
  | .carried => .carried
  | .unavailable => .clear

/-- The incident of an active breach. -/
def Breach.incident? : Breach V → Option Incident
  | .active _ incident _ => some incident
  | _ => none

def Report.alert : Report V → ActiveAlert V
  | .quiet alert | .notify alert => alert

/-- The alert, when it notifies. -/
def Report.notified : Report V → Option (ActiveAlert V)
  | .quiet _ => none
  | .notify alert => some alert

namespace Breach

theorem activeAlert_eq_some {breach : Breach V} {rule : AlertRule V} {threshold : V} {now : ℕ}
    {alert : ActiveAlert V} (h : breach.activeAlert f rule threshold now = some alert) :
    ∃ incident, breach.incident? = some incident ∧ alert.id = incident.id.display ∧
      alert.firedAt = unixToIso8601 incident.activatedAt := by
  cases breach with
  | clear => cases h
  | pending since => cases h
  | active since incident value =>
      cases h
      exact ⟨incident, rfl, rfl, rfl⟩

theorem activeAlert_of_incident {breach : Breach V} {incident : Incident}
    (h : breach.incident? = some incident) (rule : AlertRule V) (threshold : V) (now : ℕ) :
    ∃ alert, breach.activeAlert f rule threshold now = some alert ∧
      alert.id = incident.id.display := by
  cases breach with
  | clear => cases h
  | pending since => cases h
  | active since incident' value =>
      cases h
      exact ⟨_, rfl, rfl⟩

/-- A breached tick keeps the incident, waits on, or mints a new one. -/
theorem advance_incident (breach : Breach V) (value : V) (duration now : ℕ)
    (incidents : IncidentSequence) :
    (breach.advance ⟨value, true⟩ duration now incidents).1.incident? = breach.incident? ∧
        (breach.advance ⟨value, true⟩ duration now incidents).2 = incidents ∨
      breach.incident? = none ∧
        (breach.advance ⟨value, true⟩ duration now incidents).1.incident? =
          some ⟨⟨incidents.run, incidents.minted + 1⟩, now⟩ ∧
        (breach.advance ⟨value, true⟩ duration now incidents).2 =
          ⟨incidents.run, incidents.minted + 1⟩ := by
  have hpending : ∀ since, (pendingOrActive since value duration now incidents).1.incident? = none ∧
      (pendingOrActive since value duration now incidents).2 = incidents ∨
      (pendingOrActive since value duration now incidents).1.incident? =
          some ⟨⟨incidents.run, incidents.minted + 1⟩, now⟩ ∧
        (pendingOrActive since value duration now incidents).2 =
          ⟨incidents.run, incidents.minted + 1⟩ := by
    intro since
    rw [pendingOrActive]
    split_ifs
    · exact .inl ⟨rfl, rfl⟩
    · exact .inr ⟨rfl, rfl⟩
  cases breach with
  | clear => exact (hpending now).imp_right fun h => ⟨rfl, h⟩
  | pending since => exact (hpending (min since now)).imp_right fun h => ⟨rfl, h⟩
  | active since incident value => exact .inl ⟨rfl, rfl⟩

end Breach

namespace RuleState

variable {rule : AlertRule V} {r : Readings V}

theorem takeNotification_breach (s : RuleState V) (cooldown now : ℕ) :
    (s.takeNotification cooldown now).2.breach = s.breach := by
  rw [takeNotification]
  dsimp only
  split_ifs
  · rfl
  · rfl

theorem measure_breach (f : Floats V) (s : RuleState V) (rule : AlertRule V)
    (observed : Observation V) (threshold : V) (now : ℕ) (incidents : IncidentSequence) :
    (s.measure f rule observed threshold now incidents).2.1.breach =
        (s.breach.advance observed rule.durationSecs now incidents).1 ∧
      (s.measure f rule observed threshold now incidents).2.2 =
        (s.breach.advance observed rule.durationSecs now incidents).2 ∧
      (s.measure f rule observed threshold now incidents).1.map Report.alert =
        (s.breach.advance observed rule.durationSecs now incidents).1.activeAlert f
          rule threshold now := by
  rw [measure]
  dsimp only
  split
  next hnone => exact ⟨rfl, rfl, hnone.symm⟩
  next alert hsome =>
    refine ⟨takeNotification_breach _ _ _, rfl, ?_⟩
    rw [hsome, Option.map_some]
    split_ifs
    · rfl
    · rfl

/-- A tick without a breach clears the rule and reports nothing. -/
theorem tick_clear (s : RuleState V) (now : ℕ) (incidents : IncidentSequence)
    (h : r.seen f rule = .clear) :
    (s.tick f rule r now incidents).1 = none ∧
      (s.tick f rule r now incidents).2.1.breach = .clear ∧
      (s.tick f rule r now incidents).2.2 = incidents ∧
      ((s.tick f rule r now incidents).2.1.lastNotified = s.lastNotified ∨
        (s.tick f rule r now incidents).2.1.lastNotified = s.lastNotified.map (min · now)) := by
  rw [Readings.seen] at h
  split at h
  next value hvalue =>
    split_ifs at h with hbreached
    rw [Bool.not_eq_true] at hbreached
    rw [tick, hvalue]
    simp only [hbreached]
    exact ⟨rfl, rfl, rfl, .inr rfl⟩
  · cases h
  next hvalue =>
    rw [tick, hvalue]
    exact ⟨rfl, rfl, rfl, .inl rfl⟩

/-- A carried tick leaves the rule as it was and notifies nothing. -/
theorem tick_carried (s : RuleState V) (now : ℕ) (incidents : IncidentSequence)
    (h : r.seen f rule = .carried) :
    s.tick f rule r now incidents =
      ((s.breach.activeAlert f rule (r.thresholdFor f rule) now).map .quiet, s, incidents) := by
  rw [Readings.seen] at h
  split at h
  · split_ifs at h
  next hvalue =>
    rw [tick, hvalue]
  · cases h

/-- A breached tick advances the breach. -/
theorem tick_breached (s : RuleState V) (now : ℕ) (incidents : IncidentSequence)
    (h : r.seen f rule = .breached) :
    ∃ value, s.tick f rule r now incidents =
      s.measure f rule ⟨value, true⟩ (r.thresholdFor f rule) now incidents := by
  rw [Readings.seen] at h
  split at h
  next value hvalue =>
    split_ifs at h with hbreached
    refine ⟨value, ?_⟩
    rw [tick, hvalue]
    dsimp only
    rw [hbreached]
  · cases h
  · cases h

/-- What a tick reports is the alert of the breach it leaves. -/
theorem tick_alert (f : Floats V) (s : RuleState V) (rule : AlertRule V) (r : Readings V) (now : ℕ)
    (incidents : IncidentSequence) :
    (s.tick f rule r now incidents).1.map Report.alert =
      (s.tick f rule r now incidents).2.1.breach.activeAlert f rule
        (r.thresholdFor f rule) now := by
  cases hseen : r.seen f rule with
  | clear =>
      obtain ⟨hreport, hbreach, -⟩ := tick_clear s now incidents hseen
      rw [hreport, hbreach]
      rfl
  | carried =>
      rw [tick_carried s now incidents hseen, Option.map_map]
      exact Option.map_id'
  | breached =>
      obtain ⟨value, htick⟩ := tick_breached s now incidents hseen
      obtain ⟨hbreach, -, hreport⟩ := measure_breach f s rule ⟨value, true⟩
        (r.thresholdFor f rule) now incidents
      rw [htick, hreport, hbreach]

/-- A tick ends the rule's incident, keeps it, or mints one where there was none. -/
theorem tick_incident (f : Floats V) (s : RuleState V) (rule : AlertRule V) (r : Readings V)
    (now : ℕ) (incidents : IncidentSequence) :
    r.seen f rule = .clear ∧ (s.tick f rule r now incidents).2.1.breach.incident? = none ∧
        (s.tick f rule r now incidents).2.2 = incidents ∨
      r.seen f rule ≠ .clear ∧
        (s.tick f rule r now incidents).2.1.breach.incident? = s.breach.incident? ∧
        (s.tick f rule r now incidents).2.2 = incidents ∨
      r.seen f rule ≠ .clear ∧ s.breach.incident? = none ∧
        (s.tick f rule r now incidents).2.1.breach.incident? =
          some ⟨⟨incidents.run, incidents.minted + 1⟩, now⟩ ∧
        (s.tick f rule r now incidents).2.2 = ⟨incidents.run, incidents.minted + 1⟩ := by
  cases hseen : r.seen f rule with
  | clear =>
      obtain ⟨-, hbreach, hincidents, -⟩ := tick_clear s now incidents hseen
      exact .inl ⟨rfl, by rw [hbreach]; rfl, hincidents⟩
  | carried =>
      rw [tick_carried s now incidents hseen]
      exact .inr (.inl ⟨by simp, rfl, rfl⟩)
  | breached =>
      obtain ⟨value, htick⟩ := tick_breached s now incidents hseen
      obtain ⟨hbreach, hincidents, -⟩ := measure_breach f s rule ⟨value, true⟩
        (r.thresholdFor f rule) now incidents
      rw [htick, hbreach, hincidents]
      rcases s.breach.advance_incident value rule.durationSecs now incidents
        with ⟨h, h'⟩ | ⟨h, h', h''⟩
      · exact .inr (.inl ⟨by simp, h, h'⟩)
      · exact .inr (.inr ⟨by simp, h, h', h''⟩)

end RuleState

/-! ### An evaluation -/

/-- Every rule of an evaluation ticks from its own state, whatever the rules before it minted. -/
theorem foldl_rule (f : Floats V) (r : Readings V) (now : ℕ) (entries : List (AlertRule V × ℕ))
    (hnodup : (entries.map Prod.snd).Nodup) (e : Evaluation V) :
    ∃ before : ℕ → IncidentSequence,
      (∀ entry ∈ entries, (entries.foldl (Evaluation.rule f r now) e).states entry.2 =
        ((e.states entry.2).tick f entry.1 r now (before entry.2)).2.1) ∧
      (∀ i ∉ entries.map Prod.snd, (entries.foldl (Evaluation.rule f r now) e).states i =
        e.states i) ∧
      (entries.foldl (Evaluation.rule f r now) e).active =
        e.active ++ entries.filterMap (fun entry =>
        ((e.states entry.2).tick f entry.1 r now (before entry.2)).1.map Report.alert) ∧
      (entries.foldl (Evaluation.rule f r now) e).notifications = e.notifications ++
        entries.filterMap fun entry =>
          ((e.states entry.2).tick f entry.1 r now (before entry.2)).1.bind Report.notified := by
  induction entries generalizing e with
  | nil => exact ⟨fun _ => e.incidents, by simp⟩
  | cons entry entries ih =>
      obtain ⟨hnot, hrest⟩ := List.nodup_cons.mp hnodup
      obtain ⟨before, hstates, hother, hactive, hnotes⟩ := ih hrest (e.rule f r now entry)
      have hne : ∀ x ∈ entries, x.2 ≠ entry.2 := by
        intro x hx heq
        exact hnot (heq ▸ List.mem_map_of_mem hx)
      have hsame : ∀ i, i ≠ entry.2 → (e.rule f r now entry).states i = e.states i := by
        intro i hi
        rw [Evaluation.rule]
        dsimp only
        split
        all_goals exact Function.update_of_ne hi _ _
      have hself : (e.rule f r now entry).states entry.2 =
          ((e.states entry.2).tick f entry.1 r now e.incidents).2.1 := by
        rw [Evaluation.rule]
        dsimp only
        split
        all_goals exact Function.update_self _ _ _
      have hbefore : ∀ x ∈ entries, Function.update before entry.2 e.incidents x.2 = before x.2 :=
        fun x hx => Function.update_of_ne (hne x hx) _ _
      refine ⟨Function.update before entry.2 e.incidents, ?_, ?_, ?_, ?_⟩
      · intro x hx
        rcases List.mem_cons.mp hx with rfl | hx
        · rw [List.foldl_cons, hother _ hnot, hself, Function.update_self]
        · rw [List.foldl_cons, hstates x hx, hsame _ (hne x hx), hbefore x hx]
      · intro i hi
        rw [List.map_cons, List.mem_cons, not_or] at hi
        rw [List.foldl_cons, hother i hi.2, hsame i hi.1]
      · rw [List.foldl_cons, hactive, List.filterMap_cons, Function.update_self]
        have htail : (entries.filterMap fun x =>
            (((e.rule f r now entry).states x.2).tick f x.1 r now
              (before x.2)).1.map Report.alert) =
            entries.filterMap fun x => ((e.states x.2).tick f x.1 r now
              (Function.update before entry.2 e.incidents x.2)).1.map Report.alert :=
          List.filterMap_congr fun x hx => by rw [hsame _ (hne x hx), hbefore x hx]
        rw [htail, Evaluation.rule]
        dsimp only
        split
        next hreport => simp [hreport]
        next alert hreport => simp [hreport, Report.alert]
        next alert hreport => simp [hreport, Report.alert]
      · rw [List.foldl_cons, hnotes, List.filterMap_cons, Function.update_self]
        have htail : (entries.filterMap fun x =>
            (((e.rule f r now entry).states x.2).tick f x.1 r now
              (before x.2)).1.bind Report.notified) =
            entries.filterMap fun x => ((e.states x.2).tick f x.1 r now
              (Function.update before entry.2 e.incidents x.2)).1.bind Report.notified :=
          List.filterMap_congr fun x hx => by rw [hsame _ (hne x hx), hbefore x hx]
        rw [htail, Evaluation.rule]
        dsimp only
        split
        next hreport => simp [hreport]
        next alert hreport => simp [hreport, Report.notified]
        next alert hreport => simp [hreport, Report.notified]

namespace AlertManager

/-- The rules an evaluation visits, with their positions. -/
def entries (m : AlertManager V) : List (AlertRule V × ℕ) := m.rules.zipIdx.filter (·.1.enabled)

/-- The active alert of the rule at a position, on a tick that left the manager. -/
def alertOf (f : Floats V) (m : AlertManager V) (r : Readings V) (now i : ℕ) :
    Option (ActiveAlert V) :=
  match m.rules[i]? with
  | none => none
  | some rule =>
      if rule.enabled then (m.states i).breach.activeAlert f rule
        (r.thresholdFor f rule) now else none

theorem mem_entries {m : AlertManager V} {rule : AlertRule V} {i : ℕ} :
    (rule, i) ∈ m.entries ↔ m.rules[i]? = some rule ∧ rule.enabled = true := by
  rw [entries, List.mem_filter, List.mem_zipIdx_iff_getElem?]

theorem entries_nodup (m : AlertManager V) : (m.entries.map Prod.snd).Nodup := by
  refine List.Nodup.sublist (List.filter_sublist.map Prod.snd) ?_
  rw [List.zipIdx_map_snd]
  exact List.nodup_range'

@[simp] theorem evaluate_rules (f : Floats V) (m : AlertManager V) (r : Readings V) (now : ℕ) :
    (m.evaluate f r now).2.rules = m.rules := rfl

/-- What an evaluation leaves: each enabled rule one tick on, its alert active once, and the
notifications among the alerts. -/
theorem evaluate_spec (f : Floats V) (m : AlertManager V) (r : Readings V) (now : ℕ) :
    ∃ before : ℕ → IncidentSequence,
      (∀ rule i, m.rules[i]? = some rule → rule.enabled = true → (m.evaluate f r now).2.states i =
        ((m.states i).tick f rule r now (before i)).2.1) ∧
      (m.evaluate f r now).2.activeAlerts =
        m.rules.zipIdx.filterMap (fun entry => (m.evaluate f r now).2.alertOf f r now entry.2) ∧
      (m.evaluate f r now).1 = m.entries.filterMap fun entry =>
        ((m.states entry.2).tick f entry.1 r now (before entry.2)).1.bind Report.notified := by
  obtain ⟨before, hstates, -, hactive, hnotes⟩ := foldl_rule f r now m.entries m.entries_nodup
    ⟨[], [], m.states, m.incidents⟩
  have htick : ∀ entry ∈ m.entries, (m.evaluate f r now).2.states entry.2 =
      ((m.states entry.2).tick f entry.1 r now (before entry.2)).2.1 := hstates
  refine ⟨before, fun rule i hrule henabled => htick (rule, i) (mem_entries.mpr ⟨hrule, henabled⟩),
    ?_, hnotes⟩
  have hlist : (m.evaluate f r now).2.activeAlerts = m.entries.filterMap fun entry =>
      ((m.states entry.2).tick f entry.1 r now (before entry.2)).1.map Report.alert := hactive
  rw [hlist, entries, List.filterMap_filter]
  refine List.filterMap_congr fun entry hentry => ?_
  have hrule : m.rules[entry.2]? = some entry.1 := List.mem_zipIdx_iff_getElem?.mp hentry
  rw [alertOf, evaluate_rules, hrule]
  dsimp only
  split_ifs with henabled
  · rw [RuleState.tick_alert, htick entry (List.mem_filter.mpr ⟨hentry, henabled⟩)]
  · rfl

end AlertManager

/-! ### Incident ids -/

theorem IncidentId.display_injective {a b : IncidentId} (hrun : a.run = b.run)
    (h : a.display = b.display) : a = b := by
  obtain ⟨run, sequence⟩ := a
  obtain ⟨run', sequence'⟩ := b
  obtain rfl : run = run' := hrun
  rw [display, display, String.append_right_inj] at h
  obtain rfl : sequence = sequence' := Nat.repr_injective h
  rfl

/-- The incidents of the rules are of the run's sequence, and no two rules share one. -/
structure Ids (states : ℕ → RuleState V) (incidents : IncidentSequence) : Prop where
  minted : ∀ i incident, (states i).breach.incident? = some incident →
    incident.id.run = incidents.run ∧ incident.id.sequence ≤ incidents.minted
  distinct : ∀ i j incident incident', (states i).breach.incident? = some incident →
    (states j).breach.incident? = some incident' → incident.id = incident'.id → i = j

/-- The incident is over: its number is minted, and no rule has it. -/
structure Spent (states : ℕ → RuleState V) (incidents : IncidentSequence)
    (id : IncidentId) : Prop where
  minted : id.sequence ≤ incidents.minted
  ended : ∀ i incident, (states i).breach.incident? = some incident → incident.id ≠ id

/-- The rule has the incident. -/
def Alive (states : ℕ → RuleState V) (i : ℕ) (incident : Incident) : Prop :=
  (states i).breach.incident? = some incident

theorem Ids.default (incidents : IncidentSequence) :
    Ids (fun _ => (RuleState.default : RuleState V)) incidents :=
  ⟨nofun, nofun⟩

section Ids

variable {r : Readings V} {now : ℕ} {e : Evaluation V} {entry : AlertRule V × ℕ}

theorem Evaluation.rule_eq (f : Floats V) (r : Readings V) (now : ℕ) (e : Evaluation V)
    (entry : AlertRule V × ℕ) :
    (e.rule f r now entry).states = Function.update e.states entry.2
        ((e.states entry.2).tick f entry.1 r now e.incidents).2.1 ∧
      (e.rule f r now entry).incidents =
        ((e.states entry.2).tick f entry.1 r now e.incidents).2.2 := by
  rw [rule]
  dsimp only
  split
  all_goals exact ⟨rfl, rfl⟩

/-- After one rule: its incident gone, every incident as it was, or a fresh one where none was. -/
theorem Evaluation.rule_incident (f : Floats V) (r : Readings V) (now : ℕ) (e : Evaluation V)
    (entry : AlertRule V × ℕ) :
    (∀ i ≠ entry.2, (e.rule f r now entry).states i = e.states i) ∧
    (r.seen f entry.1 = .clear ∧ ((e.rule f r now entry).states entry.2).breach.incident? = none ∧
        (e.rule f r now entry).incidents = e.incidents ∨
      r.seen f entry.1 ≠ .clear ∧ ((e.rule f r now entry).states entry.2).breach.incident? =
          (e.states entry.2).breach.incident? ∧ (e.rule f r now entry).incidents = e.incidents ∨
      r.seen f entry.1 ≠ .clear ∧ (e.states entry.2).breach.incident? = none ∧
        ((e.rule f r now entry).states entry.2).breach.incident? =
          some ⟨⟨e.incidents.run, e.incidents.minted + 1⟩, now⟩ ∧
        (e.rule f r now entry).incidents = ⟨e.incidents.run, e.incidents.minted + 1⟩) := by
  obtain ⟨hstates, hincidents⟩ := rule_eq f r now e entry
  rw [hstates, hincidents, Function.update_self]
  exact ⟨fun i hi => Function.update_of_ne hi _ _,
    RuleState.tick_incident f (e.states entry.2) entry.1 r now e.incidents⟩

theorem Ids.rule (h : Ids e.states e.incidents) (entry : AlertRule V × ℕ) :
    Ids (e.rule f r now entry).states (e.rule f r now entry).incidents := by
  obtain ⟨hother, hcases⟩ := Evaluation.rule_incident f r now e entry
  generalize e.rule f r now entry = e' at *
  -- In every case an incident of `e'` is one of `e`, or the fresh one of this rule.
  have hrun : e'.incidents.run = e.incidents.run ∧ e.incidents.minted ≤ e'.incidents.minted := by
    rcases hcases with ⟨-, -, heq⟩ | ⟨-, -, heq⟩ | ⟨-, -, -, heq⟩
    · rw [heq]
      exact ⟨rfl, le_rfl⟩
    · rw [heq]
      exact ⟨rfl, le_rfl⟩
    · rw [heq]
      exact ⟨rfl, Nat.le_succ _⟩
  have hold : ∀ i incident, (e'.states i).breach.incident? = some incident →
      (e.states i).breach.incident? = some incident ∨
        i = entry.2 ∧ incident.id = ⟨e.incidents.run, e.incidents.minted + 1⟩ ∧
          e'.incidents.minted = e.incidents.minted + 1 := by
    intro i incident hget
    by_cases hi : i = entry.2
    · subst hi
      rcases hcases with ⟨-, hnone, -⟩ | ⟨-, hsame, -⟩ | ⟨-, -, hnew, heq⟩
      · rw [hnone] at hget
        cases hget
      · exact .inl (hsame ▸ hget)
      · rw [hnew] at hget
        cases hget
        exact .inr ⟨rfl, rfl, by rw [heq]⟩
    · rw [hother i hi] at hget
      exact .inl hget
  constructor
  · intro i incident hget
    rcases hold i incident hget with hget | ⟨-, hid, hminted⟩
    · obtain ⟨hr, hle⟩ := h.minted i incident hget
      exact ⟨hr.trans hrun.1.symm, hle.trans hrun.2⟩
    · rw [hid, hminted]
      exact ⟨hrun.1.symm, le_rfl⟩
  · intro i j incident incident' hi hj heq
    rcases hold i incident hi with hi | ⟨rfl, hid, -⟩
    · rcases hold j incident' hj with hj | ⟨rfl, hid', -⟩
      · exact h.distinct i j incident incident' hi hj heq
      · have hle := (h.minted i incident hi).2
        rw [heq, hid'] at hle
        exact absurd hle (Nat.not_succ_le_self _)
    · rcases hold j incident' hj with hj | ⟨rfl, hid', -⟩
      · have hle := (h.minted j incident' hj).2
        rw [← heq, hid] at hle
        exact absurd hle (Nat.not_succ_le_self _)
      · rfl

theorem Spent.rule {id : IncidentId} (h : Spent e.states e.incidents id) (entry : AlertRule V × ℕ) :
    Spent (e.rule f r now entry).states (e.rule f r now entry).incidents id := by
  obtain ⟨hother, hcases⟩ := Evaluation.rule_incident f r now e entry
  generalize e.rule f r now entry = e' at *
  have hle := h.minted
  constructor
  · rcases hcases with ⟨-, -, heq⟩ | ⟨-, -, heq⟩ | ⟨-, -, -, heq⟩
    · rw [heq]
      exact hle
    · rw [heq]
      exact hle
    · rw [heq]
      exact hle.trans (Nat.le_succ _)
  · intro i incident hget
    by_cases hi : i = entry.2
    · subst hi
      rcases hcases with ⟨-, hnone, -⟩ | ⟨-, hsame, -⟩ | ⟨-, -, hnew, -⟩
      · rw [hnone] at hget
        cases hget
      · exact h.ended _ incident (hsame ▸ hget)
      · rw [hnew] at hget
        cases hget
        intro heq
        rw [← heq] at hle
        exact absurd hle (Nat.not_succ_le_self _)
    · rw [hother i hi] at hget
      exact h.ended i incident hget

theorem Spent.foldl {id : IncidentId} (h : Spent e.states e.incidents id)
    (entries : List (AlertRule V × ℕ)) :
    Spent (entries.foldl (Evaluation.rule f r now) e).states
      (entries.foldl (Evaluation.rule f r now) e).incidents id :=
  List.foldlRecOn (motive := fun e : Evaluation V => Spent e.states e.incidents id) entries _ h
    fun _ he entry _ => he.rule entry

/-- A rule's incident through one rule of an evaluation: kept, or over when this rule is its own and
sees no breach. -/
theorem Alive.rule (f : Floats V) (r : Readings V) (now : ℕ) (hids : Ids e.states e.incidents)
    {i : ℕ} {incident : Incident} (h : Alive e.states i incident) (entry : AlertRule V × ℕ) :
    (entry.2 = i ∧ r.seen f entry.1 = .clear ∧
        Spent (e.rule f r now entry).states (e.rule f r now entry).incidents incident.id) ∨
      ((entry.2 = i → r.seen f entry.1 ≠ .clear) ∧ Alive
        (e.rule f r now entry).states i incident) := by
  obtain ⟨hother, hcases⟩ := Evaluation.rule_incident f r now e entry
  generalize e.rule f r now entry = e' at *
  by_cases hi : entry.2 = i
  · subst hi
    rcases hcases with ⟨hseen, hnone, hsame⟩ | ⟨hseen, hsame, -⟩ | ⟨-, hnone, -⟩
    · refine .inl ⟨rfl, hseen, hsame ▸ (hids.minted _ incident h).2, ?_⟩
      intro j incident' hj heq
      by_cases hji : j = entry.2
      · rw [hji, hnone] at hj
        cases hj
      · rw [hother j hji] at hj
        exact hji (hids.distinct j _ incident' incident hj h heq)
    · exact .inr ⟨fun _ => hseen, hsame.trans h⟩
    · rw [Alive, hnone] at h
      cases h
  · refine .inr ⟨fun heq => absurd heq hi, ?_⟩
    rw [Alive, hother i (Ne.symm hi)]
    exact h

/-- The same through all the rules of an evaluation. -/
theorem Alive.foldl (f : Floats V) (r : Readings V) (now : ℕ) (hids : Ids e.states e.incidents)
    {i : ℕ} {incident : Incident} (h : Alive e.states i incident)
    (entries : List (AlertRule V × ℕ)) :
    ((∃ entry ∈ entries, entry.2 = i ∧ r.seen f entry.1 = .clear) ∧
        Spent (entries.foldl (Evaluation.rule f r now) e).states
          (entries.foldl (Evaluation.rule f r now) e).incidents incident.id) ∨
      ((∀ entry ∈ entries, entry.2 = i → r.seen f entry.1 ≠ .clear) ∧
        Alive (entries.foldl (Evaluation.rule f r now) e).states i incident) := by
  induction entries generalizing e with
  | nil => exact .inr ⟨by simp, h⟩
  | cons entry entries ih =>
      rcases h.rule f r now hids entry with ⟨heq, hseen, hdone⟩ | ⟨hseen, halive⟩
      · exact .inl ⟨⟨entry, List.mem_cons_self, heq, hseen⟩, hdone.foldl entries⟩
      · rcases ih (hids.rule entry) halive with ⟨⟨x, hx, hclear⟩, hdone⟩ | ⟨hkept, halive⟩
        · exact .inl ⟨⟨x, List.mem_cons_of_mem _ hx, hclear⟩, hdone⟩
        · exact .inr ⟨List.forall_mem_cons.mpr ⟨hseen, hkept⟩, halive⟩

end Ids

/-! ### Runs -/

/-- The step ends the rule's incident: a tick that sees no breach, or a new rule set. -/
def AlertOp.Clears (f : Floats V) (rule : AlertRule V) : AlertOp V → Prop
  | .evaluate r _ => r.seen f rule = .clear
  | .replaceRules _ => True

namespace AlertManager

variable {m : AlertManager V}

theorem ids_step (h : Ids m.states m.incidents) (op : AlertOp V) :
    Ids (m.step f op).states (m.step f op).incidents := by
  cases op with
  | evaluate r now =>
      exact List.foldlRecOn (motive := fun e : Evaluation V => Ids e.states e.incidents)
        m.entries _ h fun e he entry _ => he.rule entry
  | replaceRules rules => exact .default _

theorem ids_run (run : AgentRun) (rules : List (AlertRule V)) (ops : List (AlertOp V)) :
    Ids ((new run rules).run f ops).states ((new run rules).run f ops).incidents :=
  List.foldlRecOn (motive := fun m : AlertManager V => Ids m.states m.incidents) ops _ (.default _)
    fun _ hm op _ => ids_step hm op

theorem spent_step {id : IncidentId} (h : Spent m.states m.incidents id) (op : AlertOp V) :
    Spent (m.step f op).states (m.step f op).incidents id := by
  cases op with
  | evaluate r now =>
      exact h.foldl m.entries
  | replaceRules rules => exact ⟨h.minted, nofun⟩

theorem spent_run {id : IncidentId} (h : Spent m.states m.incidents id) (ops : List (AlertOp V)) :
    Spent (m.run f ops).states (m.run f ops).incidents id :=
  List.foldlRecOn (motive := fun m : AlertManager V => Spent m.states m.incidents id) ops _ h
    fun _ hm op _ => spent_step hm op

/-- One step: it ends the rule's incident for good, or leaves the rule and its incident. -/
theorem alive_step (hids : Ids m.states m.incidents) {rule : AlertRule V} {i : ℕ}
    {incident : Incident} (hrule : m.rules[i]? = some rule) (henabled : rule.enabled = true)
    (h : Alive m.states i incident) (op : AlertOp V) :
    (op.Clears f rule ∧ Spent (m.step f op).states (m.step f op).incidents incident.id) ∨
      (¬ op.Clears f rule ∧ Alive (m.step f op).states i incident ∧
        (m.step f op).rules = m.rules) := by
  cases op with
  | evaluate r now =>
      have hmem : (rule, i) ∈ m.entries := mem_entries.mpr ⟨hrule, henabled⟩
      rcases Alive.foldl f r now (e := ⟨[], [], m.states, m.incidents⟩) hids h m.entries with
        ⟨⟨entry, hentry, heq, hseen⟩, hspent⟩ | ⟨hseen, halive⟩
      · obtain ⟨hrule', -⟩ := mem_entries.mp (show (entry.1, entry.2) ∈ m.entries from hentry)
        rw [heq, hrule] at hrule'
        obtain rfl : rule = entry.1 := Option.some.inj hrule'
        exact .inl ⟨hseen, hspent⟩
      · exact .inr ⟨hseen (rule, i) hmem rfl, halive, rfl⟩
  | replaceRules rules =>
      exact .inl ⟨trivial, (hids.minted i incident h).2, nofun⟩

/-- A whole run: no step ends the rule's incident and the rule still has it, or some step did and no
rule has it ever after. -/
theorem alive_run (hids : Ids m.states m.incidents) {rule : AlertRule V} {i : ℕ}
    {incident : Incident} (hrule : m.rules[i]? = some rule) (henabled : rule.enabled = true)
    (h : Alive m.states i incident) (ops : List (AlertOp V)) :
    ((∃ op ∈ ops, op.Clears f rule) ∧ Spent (m.run f ops).states
      (m.run f ops).incidents incident.id) ∨
      ((∀ op ∈ ops, ¬ op.Clears f rule) ∧ Alive (m.run f ops).states i incident ∧
        (m.run f ops).rules = m.rules) := by
  induction ops generalizing m with
  | nil => exact .inr ⟨by simp, h, rfl⟩
  | cons op ops ih =>
      rcases alive_step hids hrule henabled h op with ⟨hclears, hdone⟩ | ⟨hkeeps, halive, hrules⟩
      · exact .inl ⟨⟨op, List.mem_cons_self, hclears⟩, spent_run hdone ops⟩
      · rcases ih (ids_step hids op) (hrules ▸ hrule) halive with
          ⟨⟨x, hx, hclears⟩, hdone⟩ | ⟨hkept, halive, hrules'⟩
        · exact .inl ⟨⟨x, List.mem_cons_of_mem _ hx, hclears⟩, hdone⟩
        · exact .inr ⟨List.forall_mem_cons.mpr ⟨hkeeps, hkept⟩, halive, hrules'.trans hrules⟩

theorem incidents_step (f : Floats V) (m : AlertManager V) (op : AlertOp V) :
    (m.step f op).incidents.run = m.incidents.run := by
  cases op with
  | evaluate r now =>
      refine List.foldlRecOn (motive := fun e : Evaluation V => e.incidents.run =
        m.incidents.run) m.entries _ rfl fun e he entry _ => ?_
      obtain ⟨-, ⟨-, -, heq⟩ | ⟨-, -, heq⟩ | ⟨-, -, -, heq⟩⟩ :=
        Evaluation.rule_incident f r now e entry
      all_goals
        rw [heq]
        exact he
  | replaceRules rules => rfl

theorem incidents_run (f : Floats V) (run : AgentRun) (rules : List (AlertRule V))
    (ops : List (AlertOp V)) : ((new run rules).run f ops).incidents.run = run :=
  List.foldlRecOn (motive := fun m : AlertManager V => m.incidents.run = run) ops _ rfl
    fun m hm op _ => (incidents_step f m op).trans hm

/-- The rules ticked over `ops`: the enabled ones, at every evaluation. -/
def ruleTicks (f : Floats V) (m : AlertManager V) : List (AlertOp V) → ℕ
  | [] => 0
  | .evaluate r now :: ops => m.entries.length + ruleTicks f (m.step f (.evaluate r now)) ops
  | .replaceRules rules :: ops => ruleTicks f (m.replaceRules rules) ops

/-- One rule's tick mints at most one incident. -/
theorem minted_rules (f : Floats V) (r : Readings V) (now : ℕ) (entries : List (AlertRule V × ℕ))
    (e : Evaluation V) :
    (entries.foldl (Evaluation.rule f r now) e).incidents.minted ≤
      e.incidents.minted + entries.length := by
  induction entries generalizing e with
  | nil => exact le_rfl
  | cons entry entries ih =>
      have hone : (e.rule f r now entry).incidents.minted ≤ e.incidents.minted + 1 := by
        obtain ⟨-, ⟨-, -, heq⟩ | ⟨-, -, heq⟩ | ⟨-, -, -, heq⟩⟩ :=
          Evaluation.rule_incident f r now e entry
        · exact heq ▸ Nat.le_succ _
        · exact heq ▸ Nat.le_succ _
        · rw [heq]
      have hrest := ih (e.rule f r now entry)
      rw [List.foldl_cons, List.length_cons]
      omega

/-- A run mints at most one incident for each rule it ticked. -/
theorem minted_run (f : Floats V) (m : AlertManager V) (ops : List (AlertOp V)) :
    (m.run f ops).incidents.minted ≤ m.incidents.minted + m.ruleTicks f ops := by
  induction ops generalizing m with
  | nil => exact le_rfl
  | cons op ops ih =>
      have hrest := ih (m.step f op)
      rw [run, List.foldl_cons]
      cases op with
      | evaluate r now =>
          have hone : (m.step f (.evaluate r now)).incidents.minted ≤
              m.incidents.minted + m.entries.length :=
            minted_rules f r now m.entries ⟨[], [], m.states, m.incidents⟩
          rw [ruleTicks]
          exact hrest.trans (by omega)
      | replaceRules rules => exact hrest

/-- The active alert of the rule at `i` on the tick `(r, now)` after `ops`. -/
def alertAfter (f : Floats V) (m : AlertManager V) (ops : List (AlertOp V))
    (r : Readings V) (now i : ℕ) : Option (ActiveAlert V) :=
  ((m.run f ops).evaluate f r now).2.alertOf f r now i

/-- The rule at `i` notifies on the tick `(r, now)` after `ops`. -/
def NotifiesAfter (f : Floats V) (m : AlertManager V) (ops : List (AlertOp V)) (r : Readings V)
    (now i : ℕ) : Prop :=
  ∃ alert, m.alertAfter f ops r now i = some alert ∧ alert ∈ ((m.run f ops).evaluate f r now).1

theorem run_append (f : Floats V) (m : AlertManager V) (ops more : List (AlertOp V)) :
    m.run f (ops ++ more) = (m.run f ops).run f more :=
  List.foldl_append

theorem alertOf_eq_some {r : Readings V} {now i : ℕ} {alert : ActiveAlert V}
    (h : m.alertOf f r now i = some alert) :
    ∃ rule incident, m.rules[i]? = some rule ∧ rule.enabled = true ∧ Alive m.states i incident ∧
      alert.id = incident.id.display ∧ alert.firedAt = unixToIso8601 incident.activatedAt := by
  rw [alertOf] at h
  split at h
  · cases h
  next rule hrule =>
    split_ifs at h with henabled
    obtain ⟨incident, hget, hid, hfired⟩ := Breach.activeAlert_eq_some h
    exact ⟨rule, incident, hrule, henabled, hget, hid, hfired⟩

/-- Alerts of one tick with one id are of one rule. -/
theorem alertAfter_injective (run : AgentRun) (rules : List (AlertRule V)) {ops : List (AlertOp V)}
    {r : Readings V} {now i j : ℕ} {a b : ActiveAlert V}
    (ha : (new run rules).alertAfter f ops r now i = some a)
    (hb : (new run rules).alertAfter f ops r now j = some b) (h : a.id = b.id) : i = j := by
  obtain ⟨-, incident, -, -, hi, hid, -⟩ := alertOf_eq_some ha
  obtain ⟨-, incident', -, -, hj, hid', -⟩ := alertOf_eq_some hb
  have hids := ids_step (f := f) (ids_run (f := f) run rules ops) (.evaluate r now)
  have hrun := (hids.minted i incident hi).1.trans (hids.minted j incident' hj).1.symm
  rw [hid, hid'] at h
  exact hids.distinct i j incident incident' hi hj (IncidentId.display_injective hrun h)

end AlertManager

end MonitoringAgent.Agent

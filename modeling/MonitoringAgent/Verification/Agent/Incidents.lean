import Mathlib.Data.List.DropRight
import MonitoringAgent.Verification.Agent.Alerts

/-! # The life of an alert incident

Where a rule stands by the ticks it saw since the rules were installed: an incident's life is the
rule's unbroken breach. -/

namespace MonitoringAgent.Agent

variable {V : Type} {f : Floats V}

/-! ### The unbroken breach of a rule -/

/-- A tick as a rule saw it. -/
structure Observed where
  seen : Seen
  «at» : ℕ
  deriving DecidableEq, Repr

/-- The ticks a rule saw; a disabled rule sees none. -/
def observed (f : Floats V) (rule : AlertRule V) (ticks : List (Readings V × ℕ)) : List Observed :=
  if rule.enabled then ticks.map fun tick => ⟨tick.1.seen f rule, tick.2⟩ else []

/-- The ticks since the last clear one, from the first measured breach on. -/
def unbroken (obs : List Observed) : List Observed :=
  (obs.rtakeWhile fun o => o.seen ≠ .clear).dropWhile fun o => o.seen = .carried

/-- The first measured tick of the unbroken breach at least `duration` after its start. -/
def matured (duration : ℕ) (obs : List Observed) : Option Observed :=
  match unbroken obs with
  | [] => none
  | first :: rest =>
      (first :: rest).find? fun o => o.seen = .breached ∧ first.at + duration ≤ o.at

theorem unbroken_clear (obs : List Observed) {o : Observed} (h : o.seen = .clear) :
    unbroken (obs ++ [o]) = [] := by
  rw [unbroken, List.rtakeWhile_concat_neg _ _ _ (by simp [h])]
  rfl

theorem unbroken_carried (obs : List Observed) {o : Observed} (h : o.seen = .carried) :
    unbroken (obs ++ [o]) = if unbroken obs = [] then [] else unbroken obs ++ [o] := by
  rw [unbroken, List.rtakeWhile_concat_pos _ _ _ (by simp [h]), List.dropWhile_append]
  simp [unbroken, h]

theorem unbroken_breached (obs : List Observed) {o : Observed} (h : o.seen = .breached) :
    unbroken (obs ++ [o]) = unbroken obs ++ [o] := by
  rw [unbroken, List.rtakeWhile_concat_pos _ _ _ (by simp [h]), List.dropWhile_append]
  split_ifs with hempty
  · rw [unbroken, List.isEmpty_iff.mp hempty]
    simp [h]
  · rfl

theorem mem_of_mem_unbroken {obs : List Observed} {o : Observed} (h : o ∈ unbroken obs) : o ∈ obs :=
  (List.rtakeWhile_suffix _ obs).subset ((List.dropWhile_suffix _).subset h)

/-- Where a rule stands on its breach, by the ticks it saw. -/
def Breach.Follows (duration : ℕ) (obs : List Observed) (breach : Breach V) : Prop :=
  match unbroken obs with
  | [] => breach = .clear
  | first :: _ => match matured duration obs with
      | none => breach = .pending first.at
      | some o => ∃ incident value, breach = .active first.at incident value ∧
          incident.activatedAt = o.at

theorem Breach.follows_pendingOrActive (value : V) (duration : ℕ) (incidents : IncidentSequence)
    {obs : List Observed} {first o : Observed} {rest : List Observed}
    (hnew : unbroken (obs ++ [o]) = first :: rest) (hle : first.at ≤ o.at)
    (hwait : matured duration (obs ++ [o]) = if first.at + duration ≤ o.at then some o else none) :
    Follows duration (obs ++ [o]) (pendingOrActive first.at value duration o.at incidents).1 := by
  rw [Follows, hnew, pendingOrActive]
  dsimp only
  rw [hwait]
  by_cases hdue : first.at + duration ≤ o.at
  · rw [if_pos hdue, if_neg (by omega)]
    exact ⟨_, _, rfl, rfl⟩
  · rw [if_neg hdue, if_pos (by omega)]

/-- On a clock that doesn't go back, a tick takes the rule where its ticks say. -/
theorem RuleState.follows_tick (f : Floats V) {s : RuleState V} {rule : AlertRule V}
    {r : Readings V} {now : ℕ} (incidents : IncidentSequence) {obs : List Observed}
    (h : s.breach.Follows rule.durationSecs obs) (hclock : ∀ o ∈ obs, o.at ≤ now) :
    (s.tick f rule r now incidents).2.1.breach.Follows rule.durationSecs
      (obs ++ [⟨r.seen f rule, now⟩]) := by
  cases hseen : r.seen f rule with
  | clear =>
      obtain ⟨-, hbreach, -⟩ := tick_clear s now incidents hseen
      rw [Breach.Follows, unbroken_clear obs rfl]
      exact hbreach
  | carried =>
      rw [tick_carried s now incidents hseen]
      rw [Breach.Follows] at h ⊢
      rw [matured, unbroken_carried obs rfl]
      cases hrun : unbroken obs with
      | nil =>
          rw [hrun] at h
          rw [if_pos rfl]
          exact h
      | cons first rest =>
          rw [matured, hrun] at h
          rw [if_neg (List.cons_ne_nil _ _)]
          -- A carried tick is never the one that matures the breach.
          have hlater : (first :: (rest ++ [⟨Seen.carried, now⟩])).find? (fun o =>
              o.seen = .breached ∧ first.at + rule.durationSecs ≤ o.at) =
                  (first :: rest).find? fun o =>
              o.seen = .breached ∧ first.at + rule.durationSecs ≤ o.at := by
            rw [← List.cons_append, List.find?_append]
            simp
          dsimp only [List.cons_append]
          rw [hlater]
          exact h
  | breached =>
      obtain ⟨value, htick⟩ := tick_breached s now incidents hseen
      obtain ⟨hbreach, -, -⟩ := measure_breach f s rule ⟨value, true⟩
        (r.thresholdFor f rule) now incidents
      rw [htick, hbreach]
      have hnew := unbroken_breached obs (o := ⟨.breached, now⟩) rfl
      rw [Breach.Follows] at h
      cases hrun : unbroken obs with
      | nil =>
          rw [hrun] at h hnew
          rw [h]
          refine Breach.follows_pendingOrActive value rule.durationSecs incidents hnew le_rfl ?_
          rw [matured, hnew]
          by_cases hzero : rule.durationSecs = 0
          · simp [hzero]
          · simp [hzero]
      | cons first rest =>
          have hle : first.at ≤ now :=
            hclock first (mem_of_mem_unbroken (hrun ▸ List.mem_cons_self))
          rw [hrun] at h hnew
          dsimp only at h
          have hlater : matured rule.durationSecs (obs ++ [⟨.breached, now⟩]) =
              (matured rule.durationSecs obs).or
                (if first.at + rule.durationSecs ≤ now then some ⟨.breached, now⟩ else none) := by
            rw [matured, hnew, matured, hrun]
            simp only [List.cons_append]
            rw [← List.cons_append, List.find?_append]
            congr 1
            by_cases hdue : first.at + rule.durationSecs ≤ now
            · simp [hdue]
            · simp [hdue]
          split at h
          next hwait =>
            rw [hwait, Option.none_or] at hlater
            rw [h]
            have hmin : (Breach.pending first.at : Breach V).advance ⟨value,
                true⟩ rule.durationSecs now incidents =
                Breach.pendingOrActive first.at value rule.durationSecs now incidents := by
              rw [Breach.advance, if_pos rfl, min_eq_left hle]
            rw [hmin]
            exact Breach.follows_pendingOrActive value rule.durationSecs incidents hnew hle hlater
          next o hdue =>
            obtain ⟨incident, value', heq, hat⟩ := h
            rw [hdue, Option.some_or] at hlater
            rw [heq, Breach.Follows, hnew]
            dsimp only [List.cons_append]
            rw [hlater]
            refine ⟨incident, value, ?_, hat⟩
            simp [Breach.advance, hle]

/-! ### Notifications -/

/-- On a clock that doesn't go back, a rule notifies on a breached tick with an active incident
whose cooldown has elapsed, and only then its last notification moves. -/
theorem RuleState.tick_notifies (f : Floats V) {s : RuleState V} {rule : AlertRule V}
    {r : Readings V} {now : ℕ} (incidents : IncidentSequence)
    (hlast : ∀ last ∈ s.lastNotified, last ≤ now) :
    ((∃ alert, (s.tick f rule r now incidents).1 = some (.notify alert)) ∧
        (s.tick f rule r now incidents).2.1.lastNotified = some now ∧
        ∀ last ∈ s.lastNotified, last + rule.cooldownSecs ≤ now) ∨
      ((∀ alert, (s.tick f rule r now incidents).1 ≠ some (.notify alert)) ∧
        (s.tick f rule r now incidents).2.1.lastNotified = s.lastNotified ∧
        (r.seen f rule = .breached → (s.tick f rule r now incidents).1 ≠ none →
          ∃ last ∈ s.lastNotified, now < last + rule.cooldownSecs)) := by
  have hmin : s.lastNotified.map (min · now) = s.lastNotified := by
    cases hs : s.lastNotified with
    | none => rfl
    | some last => rw [Option.map_some, min_eq_left (hlast last hs)]
  cases hseen : r.seen f rule with
  | clear =>
      obtain ⟨hreport, -, -, hsame⟩ := tick_clear s now incidents hseen
      rw [hmin, or_self] at hsame
      exact .inr ⟨fun alert => by rw [hreport]; simp, hsame, fun h => by cases h⟩
  | carried =>
      rw [tick_carried s now incidents hseen]
      exact .inr ⟨fun alert => by simp, rfl, fun h => by cases h⟩
  | breached =>
      obtain ⟨value, htick⟩ := tick_breached s now incidents hseen
      rw [htick, measure, hmin]
      dsimp only
      split
      · exact .inr ⟨fun alert => by simp, rfl, fun _ h => absurd rfl h⟩
      next alert halert =>
        rw [takeNotification]
        dsimp only
        cases hs : s.lastNotified with
        | none => exact .inl ⟨⟨alert, rfl⟩, rfl, by simp⟩
        | some last =>
            have hle := hlast last hs
            by_cases hdue : rule.cooldownSecs ≤ now - last
            · refine .inl ⟨⟨alert, by simp [hdue]⟩, by simp [hdue], ?_⟩
              simp only [Option.mem_some_iff, forall_eq']
              omega
            · refine .inr ⟨fun _ => by simp [hdue], by simp [hdue], fun _ _ => ⟨last, rfl, ?_⟩⟩
              omega

/-- Only a breached tick notifies. -/
theorem RuleState.breached_of_notify {s : RuleState V} {rule : AlertRule V} {r : Readings V}
    {now : ℕ} {incidents : IncidentSequence} {alert : ActiveAlert V}
    (h : (s.tick f rule r now incidents).1 = some (.notify alert)) : r.seen f rule = .breached := by
  cases hseen : r.seen f rule with
  | clear =>
      rw [(tick_clear s now incidents hseen).1] at h
      cases h
  | carried =>
      rw [tick_carried s now incidents hseen] at h
      simp at h
  | breached => rfl

/-- The steps of a list of ticks. -/
def evaluates (ticks : List (Readings V × ℕ)) : List (AlertOp V) :=
  ticks.map fun tick => .evaluate tick.1 tick.2

namespace AlertManager

/-- The rules in force after these steps are just installed. -/
def Installed (past : List (AlertOp V)) : Prop :=
  past = [] ∨ ∃ before rules, past = before ++ [.replaceRules rules]

theorem states_installed (f : Floats V) (run : AgentRun) (rules : List (AlertRule V))
    {past : List (AlertOp V)} (h : Installed past) :
    ((new run rules).run f past).states = fun _ => .default := by
  rcases h with rfl | ⟨before, rules', rfl⟩
  · rfl
  · rw [run_append]
    rfl

theorem rules_evaluates (f : Floats V) (m : AlertManager V) (ticks : List (Readings V × ℕ)) :
    (m.run f (evaluates ticks)).rules = m.rules := by
  induction ticks generalizing m with
  | nil => rfl
  | cons tick ticks ih => exact ih (m.step f (.evaluate tick.1 tick.2))

/-- The rule at `i` notifies exactly when its own tick does. -/
theorem notifiesAfter_iff (f : Floats V) (run : AgentRun) (rules : List (AlertRule V))
    (ops : List (AlertOp V)) (r : Readings V) (now : ℕ) {before : ℕ → IncidentSequence}
    (hstates : ∀ rule i, ((new run rules).run f ops).rules[i]? = some rule → rule.enabled = true →
      (((new run rules).run f ops).evaluate f r now).2.states i =
        ((((new run rules).run f ops).states i).tick f rule r now (before i)).2.1)
    (hnotes : (((new run rules).run f ops).evaluate f r now).1 =
      ((new run rules).run f ops).entries.filterMap fun entry =>
        ((((new run rules).run f ops).states entry.2).tick f entry.1 r now (before entry.2)).1.bind
          Report.notified) (i : ℕ) :
    (new run rules).NotifiesAfter f ops r now i ↔
      ∃ rule alert, ((new run rules).run f ops).rules[i]? = some rule ∧ rule.enabled = true ∧
        ((((new run rules).run f ops).states i).tick f rule r now (before i)).1 =
          some (.notify alert) := by
  have halert : ∀ j rule report, ((new run rules).run f ops).rules[j]? = some rule →
      rule.enabled = true →
      ((((new run rules).run f ops).states j).tick f rule r now (before j)).1 = some report →
      (new run rules).alertAfter f ops r now j = some report.alert := by
    intro j rule report hrule henabled hreport
    rw [alertAfter, alertOf, evaluate_rules, hrule]
    dsimp only
    rw [if_pos henabled, hstates rule j hrule henabled, ← RuleState.tick_alert,
      hreport, Option.map_some]
  constructor
  · rintro ⟨alert, hactive, hmem⟩
    rw [hnotes] at hmem
    obtain ⟨⟨rule, j⟩, hentry, hreport⟩ := List.mem_filterMap.mp hmem
    obtain ⟨hrule, henabled⟩ := mem_entries.mp hentry
    obtain ⟨report, htick, hnotified⟩ := Option.bind_eq_some_iff.mp hreport
    cases report with
    | quiet alert' => cases hnotified
    | notify alert' =>
        cases hnotified
        obtain rfl := alertAfter_injective run rules hactive
          (halert j rule _ hrule henabled htick) rfl
        exact ⟨rule, alert, hrule, henabled, htick⟩
  · rintro ⟨rule, alert, hrule, henabled, htick⟩
    refine ⟨alert, halert i rule _ hrule henabled htick, ?_⟩
    rw [hnotes]
    exact List.mem_filterMap.mpr ⟨(rule, i), mem_entries.mpr ⟨hrule, henabled⟩, by rw [htick]; rfl⟩

/-- A rule's state after its ticks since the rules were installed: where its ticks say it stands,
its last notification the last it made. -/
structure Stands (f : Floats V) (m : AlertManager V) (past : List (AlertOp V))
    (ticks : List (Readings V × ℕ)) (rule : AlertRule V) (i : ℕ) : Prop where
  breach : ((m.run f (past ++ evaluates ticks)).states i).breach.Follows rule.durationSecs
    (observed f rule ticks)
  made : ∀ last ∈ ((m.run f (past ++ evaluates ticks)).states i).lastNotified, ∃ earlier r later,
    ticks = earlier ++ (r, last) :: later ∧ m.NotifiesAfter f (past ++ evaluates earlier) r last i
  last : ∀ earlier r t later, ticks = earlier ++ (r, t) :: later →
    m.NotifiesAfter f (past ++ evaluates earlier) r t i →
    ∃ last ∈ ((m.run f (past ++ evaluates ticks)).states i).lastNotified, t ≤ last

section Stands

variable {run : AgentRun} {rules : List (AlertRule V)} {past : List (AlertOp V)}
  {ticks : List (Readings V × ℕ)} {rule : AlertRule V} {i : ℕ}

theorem run_tick (f : Floats V) (m : AlertManager V) (past : List (AlertOp V))
    (ticks : List (Readings V × ℕ)) (r : Readings V) (now : ℕ) :
    m.run f (past ++ evaluates (ticks ++ [(r, now)])) =
      ((m.run f (past ++ evaluates ticks)).evaluate f r now).2 := by
  rw [evaluates, List.map_append, ← List.append_assoc, run_append]
  rfl

theorem Stands.lastNotified_le (h : Stands f (new run rules) past ticks rule i) {now : ℕ}
    (hclock : ∀ tick ∈ ticks, tick.2 ≤ now) :
    ∀ last ∈ (((new run rules).run f (past ++ evaluates ticks)).states i).lastNotified,
      last ≤ now := by
  intro last hlast
  obtain ⟨earlier, r, later, rfl, -⟩ := h.made last hlast
  exact hclock (r, last) (List.mem_append_right _ List.mem_cons_self)

/-- A list split before its last element, or at it. -/
theorem concat_eq_append_cons {α : Type} {xs earlier later : List α} {x y : α}
    (h : xs ++ [x] = earlier ++ y :: later) :
    (∃ rest, later = rest ++ [x] ∧ xs = earlier ++ y :: rest) ∨ later = [] ∧
    xs = earlier ∧ x = y := by
  rcases List.eq_nil_or_concat later with rfl | ⟨rest, z, rfl⟩
  · obtain ⟨rfl, hx⟩ := List.append_inj' h rfl
    exact .inr ⟨rfl, rfl, List.head_eq_of_cons_eq hx⟩
  · rw [List.concat_eq_append, ← List.cons_append, ← List.append_assoc] at h
    obtain ⟨rfl, hx⟩ := List.append_inj' h rfl
    rw [List.concat_eq_append, List.head_eq_of_cons_eq hx]
    exact .inl ⟨rest, rfl, rfl⟩

/-- One more tick of an enabled rule. -/
theorem Stands.tick (h : Stands f (new run rules) past ticks rule i)
    (hrule : ((new run rules).run f past).rules[i]? = some rule) (henabled : rule.enabled = true)
    {r : Readings V} {now : ℕ} (hclock : ∀ tick ∈ ticks, tick.2 ≤ now) :
    Stands f (new run rules) past (ticks ++ [(r, now)]) rule i ∧
      (r.seen f rule = .breached → (new run rules).alertAfter f
        (past ++ evaluates ticks) r now i ≠ none →
        ((new run rules).NotifiesAfter f (past ++ evaluates ticks) r now i ↔
          ∀ earlier r' t later, ticks = earlier ++ (r', t) :: later →
            (new run rules).NotifiesAfter f (past ++ evaluates earlier) r' t i →
            t + rule.cooldownSecs ≤ now)) := by
  obtain ⟨before, hstates, -, hnotes⟩ :=
    evaluate_spec f ((new run rules).run f (past ++ evaluates ticks)) r now
  have hrule' : ((new run rules).run f (past ++ evaluates ticks)).rules[i]? = some rule := by
    rw [run_append, rules_evaluates, hrule]
  have hnotifies := notifiesAfter_iff f run rules (past ++ evaluates ticks) r now hstates hnotes i
  have hstate := hstates rule i hrule' henabled
  have hreport : (new run rules).alertAfter f (past ++ evaluates ticks) r now i =
      ((((new run rules).run f (past ++ evaluates ticks)).states i).tick f rule r now
        (before i)).1.map
        Report.alert := by
    rw [alertAfter, alertOf, evaluate_rules, hrule']
    dsimp only
    rw [if_pos henabled, hstate, RuleState.tick_alert]
  have hmine : (new run rules).NotifiesAfter f (past ++ evaluates ticks) r now i ↔ ∃ alert,
      ((((new run rules).run f (past ++ evaluates ticks)).states i).tick f rule r now
        (before i)).1 =
        some (.notify alert) := by
    rw [hnotifies]
    constructor
    · rintro ⟨rule', alert, hget, -, htick⟩
      obtain rfl : rule' = rule := Option.some.inj (hget.symm.trans hrule')
      exact ⟨alert, htick⟩
    · rintro ⟨alert, htick⟩
      exact ⟨rule, alert, hrule', henabled, htick⟩
  have hbreach :
      (((new run rules).run f (past ++ evaluates (ticks ++ [(r, now)]))).states i).breach.Follows
      rule.durationSecs (observed f rule (ticks ++ [(r, now)])) := by
    have hfollows := h.breach
    rw [observed, if_pos henabled] at hfollows
    rw [run_tick, hstate, observed, if_pos henabled, List.map_append]
    refine RuleState.follows_tick f (before i) hfollows ?_
    intro o ho
    obtain ⟨tick, htick, rfl⟩ := List.mem_map.mp ho
    exact hclock tick htick
  rcases RuleState.tick_notifies f (before i) (h.lastNotified_le hclock) with
    ⟨hyes, hnow, hcooled⟩ | ⟨hno, hsame, hcooling⟩
  · refine ⟨⟨hbreach, ?_, ?_⟩, fun _ _ => iff_of_true (hmine.mpr hyes) ?_⟩
    · intro last hlast
      rw [run_tick, hstate, hnow] at hlast
      obtain rfl : now = last := Option.some.inj hlast
      exact ⟨ticks, r, [], rfl, hmine.mpr hyes⟩
    · intro earlier r' t later heq hnotify
      rw [run_tick, hstate, hnow]
      refine ⟨now, rfl, ?_⟩
      rcases concat_eq_append_cons heq with ⟨rest, -, rfl⟩ | ⟨-, -, hlast⟩
      · exact hclock (r', t) (List.mem_append_right _ List.mem_cons_self)
      · rw [← (Prod.mk.inj hlast).2]
    · intro earlier r' t later heq hnotify
      obtain ⟨last, hlast, hle⟩ := h.last earlier r' t later heq hnotify
      have hcool := hcooled last hlast
      omega
  · have hquiet : ¬ (new run rules).NotifiesAfter f (past ++ evaluates ticks) r now i := by
      intro hnotify
      obtain ⟨alert, htick⟩ := hmine.mp hnotify
      exact hno alert htick
    refine ⟨⟨hbreach, ?_, ?_⟩, fun hseen hactive => iff_of_false hquiet fun hall => ?_⟩
    · intro last hlast
      rw [run_tick, hstate, hsame] at hlast
      obtain ⟨earlier, r', later, rfl, hnotify⟩ := h.made last hlast
      exact ⟨earlier, r', later ++ [(r, now)], by simp, hnotify⟩
    · intro earlier r' t later heq hnotify
      rw [run_tick, hstate, hsame]
      rcases concat_eq_append_cons heq with ⟨rest, -, hrest⟩ | ⟨-, rfl, hlast⟩
      · exact h.last earlier r' t rest hrest hnotify
      · obtain ⟨rfl, rfl⟩ := Prod.mk.inj hlast
        exact absurd hnotify hquiet
    · rw [hreport, ne_eq, Option.map_eq_none_iff] at hactive
      obtain ⟨last, hlast, hlt⟩ := hcooling hseen hactive
      obtain ⟨earlier, r', later, heq, hnotify⟩ := h.made last hlast
      have hcool := hall earlier r' last later heq hnotify
      omega

theorem stands_run (hpast : Installed past)
    (hrule : ((new run rules).run f past).rules[i]? = some rule) (henabled : rule.enabled = true)
    (hclock : (ticks.map Prod.snd).Pairwise (· ≤ ·)) :
    Stands f (new run rules) past ticks rule i := by
  induction ticks using List.reverseRecOn with
  | nil =>
      have hstate : (((new run rules).run f (past ++ evaluates [])).states i) = .default := by
        rw [evaluates, List.map_nil, List.append_nil, states_installed f run rules hpast]
      refine ⟨?_, ?_, ?_⟩
      · rw [hstate, observed, if_pos henabled]
        rfl
      · intro last hlast
        rw [hstate] at hlast
        cases hlast
      · intro earlier r t later heq
        simp at heq
  | append_singleton ticks tick ih =>
      rw [List.map_append, List.pairwise_append] at hclock
      refine ((ih hclock.1).tick hrule henabled fun x hx => ?_).1
      exact hclock.2.2 _ (List.mem_map_of_mem hx) _ (List.mem_singleton_self _)

end Stands

/-- A fired breach is active since the tick that matured it. -/
theorem alertAfter_firedAt {run : AgentRun} {rules : List (AlertRule V)} {past : List (AlertOp V)}
    {ticks : List (Readings V × ℕ)} {rule : AlertRule V} {i : ℕ} {r : Readings V} {now : ℕ}
    (hpast : Installed past) (hrule : ((new run rules).run f past).rules[i]? = some rule)
    (hclock : ((ticks ++ [(r, now)]).map Prod.snd).Pairwise (· ≤ ·)) :
    ((new run rules).alertAfter f (past ++ evaluates ticks) r now i).map ActiveAlert.firedAt =
      (matured rule.durationSecs (observed f rule (ticks ++ [(r, now)]))).map fun o =>
        unixToIso8601 o.at := by
  have hrule' : ((new run rules).run f (past ++ evaluates ticks)).rules[i]? = some rule := by
    rw [run_append, rules_evaluates, hrule]
  rw [alertAfter, alertOf, evaluate_rules, hrule']
  dsimp only
  split_ifs with henabled
  · have hfollows := (stands_run hpast hrule henabled hclock).breach
    rw [run_tick] at hfollows
    generalize
      ((((new run rules).run f (past ++ evaluates ticks)).evaluate f r now).2.states i).breach =
      breach at hfollows ⊢
    rw [Breach.Follows] at hfollows
    cases hrun : unbroken (observed f rule (ticks ++ [(r, now)])) with
    | nil =>
        rw [hrun] at hfollows
        rw [hfollows, matured, hrun]
        rfl
    | cons first rest =>
        rw [hrun] at hfollows
        dsimp only at hfollows
        split at hfollows
        next hwait =>
          rw [hfollows, hwait]
          rfl
        next o hdue =>
          obtain ⟨incident, value, rfl, hat⟩ := hfollows
          rw [hdue, Option.map_some, ← hat]
          rfl
  · rw [observed, if_neg henabled]
    rfl

/-- The alerts that notify are among those reported. -/
theorem notified_sublist {α : Type} (report : α → Option (Report V)) (entries : List α) :
    (entries.filterMap fun entry => (report entry).bind Report.notified).Sublist
      (entries.filterMap fun entry => (report entry).map Report.alert) := by
  induction entries with
  | nil => exact .slnil
  | cons entry entries ih =>
      rw [List.filterMap_cons, List.filterMap_cons]
      cases report entry with
      | none => exact ih
      | some report =>
          cases report with
          | quiet alert => exact ih.cons _
          | notify alert => exact ih.cons_cons _

theorem evaluate_sublist (f : Floats V) (m : AlertManager V) (r : Readings V) (now : ℕ) :
    (m.evaluate f r now).1.Sublist (m.evaluate f r now).2.activeAlerts := by
  obtain ⟨before, -, -, hlist, hnotes⟩ := foldl_rule f r now m.entries m.entries_nodup
    ⟨[], [], m.states, m.incidents⟩
  have hactive : (m.evaluate f r now).2.activeAlerts = _ := hlist
  have hnotified : (m.evaluate f r now).1 = _ := hnotes
  rw [hactive, hnotified]
  exact notified_sublist _ _

/-- An incident's id stays with its rule until it is cleared, and is then gone for good. -/
theorem incident_kept (run : AgentRun) (rules : List (AlertRule V)) {ops : List (AlertOp V)}
    {r : Readings V} {now i : ℕ} {a : ActiveAlert V}
    (ha : (new run rules).alertAfter f ops r now i = some a) :
    ∃ rule, ((new run rules).run f ops).rules[i]? = some rule ∧ ∀ more r' now',
      ((∀ op ∈ more ++ [.evaluate r' now'], ¬ op.Clears f rule) →
        ∃ b, (new run rules).alertAfter f (ops ++ .evaluate r now :: more) r' now' i = some b ∧
          b.id = a.id) ∧
      ∀ j b, (new run rules).alertAfter f (ops ++ .evaluate r now :: more) r' now' j = some b →
        b.id = a.id → j = i ∧ ∀ op ∈ more ++ [.evaluate r' now'], ¬ op.Clears f rule := by
  obtain ⟨rule, incident, hrule, henabled, halive, hid, -⟩ := alertOf_eq_some ha
  refine ⟨rule, hrule, fun more r' now' => ?_⟩
  have hids := ids_step (f := f) (ids_run (f := f) run rules ops) (.evaluate r now)
  have hfinal : ((((new run rules).run f ops).step f (.evaluate r now)).run f
      (more ++ [.evaluate r' now'])) =
      (((new run rules).run f (ops ++ .evaluate r now :: more)).evaluate f r' now').2 := by
    rw [run_append, run_append]
    rfl
  have hids' := ids_step (f := f) (ids_run (f := f) run rules (ops ++ .evaluate r now :: more))
    (.evaluate r' now')
  have hsame : ∀ j b, (new run rules).alertAfter f
      (ops ++ .evaluate r now :: more) r' now' j = some b →
      b.id = a.id → ∃ incident', incident'.id = incident.id ∧
        Alive (((new run rules).run f (ops ++ .evaluate r now :: more)).evaluate f r' now').2.states
          j incident' := by
    intro j b hb heq
    obtain ⟨-, incident', -, -, hj, hid', -⟩ := alertOf_eq_some hb
    refine ⟨incident', IncidentId.display_injective ?_ (by rw [← hid, ← hid', heq]), hj⟩
    rw [(hids'.minted j incident' hj).1, (hids.minted i incident halive).1, incidents_step,
      incidents_step, incidents_run, incidents_run]
  rcases alive_run hids hrule henabled halive (more ++ [.evaluate r' now']) with
    ⟨⟨op, hop, hclears⟩, hspent⟩ | ⟨hkept, hkeeps, hrules⟩
  · refine ⟨fun hnone => absurd hclears (hnone op hop), fun j b hb heq => ?_⟩
    obtain ⟨incident', hsameId, hj⟩ := hsame j b hb heq
    rw [hfinal] at hspent
    exact absurd hsameId (hspent.ended j incident' hj)
  · rw [hfinal] at hkeeps hrules
    constructor
    · intro _
      obtain ⟨b, hb, hbid⟩ := Breach.activeAlert_of_incident (f := f) hkeeps rule
        (r'.thresholdFor f rule) now'
      have hget : ((((new run rules).run f (ops ++ .evaluate r now :: more)).evaluate f r'
          now').2).rules[i]? = some rule := by
        rw [hrules]
        exact hrule
      refine ⟨b, ?_, hbid.trans hid.symm⟩
      rw [alertAfter, alertOf, hget]
      exact (if_pos henabled).trans hb
    · intro j b hb heq
      obtain ⟨incident', hsameId, hj⟩ := hsame j b hb heq
      exact ⟨hids'.distinct j i incident' incident hj hkeeps hsameId, hkept⟩

/-- An incident's life is its unbroken breach. On every tick a rule has at most one active alert and
those that notify are among the active ones; an incident's id stays with its rule until a tick that
sees no breach or a new rule set, and is then gone for good; and on a clock that doesn't go back
since the rules were installed, a rule is active exactly while its breach has matured, fired on the
tick it did, and notifies on a measured tick exactly when its cooldown has elapsed. No run mints
more ids than it ticked rules, so for the first 2^64 of these the count is the source's `u64`. -/
theorem incident_life (f : Floats V) (run : AgentRun) (rules : List (AlertRule V))
    (ops : List (AlertOp V)) (r : Readings V) (now : ℕ) :
    (((new run rules).run f ops).evaluate f r now).2.activeAlerts =
        ((new run rules).run f ops).rules.zipIdx.filterMap
          (fun entry => (new run rules).alertAfter f ops r now entry.2) ∧
    (((new run rules).run f ops).evaluate f r now).1.Sublist
        (((new run rules).run f ops).evaluate f r now).2.activeAlerts ∧
    (∀ i j a b, (new run rules).alertAfter f ops r now i = some a →
      (new run rules).alertAfter f ops r now j = some b → a.id = b.id → i = j) ∧
    (∀ i a, (new run rules).alertAfter f ops r now i = some a →
      ∃ rule, ((new run rules).run f ops).rules[i]? = some rule ∧ ∀ more r' now',
        ((∀ op ∈ more ++ [.evaluate r' now'], ¬ op.Clears f rule) →
          ∃ b, (new run rules).alertAfter f (ops ++ .evaluate r now :: more) r' now' i = some b ∧
            b.id = a.id) ∧
        ∀ j b, (new run rules).alertAfter f (ops ++ .evaluate r now :: more) r' now' j = some b →
          b.id = a.id → j = i ∧ ∀ op ∈ more ++ [.evaluate r' now'], ¬ op.Clears f rule) ∧
    (∀ i, (new run rules).NotifiesAfter f ops r now i →
      ∃ rule, ((new run rules).run f ops).rules[i]? = some rule ∧ r.seen f rule = .breached) ∧
    ((new run rules).run f ops).incidents.minted ≤ (new run rules).ruleTicks f ops ∧
    ∀ past ticks, ops = past ++ evaluates ticks → Installed past →
      ((ticks ++ [(r, now)]).map Prod.snd).Pairwise (· ≤ ·) →
      ∀ i rule, ((new run rules).run f past).rules[i]? = some rule →
        ((new run rules).alertAfter f ops r now i).map ActiveAlert.firedAt =
            (matured rule.durationSecs (observed f rule (ticks ++ [(r, now)]))).map
              (fun o => unixToIso8601 o.at) ∧
          (r.seen f rule = .breached → (new run rules).alertAfter f ops r now i ≠ none →
            ((new run rules).NotifiesAfter f ops r now i ↔
              ∀ earlier r' t later, ticks = earlier ++ (r', t) :: later →
                (new run rules).NotifiesAfter f (past ++ evaluates earlier) r' t i →
                t + rule.cooldownSecs ≤ now)) := by
  obtain ⟨before, hstates, hactive, hnotes⟩ := evaluate_spec f ((new run rules).run f ops) r now
  refine ⟨hactive, ?_, fun i j a b ha hb => alertAfter_injective run rules ha hb, ?_, ?_, ?_, ?_⟩
  · exact evaluate_sublist f _ r now
  · exact fun i a ha => incident_kept run rules ha
  · intro i hnotify
    obtain ⟨rule, alert, hrule, -, htick⟩ :=
      (notifiesAfter_iff f run rules ops r now hstates hnotes i).mp hnotify
    exact ⟨rule, hrule, RuleState.breached_of_notify htick⟩
  · exact (minted_run f (new run rules) ops).trans_eq (Nat.zero_add _)
  · rintro past ticks rfl hpast hclock i rule hrule
    refine ⟨alertAfter_firedAt hpast hrule hclock, fun hseen hsome => ?_⟩
    obtain ⟨alert, halert⟩ := Option.ne_none_iff_exists'.mp hsome
    obtain ⟨rule', -, hrule', henabled, -⟩ := alertOf_eq_some halert
    rw [evaluate_rules, run_append, rules_evaluates, hrule] at hrule'
    obtain rfl : rule = rule' := Option.some.inj hrule'
    rw [List.map_append, List.pairwise_append] at hclock
    refine ((stands_run hpast hrule henabled hclock.1).tick hrule henabled
      fun x hx => ?_).2 hseen hsome
    exact hclock.2.2 _ (List.mem_map_of_mem hx) _ (List.mem_singleton_self _)

/-- Whole percents. -/
def wholePercents : Floats ℕ where
  zero := 0
  max := max
  ofCores cores := cores
  eq a b := a == b
  lt a b := decide (a < b)
  le a b := decide (a ≤ b)
  oneDecimal v := toString v ++ ".0"

/-- CPU above 90 for a minute, notified every five. -/
def busyCpu : AlertRule ℕ := ⟨.cpu, .gt, 90, .warning, 60, 300, none, true⟩

def cpuAt (cpu : Reading ℕ) : Readings ℕ := ⟨cpu, .unavailable, .unavailable, [], 0, 0, 0, 1⟩

theorem incident_life_busyCpu :
    ((new ⟨⟨7⟩⟩ [busyCpu]).alertAfter wholePercents
      (evaluates [(cpuAt (.measured 95), 1000)]) (cpuAt (.measured 97)) 1060 0).map
        ActiveAlert.firedAt = some (unixToIso8601 1060) := by
  obtain ⟨-, -, -, -, -, -, hclock⟩ := incident_life wholePercents
    ⟨⟨7⟩⟩ [busyCpu] (evaluates [(cpuAt (.measured 95), 1000)])
    (cpuAt (.measured 97)) 1060
  exact (hclock [] [(cpuAt (.measured 95), 1000)] rfl (.inl rfl) (by simp) 0 busyCpu rfl).1

end AlertManager

end MonitoringAgent.Agent

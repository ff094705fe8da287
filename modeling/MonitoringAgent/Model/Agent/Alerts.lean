import Mathlib.Logic.Function.Basic
import Mathlib.Data.List.Basic
import MonitoringAgent.Model.Uuid

/-! # Alerts

Alert rules evaluated tick by tick: when a metric breaches a rule, for how long, and the incident
each breach becomes. -/

namespace MonitoringAgent.Agent

/-! ### Rules -/

inductive AlertMetric where
  | cpu
  | memory
  | swap
  | disk
  | load1
  | load5
  | load15
  deriving DecidableEq, Repr

inductive AlertOperator where
  | gt
  | lt
  | gte
  | lte
  deriving DecidableEq, Repr

inductive AlertSeverity where
  | info
  | warning
  | critical
  deriving DecidableEq, Repr

/-- The `f32` operations the rules use. -/
structure Floats (V : Type) where
  zero : V
  max : V → V → V
  ofCores : ℕ → V
  eq : V → V → Bool
  lt : V → V → Bool
  le : V → V → Bool
  /-- Printed with one decimal. -/
  oneDecimal : V → String

variable {V : Type}

structure AlertRule (V : Type) where
  metric : AlertMetric
  operator : AlertOperator
  threshold : V
  severity : AlertSeverity
  /-- How long the condition must persist before firing. -/
  durationSecs : ℕ
  /-- Cooldown period between repeat notifications. -/
  cooldownSecs : ℕ
  /-- Optional mount point for disk alerts. -/
  mountPoint : Option String
  enabled : Bool

structure ActiveAlert (V : Type) where
  id : String
  rule : AlertRule V
  currentValue : V
  firedAt : String
  message : String

def isBreached (f : Floats V) (operator : AlertOperator) (value threshold : V) : Bool :=
  match operator with
  | .gt => f.lt threshold value
  | .gte => f.le threshold value
  | .lt => f.lt value threshold
  | .lte => f.le value threshold

/-! ### Texts -/

def metricName : AlertMetric → String
  | .cpu => "CPU"
  | .memory => "Memory"
  | .swap => "Swap"
  | .disk => "Disk"
  | .load1 => "Load (1m)"
  | .load5 => "Load (5m)"
  | .load15 => "Load (15m)"

def severityName : AlertSeverity → String
  | .info => "INFO"
  | .warning => "WARNING"
  | .critical => "CRITICAL"

def operatorSymbol : AlertOperator → String
  | .gt => ">"
  | .gte => ">="
  | .lt => "<"
  | .lte => "<="

def alertMessage (f : Floats V) (rule : AlertRule V) (value threshold : V)
    (breachSecs : ℕ) : String :=
  let mountLabel := match rule.mountPoint with
    | some mount => " on " ++ mount
    | none => ""
  severityName rule.severity ++ " " ++ metricName rule.metric ++ " " ++
    operatorSymbol rule.operator ++
    " " ++ f.oneDecimal value ++ "% (threshold: " ++ f.oneDecimal threshold ++ "%)" ++ mountLabel ++
    " for " ++ toString breachSecs ++ "s"

def isLeap (y : ℕ) : Bool := (y % 4 = 0 ∧ y % 100 ≠ 0) ∨ y % 400 = 0

def daysInYear (y : ℕ) : ℕ := if isLeap y then 366 else 365

/-- The year `d` days after the start of `y`, and the day in it. -/
def yearOf (y d : ℕ) : ℕ × ℕ :=
  if d < daysInYear y then (y, d) else yearOf (y + 1) (d - daysInYear y)
termination_by d
decreasing_by
  rw [daysInYear] at *
  split_ifs at * <;> omega

/-- The month `d` days after the start of the month `m`, and the day in it. -/
def monthOf (m d : ℕ) : List ℕ → ℕ × ℕ
  | [] => (m, d)
  | md :: rest => if d < md then (m, d) else monthOf (m + 1) (d - md) rest

/-- `n` in decimal, with leading zeros up to `width` digits. -/
def padded (width n : ℕ) : String :=
  let digits := toString n
  "".pushn '0' (width - digits.length) ++ digits

def unixToIso8601 (secs : ℕ) : String :=
  let timeOfDay := secs % 86400
  let (y, d) := yearOf 1970 (secs / 86400)
  let monthDays := if isLeap y then [31, 29, 31, 30, 31, 30, 31, 31, 30, 31, 30, 31]
    else [31, 28, 31, 30, 31, 30, 31, 31, 30, 31, 30, 31]
  let (m, d) := monthOf 1 d monthDays
  padded 4 y ++ "-" ++ padded 2 m ++ "-" ++ padded 2 (d + 1) ++ "T" ++ padded 2
    (timeOfDay / 3600) ++ ":" ++ padded 2 (timeOfDay % 3600 / 60) ++ ":" ++ padded 2
      (timeOfDay % 60) ++ "Z"

/-! ### Incidents -/

/-- One lifetime of the agent process. -/
structure AgentRun where
  uuid : Uuid
  deriving DecidableEq, Repr

/-- One alert incident: the run that saw it and its place in the run's incidents, from 1. -/
structure IncidentId where
  run : AgentRun
  sequence : ℕ
  deriving DecidableEq, Repr

def IncidentId.display (id : IncidentId) : String :=
  id.run.uuid.hyphenated ++ "-" ++ toString id.sequence

/-- Mints the incident ids of one agent run; it never rewinds. The source counts in a `u64`: a run
mints at most one id for each rule it ticks, so the two agree for the first 2^64 rule ticks. -/
structure IncidentSequence where
  run : AgentRun
  minted : ℕ
  deriving DecidableEq, Repr

def IncidentSequence.mint (s : IncidentSequence) : IncidentId × IncidentSequence :=
  (⟨s.run, s.minted + 1⟩, { s with minted := s.minted + 1 })

/-- An alert incident that has become active. -/
structure Incident where
  id : IncidentId
  activatedAt : ℕ
  deriving DecidableEq, Repr

/-- Where one rule stands on its current breach. -/
inductive Breach (V : Type) where
  | clear
  /-- Breaching, but not yet for the rule's duration. -/
  | pending (since : ℕ)
  /-- `value` is the reading of the last tick that measured the metric. -/
  | active (since : ℕ) (incident : Incident) (value : V)

/-- One tick's measured value of a rule's metric, and whether it breaches the rule. -/
structure Observation (V : Type) where
  value : V
  breached : Bool

namespace Breach

def pendingOrActive (since : ℕ) (value : V) (durationSecs now : ℕ) (incidents : IncidentSequence) :
    Breach V × IncidentSequence :=
  if now - since < durationSecs then (.pending since, incidents)
  else
    let (id, incidents) := incidents.mint
    (.active since ⟨id, now⟩ value, incidents)

/-- The state after one tick. A breach start later than `now` means the clock stepped back: it moves
back to `now`. -/
def advance (breach : Breach V) (observed : Observation V) (durationSecs now : ℕ)
    (incidents : IncidentSequence) : Breach V × IncidentSequence :=
  if observed.breached then
    match breach with
    | .clear => pendingOrActive now observed.value durationSecs now incidents
    | .pending since => pendingOrActive (min since now) observed.value durationSecs now incidents
    | .active since incident _ => (.active (min since now) incident observed.value, incidents)
  else (.clear, incidents)

/-- The active alert of this breach's incident at `now`, if an incident is active. -/
def activeAlert (f : Floats V) (breach : Breach V) (rule : AlertRule V) (threshold : V) (now : ℕ) :
    Option (ActiveAlert V) :=
  match breach with
  | .clear | .pending _ => none
  | .active since incident value =>
      some {
        id := incident.id.display
        rule
        currentValue := value
        firedAt := unixToIso8601 incident.activatedAt
        message := alertMessage f rule value threshold (now - since) }

end Breach

/-! ### Readings -/

/-- One metric's reading on a tick: measured on it, carried over from an earlier tick whose value
still stands, or unavailable. -/
inductive Reading (V : Type) where
  | measured (value : V)
  | carried
  | unavailable
  deriving DecidableEq, Repr

/-- The metric readings of one tick. -/
structure Readings (V : Type) where
  cpu : Reading V
  memory : Reading V
  swap : Reading V
  /-- Usage percent per mount point. -/
  diskUsages : List (String × V)
  load1 : V
  load5 : V
  load15 : V
  cpuCores : ℕ

namespace Readings

/-- The reading of a rule's metric. A missing mount reads zero. -/
def valueFor (f : Floats V) (r : Readings V) (rule : AlertRule V) : Reading V :=
  match rule.metric with
  | .cpu => r.cpu
  | .memory => r.memory
  | .swap => r.swap
  | .disk => .measured (match rule.mountPoint with
      | some mount => (r.diskUsages.lookup mount).getD f.zero
      | none => (r.diskUsages.map Prod.snd).foldl f.max f.zero)
  | .load1 => .measured r.load1
  | .load5 => .measured r.load5
  | .load15 => .measured r.load15

/-- A load rule's threshold of 0 means one per logical core. -/
def thresholdFor (f : Floats V) (r : Readings V) (rule : AlertRule V) : V :=
  let auto := match rule.metric with
    | .load1 | .load5 | .load15 => f.eq rule.threshold f.zero
    | .cpu | .memory | .swap | .disk => false
  if auto then f.ofCores r.cpuCores else rule.threshold

end Readings

/-! ### One rule's tick -/

/-- What the manager remembers about one rule between ticks. The cooldown spans incidents, so the
last notification outlives the breach. -/
structure RuleState (V : Type) where
  breach : Breach V
  lastNotified : Option ℕ

/-- A rule not yet evaluated. -/
def RuleState.default : RuleState V := ⟨.clear, none⟩

/-- What one rule's tick reports: its active alert, and whether that alert notifies now. -/
inductive Report (V : Type) where
  | quiet (alert : ActiveAlert V)
  | notify (alert : ActiveAlert V)

namespace RuleState

/-- Whether the cooldown since the last notification has elapsed; if so, this tick becomes the last
notification. -/
def takeNotification (s : RuleState V) (cooldownSecs now : ℕ) : Bool × RuleState V :=
  let due : Bool := match s.lastNotified with
    | none => true
    | some last => decide (cooldownSecs ≤ now - last)
  (due, if due then { s with lastNotified := some now } else s)

/-- Advances the breach on a measured value, and notifies if the cooldown allows. -/
def measure (f : Floats V) (s : RuleState V) (rule : AlertRule V) (observed : Observation V)
    (threshold : V) (now : ℕ) (incidents : IncidentSequence) :
    Option (Report V) × RuleState V × IncidentSequence :=
  -- Like the breach start, a last notification later than `now` moves back to `now`.
  let lastNotified := s.lastNotified.map (min · now)
  let (breach, incidents) := s.breach.advance observed rule.durationSecs now incidents
  let s := ⟨breach, lastNotified⟩
  match breach.activeAlert f rule threshold now with
  | none => (none, s, incidents)
  | some alert =>
      let (due, s) := s.takeNotification rule.cooldownSecs now
      (some (if due then .notify alert else .quiet alert), s, incidents)

/-- Advances the rule by one tick and reports its active alert, if an incident is active. -/
def tick (f : Floats V) (s : RuleState V) (rule : AlertRule V) (readings : Readings V) (now : ℕ)
    (incidents : IncidentSequence) : Option (Report V) × RuleState V × IncidentSequence :=
  let threshold := readings.thresholdFor f rule
  match readings.valueFor f rule with
  | .measured value =>
      s.measure f rule ⟨value, isBreached f rule.operator value threshold⟩ threshold now incidents
  -- Skipped: the breach stands as it was, and nothing notifies.
  | .carried => ((s.breach.activeAlert f rule threshold now).map .quiet, s, incidents)
  -- Cleared, as the last measured value no longer stands. The cooldown is kept.
  | .unavailable => (none, { s with breach := .clear }, incidents)

end RuleState

/-! ### The manager -/

structure AlertManager (V : Type) where
  rules : List (AlertRule V)
  activeAlerts : List (ActiveAlert V)
  /-- By the rule's position; the default where none was stored. -/
  states : ℕ → RuleState V
  incidents : IncidentSequence

/-- An evaluation in progress: what it found so far, and the states after it. -/
structure Evaluation (V : Type) where
  notifications : List (ActiveAlert V)
  active : List (ActiveAlert V)
  states : ℕ → RuleState V
  incidents : IncidentSequence

/-- One rule of an evaluation. -/
def Evaluation.rule (f : Floats V) (readings : Readings V) (now : ℕ) (e : Evaluation V)
    (entry : AlertRule V × ℕ) : Evaluation V :=
  let (report, state, incidents) := (e.states entry.2).tick f entry.1 readings now e.incidents
  let e := { e with states := Function.update e.states entry.2 state, incidents }
  match report with
  | none => e
  | some (.quiet alert) => { e with active := e.active ++ [alert] }
  | some (.notify alert) =>
      { e with notifications := e.notifications ++ [alert], active := e.active ++ [alert] }

namespace AlertManager

def new (run : AgentRun) (rules : List (AlertRule V)) : AlertManager V :=
  ⟨rules, [], fun _ => .default, ⟨run, 0⟩⟩

/-- Replaces the rule set. Per-rule state is keyed by position, so every incident ends here. -/
def replaceRules (m : AlertManager V) (rules : List (AlertRule V)) : AlertManager V :=
  { m with rules, activeAlerts := [], states := fun _ => .default }

/-- Evaluates all rules against one tick's readings. Returns the alerts that notify on this tick. -/
def evaluate (f : Floats V) (m : AlertManager V) (readings : Readings V) (now : ℕ) :
    List (ActiveAlert V) × AlertManager V :=
  let e := (m.rules.zipIdx.filter (·.1.enabled)).foldl (Evaluation.rule f readings now)
    ⟨[], [], m.states, m.incidents⟩
  (e.notifications, { m with activeAlerts := e.active, states := e.states, incidents :=
    e.incidents })

end AlertManager

/-- What the agent does to its alert manager: a tick of the collector, or a new rule set. -/
inductive AlertOp (V : Type) where
  | evaluate (readings : Readings V) (now : ℕ)
  | replaceRules (rules : List (AlertRule V))

namespace AlertManager

def step (f : Floats V) (m : AlertManager V) : AlertOp V → AlertManager V
  | .evaluate readings now => (m.evaluate f readings now).2
  | .replaceRules rules => m.replaceRules rules

def run (f : Floats V) (m : AlertManager V) (ops : List (AlertOp V)) : AlertManager V :=
  ops.foldl (step f) m

end AlertManager

end MonitoringAgent.Agent

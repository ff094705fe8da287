import Mathlib.Data.Nat.Notation
import Mathlib.Algebra.Group.Nat.Defs
import Mathlib.Order.Basic

/-! # Choosing each snapshot's readings

Per reading group, from the monitored cgroup or the kernel, measured, carried or unavailable, by the
group's lineage; and the sampler and collector that keep the previous counters and the history. -/

namespace MonitoringAgent.Agent

/-! ### Readings of the cgroup and the kernel -/

/-- How long a cgroup group is carried past a failure before it is unavailable, in nanoseconds, as
every instant and length of time here. -/
def carryBound : ℕ := 30 * 10 ^ 9

/-- The least wall time a CPU usage is measured over. -/
def minUsageInterval : ℕ := 500 * 10 ^ 6

/-- How long after the priming reading a reading is a snapshot. -/
def priming : ℕ := 10 ^ 9

/-- The floating-point operations on CPU counts and shares. -/
structure CpuFloats (C P : Type) where
  lt : C → C → Bool
  /-- The share of a capacity `used` is over `wall`, held to 0–100; none for a NaN. -/
  share : ℕ → ℕ → C → Option P

/-- Readings sourced and carried together. -/
inductive ReadingGroup where
  | cpu
  | memory
  | swap
  deriving DecidableEq, Repr

/-- A cgroup's bound on one resource. -/
inductive ResourceLimit (α : Type) where
  | bounded (amount : α)
  | unbounded
  deriving DecidableEq, Repr

/-- The amount of a bounded limit. -/
def ResourceLimit.amount? {α : Type} : ResourceLimit α → Option α
  | .bounded amount => some amount
  | .unbounded => none

structure CpuGroup (C P : Type) where
  /-- None when the kernel lists no CPU. -/
  usage : Option P
  capacity : C

structure MemoryGroup where
  total : ℕ
  used : ℕ
  free : ℕ
  available : ℕ
  /-- The monitored cgroup's tightest memory limit; none when read from the kernel. -/
  limit : Option (ResourceLimit ℕ)
  deriving DecidableEq, Repr

structure SwapGroup where
  total : ℕ
  used : ℕ
  free : ℕ
  limit : Option (ResourceLimit ℕ)
  deriving DecidableEq, Repr

/-- Where a group's values came from on a tick. -/
inductive Origin where
  /-- Measured from the monitored cgroup. -/
  | cgroup
  /-- Measured from the kernel's host-wide view. -/
  | kernel
  /-- The cgroup couldn't be read: the last cgroup values still stand. -/
  | carried
  /-- Carried past `carryBound`. -/
  | unavailable
  deriving DecidableEq, Repr

structure Sourced (G : Type) where
  value : G
  origin : Origin
  deriving DecidableEq, Repr

/-- A file the agent reads from the monitored cgroup each tick. -/
inductive CgroupFile where
  | cpuStat
  | cpuMax
  | cpusetCpusEffective
  | memoryCurrent
  | memoryStat
  | memoryMax
  | memorySwapCurrent
  | memorySwapMax
  deriving DecidableEq, Repr

/-- A cgroup file that is there but gave no value. -/
inductive CgroupReadError where
  | unreadable (file : CgroupFile) (reason : String)
  | malformed (file : CgroupFile)
  | missing (file : CgroupFile)
  deriving DecidableEq, Repr

/-- One tick's attempt at a group's cgroup files. -/
inductive CgroupRead (α : Type) where
  | read (files : α)
  /-- The group's usage file isn't there: its controller isn't enabled. -/
  | absent
  | failed (error : CgroupReadError)

/-- A cgroup's cumulative CPU time, and when it was read. -/
structure CpuCounters where
  usage : ℕ
  readAt : ℕ
  deriving DecidableEq, Repr

structure CpuFiles (C : Type) where
  counters : CpuCounters
  /-- `cpu.max` at each level, deepest first. -/
  quotas : List (ResourceLimit C)
  cpuset : ResourceLimit C

structure MemoryFiles where
  current : ℕ
  inactiveFile : ℕ
  /-- `memory.max` at each level, deepest first. -/
  limits : List (ResourceLimit ℕ)

structure SwapFiles where
  current : ℕ
  /-- `memory.swap.max` at each level, deepest first. -/
  limits : List (ResourceLimit ℕ)

/-- Everything read from the monitored cgroup on one tick. -/
structure CgroupReadings (C : Type) where
  cpu : CgroupRead (CpuFiles C)
  memory : CgroupRead MemoryFiles
  swap : CgroupRead SwapFiles

/-- The kernel's host-wide groups on one tick. -/
structure KernelReadings (C P : Type) where
  cpu : CpuGroup C P
  memory : MemoryGroup
  swap : SwapGroup

variable {C P : Type}

/-! ### Capacities and usage -/

/-- How many CPUs the monitored environment may use: the least of the host's, every bounded quota
and the cpuset. -/
def cpuCapacity (f : CpuFloats C P) (host : C) (quotas : List (ResourceLimit C))
    (cpuset : ResourceLimit C) : C :=
  ((quotas ++ [cpuset]).filterMap ResourceLimit.amount?).foldl
    (fun least cpus => if f.lt cpus least then cpus else least) host

/-- The tightest of `limits`: unbounded when none is bounded. -/
def tightest (limits : List (ResourceLimit ℕ)) : ResourceLimit ℕ :=
  match (limits.filterMap ResourceLimit.amount?).min? with
  | some least => .bounded least
  | none => .unbounded

/-- How much memory (or swap) the monitored environment may use: the least of the host's and every
bounded limit. -/
def memoryCapacity (host : ℕ) (limits : List (ResourceLimit ℕ)) : ℕ :=
  match tightest limits with
  | .bounded limit => min limit host
  | .unbounded => host

/-- The share of `capacity` the cgroup used between two readings. None when the readings are under
`minUsageInterval` apart, or a counter went backwards. -/
def cpuUsage (f : CpuFloats C P) (prev cur : CpuCounters) (capacity : C) : Option P :=
  if cur.readAt < prev.readAt then none
  else if cur.usage < prev.usage then none
  else if cur.readAt - prev.readAt < minUsageInterval then none
  else f.share (cur.usage - prev.usage) (cur.readAt - prev.readAt) capacity

/-- Why a group's cgroup reading failed on a tick. -/
inductive GroupFailure where
  | file (error : CgroupReadError)
  /-- The usage file went away after being read. -/
  | vanished
  /-- No CPU usage between this reading and the previous one. -/
  | noDelta
  deriving DecidableEq, Repr

/-- The CPU group from its files: usage over capacity since the previous counters. -/
def cpuGroup (f : CpuFloats C P) (files : CpuFiles C) (prev : Option CpuCounters) (host : C) :
    Except GroupFailure (CpuGroup C P) :=
  let capacity := cpuCapacity f host files.quotas files.cpuset
  match prev.bind fun prev => cpuUsage f prev files.counters capacity with
  | none => .error .noDelta
  | some usage => .ok ⟨some usage, capacity⟩

/-- The memory group from its files: used is the working set, capped at capacity. -/
def memoryGroup (files : MemoryFiles) (host : ℕ) : MemoryGroup :=
  let total := memoryCapacity host files.limits
  let used := min (files.current - files.inactiveFile) total
  { total
    used
    free := total - files.current
    available := total - used
    limit := some (tightest files.limits) }

/-- The swap group from its files, used capped at capacity. -/
def swapGroup (files : SwapFiles) (host : ℕ) : SwapGroup :=
  let total := memoryCapacity host files.limits
  let used := min files.current total
  { total
    used
    free := total - used
    limit := some (tightest files.limits) }

/-! ### Lineage -/

inductive Carry where
  | reading
  /-- Failing since this instant. -/
  | since (since : ℕ)
  | expired
  deriving DecidableEq, Repr

/-- A group's lineage and failure state, kept across ticks and sampler rebuilds. -/
inductive GroupHistory (G : Type) where
  /-- Lineage kernel, its usage file never seen. -/
  | untouched
  /-- Lineage kernel, its cgroup files failing since before any cgroup reading. -/
  | kernelFailing
  /-- Lineage cgroup: it has been read from the cgroup, and never goes back to the kernel. -/
  | cgroup (last : G) (carry : Carry)

/-- What an operator should hear about a group, once per transition. -/
inductive Warning where
  | kernelFallback (failure : GroupFailure)
  | carrying (failure : GroupFailure)
  | unavailable
  deriving DecidableEq, Repr

structure SourcingWarning where
  group : ReadingGroup
  warning : Warning
  deriving DecidableEq, Repr

section Group

variable {G : Type}

/-- A cgroup group's step on a failing tick: carried until `carryBound` has passed since the
failures began, then unavailable. Warns when each begins. -/
def carried (last : G) (carry : Carry) (failure : GroupFailure) (now : ℕ) :
    Sourced G × GroupHistory G × Option Warning :=
  match carry with
  | .reading => (⟨last, .carried⟩, .cgroup last (.since now), some (.carrying failure))
  | .since since =>
      if now - since ≤ carryBound then (⟨last, .carried⟩, .cgroup last (.since since), none)
      else (⟨last, .unavailable⟩, .cgroup last .expired, some .unavailable)
  | .expired => (⟨last, .unavailable⟩, .cgroup last .expired, none)

/-- One group's step: this tick's cgroup attempt against the group's history. -/
def sourceGroup (history : GroupHistory G) (read : Except GroupFailure (Option G)) (kernel : G)
    (now : ℕ) : Sourced G × GroupHistory G × Option Warning :=
  match history, read with
  | _, .ok (some value) => (⟨value, .cgroup⟩, .cgroup value .reading, none)
  | .untouched, .ok none => (⟨kernel, .kernel⟩, .untouched, none)
  | .untouched, .error failure =>
      (⟨kernel, .kernel⟩, .kernelFailing, some (.kernelFallback failure))
  | .kernelFailing, _ => (⟨kernel, .kernel⟩, .kernelFailing, none)
  | .cgroup last carry, .ok none => carried last carry .vanished now
  | .cgroup last carry, .error failure => carried last carry failure now

/-- A group's cgroup attempt as `sourceGroup` weighs it: its values, none for an absent usage file,
or why it failed. -/
def attempt {α : Type} (read : CgroupRead α) (group : α → Except GroupFailure G) :
    Except GroupFailure (Option G) :=
  match read with
  | .read files => (group files).map some
  | .absent => .ok none
  | .failed error => .error (.file error)

end Group

/-! ### A tick's three groups -/

/-- Every group's history: held by the collector, so a rebuilt sampler inherits it. -/
structure SourcingHistory (C P : Type) where
  cpu : GroupHistory (CpuGroup C P)
  memory : GroupHistory MemoryGroup
  swap : GroupHistory SwapGroup

/-- The history at the agent's start. -/
def SourcingHistory.new : SourcingHistory C P := ⟨.untouched, .untouched, .untouched⟩

structure SourcedReadings (C P : Type) where
  cpu : Sourced (CpuGroup C P)
  memory : Sourced MemoryGroup
  swap : Sourced SwapGroup

/-- What `chooseReadings` decided on a tick. -/
structure Sourcing (C P : Type) where
  readings : SourcedReadings C P
  history : SourcingHistory C P
  warnings : List SourcingWarning

/-- This tick's groups: from `cgroup` where it was read and the group's lineage allows, else the
kernel, else carried. No cgroup on a tick reads as every usage file absent. -/
def chooseReadings (f : CpuFloats C P) (cgroup : Option (CgroupReadings C))
    (kernel : KernelReadings C P) (prevCpu : Option CpuCounters) (history : SourcingHistory C P)
    (now : ℕ) : Sourcing C P :=
  let read := cgroup.getD ⟨.absent, .absent, .absent⟩
  let cpuRead := attempt read.cpu fun files => cpuGroup f files prevCpu kernel.cpu.capacity
  let memoryRead := attempt read.memory fun files => .ok (memoryGroup files kernel.memory.total)
  let swapRead := attempt read.swap fun files => .ok (swapGroup files kernel.swap.total)
  let warn (group : ReadingGroup) (warning : Option Warning) : List SourcingWarning :=
    (warning.map (⟨group, ·⟩)).toList
  let (cpu, cpuHistory, cpuWarning) := sourceGroup history.cpu cpuRead kernel.cpu now
  let (memory, memoryHistory, memoryWarning) :=
    sourceGroup history.memory memoryRead kernel.memory now
  let (swap, swapHistory, swapWarning) := sourceGroup history.swap swapRead kernel.swap now
  { readings := ⟨cpu, memory, swap⟩
    history := ⟨cpuHistory, memoryHistory, swapHistory⟩
    warnings := warn .cpu cpuWarning ++ warn .memory memoryWarning ++ warn .swap swapWarning }

/-! ### The sampler and the collector -/

/-- What a reading of the system gives the sourcing. -/
structure RawReadings (C P : Type) where
  cgroup : Option (CgroupReadings C)
  kernel : KernelReadings C P

/-- The monitored cgroup's CPU counters in `raw`, if it read them. -/
def cpuCounters (raw : RawReadings C P) : Option CpuCounters :=
  match raw.cgroup.map CgroupReadings.cpu with
  | some (.read files) => some files.counters
  | _ => none

/-- The one owner of the system's previous reading. -/
structure Sampler where
  /-- Whether the environment has a monitored cgroup, found once at startup. -/
  monitored : Bool
  /-- When the priming reading ended. -/
  primedAt : ℕ
  /-- The monitored cgroup's CPU counters at the last reading that had them. -/
  prevCpu : Option CpuCounters

namespace Sampler

/-- A sampler that has taken its priming reading, which it never publishes. -/
def prime (raw : RawReadings C P) (monitored : Bool) (primedAt : ℕ) : Sampler :=
  ⟨monitored, primedAt, cpuCounters raw⟩

/-- Takes a reading, its groups chosen against `history`. It is published only once priming is done.
-/
def read (f : CpuFloats C P) (s : Sampler) (history : SourcingHistory C P) (raw : RawReadings C P)
    (readAt : ℕ) : Option (Sourcing C P) × Sampler :=
  let cgroup := if s.monitored then raw.cgroup else none
  let sampled := if priming ≤ readAt - s.primedAt then
      some (chooseReadings f cgroup raw.kernel s.prevCpu history readAt)
    else none
  (sampled, { s with prevCpu := (cpuCounters raw).or s.prevCpu })

end Sampler

/-- The collector: its sampler, lost after a panic until it is rebuilt, and the sourcing history. -/
structure Collector (C P : Type) where
  monitored : Bool
  sampler : Option Sampler
  history : SourcingHistory C P

/-- What happens on a tick of the collector. -/
inductive CollectorOp (C P : Type) where
  /-- The sampler reads. -/
  | read (raw : RawReadings C P) (readAt : ℕ)
  /-- The sampler panics, or was lost before; it is rebuilt from a priming reading, which may panic
  too. -/
  | rebuild (primed : Option (RawReadings C P × ℕ))

namespace Collector

/-- One tick: what it publishes, and the collector after it. -/
def step (f : CpuFloats C P) (c : Collector C P) :
    CollectorOp C P → Option (Sourcing C P) × Collector C P
  | .read raw readAt =>
      match c.sampler with
      | none => (none, c)
      | some sampler =>
          match sampler.read f c.history raw readAt with
          | (none, sampler) => (none, { c with sampler := some sampler })
          | (some sourcing, sampler) =>
              (some sourcing, { c with sampler := some sampler, history := sourcing.history })
  | .rebuild primed =>
      (none,
        { c with sampler := primed.map fun (raw, primedAt) => .prime raw c.monitored primedAt })

/-- A whole run: what it published, and the collector after it. -/
def run (f : CpuFloats C P) (c : Collector C P) :
    List (CollectorOp C P) → List (Sourcing C P) × Collector C P
  | [] => ([], c)
  | op :: ops =>
      let (published, c) := c.step f op
      let (later, c) := c.run f ops
      (published.toList ++ later, c)

end Collector

end MonitoringAgent.Agent

import MonitoringAgent.Model.Tables

/-! # The storage cap, and the files it retires

The cap in force at one pass of retention, and which block files it takes, oldest raw first, then
oldest minute. The volume's sizes are passed in. -/

namespace MonitoringAgent.HubStore

/-- The state of a block file, as retention sees it. -/
inductive FileCondition where
  | sound
  | damaged
  | inFlight
  deriving DecidableEq, Repr

/-- The cap in force at one pass. -/
inductive StorageCap where
  | bytes (cap : ℕ)
  | unlimited
  deriving DecidableEq, Repr

/-- A block file the cap may retire. -/
structure CapCandidate where
  key : SpanKey
  length : ℕ
  condition : FileCondition
  deriving DecidableEq, Repr

/-- Whether the cap was met. -/
inductive CapOutcome where
  | met
  /-- Raw and minute files can't bring the total under the cap: by this many bytes. -/
  | unmet (excess : ℕ)
  deriving DecidableEq, Repr

/-- The files the cap retires, and whether that meets it. -/
structure CapPlan where
  retire : List SpanKey
  outcome : CapOutcome
  deriving DecidableEq, Repr

/-- The order in which the cap takes tiers: every raw file before any minute file. -/
inductive CapRank where
  | raw
  | minute
  deriving DecidableEq, Repr

namespace CapRank

/-- The rank's place in the order of its declaration. -/
def place : CapRank → ℕ
  | raw => 0
  | minute => 1

end CapRank

/-- A file's place in the cap's order; `none` for an hour file or a file in flight, which the cap
never takes. -/
def capRank (file : CapCandidate) : Option CapRank :=
  let rank := match file.key.tier with
    | .raw => some .raw
    | .minute => some .minute
    | .hour => none
  match file.condition with
  | .sound | .damaged => rank
  | .inFlight => none

/-- A ranked file goes no later than another: by rank, then by span. -/
def rankedLe (a b : CapRank × CapCandidate) : Bool :=
  a.1.place < b.1.place || (a.1.place = b.1.place && a.2.key.span ≤ b.2.key.span)

/-- One round of the retiring: the file goes while the bytes left still exceed the cap. -/
def retireOne (cap : ℕ) (state : ℕ × List SpanKey) (file : CapCandidate) : ℕ × List SpanKey :=
  if state.1 > cap then (state.1 - file.length, state.2 ++ [file.key]) else state

/-- While `total` exceeds the cap, retire the oldest raw file, then the oldest minute file; never an
hour file, never a file in flight. -/
def capRetirements (total : ℕ) (cap : StorageCap) (files : List CapCandidate) : CapPlan :=
  match cap with
  | .unlimited => ⟨[], .met⟩
  | .bytes cap =>
      let ranked := files.filterMap fun f => (capRank f).map fun rank => (rank, f)
      let ranked := ranked.mergeSort rankedLe
      let (left, retire) := (ranked.map Prod.snd).foldl (retireOne cap) (total, [])
      ⟨retire, if left > cap then .unmet (left - cap) else .met⟩

end MonitoringAgent.HubStore

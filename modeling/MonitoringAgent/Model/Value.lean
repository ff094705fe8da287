import Mathlib.Tactic

/-! # Value kinds

Each metric kind's domain, in its stored unit, and how its consecutive values are coded.
The natural units, which the code keeps in floating point, play no part in the store. -/

namespace MonitoringAgent.HubStore

/-- How a metric's values are stored. -/
inductive ValueKind where
  | percent
  | load
  | count
  | monotonic
  | bytes
  | rate
  | millis
  deriving DecidableEq, Repr

/-- How consecutive values of a chunk are coded. -/
inductive Encoding where
  | delta
  | deltaOfDelta
  deriving DecidableEq, Repr

namespace ValueKind

/-- Every kind, in the order of its persisted code. -/
def all : List ValueKind := [percent, load, count, monotonic, bytes, rate, millis]

/-- The top of the kind's domain range in its stored unit: `max_natural` over the scale. -/
def maxScaled : ValueKind → ℤ
  | percent => 1000 * 100
  | load => 100000 * 100
  | count | monotonic => 2 ^ 40
  | bytes => 2 ^ 60 / 1024
  | rate => 1000000000 * 1000
  | millis => 1000000000 * 100

/-- How the kind's consecutive values are coded. -/
def encoding : ValueKind → Encoding
  | monotonic => .deltaOfDelta
  | percent | load | count | bytes | rate | millis => .delta

/-- The kind's persisted code. -/
def code : ValueKind → ℕ
  | percent => 1
  | load => 2
  | count => 3
  | monotonic => 4
  | bytes => 5
  | rate => 6
  | millis => 7

/-- The kind a persisted code names, if any. -/
def fromCode (code : ℕ) : Option ValueKind := all.find? fun kind => kind.code = code

end ValueKind

/-- A value in its kind's stored unit, inside the kind's domain: unconstructible
otherwise. -/
structure Scaled where
  get : ℤ
  inDomain : ∃ kind : ValueKind, 0 ≤ get ∧ get ≤ kind.maxScaled

/-- A stored value read back (a chunk, a tail): refused outside the domain. -/
def ValueKind.checkScaled (kind : ValueKind) (stored : ℤ) : Option Scaled :=
  if h : 0 ≤ stored ∧ stored ≤ kind.maxScaled then some ⟨stored, kind, h⟩ else none

end MonitoringAgent.HubStore

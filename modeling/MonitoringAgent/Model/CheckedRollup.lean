import MonitoringAgent.Library.Checked
import MonitoringAgent.Model.Rollup

/-! # Rollup accumulation with every step checked -/

namespace MonitoringAgent.HubStore.Checked

open MonitoringAgent.Library

variable {ε : Type}

/-- `Accumulator::add`. -/
def add (a : Accumulator) (value : ℤ) : Except (Stop ε) Accumulator := do
  let sum ← addInt 127 a.sum value
  .ok { a with
    sum
    count := min (a.count + 1) (2 ^ 32 - 1)
    min := min a.min value
    max := max a.max value }

/-- The average of `close`, before it is clamped. -/
def rounded (a : Accumulator) : Except (Stop ε) ℤ := do
  let count : ℤ := a.count
  let half ← addInt 127 (count / 2) (count % 2)
  if a.sum ≥ 0 then
    let shifted ← subInt 127 (← addInt 127 a.sum count) half
    divInt 127 shifted count
  else
    let shifted ← addInt 127 (← subInt 127 a.sum count) half
    divInt 127 shifted count

/-- `Accumulator::close`. -/
def close (a : Accumulator) : Except (Stop ε) Bucket := do
  let avg ← clampInt (← rounded a) a.min a.max
  .ok ⟨a.index, wrapI64 avg, a.min, a.max, a.count⟩

/-- The bucket of a value at hub time `ts`, and of the values after it. -/
def accumulate (tier : RollupTier) (ts : ℕ) (first : ℤ) (rest : List ℤ) :
    Except (Stop ε) Accumulator :=
  rest.foldlM add (Accumulator.open tier ts first)

end MonitoringAgent.HubStore.Checked

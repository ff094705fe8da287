import MonitoringAgent.Library.Checked
import MonitoringAgent.Model.Hub.Applications

/-! # The token bucket on machine words

A count of tokens is a byte, a duration is nanoseconds below `2 ^ 64` seconds, and an instant is at
most the latest the clock can name. -/

namespace MonitoringAgent.Hub.TokenBucket.Checked

open MonitoringAgent.Library

/-- A bucket had no token to spend. -/
inductive Empty where
  | empty
  deriving DecidableEq, Repr

/-- No duration is this long, in nanoseconds. -/
def durationEnd : ℕ := 2 ^ 64 * 10 ^ 9

/-- `duration * n`. -/
def mulDuration (duration n : ℕ) : Except (Stop Empty) ℕ :=
  if duration * n < durationEnd then .ok (duration * n) else .error .panic

/-- `instant + duration`. -/
def addInstant (latest instant duration : ℕ) : Except (Stop Empty) ℕ :=
  if instant + duration ≤ latest then .ok (instant + duration) else .error .panic

/-- The whole periods elapsed; a zero period has no quotient. -/
def periodsIn (elapsed period : ℕ) :
    Option ℕ := if period = 0 then none else some (elapsed / period)

def refilled (latest : Instant) (b : TokenBucket) (now : Instant) :
    Except (Stop Empty) TokenBucket :=
  let missing := b.refill.capacity - b.tokens
  let elapsed := now - b.lastRefill
  let filled : TokenBucket :=
    { b with tokens := b.refill.capacity, lastRefill := max now b.lastRefill }
  match periodsIn elapsed b.refill.period with
  | none => .ok filled
  | some periods =>
    if periods < 2 ^ 8 ∧ periods < missing then do
      let tokens ← addWord 8 b.tokens periods
      let gained ← mulDuration b.refill.period periods
      let lastRefill ← addInstant latest b.lastRefill gained
      return { b with tokens, lastRefill }
    else .ok filled

def take (latest : Instant) (b : TokenBucket) (now : Instant) :
    Except (Stop Empty) TokenBucket := do
  let refilled ← refilled latest b now
  if refilled.tokens = 0 then .error (.refused .empty)
    else return { refilled with tokens := refilled.tokens - 1 }

/-- Whether each take succeeds, the caller keeping the old bucket when refused. -/
def takes (latest : Instant) (b : TokenBucket) : List Instant → Except (Stop Empty) (List Bool)
  | [] => .ok []
  | now :: times =>
    match take latest b now with
    | .ok b => (takes latest b times).map (true :: ·)
    | .error (.refused .empty) => (takes latest b times).map (false :: ·)
    | .error .panic => .error .panic

end MonitoringAgent.Hub.TokenBucket.Checked

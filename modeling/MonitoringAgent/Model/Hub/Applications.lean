import MonitoringAgent.Model.Hub.Registry

/-! # Scrape rounds and their admission

A round is stored once and at its source's pace: a token bucket on the monotonic clock, and the
rounds accepted most recently. -/

namespace MonitoringAgent.Hub

/-! ### The token bucket -/

/-- How a bucket fills: at most `capacity` tokens, one more each `period` nanoseconds. -/
structure Refill where
  capacity : ℕ
  period : ℕ
  capacityPos : 0 < capacity ∧ capacity < 2 ^ 8
  deriving DecidableEq, Repr

structure TokenBucket where
  refill : Refill
  tokens : ℕ
  lastRefill : Instant
  deriving DecidableEq, Repr

namespace TokenBucket

/-- A full bucket, its refill clock starting at `now`. -/
def full (refill : Refill) (now : Instant) : TokenBucket := ⟨refill, refill.capacity, now⟩

/-- Adds one token per whole period elapsed, keeping the remainder. Past the capacity, or with a
zero period, the bucket is full. -/
def refilled (b : TokenBucket) (now : Instant) : TokenBucket :=
  let missing := b.refill.capacity - b.tokens
  let periods := (now - b.lastRefill) / b.refill.period
  if b.refill.period ≠ 0 ∧ periods < 2 ^ 8 ∧ periods < missing then
    { b with tokens := b.tokens + periods, lastRefill := b.lastRefill + b.refill.period * periods }
  else { b with tokens := b.refill.capacity, lastRefill := max now b.lastRefill }

/-- Refills for the time elapsed, then spends one token. -/
def take (b : TokenBucket) (now : Instant) : Option TokenBucket :=
  let refilled := b.refilled now
  if refilled.tokens = 0 then none else some { refilled with tokens := refilled.tokens - 1 }

end TokenBucket

/-! ### Admission -/

/-- One round plus one early round after a reconnect, and a token every 8 s. -/
def pace : Refill := ⟨2, 8 * 10 ^ 9, by decide⟩

/-- A round's identity: the agent's run and its sequence. -/
structure RoundId where
  run : String
  seq : ℕ
  deriving DecidableEq, Repr

/-- A scrape round: its id, the digest of its content under the hub's key, and its points. -/
structure ScrapeRound where
  id : RoundId
  digest : ℕ
  points : List (String × Value)
  deriving DecidableEq, Repr

/-- The round the hub shows for a system, and when it arrived. -/
structure HeldRound where
  round : ScrapeRound
  receivedAt : ℕ
  deriving DecidableEq, Repr

def recentRounds : ℕ := 8

/-- The rounds accepted most recently for one system, oldest first. -/
abbrev RecentRounds := List (RoundId × ℕ)

/-- Remembers an accepted round, forgetting the oldest past `recentRounds`. -/
def RecentRounds.remember (recent : RecentRounds) (round : ScrapeRound) : RecentRounds :=
  (if recent.length = recentRounds then recent.tail else recent) ++ [(round.id, round.digest)]

/-- What the hub does with a round a source reported. -/
inductive Admission where
  | accept (pace : TokenBucket)
  | duplicate
  | tooSoon
  deriving DecidableEq, Repr

/-- Decides whether a round is stored: a duplicate is the same id and digest as a recently
accepted round. -/
def admitRound (recent : RecentRounds) (pace : TokenBucket) (round : ScrapeRound) (now : Instant) :
    Admission :=
  if (round.id, round.digest) ∈ recent then .duplicate
  else
    match pace.take now with
    | some pace => .accept pace
    | none => .tooSoon

/-- What the hub holds in memory of one system's applications. -/
structure SystemApplications where
  /-- The round the dashboard shows. -/
  shown : Option HeldRound := none
  recent : RecentRounds := []
  /-- The poller's pace for this system; none until its first stored round. -/
  pollPace : Option TokenBucket := none
  /-- When a refused polled round was last logged as a warning. -/
  pollRefusalWarnedAt : Option Instant := none
  deriving DecidableEq, Repr

/-- How often a system's recurring problem may be logged as a warning. -/
def warningEvery : ℕ := 3600 * 10 ^ 9

/-- Whether a recurring problem is logged as a warning now. -/
def hourlyWarning (lastWarned : Option Instant) (now : Instant) : Bool :=
  match lastWarned with
  | some time => ¬now - time < warningEvery
  | none => true

end MonitoringAgent.Hub

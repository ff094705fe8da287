import MonitoringAgent.Model.Agent.Mail

/-! # The outbox

Reports waiting for the relay, and the task that delivers them: a temporary refusal retries with a
backoff, a permanent one drops the report. -/

namespace MonitoringAgent.Agent

open MonitoringAgent.Library

variable {M : Type}

/-- The most reports the outbox holds. -/
def maxQueued : ℕ := 288

/-- The first retry's delay. -/
def firstRetry : ℕ := seconds 30

/-- How often dropped reports may be logged. -/
def droppedWarningEvery : ℕ := seconds 3600

/-- How the relay answered a send. -/
inductive SendResult where
  | sent
  /-- A 4xx, or a connection or TLS failure: try again later. -/
  | temporary
  /-- A 5xx: the relay will never take it. -/
  | permanent
  deriving DecidableEq, Repr

/-- Messages waiting for the relay, oldest first. -/
structure Outbox (M : Type) where
  queue : List M := []
  /-- Reports dropped since the last count was taken. -/
  dropped : ℕ := 0
  /-- The delay before the next attempt after a temporary failure. -/
  backoff : Option ℕ := none
  deriving DecidableEq, Repr

namespace Outbox

/-- Queues a message; past `maxQueued`, the oldest is dropped and counted. -/
def push (o : Outbox M) (message : M) : Outbox M :=
  let dropped := if o.queue.length = maxQueued then o.dropped + 1 else o.dropped
  { o with queue := pushBounded maxQueued o.queue message, dropped }

/-- The message to send next. -/
def front (o : Outbox M) : Option M := o.queue.head?

/-- Records how sending the front message went, `max` being the mail interval. Returns how long to
wait before the next attempt. -/
def after (o : Outbox M) (result : SendResult) (max : ℕ) : ℕ × Outbox M :=
  match result with
  | .sent => (0, { o with queue := o.queue.drop 1, backoff := none })
  | .permanent => (0, { queue := o.queue.drop 1, dropped := o.dropped + 1, backoff := none })
  | .temporary =>
      let next := min ((o.backoff.map (· * 2)).getD firstRetry) max
      (next, { o with backoff := some next })

def hasDropped (o : Outbox M) : Bool := 0 < o.dropped

/-- How many messages were dropped since the last call. -/
def takeDropped (o : Outbox M) : ℕ × Outbox M := (o.dropped, { o with dropped := 0 })

end Outbox

/-- Logs the reports the outbox dropped, at most hourly. Returns the count it logged, if it did, and
when it last did. -/
def logDropped (o : Outbox M) (warnedAt : Option ℕ) (now : ℕ) : Option ℕ × Option ℕ × Outbox M :=
  let quiet := warnedAt.any fun at_ => now - at_ < droppedWarningEvery
  if quiet ∨ o.hasDropped = false then
    (none, warnedAt, o)
  else
    let (count, o) := o.takeDropped
    (some count, some now, o)

/-! ### The delivery task -/

/-- The delivery task, with what is to happen to it: the messages still to be handed to it, each
with when, and how long each attempt takes and how it goes. -/
structure Delivery (M : Type) where
  outbox : Outbox M := {}
  wait : ℕ := 0
  warnedAt : Option ℕ := none
  /-- When the running sleep began. -/
  began : ℕ
  arrivals : List (ℕ × M)
  attempts : List (ℕ × SendResult)

namespace Delivery

/-- An attempt to send the front message, and the task as it left it. -/
structure Attempt (M : Type) where
  began : ℕ
  ended : ℕ
  message : M
  result : SendResult
  left : Delivery M

inductive Turn (M : Type) where
  | received (d : Delivery M)
  | attempted (attempt : Attempt M)

/-- A received message is queued, and the next sleep begins. -/
def receive (d : Delivery M) (now : ℕ) (message : M) (rest : List (ℕ × M)) : Delivery M :=
  let (_, warnedAt, outbox) := logDropped (d.outbox.push message) d.warnedAt now
  { d with outbox, warnedAt, began := now, arrivals := rest }

/-- When the sleep ends, the front message is sent, if there is one. -/
def attempt (d : Delivery M) (max : ℕ) : Option (Attempt M) :=
  match d.outbox.front, d.attempts with
  | some message, (took, result) :: attempts =>
      let began := d.began + d.wait
      let ended := began + took
      let (wait, outbox) := d.outbox.after result max
      let (_, warnedAt, outbox) := logDropped outbox d.warnedAt ended
      some ⟨began, ended, message, result,
        { d with outbox, wait, warnedAt, began := ended, attempts }⟩
  | _, _ => none

/-- One turn of the loop. The select is biased: a message handed over by the end of the sleep is
received first, and the sleep runs only while there is a front message. -/
def turn (d : Delivery M) (max : ℕ) : Option (Turn M) :=
  match d.arrivals with
  | (handed, message) :: rest =>
      if d.outbox.front.isSome ∧ d.began + d.wait < handed then
        (d.attempt max).map .attempted
      else
        some (.received (d.receive (d.began.max handed) message rest))
  | [] => (d.attempt max).map .attempted

/-- The attempts of so many turns. -/
def deliver (max : ℕ) : ℕ → Delivery M → List (Attempt M)
  | 0, _ => []
  | turns + 1, d =>
      match d.turn max with
      | none => []
      | some (.received d) => deliver max turns d
      | some (.attempted attempt) => attempt :: deliver max turns attempt.left

end Delivery

end MonitoringAgent.Agent

import MonitoringAgent.Model.Writer

/-! # The span handoff

The writer chooses the closed spans at each sweep and hands them, after the commit that sealed
them, to the block writer, which reads the span's chunks in a snapshot, writes its file and
sends the outcome back; the writer then inserts the `blocks` row and deletes the span's chunks
in one commit. -/

namespace MonitoringAgent.HubStore

open MonitoringAgent.Library

/-- Why a span's handoff failed: the span stays in redb and is retried. -/
inductive HandoffFailure where
  /-- Its chunks couldn't be read from redb. -/
  | read
  /-- Its chunks couldn't be encoded into a file. -/
  | encode
  /-- Writing, syncing or linking the file failed. -/
  | write
  /-- A file of that name already exists: it is never replaced. -/
  | «exists»
  deriving DecidableEq, Repr

/-- What the writer asks of the block writer, in order. -/
inductive Job where
  /-- Write a closed span's file. -/
  | handOff (name : BlockName)
  /-- Unlink a retired file, whose `pendingUnlinks` entry has committed. -/
  | unlink (name : BlockName)

/-- What the block writer sends back for one span. -/
inductive Outcome where
  | written (name : BlockName) (record : BlockRecord) (generations : Table ℕ ℕ)
  | failed (name : BlockName) (cause : HandoffFailure)

/-- What the block writer puts in the writer's inbox. -/
inductive BlockReply where
  | handOff (outcome : Outcome)
  /-- A retired file is unlinked: its `pendingUnlinks` entry goes. -/
  | unlinked (name : BlockName)

/-- More than `backlogBound` spans of a tier wait on a failing handoff: the tier, and why its
last attempt failed. -/
structure Backlog where
  tier : Tier
  last : HandoffFailure
  deriving DecidableEq, Repr

/-- How many spans of one tier may wait on a failing handoff before the store fails stop. -/
def backlogBound : ℕ := 3

/-- The writer's view of the spans to hand off. -/
structure Handoffs where
  /-- Spans with chunks in `chunks`. -/
  waiting : Finset SpanKey
  /-- Handed to the block writer, outcome not yet committed. -/
  inFlight : Finset SpanKey
  /-- Waiting after a failed attempt: when (in failure order) and why its last one failed. -/
  failed : Table SpanKey (ℕ × HandoffFailure)
  /-- Failures recorded so far: the order of the next one. -/
  failures : ℕ
  /-- Chosen at the last sweep: handed over after the next commit. -/
  due : Finset SpanKey

namespace Handoffs

def new (waiting : Finset SpanKey) : Handoffs := ⟨waiting, ∅, .empty, 0, ∅⟩

/-- A chunk of the span went into `chunks`. -/
def «sealed» (h : Handoffs) (span : SpanKey) : Handoffs :=
  { h with waiting := insert span h.waiting }

/-- The tier's backlog, if more than `backlogBound` of its spans wait on failures: named by the
latest of them. -/
def backlog (h : Handoffs) (tier : Tier) : Option Backlog := do
  let failing := (h.failed.entries.filter fun e => e.1.tier = tier).map Prod.snd
  let last ← failing.foldl (fun (latest : Option (ℕ × HandoffFailure)) failure =>
    match latest with
    | none => some failure
    | some l => if l.1 ≤ failure.1 then some failure else some l) none
  if failing.length > backlogBound then some ⟨tier, last.2⟩ else none

/-- At a sweep: the closed spans not yet in flight become due; too many failing spans of a
tier are a backlog. -/
def choose (h : Handoffs) (hubNow : ℕ) : Except Backlog Handoffs :=
  match Tier.all.findSome? h.backlog with
  | some backlog => .error backlog
  | none =>
      let closed := h.waiting.filter fun span =>
        SpanStart.isClosed span.span span.tier hubNow ∧ span ∉ h.inFlight
      .ok { h with due := h.due ∪ closed }

/-- After a commit: the due spans, now in flight. -/
def takeDue (h : Handoffs) : List SpanKey × Handoffs :=
  (h.due.sort (· ≤ ·), { h with due := ∅, inFlight := h.inFlight ∪ h.due })

/-- The span's file and row committed: its chunks are gone from `chunks`. -/
def landed (h : Handoffs) (span : SpanKey) : Handoffs :=
  { h with
    waiting := h.waiting.erase span
    inFlight := h.inFlight.erase span
    failed := h.failed.erase span }

/-- The spans with chunks in `chunks` that the block writer isn't handing off. -/
def idle (h : Handoffs) : List SpanKey := (h.waiting \ h.inFlight).sort (· ≤ ·)

/-- Retention deleted every chunk of the span: nothing is left to hand off. -/
def emptied (h : Handoffs) (span : SpanKey) : Handoffs :=
  { h with
    waiting := h.waiting.erase span
    failed := h.failed.erase span
    due := h.due.erase span }

/-- The attempt failed: the span waits for the next sweep. -/
def fail (h : Handoffs) (span : SpanKey) (cause : HandoffFailure) : Handoffs :=
  { h with
    inFlight := h.inFlight.erase span
    failed := h.failed.insert span (h.failures, cause)
    failures := h.failures + 1 }

end Handoffs

/-! ### The block writer's side -/

/-- A span's chunks in key order, held for the file. -/
abbrev Held := List (SeriesId × ℕ × List UInt8)

/-- The handoff's file name for a span: rewrite 0. -/
def handoffName (span : SpanKey) : BlockName := ⟨span.tier, span.span, 0⟩

/-- The chunks of a span, in key order. -/
def spanChunks (chunks : Table ChunkKey (List UInt8)) (span : SpanKey) : Held :=
  chunks.entries.filterMap fun (key, bytes) =>
    if key.spanKey = span then some (key.id, key.seq, bytes) else none

/-- Each generation's bytes among the chunks. A chunk whose series has no record is held by no
generation. -/
def heldGenerations (series : Table SeriesId SeriesRecord) (held : Held) : Table ℕ ℕ :=
  held.foldl (fun generations (id, _, bytes) =>
    match series.get? id with
    | none => generations
    | some record =>
        generations.insert record.key.generation
          ((generations.get? record.key.generation).getD 0 + bytes.length)) .empty

/-- The span's chunks, and each generation's bytes among them, from one read transaction. -/
def BlockWriter.readSpan (t : Tables) (name : BlockName) : Held × Table ℕ ℕ :=
  let held := spanChunks t.chunks name.spanKey
  (held, heldGenerations t.series held)

/-! ### The writer's side of an outcome -/

/-- A span's file is durable: its row, its `blockGenerations` entries and the deletion of its
chunks join this commit. None when the span already has a row. -/
def commitHandoff (t : Tables) (name : BlockName) (record : BlockRecord) (generations : Table ℕ ℕ) :
    Option Tables :=
  if t.blocks.contains name.spanKey then none
  else some { t with
    blocks := t.blocks.insert name.spanKey record
    blockGenerations := generations.entries.foldl
      (fun held (generation, bytes) => held.insert (toLex (generation, name.spanKey)) bytes)
      t.blockGenerations
    chunks := t.chunks.filter fun key _ => key.spanKey ≠ name.spanKey }

end MonitoringAgent.HubStore

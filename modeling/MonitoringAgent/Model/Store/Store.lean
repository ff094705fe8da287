import MonitoringAgent.Model.Store.Blocks
import MonitoringAgent.Model.Store.Pass

/-! # The store: the writer, the block writer and the block files

The writer thread with its handoffs and its retention pass, the block writer thread with its
queue, and what is on disk. Steps of the two threads interleave freely; a crash keeps only the
committed tables and the files. -/

namespace MonitoringAgent.HubStore

open MonitoringAgent.Library

/-- A running store. -/
structure Store where
  writer : Writer
  policies : Policies
  tombstones : Tombstones
  handoffs : Handoffs
  retention : Retention
  /-- The block writer's queue. -/
  jobs : List Job
  /-- The span whose chunks the block writer has read and whose file it is about to write. -/
  reading : Option (BlockName × Held × Table ℕ ℕ)
  /-- What the block writer sent back, not yet handled. -/
  replies : List BlockReply
  /-- Files whose rows the commit in progress holds: known to queries once it lands. -/
  landed : List BlockName
  files : Files
  /-- The block files as memory knows them: one entry per committed row. -/
  known : Table SpanKey Known

/-- Why a store doesn't open. -/
inductive StoreOpenError where
  | corrupt (error : OpenError)
  /-- A block file no `blocks` row names and no rule explains. -/
  | unexplainedBlock (name : BlockName)

namespace Store

/-- Opens the store: the head from the tails, the block files reconciled, the log replayed, a
sweep, and the first pass, which moves the retention clock by nothing. -/
def «open» (t : Tables) (files : Files) (policies : Policies) (systemNow passNow : ℕ)
    (reading : Duration) : Except StoreOpenError Store := do
  let c ← ((Core.new t.meta.clock t.meta.nextId).loadHead t).mapError .corrupt
  let r ← match reconcileAtOpen t files c.head t.meta.clock with
    | .ok r => .ok r
    | .error (.unexplained name) => .error (.unexplainedBlock name)
  let c ← (c.replay r.tables).mapError .corrupt
  let (now, c) := c.hubNow systemNow
  let (hubNow, c) := (c.sweep now).hubNow passNow
  .ok {
    writer := .new c r.tables r.tables.meta.commitSeq
    policies
    tombstones := ∅
    handoffs := .new r.waiting
    retention := (Retention.new r.tables.meta.retentionClock).begin hubNow passNow reading
    jobs := []
    reading := none
    replies := []
    landed := []
    files := r.files
    known := r.known }

/-! ### The writer's steps -/

/-- The sweep at hub time, then the closed spans chosen. -/
def sweep (s : Store) (systemNow : ℕ) : Except Backlog Store := do
  let (now, _) := s.writer.core.hubNow systemNow
  let handoffs ← s.handoffs.choose now
  .ok { s with writer := s.writer.sweep systemNow, handoffs }

/-- Starts a pass, if none runs. -/
def beginPass (s : Store) (systemNow : ℕ) (reading : Duration) : Store :=
  match s.retention.stage with
  | some _ => s
  | none =>
      let (hubNow, core) := s.writer.core.hubNow systemNow
      { s with
        writer := { s.writer with core }
        retention := s.retention.begin hubNow systemNow reading }

/-- A handoff's outcome: a durable file's row and the deletion of its chunks join this commit; a
failure leaves the span waiting for the next sweep. None when the span already has a row: the
store fails. -/
def handOff (s : Store) : Outcome → Option Store
  | .written name record generations => do
      let t ← commitHandoff s.writer.openTxn name record generations
      some { s with writer := { s.writer with txn := some t }, landed := s.landed ++ [name] }
  | .failed name cause => some { s with handoffs := s.handoffs.fail name.spanKey cause }

/-- A retired file is gone: its `pendingUnlinks` entry goes with this commit. -/
def unlinked (s : Store) (name : BlockName) : Store :=
  let t := s.writer.openTxn
  { s with writer := { s.writer with
      txn := some { t with pendingUnlinks := t.pendingUnlinks.erase name } } }

/-- The writer handles the next reply of the block writer. -/
def handle (s : Store) : Option Store :=
  match s.replies with
  | [] => some s
  | .handOff outcome :: replies => { s with replies }.handOff outcome
  | .unlinked name :: replies => some ({ s with replies }.unlinked name)

/-- What a commit writes: the interval, then one step of the retention pass. -/
structure Committing where
  writer : Writer
  tables : Tables
  handoffs : Handoffs
  retention : Retention
  retired : List BlockName

/-- Everything a commit holds, after the handoffs' rows already in the transaction. -/
def writeInterval (s : Store) (flush : Flush) : Committing :=
  let handoffs := s.writer.core.sealed.foldl (fun h e => h.sealed ⟨e.2.tier, e.2.span⟩) s.handoffs
  let (writer, t) := s.writer.writeInterval s.writer.openTxn flush
  let t := { t with «meta» := { t.meta with retentionClock := s.retention.clock } }
  let (retention, t, handoffs, retired) :=
    s.retention.step t ⟨s.policies, s.tombstones, writer.core.index, handoffs⟩
  ⟨writer, t, handoffs, retention, retired⟩

/-- After a commit: the files whose rows it held become known to queries, and the due spans go to
the block writer. -/
def afterHandoffs (s : Store) : Store :=
  let known := s.landed.foldl
    (fun known name => known.insert name.spanKey (.readable name.rewrite)) s.known
  let handoffs := s.landed.foldl (fun h name => h.landed name.spanKey) s.handoffs
  let (due, handoffs) := handoffs.takeDue
  { s with
    known
    handoffs
    landed := []
    jobs := s.jobs ++ due.map fun span => .handOff (handoffName span) }

/-- After a commit: the files it retired are forgotten and go to the block writer to be
unlinked. -/
def afterRetention (s : Store) (retired : List BlockName) : Store :=
  { s with
    known := retired.foldl (fun known name => known.erase name.spanKey) s.known
    jobs := s.jobs ++ retired.map Job.unlink }

/-- Commits the interval. -/
def commit (s : Store) (flush : Flush) : Store :=
  let c := s.writeInterval flush
  ({ s with
    writer := { c.writer with db := c.tables, txn := none }.afterCommit
    handoffs := c.handoffs
    retention := c.retention }.afterHandoffs).afterRetention c.retired

/-! ### The block writer's steps -/

/-- The block writer takes the next job: a span's chunks read in a snapshot, or a file
unlinked. -/
def takeJob (s : Store) (fails : Bool) : Store :=
  match s.reading, s.jobs with
  | none, .handOff name :: jobs =>
      if fails then
        { s with jobs, replies := s.replies ++ [.handOff (.failed name .read)] }
      else { s with jobs, reading := some (name, BlockWriter.readSpan s.writer.db name) }
  | none, .unlink name :: jobs =>
      -- A failed unlink keeps its `pendingUnlinks` entry: the next open finishes it.
      if fails then { s with jobs }
      else { s with
        jobs
        files := s.files.erase name
        replies := s.replies ++ [.unlinked name] }
  | _, _ => s

/-- The block writer writes the file of the span it read, whole or not at all, never over an
existing one. -/
def writeFile (s : Store) (fails : Option HandoffFailure) : Store :=
  match s.reading with
  | none => s
  | some (name, held, generations) =>
      let fails := fails <|> if s.files.contains name then some .exists else none
      match fails with
      | some cause =>
          { s with reading := none, replies := s.replies ++ [.handOff (.failed name cause)] }
      | none =>
          { s with
            reading := none
            files := s.files.insert name held
            replies :=
              s.replies ++ [.handOff (.written name ⟨name.rewrite, held.length⟩ generations)] }

/-! ### Runs -/

end Store

/-- A step of the store. -/
inductive StoreOp where
  | append (system : List UInt8) (generation : ℕ) (points : List IncomingPoint) (systemNow : ℕ)
  | sweep (systemNow : ℕ)
  | beginPass (systemNow : ℕ) (reading : Duration)
  | commit (flush : Flush)
  | handle
  | takeJob (fails : Bool)
  | writeFile (fails : Option HandoffFailure)
  | crash
  | reopen (policies : Policies) (systemNow passNow : ℕ) (reading : Duration)

/-- The store, running or stopped: stopped, only its tables and its files are left. -/
inductive Machine where
  | running (s : Store)
  | stopped (t : Tables) (files : Files)

namespace Machine

/-- A store whose step failed stops: what it last committed is left. -/
def ofOption (old : Store) : Option Store → Machine
  | some s => .running s
  | none => .stopped old.writer.db old.files

def step : Machine → StoreOp → Machine
  | .running s, .append system generation points systemNow =>
      ofOption s <| (s.writer.append system generation points systemNow).toOption.map fun (_, w) =>
        { s with writer := w }
  | .running s, .sweep systemNow => ofOption s (s.sweep systemNow).toOption
  | .running s, .beginPass systemNow reading => .running (s.beginPass systemNow reading)
  | .running s, .commit flush => .running (s.commit flush)
  | .running s, .handle => ofOption s s.handle
  | .running s, .takeJob fails => .running (s.takeJob fails)
  | .running s, .writeFile fails => .running (s.writeFile fails)
  | .running s, .crash => .stopped s.writer.db s.files
  | .running s, .reopen .. => .running s
  | .stopped t files, .reopen policies systemNow passNow reading =>
      match Store.open t files policies systemNow passNow reading with
      | .ok s => .running s
      | .error _ => .stopped t files
  | .stopped t files, _ => .stopped t files

def run (m : Machine) (ops : List StoreOp) : Machine := ops.foldl step m

/-- A data directory before its first open. -/
def new (systemNow : ℕ) : Machine := .stopped (.new systemNow) .empty

end Machine

end MonitoringAgent.HubStore

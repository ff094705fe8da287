import MonitoringAgent.Model.Retention.Policy
import MonitoringAgent.Model.Store.Handoff

/-! # The retention pass

As the writer runs it, one bounded batch per group commit: dead chunks deleted from `chunks`,
then the files whose every chunk is dead retired. A pass also plans a rewrite of one file, which
nothing runs yet. -/

namespace MonitoringAgent.HubStore

open MonitoringAgent.Library

/-- What a pass judges a chunk by. -/
structure World where
  policies : Policies
  tombstones : Tombstones
  retentionNow : ℕ
  /-- Spans the block writer hands off: left alone until their outcome commits. -/
  inFlight : Finset SpanKey

/-- What the pass does to one chunk in `chunks`. -/
inductive ChunkFate where
  | keep
  | delete
  deriving DecidableEq, Repr

/-- A chunk is deleted when it is dead, unless its span is in flight. A key off its tier's grid
is never judged dead: the pass deletes only what it can name. -/
def chunkFate (key : ChunkKey) (owner : Option Owner) (world : World) : ChunkFate :=
  match SpanStart.new key.tier key.span with
  | none => .keep
  | some span =>
      if ⟨key.tier, span⟩ ∈ world.inFlight then .keep
      else
        match chunkLiveness key.tier span owner world.policies world.tombstones
          world.retentionNow with
        | .live => .keep
        | .dead _ => .delete

def SeriesKey.owner (key : SeriesKey) : Owner := ⟨key.system, key.generation⟩

/-- Whose a series is: from the head, else from its record; none when neither names it. -/
def ownerOf (owners : Table SeriesId SeriesKey) (series : Table SeriesId SeriesRecord)
    (id : SeriesId) : Option Owner :=
  match owners.get? id with
  | some key => some key.owner
  | none => (series.get? id).map fun record => record.key.owner

/-- Where a bounded scan of `chunks` stopped. -/
inductive Scan where
  /-- The next key to visit. -/
  | more (next : ChunkKey)
  | done

/-- Visits at most `limit` entries of `chunks` from `start` on and deletes those `fate`
deletes. -/
def deleteDeadChunks (chunks : Table ChunkKey (List UInt8)) (start : ChunkKey) (limit : ℕ)
    (fate : ChunkKey → ChunkFate) : Scan × Table ChunkKey (List UInt8) :=
  let visited := (chunks.keys.filter (start ≤ ·)).take (limit + 1)
  let batch := visited.take limit
  let dead := batch.filter fun key => fate key = .delete
  let scan := match (visited.drop limit).head? with
    | some next => .more next
    | none => .done
  (scan, dead.foldl Table.erase chunks)

/-- The idle spans the scan left with no chunk: nothing is left to hand off. -/
def forgetEmptied (chunks : Table ChunkKey (List UInt8)) (handoffs : Handoffs) : Handoffs :=
  handoffs.idle.foldl
    (fun h span => if spanChunks chunks span = [] then h.emptied span else h) handoffs

/-! ### Files to retire -/

/-- A file to retire: its name and the generations its `blockGenerations` entries name. -/
structure Retirement where
  name : BlockName
  generations : List ℕ

/-- The entries its transaction removes or inserts: the row, the pending unlink, and one per
generation. -/
def Retirement.cost (r : Retirement) : ℕ := 2 + r.generations.length

/-- The generations holding chunks in a span's file. -/
def holdersOf (t : Tables) (span : SpanKey) : List ℕ :=
  t.blockGenerations.entries.filterMap fun e =>
    let (generation, held) := ofLex e.1
    if held = span then some generation else none

/-- Every file's row. A row counting chunks with no entries naming their holders is incomplete:
no facts. -/
def readInventory (t : Tables) : Table SpanKey BlockRecord :=
  t.blocks.filter fun span record => record.chunkCount = 0 ∨ holdersOf t span ≠ []

/-- Each generation the files hold, to its system: from the head, then from `series` for a
generation the head doesn't name. -/
def systemsOf (t : Tables) (owners : Table SeriesId SeriesKey) : Table ℕ (List UInt8) :=
  let systems : Table ℕ (List UInt8) :=
    owners.entries.foldl (fun m e => m.insert e.2.generation e.2.system) .empty
  let unnamed := t.blockGenerations.entries.any fun e => !systems.contains (ofLex e.1).1
  if unnamed then
    t.series.entries.foldl (fun m e =>
      if m.contains e.2.key.generation then m
        else m.insert e.2.key.generation e.2.key.system) systems
  else systems

/-- Whether a file is retired: its every chunk is dead, and it isn't being handed off. -/
def retires (t : Tables) (systems : Table ℕ (List UInt8)) (world : World) (span : SpanKey) : Bool :=
  span ∉ world.inFlight ∧ (holdersOf t span).all fun generation =>
    chunkLiveness span.tier span.span ((systems.get? generation).map (⟨·, generation⟩))
      world.policies world.tombstones world.retentionNow ≠ .live

/-- The files whose every chunk is dead at the world's retention clock. -/
def planRetirements (t : Tables) (owners : Table SeriesId SeriesKey) (world : World) :
    List Retirement :=
  let systems := systemsOf t owners
  (readInventory t).entries.filterMap fun (span, record) =>
    if retires t systems world span then
      some ⟨⟨span.tier, span.span, record.rewrite⟩, holdersOf t span⟩
    else none

/-- Retires one file: its row and `blockGenerations` entries go, and it joins
`pendingUnlinks`. -/
def retireFile (t : Tables) (file : Retirement) : Tables :=
  { t with
    blocks := t.blocks.erase file.name.spanKey
    blockGenerations := file.generations.foldl
      (fun held generation => held.erase (toLex (generation, file.name.spanKey))) t.blockGenerations
    pendingUnlinks := t.pendingUnlinks.insert file.name () }

/-- Retires files from the front of the queue while `limit` entries allow, at least one. -/
def retire (limit : ℕ) (t : Tables) (retired : List BlockName) (spent : ℕ) :
    List Retirement → Tables × List Retirement × List BlockName
  | [] => (t, [], retired)
  | file :: queue =>
      if retired ≠ [] ∧ spent + file.cost > limit then (t, file :: queue, retired)
      else retire limit (retireFile t file) (retired ++ [file.name]) (spent + file.cost) queue

/-! ### The schedule -/

/-- How many entries one step of a pass may visit or delete. -/
def batch : ℕ := 50000

/-- Where a pass is: scanning `chunks` from a key, or retiring the files left to retire. -/
inductive Stage where
  | chunks (start : ChunkKey)
  | files (queue : List Retirement)

/-- The retention schedule: the guarded retention clock and the pass in progress, run one step
per group commit. -/
structure Retention where
  clock : ℕ
  /-- The monotonic clock when the last pass started; none before the first since the open. -/
  lastStart : Option Duration
  stage : Option Stage

namespace Retention

def new (clock : ℕ) : Retention := ⟨clock, none, none⟩

/-- Starts a pass: the retention clock moves and `chunks` is scanned next. -/
def begin (r : Retention) (hubNow systemNow : ℕ) (reading : Duration) : Retention where
  clock := retentionNow r.clock hubNow systemNow (match r.lastStart with
    | none => .sinceOpen
    | some last => .measured (reading - last))
  lastStart := some reading
  stage := some (.chunks ⟨.raw, 0, 0, 0⟩)

/-- What a step reads beside its transaction. -/
structure Context where
  policies : Policies
  tombstones : Tombstones
  /-- The head's series, by id. -/
  owners : Table SeriesId SeriesKey
  handoffs : Handoffs

def world (r : Retention) (ctx : Context) : World :=
  ⟨ctx.policies, ctx.tombstones, r.clock, ctx.handoffs.inFlight⟩

/-- One batch of the scan: dead chunks deleted from `chunks`. Once the scan is done, the spans it
emptied are no longer handed off, and the files to retire are planned. -/
def scan (r : Retention) (t : Tables) (ctx : Context) (start : ChunkKey) :
    Stage × Tables × Handoffs :=
  let fate key := chunkFate key (ownerOf ctx.owners t.series key.id) (r.world ctx)
  match deleteDeadChunks t.chunks start batch fate with
  | (.more next, chunks) => (.chunks next, { t with chunks }, ctx.handoffs)
  | (.done, chunks) =>
      let t := { t with chunks }
      let handoffs := forgetEmptied chunks ctx.handoffs
      (.files (planRetirements t ctx.owners (r.world { ctx with handoffs })), t, handoffs)

/-- One step of the pass in progress, inside the commit's transaction: the tables and the
handoffs after it, and the files whose rows went. -/
def step (r : Retention) (t : Tables) (ctx : Context) :
    Retention × Tables × Handoffs × List BlockName :=
  match r.stage with
  | none => (r, t, ctx.handoffs, [])
  | some (.chunks start) =>
      let (stage, t, handoffs) := r.scan t ctx start
      ({ r with stage := some stage }, t, handoffs, [])
  | some (.files []) => ({ r with stage := none }, t, ctx.handoffs, [])
  | some (.files queue) =>
      let (t, queue, retired) := retire batch t [] 0 queue
      ({ r with stage := some (.files queue) }, t, ctx.handoffs, retired)

end Retention

end MonitoringAgent.HubStore

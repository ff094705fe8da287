import MonitoringAgent.Model.Store.Query

/-! # The block map and its writers

The map of known block files, one lock at a time: the writer installs the files whose rows landed
and forgets those it retired, after each commit; any number of queries install a file memory didn't
know, each by the rows of its own snapshot. -/

namespace MonitoringAgent.HubStore

open MonitoringAgent.Library

/-- The block map with what reads and writes it. -/
structure BlockMap where
  /-- The committed `blocks` rows. -/
  rows : Table SpanKey BlockRecord
  /-- The rows of every commit so far, for the snapshots queries still hold. -/
  past : List (Table SpanKey BlockRecord)
  known : Table SpanKey Known
  /-- Files whose rows the last commit holds, not yet installed. -/
  landed : List BlockName
  /-- Files whose rows the last commit removed, not yet forgotten. -/
  retired : List BlockName
  /-- The reads of block files in progress. -/
  reads : Table ℕ (BlockName × SeriesId × FileRead)

inductive BlockMapOp where
  /-- A commit's rows: those of the handoffs that landed, then without those its pass retired. -/
  | commit (landed : List (BlockName × BlockRecord)) (retired : List BlockName)
  /-- The writer, after the commit: the next file is known to queries, then the next one is
  forgotten. -/
  | install
  | evict
  /-- A query whose snapshot is of the `n`th commit starts to read the file of a span's row. -/
  | read (query n : ℕ) (span : SpanKey) (id : SeriesId)
  /-- A query's next step. -/
  | step (query : ℕ) (file : Option Held)

namespace BlockMap

/-- The map of a store just opened: every row's file, readable or not. -/
def «open» (rows : Table SpanKey BlockRecord) (readable : SpanKey → Bool) : BlockMap where
  rows := rows
  past := [rows]
  known := rows.mapValues fun span record =>
    if readable span then .readable record.rewrite else .unreadable record.rewrite
  landed := []
  retired := []
  reads := .empty

def step (m : BlockMap) : BlockMapOp → BlockMap
  | .commit landed retired =>
      -- One writer: a commit follows the last one's installs and evictions.
      if m.landed = [] ∧ m.retired = [] then
        let rows := landed.foldl (fun rows e => rows.insert e.1.spanKey e.2) m.rows
        let rows := (retired.map BlockName.spanKey).foldl Table.erase rows
        { m with rows, past := m.past ++ [rows], landed := landed.map Prod.fst, retired }
      else m
  | .install =>
      match m.landed with
      | [] => m
      | name :: landed =>
          { m with known := m.known.insert name.spanKey (.readable name.rewrite), landed }
  | .evict =>
      match m.landed, m.retired with
      | [], name :: retired => { m with known := m.known.erase name.spanKey, retired }
      | _, _ => m
  | .read query n span id =>
      match m.past[n]? with
      | none => m
      | some rows =>
          match rows.get? span with
          | none => m
          | some record => { m with reads := m.reads.insert query (⟨span.tier, span.span,
              record.rewrite⟩, id, .look) }
  | .step query file =>
      match m.reads.get? query with
      | none => m
      | some (name, id, read) =>
          let (read, known) := read.step name id m.known file
          { m with known, reads := m.reads.insert query (name, id, read) }

def run (m : BlockMap) (ops : List BlockMapOp) : BlockMap := ops.foldl step m

/-- How many block files of a tier the store counts. -/
def blockFiles (m : BlockMap) (tier : Tier) : ℕ :=
  (m.known.keys.filter fun span => span.tier = tier).length

/-- The writer has done all it does after the last commit, and no query is reading a file. -/
def quiet (m : BlockMap) : Bool :=
  m.landed = [] ∧ m.retired = [] ∧ m.reads.entries.all fun e => e.2.2.2.isDone

/-- The map's spans are those of the committed rows. -/
def Mirrors (m : BlockMap) : Prop := ∀ span, span ∈ m.known.keys ↔ span ∈ m.rows.keys

end BlockMap

end MonitoringAgent.HubStore

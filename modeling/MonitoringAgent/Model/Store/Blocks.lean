import MonitoringAgent.Model.Recovery
import MonitoringAgent.Model.Store.Handoff

/-! # Block files, and their reconciliation with the `blocks` rows at open

- every file in `pendingUnlinks` is unlinked if present, and its entry cleared;
- a file no row names is deleted only when it is provably a redundant copy: **(a)** its span has
  no row, is closed by the persisted hub clock, no tail of the tier is open in it and its chunks
  are in `chunks`; or **(b)** its span's row holds a lower rewrite number whose own file is
  present. Any other such file refuses the open;
- a row whose file is absent opens with its span unreadable. -/

namespace MonitoringAgent.HubStore

open MonitoringAgent.Library

/-- The block files on disk, each with the chunks it holds in key order. -/
abbrev Files := Table BlockName Held

/-- What memory keeps of one span's block file. -/
inductive Known where
  | readable (rewrite : ℕ)
  /-- Missing, or damaged: every query of the span is corrupt until the file is retired. -/
  | unreadable (rewrite : ℕ)
  deriving DecidableEq, Repr

def Known.rewrite : Known → ℕ
  | .readable rewrite | .unreadable rewrite => rewrite

/-! ### The plan -/

/-- Whether a tail of the tier still holds the span open, or every tail has it sealed. -/
inductive TailsInSpan where
  | «open»
  | allSealed
  deriving DecidableEq, Repr

/-- Whether `chunks` holds chunks of the span. -/
inductive ChunksInRedb where
  | present
  | absent
  deriving DecidableEq, Repr

/-- What redb says of a span with a row-less file. -/
structure SpanEvidence where
  tails : TailsInSpan
  chunks : ChunksInRedb
  deriving DecidableEq, Repr

/-- What the open does to the block files. -/
structure Reconciliation where
  /-- Files to unlink: those `pendingUnlinks` names, and redundant copies. -/
  unlink : List BlockName
  /-- `pendingUnlinks` entries to delete once their files are gone. -/
  clearPending : List BlockName
  /-- Rows whose file is absent: their spans open unreadable. -/
  missing : List BlockName

/-- Why the open refuses. -/
inductive Refusal (E : Type) where
  /-- A file no rule explains: `hub.redb` is older than `blocks/`. -/
  | unexplained (name : BlockName)
  /-- The evidence couldn't be read. -/
  | evidence (error : E)

/-- What redb holds of the block files. -/
structure Catalogued where
  /-- Per span with a row, the rewrite number it names. -/
  rows : Table SpanKey ℕ
  pending : List BlockName
  /-- Hub time as last committed. -/
  hubNow : ℕ

section Reconcile

variable {E : Type} (files : List BlockName) (cat : Catalogued)
  (evidence : Tier → SpanStart → Except E SpanEvidence)

/-- Whether a file no row names is provably a redundant copy, by rule (a) or (b). -/
def redundant (file : BlockName) : Except (Refusal E) Bool :=
  match cat.rows.get? file.spanKey with
  | some row =>
      let own : BlockName := { file with rewrite := row }
      .ok (row < file.rewrite ∧ own ∈ files ∧ own ∉ cat.pending)
  | none =>
      if SpanStart.isClosed file.span file.tier cat.hubNow then
        match evidence file.tier file.span with
        | .error e => .error (.evidence e)
        | .ok found => .ok (found = ⟨.allSealed, .present⟩)
      else .ok false

/-- The plan for the `.blk` files found under `blocks/`. -/
def reconcile : Except (Refusal E) Reconciliation := do
  let missing := cat.rows.entries.filterMap fun (span, rewrite) =>
    let own : BlockName := ⟨span.tier, span.span, rewrite⟩
    if own ∉ files ∨ own ∈ cat.pending then some own else none
  let orphans := files.filter fun file =>
    file ∉ cat.pending ∧ cat.rows.get? file.spanKey ≠ some file.rewrite
  let copies ← orphans.mapM fun orphan => do
    if ← redundant files cat evidence orphan then .ok orphan else .error (.unexplained orphan)
  .ok ⟨cat.pending.filter (· ∈ files) ++ copies, cat.pending, missing⟩

end Reconcile

/-! ### The open -/

/-- Rule (a)'s evidence for a span with a row-less file: whether a loaded tail still holds the
span open, and whether `chunks` holds any of it. -/
def evidence (t : Tables) (head : Table SeriesKey HeadEntry) (tier : Tier) (span : SpanStart) :
    SpanEvidence where
  tails := if head.entries.any fun e => e.2.state.holdsOpen tier span then .open else .allSealed
  chunks := if spanChunks t.chunks ⟨tier, span⟩ = [] then .absent else .present

/-- The files, the tables and the spans the reconciliation leaves. -/
structure Reconciled where
  files : Files
  tables : Tables
  /-- Each row's file, as memory keeps it. -/
  known : Table SpanKey Known
  /-- The spans that still have chunks in redb. -/
  waiting : Finset SpanKey

/-- The open's reconciliation, after the tails are loaded: files deleted or the open refused by
the plan, `pendingUnlinks` cleared, every row's file read into memory. `hubNow` is the persisted
clock. -/
def reconcileAtOpen (t : Tables) (files : Files) (head : Table SeriesKey HeadEntry) (hubNow : ℕ) :
    Except (Refusal Empty) Reconciled := do
  let cat : Catalogued := ⟨t.blocks.mapValues fun _ record => record.rewrite,
    t.pendingUnlinks.keys, hubNow⟩
  let plan ← reconcile files.keys cat fun tier span => .ok (evidence t head tier span)
  let files := plan.unlink.foldl Table.erase files
  .ok {
    files
    tables := { t with pendingUnlinks := plan.clearPending.foldl Table.erase t.pendingUnlinks }
    known := cat.rows.mapValues fun span rewrite =>
      let name : BlockName := ⟨span.tier, span.span, rewrite⟩
      if name ∈ plan.missing ∨ ¬files.contains name then .unreadable rewrite else .readable rewrite
    waiting := (t.chunks.keys.map ChunkKey.spanKey).toFinset }

end MonitoringAgent.HubStore

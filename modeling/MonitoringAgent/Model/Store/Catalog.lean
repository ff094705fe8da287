import MonitoringAgent.Model.Writer

/-! # Catalog transactions

`f` runs on the writer thread inside the group commit's redb transaction. It may refuse only before
its first write; a redb error inside it is recorded and fails the store once `f` returns, so `f`
sees plain values. Its answer, the commit hook and the failure of the store are the writer's. -/

namespace MonitoringAgent.HubStore

open MonitoringAgent.Library

/-- When a catalog transaction is committed. -/
inductive Commit where
  /-- At once: the call returns after its commit. -/
  | durable
  /-- With the next group commit, within one commit interval. -/
  | batched
  deriving DecidableEq, Repr

/-- When a write-free transaction is answered: after the commit holding the transaction it read (at
once if no uncommitted catalog write lies beneath it), or at once. -/
inductive Answer where
  | afterCommit
  | atOnce
  deriving DecidableEq, Repr

/-- What `transact` answers when it doesn't return a value. -/
inductive TransactError (A : Type) where
  | aborted (abort : A)
  | store (error : StoreError)
  deriving DecidableEq, Repr

/-- Where the store is in its life. -/
inductive Lifecycle where
  | running
  /-- `close` flushed and committed: every later call answers `closed`. -/
  | closed
  /-- The writer failed: every later call answers `failed`. -/
  | failed
  deriving DecidableEq, Repr

/-- The error every call answers, once the store doesn't run. -/
def Lifecycle.check : Lifecycle → Except StoreError Unit
  | .running => .ok ()
  | .closed => .error .closed
  | .failed => .error .failed

/-! ### Inside a transaction -/

/-- The catalog tables, read and written in the writer's transaction. -/
structure CatalogTxn (C : Type) where
  tables : Tables
  core : Core
  now : ℕ
  /-- A catalog write that changed a value, or a staged point. -/
  wrote : Bool
  /-- A catalog write by a transaction not yet committed. -/
  catalogDirty : Bool
  error : Option StoreError
  changes : List C
  /-- The catalog keys it wrote, for the trace. -/
  written : List CatalogKey

/-- What `f` does, one call of its transaction after another; each call's answer decides the rest.
-/
inductive CatalogProgram (C T A : Type) where
  | get (key : CatalogKey) (next : Option (List UInt8) → CatalogProgram C T A)
  | entries (table start : List UInt8) (limit : ℕ)
      (next : List (List UInt8 × List UInt8) → CatalogProgram C T A)
  | insert (key : CatalogKey) (value : List UInt8) (next : CatalogProgram C T A)
  | remove (key : CatalogKey) (next : Bool → CatalogProgram C T A)
  | now (next : ℕ → CatalogProgram C T A)
  | wrote (next : Bool → CatalogProgram C T A)
  | notify (change : C) (next : CatalogProgram C T A)
  | append (system : List UInt8) (generation : ℕ) (points : List IncomingPoint)
      (next : AppendReport → CatalogProgram C T A)
  | done (value : T) (answer : Answer)
  | abort (refusal : A)

namespace CatalogTxn

variable {C T A : Type}

def fail (txn : CatalogTxn C) : CatalogTxn C := { txn with error := some .failed }

/-- Up to `limit` entries of `table` whose key starts with `start`, in key order. -/
def scan (tables : Tables) (table start : List UInt8) (limit : ℕ) :
    List (List UInt8 × List UInt8) :=
  let range := tables.catalog.entries.filter fun e => decide (e.1.table = table) &&
    decide (⟨table, start⟩ ≤ e.1)
  ((range.takeWhile fun e => start.isPrefixOf e.1.key).take limit).map fun e => (e.1.key, e.2)

/-- A catalog write that changed a value. -/
def recordWrite (txn : CatalogTxn C) (key : CatalogKey) (catalog : Table CatalogKey (List UInt8)) :
    CatalogTxn C :=
  { txn with
    tables := { txn.tables with catalog }
    wrote := true
    catalogDirty := true
    written := txn.written ++ [key] }

/-- Writes `value` at `key`, unless it is already there. -/
def insert (txn : CatalogTxn C) (key : CatalogKey) (value : List UInt8) : CatalogTxn C :=
  if txn.tables.catalog.get? key = some value then txn
  else txn.recordWrite key (txn.tables.catalog.insert key value)

/-- Removes an entry; whether there was one. -/
def remove (txn : CatalogTxn C) (key : CatalogKey) : Bool × CatalogTxn C :=
  if txn.tables.catalog.contains key then (true, txn.recordWrite key (txn.tables.catalog.erase key))
  else (false, txn)

/-- Stages points in this transaction, stamped at its hub time and committed with it. -/
def append (txn : CatalogTxn C) (system : List UInt8) (generation : ℕ)
    (points : List IncomingPoint) : AppendReport × CatalogTxn C :=
  match txn.core.appendPoints txn.tables system generation points txn.now with
  | .ok (report, core) => (report, { txn with core, wrote := txn.wrote || report.accepted > 0 })
  | .error e => (⟨txn.now, 0, []⟩, { txn with error := some e })

/-- Runs `f`: what it returns and the transaction it leaves. Each call that reaches redb takes the
next of `faults`, whether redb fails there. -/
def run (txn : CatalogTxn C) (faults : List Bool) :
    CatalogProgram C T A → Except A (T × Answer) × CatalogTxn C
  | .get key next =>
      if faults.headD false then txn.fail.run faults.tail (next none)
      else txn.run faults.tail (next (txn.tables.catalog.get? key))
  | .entries table start limit next =>
      if faults.headD false then txn.fail.run faults.tail (next [])
      else txn.run faults.tail (next (scan txn.tables table start limit))
  | .insert key value next =>
      if faults.headD false then txn.fail.run faults.tail next
      else (txn.insert key value).run faults.tail next
  | .remove key next =>
      if faults.headD false then txn.fail.run faults.tail (next false)
      else (txn.remove key).2.run faults.tail (next (txn.remove key).1)
  | .now next => txn.run faults (next txn.now)
  | .wrote next => txn.run faults (next txn.wrote)
  | .notify change next => { txn with changes := txn.changes ++ [change] }.run faults next
  | .append system generation points next =>
      if faults.headD false then txn.fail.run faults.tail (next ⟨txn.now, 0, []⟩)
      else (txn.append system generation points).2.run faults.tail
        (next (txn.append system generation points).1)
  | .done value answer => (.ok (value, answer), txn)
  | .abort refusal => (.error refusal, txn)

end CatalogTxn

/-! ### The writer's rounds -/

/-- What callers ask of the writer. -/
inductive Request (C T A : Type) where
  | append (system : List UInt8) (generation : ℕ) (points : List IncomingPoint)
  | transact («class» : Commit) (f : CatalogProgram C T A)
  /-- Flush every tail, commit, stop. -/
  | close

/-- The answer to a request. -/
inductive Reply (T A : Type) where
  | append (answer : Except StoreError AppendReport)
  | transact (answer : Except (TransactError A) T)
  | close (answer : Except StoreError Unit)

/-- What `f` left of its transaction, and what it returned. -/
structure Ran (C T A : Type) where
  txn : CatalogTxn C
  outcome : Except A (T × Answer)

/-- What a run of the writer shows. -/
inductive CatalogEvent (C T A : Type) where
  /-- The `n`th request's `f` returned. -/
  | ran (n : ℕ) (r : Ran C T A)
  /-- The redb transaction committed: the tables it left, its points log entry under `seq`. -/
  | committed (seq : ℕ) (tables : Tables)
  /-- Its commit failed. -/
  | lost
  /-- The commit hook was called. -/
  | announced (changes : List C)
  | answered (n : ℕ) (reply : Reply T A)
  /-- The store failed. -/
  | failed

/-- The writer, with what waits for the next commit. -/
structure CatalogWriter (C T A : Type) where
  writer : Writer
  catalogDirty : Bool
  changes : List C
  /-- Transactions answered after the commit: their requests and values. -/
  waiters : List (ℕ × T)
  lifecycle : Lifecycle
  /-- How many requests came. -/
  asked : ℕ

/-- One round of the writer's loop: the request that came, if any, what the clocks say and what redb
answers. -/
structure Round (C T A : Type) where
  request : Option (Request C T A)
  /-- The system clock as the request is handled. -/
  systemNow : ℕ
  /-- Whether redb begins a write transaction, when the request needs one. -/
  begins : Bool
  /-- Which redb calls of the request fail. -/
  faults : List Bool
  /-- The sweep is due, at this system time. -/
  sweeps : Option ℕ
  /-- Too many spans wait on a failing handoff. -/
  backlog : Bool
  /-- The commit interval is over. -/
  timer : Bool
  /-- Whether redb commits, if the round does. -/
  commits : Bool
  /-- The tail rotation's share due. -/
  target : ℕ

namespace CatalogWriter

variable {C T A : Type}

/-- The writer of a store just opened. -/
def new (writer : Writer) : CatalogWriter C T A := ⟨writer, false, [], [], .running, 0⟩

def fail (w : CatalogWriter C T A) : CatalogWriter C T A := { w with lifecycle := .failed }

/-- The answer to a request the store doesn't serve. -/
def refused (error : StoreError) : Request C T A → Reply T A
  | .append .. => .append (.error error)
  | .transact .. => .transact (.error (.store error))
  | .close => .close (.error error)

/-- Marks the store failed and answers every waiting caller; the open transaction goes with the
thread. -/
def failStop (w : CatalogWriter C T A) : CatalogWriter C T A × List (CatalogEvent C T A) :=
  ({ w with writer := { w.writer with txn := none }, waiters := [], lifecycle := .failed },
    .failed :: w.waiters.map fun (n, _) => .answered n (.transact (.error (.store .failed))))

/-- What the writer does with a transaction once `f` returned: the answer, now or with the commit;
and whether a commit is asked for at once. -/
def settle (w : CatalogWriter C T A) (n : ℕ) («class» : Commit) (r : Ran C T A) :
    CatalogWriter C T A × Bool × List (CatalogEvent C T A) :=
  if r.txn.error.isSome then
    (w.fail, false, [.failed, .answered n (.transact (.error (.store .failed)))])
  else
    match r.outcome with
    | .error refusal =>
        if r.txn.wrote then (w.fail, false,
          [.failed, .answered n (.transact (.error (.store .failed)))])
        else (w, false, [.answered n (.transact (.error (.aborted refusal)))])
    | .ok (value, answer) =>
        let w := { w with changes := w.changes ++ r.txn.changes }
        if r.txn.wrote then ({ w with waiters := w.waiters ++ [(n, value)] },
          «class» = .durable, [])
        else if answer = .afterCommit ∧ w.catalogDirty then
          ({ w with waiters := w.waiters ++ [(n, value)] }, false, [])
        else (w, false, [.answered n (.transact (.ok value))])

/-- Handles the `n`th request; whether it asks for a commit at once. -/
def handle (w : CatalogWriter C T A) (n : ℕ) (round : Round C T A) :
    Request C T A → CatalogWriter C T A × Bool × List (CatalogEvent C T A)
  | .close => (w, false, [])
  | .append system generation points =>
      if round.begins then
        match w.writer.append system generation points round.systemNow with
        | .ok (report, writer) =>
            if round.faults.headD false then (w.fail, false,
              [.failed, .answered n (.append (.error .failed))])
            else ({ w with writer }, false, [.answered n (.append (.ok report))])
        | .error e => (w.fail, false, [.failed, .answered n (.append (.error e))])
      else (w.fail, false, [.failed, .answered n (.append (.error .failed))])
  | .transact «class» f =>
      if round.begins then
        let (now, core) := w.writer.core.hubNow round.systemNow
        let txn : CatalogTxn C := ⟨w.writer.openTxn, core, now, false, w.catalogDirty, none, [], []⟩
        let (outcome, txn) := txn.run round.faults f
        let w := { w with
          writer := { w.writer with core := txn.core, txn := some txn.tables }
          catalogDirty := txn.catalogDirty }
        let (w, force, events) := w.settle n «class» ⟨txn, outcome⟩
        (w, force, .ran n ⟨txn, outcome⟩ :: events)
      else (w.fail, false, [.failed, .answered n (.transact (.error (.store .failed)))])

/-- Commits the interval: then the hook hears its changes, and the callers waiting on it are
answered. -/
def commit (w : CatalogWriter C T A) (flush : Flush) (commits : Bool) :
    CatalogWriter C T A × List (CatalogEvent C T A) :=
  if commits then
    let writer := w.writer.commit flush
    ({ w with writer, catalogDirty := false, changes := [], waiters := [] },
      .committed w.writer.commitSeq writer.db :: .announced w.changes ::
        w.waiters.map fun (n, value) => .answered n (.transact (.ok value)))
  else (w.failStop.1, .lost :: w.failStop.2)

/-- The close: flushes every tail and commits; a failed commit stays a failure. -/
def finish (w : CatalogWriter C T A) (n : ℕ) (commits : Bool) :
    CatalogWriter C T A × List (CatalogEvent C T A) :=
  let (w, events) := w.commit .all commits
  if w.lifecycle = .running then ({ w with lifecycle := .closed },
    events ++ [.answered n (.close (.ok ()))])
  else (w, events ++ [.answered n (.close (.error .failed))])

/-- The sweep, if the round's is due. -/
def sweepDue (w : CatalogWriter C T A) (round : Round C T A) : CatalogWriter C T A :=
  match round.sweeps with
  | some now => { w with writer := w.writer.sweep now }
  | none => w

/-- The part of a round after its request. -/
def endRound (w : CatalogWriter C T A) (round : Round C T A) (force : Bool) :
    CatalogWriter C T A × List (CatalogEvent C T A) :=
  if w.lifecycle ≠ .running then w.failStop
  else if round.sweeps.isSome ∧ round.backlog then (w.sweepDue round).failStop
  else if force ∨ round.timer then (w.sweepDue round).commit (.rotation round.target) round.commits
  else (w.sweepDue round, [])

/-- One round of the writer's loop. Once it returned, a request finds the store closed or failed. -/
def step (w : CatalogWriter C T A) (round : Round C T A) :
    CatalogWriter C T A × List (CatalogEvent C T A) :=
  let n := w.asked
  let asked := match round.request with
    | some _ => n + 1
    | none => n
  let w := { w with asked }
  match w.lifecycle.check with
  | .error e =>
      match round.request with
      | none => (w, [])
      | some request => (w, [.answered n (refused e request)])
  | .ok () =>
      match round.request with
      | none => w.endRound round false
      | some .close => w.finish n round.commits
      | some request =>
          let (w, force, events) := w.handle n round request
          let (w, more) := w.endRound round force
          (w, events ++ more)

/-- A run of the writer, and what it shows. -/
def run (w : CatalogWriter C T A) :
    List (Round C T A) → CatalogWriter C T A × List (CatalogEvent C T A)
  | [] => (w, [])
  | round :: rounds =>
      let (w, events) := w.step round
      let (w, more) := w.run rounds
      (w, events ++ more)

end CatalogWriter

end MonitoringAgent.HubStore

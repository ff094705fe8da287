import MonitoringAgent.Library.Trace
import MonitoringAgent.Model.Store.Catalog
import MonitoringAgent.Verification.Writer.Steps

/-! # Catalog transactions, their answers and the commit hook

What each event of a run of the writer says of the events before it: an answer that waits for a
commit comes after it, the hook hears each change of the transactions that stand once, with the
commit that holds them, and nothing succeeds after a failure. -/

namespace MonitoringAgent.HubStore

open MonitoringAgent.Library

variable {C T A : Type}

/-! ### Inside a transaction -/

theorem Core.points_appendPoints {c c' : Core} {txn : Tables} {system : List UInt8}
    {generation «at» : ℕ} {points : List IncomingPoint} {report : AppendReport}
    (happend : c.appendPoints txn system generation points «at» = .ok (report, c')) :
    c.points <+: c'.points := by
  rw [appendPoints] at happend
  obtain ⟨⟨answers, c₁⟩, heach, happend⟩ := except_bind_eq_ok.mp happend
  cases happend
  refine appendEach_inv (P := fun c₁ => c.points <+: c₁.points) ?_ List.prefix_rfl heach
  intro c₁ c₂ p answer hpoints hpoint
  refine appendPoint_inv (P := fun c₁ => c.points <+: c₁.points) ?_ ?_ hpoints hpoint
  · intro c₃ active hnone hactive
    rw [activate] at hactive
    split at hactive
    · dsimp only at hactive
      split at hactive
      · split at hactive
        · cases hactive
          exact hpoints
        · cases hactive
      · cases hactive
        exact hpoints
    · split_ifs at hactive
      · cases hactive
        exact hpoints
      · cases hactive
        exact hpoints
  · intro c₃ entry scaled hc₃ _
    rw [appendEntry]
    split_ifs
    · exact hc₃
    split
    · exact hc₃
    · dsimp only
      rw [putEntry_points]
      exact hc₃.trans (List.prefix_append _ _)

namespace CatalogTxn

/-- What every call keeps, `f` keeps. -/
theorem run_inv {P : CatalogTxn C → Prop} (hfail : ∀ txn, P txn → P txn.fail)
    (hwrite : ∀ txn key catalog, P txn → P (txn.recordWrite key catalog))
    (hnotify : ∀ txn change, P txn → P { txn with changes := txn.changes ++ [change] })
    (happend : ∀ txn system generation points, P txn → P (txn.append system generation points).2)
    {txn : CatalogTxn C} (h : P txn) (faults : List Bool) (f : CatalogProgram C T A) :
    P (txn.run faults f).2 := by
  induction f generalizing txn faults with
  | get key next ih =>
      rw [run]
      split_ifs
      · exact ih _ (hfail txn h) _
      · exact ih _ h _
  | entries table start limit next ih =>
      rw [run]
      split_ifs
      · exact ih _ (hfail txn h) _
      · exact ih _ h _
  | insert key value next ih =>
      rw [run]
      split_ifs
      · exact ih (hfail txn h) _
      · refine ih ?_ _
        rw [insert]
        split_ifs
        · exact h
        · exact hwrite txn key _ h
  | remove key next ih =>
      rw [run]
      split_ifs
      · exact ih _ (hfail txn h) _
      · refine ih _ ?_ _
        rw [remove]
        split_ifs
        · exact hwrite txn key _ h
        · exact h
  | now next ih => exact ih _ h _
  | wrote next ih => exact ih _ h _
  | notify change next ih => exact ih (hnotify txn change h) _
  | append system generation points next ih =>
      rw [run]
      split_ifs
      · exact ih _ (hfail txn h) _
      · exact ih _ (happend txn system generation points h) _
  | done value answer => exact h
  | abort refusal => exact h

/-- A transaction against what it started from: whether the catalog was dirty, and the points that
waited. -/
structure From (dirty : Bool) (points : List LoggedPoint) (txn : CatalogTxn C) : Prop where
  dirty : txn.catalogDirty = (dirty || !txn.written.isEmpty)
  wrote : txn.wrote = false → txn.written = []
  points : points <+: txn.core.points

theorem From.run {dirty : Bool} {points : List LoggedPoint} {txn : CatalogTxn C}
    (h : txn.From dirty points) (faults : List Bool) (f : CatalogProgram C T A) :
    (txn.run faults f).2.From dirty points := by
  refine run_inv (P := From dirty points) (fun txn h => ⟨h.dirty, h.wrote, h.points⟩)
    (fun txn key catalog h => ?_) (fun txn change h => ⟨h.dirty, h.wrote, h.points⟩)
    (fun txn system generation points h => ?_) h faults f
  · exact ⟨by simp [recordWrite], nofun, h.points⟩
  · rw [append]
    split
    next report core happend =>
      refine ⟨h.dirty, fun hwrote => h.wrote (Bool.or_eq_false_iff.mp hwrote).1, ?_⟩
      exact h.points.trans (Core.points_appendPoints happend)
    · exact ⟨h.dirty, h.wrote, h.points⟩

end CatalogTxn

/-! ### What a commit holds -/

namespace Writer

theorem tablesAfter_catalog (w : Writer) (flush : Flush) :
    (w.tablesAfter flush).catalog = w.openTxn.catalog := by
  obtain ⟨series, seriesKey, tails, htables⟩ := (w.tailsWritten_frame w.openTxn flush).tables
  rw [tablesAfter_eq, htables]
  dsimp only [writeChunks]
  rw [writeLog]
  split_ifs
  · rfl
  · rfl

/-- The log's bounds are sequences of the past. -/
def Bounded (w : Writer) : Prop :=
  w.logBound ≤ w.rotation.startedSeq ∧ w.rotation.startedSeq ≤ w.commitSeq

theorem tablesAfter_log {w : Writer} (h : w.Bounded) (flush : Flush)
    (hpoints : w.core.points ≠ []) :
    (w.tablesAfter flush).pointsLog.get? w.commitSeq = some (encodeLogEntry w.core.points) := by
  rw [WriterInv.commit_log, if_pos (h.1.trans h.2), writeLog, if_neg (by simpa using hpoints)]
  exact Table.get?_insert_self _ _ _

theorem Bounded.commit {w : Writer} (h : w.Bounded) (flush : Flush) : (w.commit flush).Bounded := by
  have hstarted : (w.flushIds flush).2.startedSeq = w.rotation.startedSeq := by cases flush <;> rfl
  have hseq : (w.commit flush).commitSeq = w.commitSeq + 1 := by
    rw [commit_eq, afterCommit_commitSeq, writeInterval_eq]
  rw [Bounded, hseq]
  rcases WriterInv.commit_rotation w flush with ⟨-, hbound, hrotation⟩ | ⟨hbound, hrotation⟩
  · rw [hbound, hrotation, hstarted]
    exact ⟨h.2.trans (Nat.le_succ _), le_rfl⟩
  · rw [hbound, hrotation, hstarted]
    exact ⟨h.1, h.2.trans (Nat.le_succ _)⟩

theorem commit_openTxn (w : Writer) (flush : Flush) :
    (w.commit flush).openTxn = w.tablesAfter flush := by
  rw [openTxn, WriterInv.commit_db, commit_eq, afterCommit_txn]
  rfl

/-- An append changes the core only: the open transaction stays what it was. -/
theorem append_frame {w w' : Writer} {system : List UInt8} {generation systemNow : ℕ}
    {points : List IncomingPoint} {report : AppendReport}
    (h : w.append system generation points systemNow = .ok (report, w')) :
    ∃ core txn, w' = { w with core, txn } ∧ w'.openTxn = w.openTxn ∧
      w.core.points <+: core.points := by
  rw [append] at h
  obtain ⟨⟨report', core⟩, hpoints, hw⟩ := except_bind_eq_ok.mp h
  cases hw
  exact ⟨core, some w.openTxn, rfl, rfl, Core.points_appendPoints
    (c := (w.core.hubNow systemNow).2) hpoints⟩

end Writer

/-! ### What events say -/

/-- What `f` returned, if its transaction stands. -/
def Ran.value (r : Ran C T A) :
    Option (T × Answer) := if r.txn.error.isSome then none else r.outcome.toOption

/-- The changes of a transaction that stands. -/
def Ran.changes (r : Ran C T A) : List C := if r.value.isSome then r.txn.changes else []

/-- Whether a transaction fails the store: redb failed inside it, or `f` refused after a write. -/
def Ran.stops (r : Ran C T A) : Bool := r.txn.error.isSome || (!r.outcome.toBool && r.txn.wrote)

namespace CatalogEvent

/-- The catalog after an event: as a transaction left it. -/
def catalog (start : Table CatalogKey (List UInt8)) :
    CatalogEvent C T A → Table CatalogKey (List UInt8)
  | .ran _ r => r.txn.tables.catalog
  | _ => start

/-- The file's tables after an event: as a commit left them. -/
def file (start : Tables) : CatalogEvent C T A → Tables
  | .committed _ t => t
  | _ => start

/-- Whether a catalog write waits for a commit after an event. -/
def dirty (before : Bool) : CatalogEvent C T A → Bool
  | .ran _ r => before || !r.txn.written.isEmpty
  | .committed .. => false
  | _ => before

/-- The changes of a transaction that stands. -/
def changes : CatalogEvent C T A → List C
  | .ran _ r => r.changes
  | _ => []

/-- The changes the hook hears. -/
def heard : CatalogEvent C T A → List C
  | .announced changes => changes
  | _ => []

def isCommit : CatalogEvent C T A → Bool
  | .committed .. => true
  | _ => false

/-- What an event says, given the requests of the run and the events before it. -/
def Allowed (requests : List (Request C T A)) (start : Tables) (past : List (CatalogEvent C T A)) :
    CatalogEvent C T A → Prop
  | .ran n r => .failed ∉ past ∧ ∃ («class» : Commit) (txn : CatalogTxn C) (faults : List Bool)
      (f : CatalogProgram C T A), requests[n]? = some (.transact «class» f) ∧
      txn.tables.catalog = past.foldl catalog start.catalog ∧ txn.wrote = false ∧ txn.written = [] ∧
      txn.changes = [] ∧ txn.error = none ∧ txn.run faults f = (r.outcome, r.txn)
  | .committed seq t => .failed ∉ past ∧ t.catalog = past.foldl catalog start.catalog ∧
      ∀ x n r y, past = x ++ .ran n r :: y → y.all (!·.isCommit) → r.txn.core.points ≠ [] →
        ∃ points, t.pointsLog.get? seq = some (encodeLogEntry points) ∧ r.txn.core.points <+: points
  | .announced changes => (∃ x seq t, past = x ++ [.committed seq t]) ∧
      past.flatMap heard ++ changes = past.flatMap CatalogEvent.changes
  | .answered n (.transact (.ok value)) => .failed ∉ past ∧
      ∃ x r answer y, past = x ++ .ran n r :: y ∧ r.value = some (value, answer) ∧
        (r.txn.wrote = true ∨ answer = .afterCommit ∧ x.foldl dirty false = true →
          ∃ y₁ seq t changes y₂, y = y₁ ++ .committed seq t :: .announced changes :: y₂)
  | .answered n (.transact (.error (.aborted refusal))) =>
      ∃ x r y, past = x ++ .ran n r :: y ∧ r.outcome = .error refusal ∧ r.txn.wrote = false
  | .answered _ (.append (.ok _)) => .failed ∉ past
  | .answered _ (.close (.ok _)) => .failed ∉ past
  | _ => True

/-- Whether an event has one right after it that depends on it. -/
def demands : CatalogEvent C T A → Bool
  | .ran _ r => r.stops
  | .committed .. => true
  | .lost => true
  | _ => false

/-- The event a demanding one has right after it: the hook hears of a commit, anything else fails
the store. -/
def Fits : CatalogEvent C T A → CatalogEvent C T A → Prop
  | .committed .., next => ∃ changes, next = .announced changes
  | _, next => next = .failed

/-- An event that changes nothing the later ones depend on. -/
structure Quiet (ev : CatalogEvent C T A) : Prop where
  catalog : ∀ c, ev.catalog c = c
  file : ∀ t, ev.file t = t
  dirty : ∀ b, ev.dirty b = b
  heard : ev.heard = []
  changes : ev.changes = []
  failed : ev ≠ .failed
  ran : ∀ n r, ev ≠ .ran n r

theorem quiet_answered (n : ℕ) (reply : Reply T A) :
    Quiet (.answered n reply : CatalogEvent C T A) :=
  ⟨fun _ => rfl, fun _ => rfl, fun _ => rfl, rfl, rfl, nofun, nofun⟩

theorem quiet_lost : Quiet (.lost : CatalogEvent C T A) :=
  ⟨fun _ => rfl, fun _ => rfl, fun _ => rfl, rfl, rfl, nofun, nofun⟩

end CatalogEvent

/-! ### Requests counted -/

namespace CatalogWriter

variable (w : CatalogWriter C T A)

theorem commit_asked (flush : Flush) (commits : Bool) :
    (w.commit flush commits).1.asked = w.asked := by
  rw [commit]
  split_ifs
  · rfl
  · rfl

theorem finish_asked (n : ℕ) (commits : Bool) : (w.finish n commits).1.asked = w.asked := by
  rw [finish, ← w.commit_asked .all commits]
  dsimp only
  split_ifs
  · rfl
  · rfl

theorem settle_asked (n : ℕ) («class» : Commit) (r : Ran C T A) :
    (w.settle n «class» r).1.asked = w.asked := by
  rw [settle]
  cases r.txn.error.isSome with
  | true => rfl
  | false =>
      rw [if_neg Bool.false_ne_true]
      cases r.outcome with
      | error refusal =>
          dsimp only
          split_ifs
          · rfl
          · rfl
      | ok pair =>
          dsimp only
          split_ifs
          · rfl
          · rfl
          · rfl

theorem handle_asked (n : ℕ) (round : Round C T A) (request : Request C T A) :
    (w.handle n round request).1.asked = w.asked := by
  cases request with
  | close => rfl
  | append system generation points =>
      rw [handle]
      cases round.begins with
      | false => rfl
      | true =>
          rw [if_pos rfl]
          split
          · split_ifs
            · rfl
            · rfl
          · rfl
  | transact «class» f =>
      rw [handle]
      cases round.begins with
      | false => rfl
      | true => exact settle_asked _ n «class» _

theorem sweepDue_asked (round : Round C T A) : (w.sweepDue round).asked = w.asked := by
  rw [sweepDue]
  split
  · rfl
  · rfl

theorem endRound_asked (round : Round C T A) (force : Bool) :
    (w.endRound round force).1.asked = w.asked := by
  rw [endRound]
  split_ifs
  · rfl
  · exact w.sweepDue_asked round
  · rw [commit_asked, sweepDue_asked]
  · exact w.sweepDue_asked round

theorem step_asked (round : Round C T A) :
    (w.step round).1.asked = match round.request with
      | some _ => w.asked + 1
      | none => w.asked := by
  rw [step]
  dsimp only
  cases w.lifecycle.check with
  | error e =>
      cases round.request with
      | none => rfl
      | some request => rfl
  | ok _ =>
      cases round.request with
      | none => exact endRound_asked _ round false
      | some request =>
          cases request with
          | close => exact finish_asked _ w.asked round.commits
          | append system generation points =>
              exact (endRound_asked _ round _).trans (handle_asked _ w.asked round _)
          | transact «class» f =>
              exact (endRound_asked _ round _).trans (handle_asked _ w.asked round _)

/-! ### What follows at once -/

open CatalogEvent (demands Fits)

theorem followed_answers (waiting : List (ℕ × T)) (reply : T → Reply T A) :
    Followed demands Fits (waiting.map fun (n, value) =>
      (.answered n (reply value) : CatalogEvent C T A)) := by
  refine followed_of_forall fun ev hev => ?_
  obtain ⟨_, -, rfl⟩ := List.mem_map.mp hev
  rfl

theorem followed_answer (n : ℕ) (reply : Reply T A) :
    Followed demands Fits [(.answered n reply : CatalogEvent C T A)] := by
  refine followed_of_forall fun ev hev => ?_
  rw [List.mem_singleton.mp hev]
  rfl

theorem failStop_followed : Followed demands Fits w.failStop.2 :=
  (followed_answers w.waiters fun _ => .transact (.error (.store .failed))).cons_quiet rfl

theorem commit_followed (flush : Flush) (commits : Bool) :
    Followed demands Fits (w.commit flush commits).2 := by
  rw [commit]
  split_ifs
  · have hanswers := followed_answers (C := C) (A := A) w.waiters fun value => .transact (.ok value)
    exact (hanswers.cons_quiet rfl).cons ⟨w.changes, rfl⟩
  · exact w.failStop_followed.cons rfl

theorem finish_followed (n : ℕ) (commits : Bool) :
    Followed demands Fits (w.finish n commits).2 := by
  rw [finish]
  dsimp only
  split_ifs
  · exact (w.commit_followed .all commits).append (followed_answer n _)
  · exact (w.commit_followed .all commits).append (followed_answer n _)

theorem endRound_followed (round : Round C T A) (force : Bool) :
    Followed demands Fits (w.endRound round force).2 := by
  rw [endRound]
  split_ifs
  · exact w.failStop_followed
  · exact (w.sweepDue round).failStop_followed
  · exact (w.sweepDue round).commit_followed _ round.commits
  · exact followed_of_forall nofun

theorem settle_followed (n : ℕ) («class» : Commit) (r : Ran C T A) :
    Followed demands Fits (.ran n r :: (w.settle n «class» r).2.2) := by
  have hstop : ∀ reply : Reply T A,
      Followed demands Fits [(.ran n r : CatalogEvent C T A), .failed, .answered n reply] :=
        fun reply =>
    ((followed_answer n reply).cons_quiet rfl).cons rfl
  rw [settle]
  cases herror : r.txn.error.isSome with
  | true => exact hstop _
  | false =>
      rw [if_neg Bool.false_ne_true]
      cases houtcome : r.outcome with
      | error refusal =>
          dsimp only
          split_ifs with hwrote
          · exact hstop _
          · refine followed_of_forall ?_
            simp [demands, Ran.stops, herror, hwrote]
      | ok pair =>
          refine followed_of_forall ?_
          dsimp only
          split_ifs <;> simp [demands, Ran.stops, herror, houtcome, Except.toBool]

theorem handle_followed (n : ℕ) (round : Round C T A) (request : Request C T A) :
    Followed demands Fits (w.handle n round request).2.2 := by
  cases request with
  | close => exact followed_of_forall nofun
  | append system generation points =>
      rw [handle]
      cases round.begins with
      | false => exact (followed_answer n _).cons_quiet rfl
      | true =>
          rw [if_pos rfl]
          split
          · split_ifs
            · exact (followed_answer n _).cons_quiet rfl
            · exact followed_answer n _
          · exact (followed_answer n _).cons_quiet rfl
  | transact «class» f =>
      rw [handle]
      cases round.begins with
      | false => exact (followed_answer n _).cons_quiet rfl
      | true => exact settle_followed _ n «class» _

theorem step_followed (round : Round C T A) : Followed demands Fits (w.step round).2 := by
  rw [step]
  dsimp only
  cases w.lifecycle.check with
  | error e =>
      cases round.request with
      | none => exact followed_of_forall nofun
      | some request => exact followed_answer _ _
  | ok _ =>
      cases round.request with
      | none => exact endRound_followed _ round false
      | some request =>
          cases request with
          | close => exact finish_followed _ w.asked round.commits
          | append system generation points =>
              exact (handle_followed _ _ round _).append (endRound_followed _ round _)
          | transact «class» f =>
              exact (handle_followed _ _ round _).append (endRound_followed _ round _)

theorem run_followed (rounds : List (Round C T A)) : Followed demands Fits (w.run rounds).2 := by
  induction rounds generalizing w with
  | nil => exact followed_of_forall nofun
  | cons round rounds ih => exact (w.step_followed round).append (ih (w.step round).1)

end CatalogWriter

/-! ### The invariant -/

/-- The writer against the events so far; every request below `asked` is answered or waits. -/
structure CatalogInv (requests : List (Request C T A)) (start : Tables) (asked : ℕ)
    (w : CatalogWriter C T A) (past : List (CatalogEvent C T A)) : Prop where
  allowed : Throughout (CatalogEvent.Allowed requests start) past
  file : w.writer.db = past.foldl CatalogEvent.file start
  failed : .failed ∈ past ↔ w.lifecycle = .failed
  catalog : w.lifecycle = .running →
    w.writer.openTxn.catalog = past.foldl CatalogEvent.catalog start.catalog
  dirty : w.lifecycle = .running → w.catalogDirty = past.foldl CatalogEvent.dirty false
  changes : w.lifecycle = .running → past.flatMap CatalogEvent.heard ++ w.changes =
    past.flatMap CatalogEvent.changes
  waiters : ∀ n value, (n, value) ∈ w.waiters →
    ∃ x r answer y, past = x ++ .ran n r :: y ∧ r.value = some (value, answer)
  points : w.lifecycle = .running → ∀ x n r y, past = x ++ .ran n r :: y → y.all (!·.isCommit) →
    r.txn.core.points <+: w.writer.core.points
  bounded : w.writer.Bounded
  answered : ∀ n < asked, (∃ reply, .answered n reply ∈ past) ∨ ∃ value, (n, value) ∈ w.waiters

namespace CatalogInv

variable {requests : List (Request C T A)} {start : Tables} {asked : ℕ} {w : CatalogWriter C T A}
  {past : List (CatalogEvent C T A)}

theorem not_failed (h : CatalogInv requests start asked w past) (hrun : w.lifecycle = .running) :
    .failed ∉ past := by
  rw [h.failed, hrun]
  nofun

theorem quiet (h : CatalogInv requests start asked w past) {ev : CatalogEvent C T A}
    (hquiet : ev.Quiet) (hallowed : ev.Allowed requests start past) :
    CatalogInv requests start asked w (past ++ [ev]) := by
  refine ⟨throughout_concat.mpr ⟨h.allowed, hallowed⟩, ?_, ?_, fun hrun => ?_, fun hrun => ?_,
    fun hrun => ?_, fun m value hm => ?_, fun hrun x m r y hsplit hy => ?_,
      h.bounded, fun m hm => ?_⟩
  · rw [List.foldl_append]
    exact h.file.trans (hquiet.file _).symm
  · rw [List.mem_append, ← h.failed, or_iff_left fun hmem => hquiet.failed
      (List.mem_singleton.mp hmem).symm]
  · rw [List.foldl_append, ← h.catalog hrun]
    exact (hquiet.catalog _).symm
  · rw [List.foldl_append, ← h.dirty hrun]
    exact (hquiet.dirty _).symm
  · simpa [hquiet.heard, hquiet.changes] using h.changes hrun
  · obtain ⟨x, r, answer, y, rfl, hvalue⟩ := h.waiters m value hm
    exact ⟨x, r, answer, y ++ [ev], by simp, hvalue⟩
  · rcases eq_concat_cases hsplit with ⟨-, heq, -⟩ | ⟨rest, rfl, hpast⟩
    · exact absurd heq.symm (hquiet.ran m r)
    · rw [List.all_append, Bool.and_eq_true] at hy
      exact h.points hrun x m r rest hpast hy.1
  · exact (h.answered m hm).imp_left fun ⟨reply, hmem⟩ => ⟨reply, List.mem_append_left _ hmem⟩

theorem answer (h : CatalogInv requests start asked w past) {n : ℕ} {reply : Reply T A} {k : ℕ}
    (hallowed : CatalogEvent.Allowed requests start past (.answered n reply))
    (hk : ∀ m < k, m < asked ∨ m = n) :
    CatalogInv requests start k w (past ++ [.answered n reply]) := by
  refine { h.quiet (CatalogEvent.quiet_answered n reply) hallowed with answered := fun m hm => ?_ }
  rcases hk m hm with hm | rfl
  · exact (h.answered m hm).imp_left fun ⟨reply', hmem⟩ => ⟨reply', List.mem_append_left _ hmem⟩
  · exact .inl ⟨reply, List.mem_append_right _ (List.mem_singleton_self _)⟩

theorem fail (h : CatalogInv requests start asked w past) :
    CatalogInv requests start asked w.fail (past ++ [.failed]) := by
  refine ⟨throughout_concat.mpr ⟨h.allowed, trivial⟩, ?_, ?_, nofun, nofun, nofun,
    fun m value hm => ?_, nofun, h.bounded, fun m hm => ?_⟩
  · rw [List.foldl_append]
    exact h.file
  · exact iff_of_true (List.mem_append_right _ (List.mem_singleton_self _)) rfl
  · obtain ⟨x, r, answer, y, rfl, hvalue⟩ := h.waiters m value hm
    exact ⟨x, r, answer, y ++ [.failed], by simp, hvalue⟩
  · exact (h.answered m hm).imp_left fun ⟨reply, hmem⟩ => ⟨reply, List.mem_append_left _ hmem⟩

/-- Between commits the head moves on, and what waits for the commit only grows. -/
theorem withWriter (h : CatalogInv requests start asked w past) (core : Core) (txn : Option Tables)
    (htxn : Writer.openTxn { w.writer with core, txn } = w.writer.openTxn)
    (hpoints : w.writer.core.points <+: core.points) :
    CatalogInv requests start asked { w with writer := { w.writer with core, txn } } past :=
  { h with
    catalog := fun hrun => by rw [htxn]; exact h.catalog hrun
    points := fun hrun x n r y hsplit hy => (h.points hrun x n r y hsplit hy).trans hpoints
    bounded := h.bounded }

/-- A transaction ran: its changes are kept if it stands. -/
theorem ran (h : CatalogInv requests start asked w past) (hrun : w.lifecycle = .running) (n : ℕ)
    (core : Core) (hcore : core.points = w.writer.core.points) (now : ℕ) (faults : List Bool)
    {f : CatalogProgram C T A} {«class» : Commit}
    (hrequest : requests[n]? = some (.transact «class» f)) :
    let txn : CatalogTxn C := ⟨w.writer.openTxn, core, now, false, w.catalogDirty, none, [], []⟩
    let r : Ran C T A := ⟨(txn.run faults f).2, (txn.run faults f).1⟩
    r.txn.From w.catalogDirty w.writer.core.points ∧
      CatalogInv requests start asked { w with
        writer := { w.writer with core := r.txn.core, txn := some r.txn.tables }
        catalogDirty := r.txn.catalogDirty
        changes := w.changes ++ r.changes } (past ++ [.ran n r]) := by
  intro txn r
  have hfrom : r.txn.From w.catalogDirty w.writer.core.points :=
    CatalogTxn.From.run ⟨by simp [txn], fun _ => rfl, hcore ▸ List.prefix_rfl⟩ faults f
  have hfailed := h.not_failed hrun
  refine ⟨hfrom, throughout_concat.mpr ⟨h.allowed, hfailed, «class», txn, faults, f, hrequest,
    h.catalog hrun, rfl, rfl, rfl, rfl, rfl⟩, ?_, ?_, fun _ => ?_, fun _ => ?_, fun _ =>
      ?_, fun m value hm => ?_,
    fun _ x m r' y hsplit hy => ?_, h.bounded, fun m hm => ?_⟩
  · rw [List.foldl_append]
    exact h.file
  · rw [List.mem_append, ← h.failed]
    simp
  · rw [List.foldl_append]
    rfl
  · rw [List.foldl_append, ← h.dirty hrun]
    exact hfrom.dirty
  · rw [List.flatMap_append, List.flatMap_append, ← h.changes hrun]
    simp [CatalogEvent.heard, CatalogEvent.changes]
  · obtain ⟨x, r', answer, y, rfl, hvalue⟩ := h.waiters m value hm
    exact ⟨x, r', answer, y ++ [.ran n r], by simp, hvalue⟩
  · rcases eq_concat_cases hsplit with ⟨-, heq, -⟩ | ⟨rest, rfl, hpast⟩
    · cases heq
      exact List.prefix_rfl
    · rw [List.all_append, Bool.and_eq_true] at hy
      exact (h.points hrun x m r' rest hpast hy.1).trans hfrom.points
  · exact (h.answered m hm).imp_left fun ⟨reply, hmem⟩ => ⟨reply, List.mem_append_left _ hmem⟩

/-- A transaction that stands waits for the commit. -/
theorem wait (h : CatalogInv requests start asked w past) {n : ℕ} {value : T} {k : ℕ}
    {x y : List (CatalogEvent C T A)} {r : Ran C T A} {answer : Answer}
    (hpast : past = x ++ .ran n r :: y) (hvalue : r.value = some (value, answer))
    (hk : ∀ m < k, m < asked ∨ m = n) :
    CatalogInv requests start k { w with waiters := w.waiters ++ [(n, value)] } past := by
  refine { h with waiters := fun m v hm => ?_, answered := fun m hm => ?_ }
  · rcases List.mem_append.mp hm with hm | hm
    · exact h.waiters m v hm
    · obtain ⟨rfl, rfl⟩ := Prod.mk.inj (List.mem_singleton.mp hm)
      exact ⟨x, r, answer, y, hpast, hvalue⟩
  · rcases hk m hm with hm | rfl
    · exact (h.answered m hm).imp_right fun ⟨v, hmem⟩ => ⟨v, List.mem_append_left _ hmem⟩
    · exact .inr ⟨value, List.mem_append_right _ (List.mem_singleton_self _)⟩

/-- Every caller that waits is answered, each answer being allowed after the ones before it. -/
theorem answerAll (h : CatalogInv requests start asked w past) (reply : T → Reply T A)
    (hallowed : ∀ n value more, (n, value) ∈ w.waiters →
      (∀ ev ∈ more, ∃ n reply, ev = .answered n reply) →
      CatalogEvent.Allowed requests start (past ++ more) (.answered n (reply value))) :
    CatalogInv requests start asked { w with waiters := [] }
      (past ++ w.waiters.map fun (n, value) => .answered n (reply value)) := by
  have hrest : ∀ (waiting : List (ℕ × T)) (past : List (CatalogEvent C T A)),
      CatalogInv requests start asked { w with waiters := waiting } past →
      (∀ n value more, (n, value) ∈ waiting → (∀ ev ∈ more, ∃ n reply, ev = .answered n reply) →
        CatalogEvent.Allowed requests start (past ++ more) (.answered n (reply value))) →
      CatalogInv requests start asked { w with waiters := [] }
        (past ++ waiting.map fun (n, value) => .answered n (reply value)) := by
    intro waiting
    induction waiting with
    | nil =>
        intro past h _
        rwa [List.map_nil, List.append_nil]
    | cons next waiting ih =>
        obtain ⟨n, value⟩ := next
        intro past h hallowed
        have hnext := hallowed n value [] List.mem_cons_self nofun
        rw [List.append_nil] at hnext
        have hanswered := h.answer hnext fun m hm => .inl hm
        rw [List.map_cons, List.append_cons]
        refine ih _ { hanswered with
          waiters := fun m v hm => hanswered.waiters m v (List.mem_cons_of_mem _ hm)
          answered := fun m hm => ?_ } fun m v more hm hmore => ?_
        · rcases hanswered.answered m hm with hreply | ⟨v, hv⟩
          · exact .inl hreply
          · rcases List.mem_cons.mp hv with heq | hv
            · obtain ⟨rfl, rfl⟩ := Prod.mk.inj heq
              exact .inl ⟨_, List.mem_append_right _ (List.mem_singleton_self _)⟩
            · exact .inr ⟨v, hv⟩
        · rw [List.append_assoc, List.singleton_append]
          refine hallowed m v _ (List.mem_cons_of_mem _ hm) fun ev hev => ?_
          rcases List.mem_cons.mp hev with rfl | hev
          · exact ⟨n, reply value, rfl⟩
          · exact hmore ev hev
  exact hrest w.waiters past h hallowed

/-! ### Commits and failures -/

theorem failStop (h : CatalogInv requests start asked w past) :
    CatalogInv requests start asked w.failStop.1 (past ++ w.failStop.2) ∧
      w.failStop.1.waiters = [] ∧
      w.failStop.1.lifecycle = .failed := by
  have hfailed := h.fail.answerAll (fun _ => .transact (.error (.store .failed)))
    fun _ _ _ _ _ => trivial
  rw [List.append_assoc, List.singleton_append] at hfailed
  exact ⟨{ hfailed with
    catalog := nofun
    points := nofun
    bounded := hfailed.bounded }, rfl, rfl⟩

/-- The commit lands. -/
theorem committed (h : CatalogInv requests start asked w past)
    (hrun : w.lifecycle = .running) (flush : Flush) :
    CatalogInv requests start asked
      { w with writer := w.writer.commit flush, catalogDirty := false }
      (past ++ [.committed w.writer.commitSeq (w.writer.commit flush).db]) := by
  have hfailed := h.not_failed hrun
  have hcatalog : (w.writer.commit flush).db.catalog =
      past.foldl CatalogEvent.catalog start.catalog := by
    rw [WriterInv.commit_db, Writer.tablesAfter_catalog, h.catalog hrun]
  refine ⟨throughout_concat.mpr ⟨h.allowed, hfailed, hcatalog, fun x n r y hsplit hy hpoints => ?_⟩,
    ?_, ?_, fun _ => ?_, fun _ => ?_, fun _ => ?_, fun m value hm => ?_, fun _ x m r y hsplit hy =>
      ?_, h.bounded.commit flush, fun m hm => ?_⟩
  · have hheld := h.points hrun x n r y hsplit hy
    have hne : w.writer.core.points ≠ [] := by
      intro hnil
      rw [hnil] at hheld
      exact hpoints (List.prefix_nil.mp hheld)
    rw [WriterInv.commit_db]
    exact ⟨w.writer.core.points, Writer.tablesAfter_log h.bounded flush hne, hheld⟩
  · rw [List.foldl_append]
    rfl
  · rw [List.mem_append, ← h.failed]
    simp
  · rw [List.foldl_append, Writer.commit_openTxn, Writer.tablesAfter_catalog]
    exact h.catalog hrun
  · rw [List.foldl_append]
    rfl
  · simpa [CatalogEvent.heard, CatalogEvent.changes] using h.changes hrun
  · obtain ⟨x, r, answer, y, rfl, hvalue⟩ := h.waiters m value hm
    exact ⟨x, r, answer, y ++ [.committed w.writer.commitSeq (w.writer.commit flush).db], by
      simp, hvalue⟩
  · rcases eq_concat_cases hsplit with ⟨-, heq, -⟩ | ⟨rest, rfl, -⟩
    · cases heq
    · rw [List.all_append, Bool.and_eq_true] at hy
      exact absurd hy.2 (by simp [CatalogEvent.isCommit])
  · exact (h.answered m hm).imp_left fun ⟨reply, hmem⟩ => ⟨reply, List.mem_append_left _ hmem⟩

/-- The hook hears the interval's changes, the commit being the last event. -/
theorem announced (h : CatalogInv requests start asked w past) (hrun : w.lifecycle = .running)
    (hlast : ∃ x seq t, past = x ++ [.committed seq t]) :
    CatalogInv requests start asked { w with changes := [] } (past ++ [.announced w.changes]) := by
  refine ⟨throughout_concat.mpr ⟨h.allowed, hlast, h.changes hrun⟩, ?_, ?_, fun _ => ?_,
    fun _ => ?_, fun _ => ?_, fun m value hm => ?_, fun _ x m r y hsplit hy => ?_,
      h.bounded, fun m hm => ?_⟩
  · rw [List.foldl_append]
    exact h.file
  · rw [List.mem_append, ← h.failed]
    simp
  · rw [List.foldl_append]
    exact h.catalog hrun
  · rw [List.foldl_append]
    exact h.dirty hrun
  · simpa [CatalogEvent.heard, CatalogEvent.changes] using h.changes hrun
  · obtain ⟨x, r, answer, y, rfl, hvalue⟩ := h.waiters m value hm
    exact ⟨x, r, answer, y ++ [.announced w.changes], by simp, hvalue⟩
  · rcases eq_concat_cases hsplit with ⟨-, heq, -⟩ | ⟨rest, rfl, hpast⟩
    · cases heq
    · rw [List.all_append, Bool.and_eq_true] at hy
      exact h.points hrun x m r rest hpast hy.1
  · exact (h.answered m hm).imp_left fun ⟨reply, hmem⟩ => ⟨reply, List.mem_append_left _ hmem⟩

theorem commit (h : CatalogInv requests start asked w past) (hrun : w.lifecycle = .running)
    (flush : Flush) (commits : Bool) :
    CatalogInv requests start asked (w.commit flush commits).1
      (past ++ (w.commit flush commits).2) ∧
      (w.commit flush commits).1.waiters = [] ∧
      (w.commit flush commits).1.lifecycle = if commits then .running else .failed := by
  rw [CatalogWriter.commit]
  split_ifs
  · refine ⟨?_, rfl, hrun⟩
    have hheard := (h.committed hrun flush).announced hrun ⟨past, _, _, rfl⟩
    have hanswered := hheard.answerAll (fun value => .transact (.ok value)) ?_
    · simpa using hanswered
    · intro n value more hm hmore
      refine ⟨?_, ?_⟩
      · have hfailed := h.not_failed hrun
        simp only [List.mem_append, List.mem_singleton, not_or]
        refine ⟨⟨⟨hfailed, nofun⟩, nofun⟩, fun hmem => ?_⟩
        obtain ⟨m, reply, heq⟩ := hmore _ hmem
        cases heq
      · obtain ⟨x, r, answer, y, rfl, hvalue⟩ := h.waiters n value hm
        refine ⟨x, r, answer, _, by simp only [List.append_assoc, List.cons_append]; rfl,
          hvalue, fun _ => ?_⟩
        exact ⟨y, w.writer.commitSeq, (w.writer.commit flush).db, w.changes, more, by simp⟩
  · have hlost := (h.quiet CatalogEvent.quiet_lost trivial).failStop
    rwa [List.append_assoc] at hlost

theorem finish (h : CatalogInv requests start asked w past) (hrun : w.lifecycle = .running) (n : ℕ)
    (commits : Bool) {k : ℕ} (hk : ∀ m < k, m < asked ∨ m = n) :
    CatalogInv requests start k (w.finish n commits).1 (past ++ (w.finish n commits).2) ∧
    (w.finish n commits).1.waiters = [] := by
  obtain ⟨hcommit, hwaiters, -⟩ := h.commit hrun .all commits
  rw [CatalogWriter.finish]
  dsimp only
  split_ifs with hstill
  · have hallowed : CatalogEvent.Allowed requests start (past ++ (w.commit .all commits).2)
        (.answered n (.close (.ok ()))) :=
      hcommit.not_failed hstill
    have hanswered := hcommit.answer hallowed hk
    rw [List.append_assoc] at hanswered
    refine ⟨{ hanswered with
      failed := iff_of_false ?_ nofun
      catalog := nofun
      dirty := nofun
      changes := nofun
      points := nofun }, hwaiters⟩
    exact hanswered.not_failed hstill
  · have hallowed : CatalogEvent.Allowed requests start (past ++ (w.commit .all commits).2)
        (.answered n (.close (.error .failed))) := trivial
    have hanswered := hcommit.answer hallowed hk
    rw [List.append_assoc] at hanswered
    exact ⟨hanswered, hwaiters⟩

/-! ### Rounds -/

theorem settle (h : CatalogInv requests start asked w past) (hrun : w.lifecycle = .running) {n : ℕ}
    (core : Core) (hcore : core.points = w.writer.core.points) (now : ℕ) (faults : List Bool)
    {f : CatalogProgram C T A} {«class» : Commit}
    (hrequest : requests[n]? = some (.transact «class» f)) {k : ℕ}
    (hk : ∀ m < k, m < asked ∨ m = n) :
    let txn : CatalogTxn C := ⟨w.writer.openTxn, core, now, false, w.catalogDirty, none, [], []⟩
    let r : Ran C T A := ⟨(txn.run faults f).2, (txn.run faults f).1⟩
    let w' : CatalogWriter C T A := { w with
      writer := { w.writer with core := r.txn.core, txn := some r.txn.tables }
      catalogDirty := r.txn.catalogDirty }
    CatalogInv requests start k (w'.settle n «class» r).1
      (past ++ .ran n r :: (w'.settle n «class» r).2.2) := by
  intro txn r w'
  obtain ⟨hfrom, hran⟩ := h.ran hrun n core hcore now faults hrequest
  -- A transaction that doesn't stand leaves no change to announce.
  have hnone : r.value = none → w.changes ++ r.changes = w.changes := by
    intro hvalue
    rw [Ran.changes, hvalue]
    exact List.append_nil _
  have hstop : CatalogInv requests start k w'.fail
      (past ++ .ran n r :: [.failed, .answered n (.transact (.error (.store .failed)))]) := by
    have hallowed : CatalogEvent.Allowed requests start (past ++ [.ran n r] ++ [.failed])
        (.answered n (.transact (.error (.store .failed)))) := trivial
    have hanswered := hran.fail.answer hallowed hk
    rw [List.append_assoc, List.append_assoc] at hanswered
    exact { hanswered with
      catalog := nofun
      dirty := nofun
      changes := nofun
      points := nofun }
  rw [CatalogWriter.settle]
  cases herror : r.txn.error.isSome with
  | true => exact hstop
  | false =>
      rw [if_neg Bool.false_ne_true]
      cases houtcome : r.outcome with
      | error refusal =>
          dsimp only
          split_ifs with hwrote
          · exact hstop
          · have hvalue : r.value = none := by
              rw [Ran.value, herror, houtcome]
              rfl
            have hallowed : CatalogEvent.Allowed requests start (past ++ [.ran n r])
                (.answered n (.transact (.error (.aborted refusal)))) :=
              ⟨past, r, [], rfl, houtcome, Bool.not_eq_true _ ▸ hwrote⟩
            rw [hnone hvalue] at hran
            have hanswered := hran.answer hallowed hk
            rwa [List.append_assoc] at hanswered
      | ok pair =>
          obtain ⟨value, answer⟩ := pair
          have hvalue : r.value = some (value, answer) := by
            rw [Ran.value, herror, houtcome]
            rfl
          have hchanges : r.changes = r.txn.changes := by
            rw [Ran.changes, hvalue]
            rfl
          rw [hchanges] at hran
          dsimp only
          split_ifs with hwrote hdirty
          · exact hran.wait rfl hvalue hk
          · exact hran.wait rfl hvalue hk
          · have hclean : w'.catalogDirty = past.foldl CatalogEvent.dirty false := by
              have hwritten := hfrom.wrote (Bool.not_eq_true _ ▸ hwrote)
              change r.txn.catalogDirty = _
              rw [hfrom.dirty, hwritten, ← h.dirty hrun]
              simp
            have hallowed : CatalogEvent.Allowed requests start (past ++ [.ran n r])
                (.answered n (.transact (.ok value))) := by
              refine ⟨hran.not_failed hrun, past, r, answer, [], rfl, hvalue, ?_⟩
              rintro (hwrote' | ⟨hanswer, hpast⟩)
              · exact absurd hwrote' hwrote
              · exact absurd ⟨hanswer, hclean.trans hpast⟩ hdirty
            have hanswered := hran.answer hallowed hk
            rwa [List.append_assoc] at hanswered

theorem handle (h : CatalogInv requests start asked w past) (hrun : w.lifecycle = .running) {n : ℕ}
    (round : Round C T A) {request : Request C T A} (hrequest : requests[n]? = some request)
    (hclose : request ≠ .close) {k : ℕ} (hk : ∀ m < k, m < asked ∨ m = n) :
    CatalogInv requests start k (w.handle n round request).1
      (past ++ (w.handle n round request).2.2) := by
  have hstop : ∀ reply : Reply T A, (∀ past : List (CatalogEvent C T A),
      CatalogEvent.Allowed requests start past (.answered n reply)) →
      CatalogInv requests start k w.fail (past ++ [.failed, .answered n reply]) := by
    intro reply hallowed
    have hanswered := h.fail.answer (hallowed (past ++ [.failed])) hk
    rwa [List.append_assoc] at hanswered
  cases request with
  | close => exact absurd rfl hclose
  | append system generation points =>
      rw [CatalogWriter.handle]
      cases round.begins with
      | false => exact hstop (.append (.error .failed)) fun _ => trivial
      | true =>
          rw [if_pos rfl]
          split
          next report writer happend =>
            split_ifs
            · exact hstop (.append (.error .failed)) fun _ => trivial
            · obtain ⟨core, txn, rfl, htxn, hpoints⟩ := Writer.append_frame happend
              have hallowed : CatalogEvent.Allowed requests start past
                (.answered n (.append (.ok report))) := h.not_failed hrun
              exact (h.withWriter core txn htxn hpoints).answer hallowed hk
          next e _ => exact hstop (.append (.error e)) fun _ => trivial
  | transact «class» f =>
      rw [CatalogWriter.handle]
      cases round.begins with
      | false => exact hstop (.transact (.error (.store .failed))) fun _ => trivial
      | true =>
          exact h.settle hrun (w.writer.core.hubNow round.systemNow).2 rfl
            (w.writer.core.hubNow round.systemNow).1
            round.faults hrequest hk

theorem sweepDue (h : CatalogInv requests start asked w past) (round : Round C T A) :
    CatalogInv requests start asked (w.sweepDue round) past ∧
    (w.sweepDue round).lifecycle = w.lifecycle := by
  rw [CatalogWriter.sweepDue]
  split
  next systemNow _ =>
    obtain ⟨-, hpoints, -⟩ := Core.sweep_frame (max w.writer.core.clock systemNow)
      (w.writer.core.hubNow systemNow).2
    have hprefix : w.writer.core.points <+: (w.writer.sweep systemNow).core.points :=
      hpoints ▸ List.prefix_rfl
    exact ⟨h.withWriter (w.writer.sweep systemNow).core w.writer.txn rfl hprefix, rfl⟩
  · exact ⟨h, rfl⟩

theorem endRound (h : CatalogInv requests start asked w past) (round : Round C T A) (force : Bool) :
    CatalogInv requests start asked (w.endRound round force).1
      (past ++ (w.endRound round force).2) ∧
      ((w.endRound round force).1.lifecycle ≠ .running →
        (w.endRound round force).1.waiters = []) := by
  obtain ⟨hswept, hlifecycle⟩ := h.sweepDue round
  rw [CatalogWriter.endRound]
  split_ifs with hrun
  · obtain ⟨hstop, hwaiters, -⟩ := h.failStop
    exact ⟨hstop, fun _ => hwaiters⟩
  · obtain ⟨hstop, hwaiters, -⟩ := hswept.failStop
    exact ⟨hstop, fun _ => hwaiters⟩
  · obtain ⟨hcommit, hwaiters, -⟩ := hswept.commit (hlifecycle.trans (not_not.mp hrun))
      (.rotation round.target) round.commits
    exact ⟨hcommit, fun _ => hwaiters⟩
  · rw [List.append_nil]
    exact ⟨hswept, fun hstopped => absurd (hlifecycle.trans (not_not.mp hrun)) hstopped⟩

theorem lifecycle_check {l : Lifecycle} :
    (l = .running ∧ l.check = .ok ()) ∨ ∃ e, l ≠ .running ∧ l.check = .error e := by
  cases l with
  | running => exact .inl ⟨rfl, rfl⟩
  | closed => exact .inr ⟨.closed, nofun, rfl⟩
  | failed => exact .inr ⟨.failed, nofun, rfl⟩

theorem withAsked (h : CatalogInv requests start asked w past) (n : ℕ) :
    CatalogInv requests start asked { w with asked := n } past :=
  ⟨h.allowed, h.file, h.failed, h.catalog, h.dirty, h.changes, h.waiters, h.points,
    h.bounded, h.answered⟩

/-- One round keeps the invariant; a store that stopped leaves no caller waiting. -/
theorem step (h : CatalogInv requests start w.asked w past)
    (hsettled : w.lifecycle ≠ .running → w.waiters = []) (round : Round C T A)
    (hrequests : ∀ request, round.request = some request → requests[w.asked]? = some request) :
    CatalogInv requests start (w.step round).1.asked (w.step round).1 (past ++ (w.step round).2) ∧
      ((w.step round).1.lifecycle ≠ .running → (w.step round).1.waiters = []) := by
  have hk : ∀ m < w.asked + 1, m < w.asked ∨ m = w.asked :=
    fun m hm => Nat.lt_succ_iff_lt_or_eq.mp hm
  rw [CatalogWriter.step]
  dsimp only
  rcases lifecycle_check (l := w.lifecycle) with ⟨hrun, hcheck⟩ | ⟨e, hstopped, hcheck⟩
  · rw [hcheck]
    cases hrequest : round.request with
    | none =>
        dsimp only
        rw [CatalogWriter.endRound_asked]
        exact (h.withAsked w.asked).endRound round false
    | some request =>
        have hrequest := hrequests request hrequest
        have hasked := h.withAsked (w.asked + 1)
        cases request with
        | close =>
            dsimp only
            rw [CatalogWriter.finish_asked]
            obtain ⟨hfinish, hwaiters⟩ := hasked.finish hrun w.asked round.commits hk
            exact ⟨hfinish, fun _ => hwaiters⟩
        | append system generation points =>
            dsimp only
            rw [CatalogWriter.endRound_asked, CatalogWriter.handle_asked, ← List.append_assoc]
            exact (hasked.handle hrun round hrequest nofun hk).endRound round _
        | transact «class» f =>
            dsimp only
            rw [CatalogWriter.endRound_asked, CatalogWriter.handle_asked, ← List.append_assoc]
            exact (hasked.handle hrun round hrequest nofun hk).endRound round _
  · rw [hcheck]
    cases round.request with
    | none =>
        rw [List.append_nil]
        exact ⟨h.withAsked w.asked, fun _ => hsettled hstopped⟩
    | some request =>
        have hallowed : CatalogEvent.Allowed requests start past
            (.answered w.asked (CatalogWriter.refused e request)) := by
          cases request <;> trivial
        exact ⟨(h.withAsked (w.asked + 1)).answer hallowed hk, fun _ => hsettled hstopped⟩

theorem run (h : CatalogInv requests start w.asked w past)
    (hsettled : w.lifecycle ≠ .running → w.waiters = []) (rounds : List (Round C T A))
    (hrequests : requests.drop w.asked = rounds.filterMap (·.request)) :
    CatalogInv requests start (w.run rounds).1.asked (w.run rounds).1 (past ++ (w.run rounds).2) ∧
      ((w.run rounds).1.lifecycle ≠ .running → (w.run rounds).1.waiters = []) := by
  induction rounds generalizing w past with
  | nil =>
      rw [CatalogWriter.run, List.append_nil]
      exact ⟨h, hsettled⟩
  | cons round rounds ih =>
      have hnext : (∀ request, round.request = some request → requests[w.asked]? = some request) ∧
          requests.drop (w.step round).1.asked = rounds.filterMap (·.request) := by
        rw [List.filterMap_cons] at hrequests
        rw [w.step_asked]
        cases hrequest : round.request with
        | none =>
            rw [hrequest] at hrequests
            exact ⟨nofun, hrequests⟩
        | some request =>
            rw [hrequest] at hrequests
            have hdrop := congrArg List.tail hrequests
            have hhead := congrArg List.head? hrequests
            rw [List.head?_drop] at hhead
            rw [List.tail_drop] at hdrop
            refine ⟨fun request' heq => ?_, hdrop⟩
            cases heq
            exact hhead
      obtain ⟨hstep, hsettled'⟩ := h.step hsettled round hnext.1
      have hrun := ih hstep hsettled' hnext.2
      rw [List.append_assoc] at hrun
      exact hrun

theorem new (requests : List (Request C T A)) (core : Core) (t : Tables) (commitSeq : ℕ) :
    CatalogInv requests t 0 (CatalogWriter.new (.new core t commitSeq) : CatalogWriter C T A) [] :=
  ⟨throughout_nil, rfl, iff_of_false List.not_mem_nil nofun, fun _ => rfl, fun _ => rfl,
    fun _ => rfl, nofun, fun _ x n r y hsplit => by simp at hsplit, ⟨Nat.zero_le _, le_rfl⟩, nofun⟩

end CatalogInv

/-- The run of a store just opened, over any requests and any answers of redb: each event is allowed
after the ones before it, the hook is called right after each commit, a lost commit or a transaction
that fails the store right before its failure, and the file holds what the commits left. Every
request is answered, or waits while the store runs; of the changes of the transactions that stand,
those not announced yet are the ones held for the next commit. -/
theorem CatalogWriter.run_allowed (core : Core) (t : Tables) (commitSeq : ℕ)
    (rounds : List (Round C T A)) :
    let (w, events) := (CatalogWriter.new (.new core t commitSeq)).run rounds
    Throughout (CatalogEvent.Allowed (rounds.filterMap (·.request)) t) events ∧
      Followed CatalogEvent.demands CatalogEvent.Fits events ∧
      w.writer.db = events.foldl CatalogEvent.file t ∧ (.failed ∈ events ↔ w.lifecycle = .failed) ∧
      (w.lifecycle = .running → events.flatMap CatalogEvent.heard ++ w.changes =
        events.flatMap CatalogEvent.changes) ∧
      (∀ n < w.asked, (∃ reply, .answered n reply ∈ events) ∨ ∃ value, (n, value) ∈ w.waiters) ∧
      (w.lifecycle ≠ .running → w.waiters = []) := by
  have hnew : CatalogInv (rounds.filterMap (·.request)) t 0
      (CatalogWriter.new (.new core t commitSeq)) [] :=
    CatalogInv.new _ core t commitSeq
  obtain ⟨h, hsettled⟩ := CatalogInv.run (w := CatalogWriter.new (.new core t commitSeq)) hnew
    (fun hstopped => absurd rfl hstopped) rounds List.drop_zero
  rw [List.nil_append] at h
  exact ⟨h.allowed, run_followed _ rounds, h.file, h.failed, h.changes, h.answered, hsettled⟩

/-- A write-free transaction that notifies, answered at once in an interval whose commit fails. -/
def noticeLost : List (Round ℕ Unit Empty) :=
  [{ request := some (.transact .batched (.notify 7 (.done () .atOnce)))
     systemNow := 0
     begins := true
     faults := []
     sweeps := none
     backlog := false
     timer := true
     commits := false
     target := 0 }]

/-- Its caller hears that it went well; the hook never hears of its change. -/
theorem noticeLost_unheard :
    let (w, events) :=
      (CatalogWriter.new (.new ⟨0, 0, .empty, .empty, [], ∅, [], ∅⟩ (.new 0) 0)).run noticeLost
    w.lifecycle = .failed ∧ .answered 0 (.transact (.ok ())) ∈ events ∧
      (∃ r, .ran 0 r ∈ events ∧ r.value = some ((), .atOnce) ∧ r.txn.changes = [7]) ∧
      events.flatMap CatalogEvent.heard = [] := by
  refine ⟨rfl, List.mem_cons_of_mem _ List.mem_cons_self, ⟨_, List.mem_cons_self, rfl, rfl⟩, rfl⟩

end MonitoringAgent.HubStore

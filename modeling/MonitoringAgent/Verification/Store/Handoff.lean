import MonitoringAgent.Verification.Store.Clock
import MonitoringAgent.Verification.Store.Reconcile

/-! # Histories of the store

The store taken through any sequence of appends, sweeps, commits, handoffs, retention steps, crashes
and opens, with the chunks it committed and those retention deleted on record. -/

namespace MonitoringAgent.HubStore

open MonitoringAgent.Library

namespace StoreOp

/-- The system clock's seconds fit in an `i64`. -/
def InTime : StoreOp → Prop
  | .append _ _ _ systemNow | .sweep systemNow | .beginPass systemNow _ => systemNow < 2 ^ 63
  | .reopen _ systemNow passNow _ => systemNow < 2 ^ 63 ∧ passNow < 2 ^ 63
  | .commit _ | .handle | .takeJob _ | .writeFile _ | .crash => True

/-- The points appended since the last commit, after one more step. -/
def bufferedAfter (buffered : ℕ) : StoreOp → ℕ
  | .append _ _ points _ => buffered + points.length
  | .commit _ => 0
  | _ => buffered

/-- Each step reads a system time in range, and no buffer ever holds 2⁶⁴ points. -/
def Admissible : ℕ → List StoreOp → Prop
  | _, [] => True
  | buffered, op :: ops =>
      op.InTime ∧ op.bufferedAfter buffered < 2 ^ 64 ∧ Admissible (op.bufferedAfter buffered) ops

end StoreOp

namespace Machine

/-- The committed tables. -/
def tables : Machine → Tables
  | .running s => s.writer.db
  | .stopped t _ => t

/-- The block files on disk. -/
def files : Machine → Files
  | .running s => s.files
  | .stopped _ files => files

/-- The store, while it runs. -/
def store? : Machine → Option Store
  | .running s => some s
  | .stopped _ _ => none

theorem store?_eq_some {m : Machine} {s : Store} : m.store? = some s ↔ m = .running s := by
  cases m with
  | running s' => exact ⟨fun h => congrArg running (Option.some.inj h), fun h => congrArg store? h⟩
  | stopped t files => simp [store?]

end Machine

/-- The store, the chunks it committed, and those its retention passes deleted. -/
structure StoreHistory where
  machine : Machine
  stored : List (SeriesId × Sealed)
  deleted : List (SeriesId × Sealed)

namespace StoreHistory

/-- A data directory before its first open. -/
def new (systemNow : ℕ) : StoreHistory := ⟨.new systemNow, [], []⟩

def step (h : StoreHistory) (op : StoreOp) : StoreHistory :=
  match h.machine, op with
  | .running s, .commit flush =>
      ⟨.running (s.commit flush), h.stored ++ s.writer.core.sealed,
        h.deleted ++ s.passDeletes flush⟩
  | m, op => { h with machine := m.step op }

def run (h : StoreHistory) (ops : List StoreOp) : StoreHistory := ops.foldl step h

theorem step_machine (h : StoreHistory) (op : StoreOp) :
    (h.step op).machine = h.machine.step op := by
  unfold step
  split
  next s flush hm => rw [hm]; rfl
  · rfl

theorem run_machine (h : StoreHistory) (ops : List StoreOp) :
    (h.run ops).machine = h.machine.run ops := by
  induction ops generalizing h with
  | nil => rfl
  | cons op ops ih =>
      change ((h.step op).run ops).machine = (h.machine.step op).run ops
      rw [ih, step_machine]

theorem run_append (h : StoreHistory) (ops more : List StoreOp) :
    h.run (ops ++ more) = (h.run ops).run more :=
  List.foldl_append

end StoreHistory

/-! ### Every history keeps the invariant -/

/-- A history's store against the ledger; at most `buffered` points wait for a commit. -/
structure StoreHistoryInv (h : StoreHistory) (l : Ledger) (buffered : ℕ) : Prop where
  stored : ∀ id, l.stored id = select h.stored id
  machine : match h.machine with
    | .running s => ∃ accepted, StoreInv s l accepted h.deleted buffered
    | .stopped t files => StoppedInv t files l h.deleted

namespace StoreHistoryInv

variable {h : StoreHistory} {l : Ledger} {buffered : ℕ}

theorem running (hi : StoreHistoryInv h l buffered) {s : Store} (hm : h.machine = .running s) :
    ∃ accepted, StoreInv s l accepted h.deleted buffered := by
  have hmachine := hi.machine
  rwa [hm] at hmachine

theorem stopped (hi : StoreHistoryInv h l buffered) {t : Tables} {files : Files}
    (hm : h.machine = .stopped t files) : StoppedInv t files l h.deleted := by
  have hmachine := hi.machine
  rwa [hm] at hmachine

theorem disk (hi : StoreHistoryInv h l buffered) :
    DiskInv h.machine.tables h.machine.files l h.deleted := by
  cases hm : h.machine with
  | running s =>
      obtain ⟨accepted, hs⟩ := hi.running hm
      exact hs.db
  | stopped t files => exact (hi.stopped hm).disk

end StoreHistoryInv

theorem StoreInv.stop {s : Store} {l : Ledger} {accepted : List (SeriesKey × RawPoint)}
    {deleted : List (SeriesId × Sealed)} {buffered : ℕ}
    (h : StoreInv s l accepted deleted buffered) : StoppedInv s.writer.db s.files l deleted :=
  ⟨h.writer.file, h.committed, lt_of_le_of_lt h.writer.clock h.clock, h.db⟩

namespace StoreHistoryInv

variable {h : StoreHistory} {l : Ledger} {buffered : ℕ}

/-- What a step leaves: the invariant, and every span drained before it. -/
def Next (h : StoreHistory) (l : Ledger) (h' : StoreHistory) (buffered' : ℕ) : Prop :=
  ∃ l', StoreHistoryInv h' l' buffered' ∧
    ∀ span, SpanDrained h.machine.tables l span → SpanDrained h'.machine.tables l' span

theorem keep (hi : StoreHistoryInv h l buffered) {s s' : Store} (hm : h.machine = .running s)
    {accepted : List (SeriesKey × RawPoint)} {buffered' : ℕ}
    (hs' : StoreInv s' l accepted h.deleted buffered') (hdb : s'.writer.db = s.writer.db) :
    Next h l { h with machine := .running s' } buffered' := by
  refine ⟨l, ⟨hi.stored, accepted, hs'⟩, fun span hspan => ?_⟩
  rw [hm] at hspan
  change SpanDrained s'.writer.db l span
  rw [hdb]
  exact hspan

theorem stop (hi : StoreHistoryInv h l buffered) {s : Store}
    (hm : h.machine = .running s) (buffered' : ℕ) :
    Next h l { h with machine := .stopped s.writer.db s.files } buffered' := by
  obtain ⟨accepted, hs⟩ := hi.running hm
  refine ⟨l, ⟨hi.stored, hs.stop⟩, fun span hspan => ?_⟩
  rw [hm] at hspan
  exact hspan

theorem step_commit (hi : StoreHistoryInv h l buffered) (hfits : buffered < 2 ^ 64) {s : Store}
    (hm : h.machine = .running s) (flush : Flush) :
    Next h l ⟨.running (s.commit flush), h.stored ++ s.writer.core.sealed,
      h.deleted ++ s.passDeletes flush⟩ 0 := by
  obtain ⟨accepted, hs⟩ := hi.running hm
  refine ⟨_, ⟨fun id => ?_, accepted, hs.commit hfits flush⟩, fun span hspan => ?_⟩
  · change l.stored id ++ select s.writer.core.sealed id = _
    rw [select_append, hi.stored id]
  · rw [hm] at hspan
    have hdb : (s.commit flush).writer.db = (s.writeInterval flush).tables := by
      rw [s.commit_writer flush]
    change SpanDrained (s.commit flush).writer.db _ span
    rw [hdb]
    exact hs.drained_commit flush hspan

theorem step_stopped (hi : StoreHistoryInv h l buffered) {t : Tables} {files : Files}
    (hm : h.machine = .stopped t files) {op : StoreOp} (htime : op.InTime) :
    Next h l { h with machine := (Machine.stopped t files).step op }
      (op.bufferedAfter buffered) := by
  have hstay : Next h l { h with machine := .stopped t files } (op.bufferedAfter buffered) := by
    refine ⟨l, ⟨hi.stored, hi.stopped hm⟩, fun span hspan => ?_⟩
    rwa [hm] at hspan
  cases op with
  | reopen policies systemNow passNow reading =>
      rw [Machine.step]
      split
      next s hopen =>
        obtain ⟨committed, hs⟩ := (hi.stopped hm).open htime.1 htime.2 hopen
        refine ⟨l, ⟨hi.stored, committed, { hs with points := hs.points.trans (Nat.zero_le _) }⟩,
          fun span hspan => ?_⟩
        rw [hm] at hspan
        obtain ⟨c, r, w, -, hr, hw, rfl⟩ := Store.open_eq_ok hopen
        obtain ⟨-, ⟨pendingUnlinks, htables⟩, -, -⟩ := reconcileAtOpen_eq_ok hr
        have hdb : w.db = r.tables := by
          rw [Writer.open] at hw
          obtain ⟨c', -, hw⟩ := except_bind_eq_ok.mp hw
          cases hw
          rfl
        exact hspan.congr (by simp [Machine.tables, hdb, htables])
          (by simp [Machine.tables, hdb, htables])
      · exact hstay
  | _ => exact hstay

theorem step (hi : StoreHistoryInv h l buffered) {op : StoreOp} (htime : op.InTime)
    (hfits : buffered < 2 ^ 64) : Next h l (h.step op) (op.bufferedAfter buffered) := by
  cases hm : h.machine with
  | stopped t files =>
      have hstep : h.step op = { h with machine := (Machine.stopped t files).step op } := by
        unfold StoreHistory.step
        rw [hm]
      rw [hstep]
      exact hi.step_stopped hm htime
  | running s =>
      obtain ⟨accepted, hs⟩ := hi.running hm
      have hstep : (∀ flush, op ≠ .commit flush) →
          h.step op = { h with machine := (Machine.running s).step op } := by
        intro hne
        unfold StoreHistory.step
        rw [hm]
        split
        next heq => cases heq; exact absurd rfl (hne _)
        · rfl
      cases op with
      | append system generation points systemNow =>
          rw [hstep (by simp)]
          obtain ⟨report, w, accepted', happend, hs'⟩ := hs.append system generation points htime
          have hnext : (Machine.running s).step (.append system generation points systemNow) =
              .running { s with writer := w } := by
            simp [Machine.step, happend, Except.toOption, Machine.ofOption]
          rw [hnext]
          exact hi.keep hm hs' (Writer.append_db happend)
      | sweep systemNow =>
          rw [hstep (by simp), Machine.step]
          cases hsweep : s.sweep systemNow with
          | error backlog => exact hi.stop hm _
          | ok s' => exact hi.keep hm (hs.sweep htime hsweep) (Store.sweep_clock hsweep).1
      | beginPass systemNow reading =>
          rw [hstep (by simp)]
          exact hi.keep hm (hs.beginPass htime reading) (s.beginPass_clock systemNow reading).1
      | commit flush =>
          have hcommit : h.step (.commit flush) = ⟨.running (s.commit flush),
              h.stored ++ s.writer.core.sealed, h.deleted ++ s.passDeletes flush⟩ := by
            unfold StoreHistory.step
            rw [hm]
          rw [hcommit]
          exact hi.step_commit hfits hm flush
      | handle =>
          rw [hstep (by simp), Machine.step]
          obtain ⟨s', hhandle, hs'⟩ := hs.handle
          rw [hhandle]
          exact hi.keep hm hs' (Store.handle_clock hhandle).1
      | takeJob fails =>
          rw [hstep (by simp)]
          exact hi.keep hm (hs.takeJob fails) (by rw [(s.takeJob_clock fails).1])
      | writeFile fails =>
          rw [hstep (by simp)]
          exact hi.keep hm (hs.writeFile fails) (by rw [(s.writeFile_clock fails).1])
      | crash =>
          rw [hstep (by simp)]
          exact hi.stop hm _
      | reopen policies systemNow passNow reading =>
          rw [hstep (by simp)]
          exact hi.keep hm hs rfl

theorem run (hi : StoreHistoryInv h l buffered) (hfits : buffered < 2 ^ 64) {ops : List StoreOp}
    (hops : StoreOp.Admissible buffered ops) :
    Next h l (h.run ops) (ops.foldl StoreOp.bufferedAfter buffered) ∧
      ops.foldl StoreOp.bufferedAfter buffered < 2 ^ 64 := by
  induction ops generalizing h l buffered with
  | nil => exact ⟨⟨l, hi, fun span hspan => hspan⟩, hfits⟩
  | cons op ops ih =>
      obtain ⟨htime, hfits', hops⟩ := hops
      obtain ⟨l', hi', hdrained⟩ := hi.step htime hfits
      obtain ⟨⟨l'', hi'', hdrained'⟩, hfits''⟩ := ih hi' hfits' hops
      exact ⟨⟨l'', hi'', fun span hspan => hdrained' span (hdrained span hspan)⟩, hfits''⟩

/-- A new directory holds nothing. -/
theorem new (systemNow : ℕ) :
    StoreHistoryInv (.new systemNow) ⟨fun _ => [], fun _ => [], fun _ => 0, fun _ => []⟩ 0 where
  stored id := rfl
  machine := by
    refine ⟨FileInv.new systemNow, ⟨[], rfl⟩, by norm_num [Tables.new], ?_, ?_, ?_, ?_⟩
    · intro id chunk hin
      cases hin
    · intro span record hrow
      cases hrow
    · intro id chunk hmem
      cases hmem
    · intro name hname
      cases hname

end StoreHistoryInv

theorem StoreOp.admissible_append {ops more : List StoreOp} {buffered : ℕ} :
    Admissible buffered (ops ++ more) ↔
      Admissible buffered ops ∧ Admissible (ops.foldl bufferedAfter buffered) more := by
  induction ops generalizing buffered with
  | nil => simp [Admissible]
  | cons op ops ih => simp only [List.cons_append, Admissible, ih, and_assoc, List.foldl_cons]

/-! ### Every chunk in one place -/

/-- Whatever the appends, sweeps, commits, handoffs, retention steps, crashes and opens before it:
when a durable file's row is about to join the commit, its span has no row and the span's chunks in
`chunks` are those of the file, the commit of the row does not fail, and no chunk of the span is
sealed ever after; and every chunk committed and not deleted by retention is in `chunks` or in the
file its row names, never both. -/
theorem StoreHistory.handoff_exact (systemNow : ℕ) (ops more : List StoreOp)
    (hops : StoreOp.Admissible 0 (ops ++ more)) :
    (∀ s name record generations replies, ((new systemNow).run ops).machine = .running s →
      s.replies = .handOff (.written name record generations) :: replies →
      (∃ held s', s.files.get? name = some held ∧
        spanChunks s.writer.openTxn.chunks name.spanKey = held ∧
        s.writer.openTxn.blocks.get? name.spanKey = none ∧ s.handle = some s') ∧
      ∀ s', ((new systemNow).run (ops ++ more)).machine = .running s' →
        ∀ id chunk, (id, chunk) ∈ s'.writer.core.sealed →
          (chunk.chunkKey id).spanKey ≠ name.spanKey) ∧
    ∀ id chunk, (id, chunk) ∈ ((new systemNow).run ops).stored →
      (id, chunk) ∉ ((new systemNow).run ops).deleted →
      Xor (InChunks ((new systemNow).run ops).machine.tables id chunk)
        (InFile ((new systemNow).run ops).machine.tables
          ((new systemNow).run ops).machine.files id chunk) := by
  obtain ⟨hops, hmore⟩ := StoreOp.admissible_append.mp hops
  obtain ⟨⟨l, hi, -⟩, hfits⟩ := (StoreHistoryInv.new systemNow).run (by norm_num) hops
  refine ⟨?_, ?_⟩
  · intro s name record generations replies hm hreplies
    obtain ⟨accepted, hs⟩ := hi.running hm
    have hreply : .handOff (.written name record generations) ∈ s.replies :=
      hreplies ▸ List.mem_cons_self
    obtain ⟨held, hfile, hwhole, hnone, -⟩ := hs.whole_span hreply
    obtain ⟨s', hhandle, -⟩ := hs.handle
    refine ⟨⟨held, s', hfile, hwhole.symm, hnone, hhandle⟩, ?_⟩
    intro s' hm' id chunk hmem
    have hflying := (hs.flying name (StoreInv.mem_handing_reply hreply rfl)).2
    obtain ⟨⟨l', hi', hdrained⟩, -⟩ := hi.run hfits hmore
    rw [run_append] at hm'
    obtain ⟨accepted', hs'⟩ := hi'.running hm'
    have hspan : SpanDrained ((new systemNow).run ops).machine.tables l name.spanKey := by
      rw [hm]
      exact hs.drained _ hflying
    have hspan' := hdrained _ hspan
    rw [hm'] at hspan'
    exact hspan'.not_sealed hs'.writer hs'.clock_lt hmem
  · intro id chunk hstored hkept
    rw [← mem_select, ← hi.stored id] at hstored
    rcases hi.disk.placed id chunk hstored with hin | hin | hgone
    · exact .inl ⟨hin, hi.disk.not_both hin⟩
    · exact .inr ⟨hin, fun hin' => hi.disk.not_both hin' hin⟩
    · exact absurd hgone hkept

/-- Two points an hour apart: the first one's raw span is closed, handed over and its file written.
-/
def handedOver : List StoreOp :=
  [.reopen (.new .default) 1000 1000 0, .append [1] 0 [⟨[2], .count, 7⟩] 1000,
    .append [1] 0 [⟨[2], .count, 8⟩] 4000, .commit .all, .sweep 4000, .commit .all, .takeJob false,
    .writeFile none]

theorem handedOver_admissible : StoreOp.Admissible 0 (handedOver ++ []) := by
  simp [StoreOp.Admissible, handedOver, StoreOp.InTime, StoreOp.bufferedAfter]

/-- The file written, when that is the block writer's one reply. -/
def Store.soleWritten (s : Store) : Option (BlockName × BlockRecord × Table ℕ ℕ) :=
  match s.replies with
  | [.handOff (.written name record generations)] => some (name, record, generations)
  | _ => none

theorem Store.soleWritten_eq_some {s : Store} {name : BlockName} {record : BlockRecord}
    {generations : Table ℕ ℕ} (h : s.soleWritten = some (name, record, generations)) :
    s.replies = [.handOff (.written name record generations)] := by
  rw [soleWritten] at h
  split at h
  next hreplies =>
    cases h
    exact hreplies
  · cases h

theorem StoreHistory.handoff_exact_handedOver :
    ∃ s name record generations, ((new 1000).run handedOver).machine = .running s ∧
      s.replies = [.handOff (.written name record generations)] ∧ record.chunkCount = 1 ∧
      s.files.get? name = some (spanChunks s.writer.openTxn.chunks name.spanKey) := by
  have hreply : ((new 1000).run handedOver).machine.store?.any (fun s =>
      s.soleWritten.any fun written => written.2.1.chunkCount == 1) = true := by decide +kernel
  obtain ⟨s, hstore, hreply⟩ := (Option.any_eq_true _ _).mp hreply
  obtain ⟨⟨name, record, generations⟩, hwritten, hcount⟩ := (Option.any_eq_true _ _).mp hreply
  have hm := Machine.store?_eq_some.mp hstore
  have hreplies := Store.soleWritten_eq_some hwritten
  obtain ⟨⟨held, s', hfile, hwhole, -⟩, -⟩ := (handoff_exact 1000 handedOver []
    handedOver_admissible).1 s name record generations [] hm hreplies
  exact ⟨s, name, record, generations, hm, hreplies, eq_of_beq hcount, by rw [hwhole, hfile]⟩

end MonitoringAgent.HubStore

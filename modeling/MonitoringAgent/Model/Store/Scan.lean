import MonitoringAgent.Library.Resume
import MonitoringAgent.Model.Store.Pass

/-! # The scans of `chunks`

As the table stores its keys: four integers, which may name no tier or no span of their tier. -/

namespace MonitoringAgent.HubStore

open MonitoringAgent.Library

/-- A key of `chunks` as it is stored. -/
structure StoredChunkKey where
  tier : Fin (2 ^ 8)
  span : Fin (2 ^ 64)
  id : Fin (2 ^ 32)
  seq : Fin (2 ^ 16)
  deriving Repr

namespace StoredChunkKey

/-- A stored key's fields in comparison order. -/
def fields (key : StoredChunkKey) : ℕ ×ₗ ℕ ×ₗ ℕ ×ₗ ℕ :=
  toLex (key.tier.val, toLex (key.span.val, toLex (key.id.val, key.seq.val)))

theorem fields_injective : Function.Injective fields := by
  rintro ⟨tier, span, id, seq⟩ ⟨tier', span', id', seq'⟩ h
  simp only [fields, EmbeddingLike.apply_eq_iff_eq, Prod.mk.injEq] at h
  rw [Fin.ext h.1, Fin.ext h.2.1, Fin.ext h.2.2.1, Fin.ext h.2.2.2]

instance : LinearOrder StoredChunkKey := LinearOrder.lift' fields fields_injective

/-- Where a scan starts. -/
def first : StoredChunkKey := ⟨0, 0, 0, 0⟩

/-- Where the seek for the next span goes on: past every key of this one. -/
def pastSpan (key : StoredChunkKey) : Option StoredChunkKey :=
  if hspan : key.span.val + 1 < 2 ^ 64 then some ⟨key.tier, ⟨key.span.val + 1, hspan⟩, 0, 0⟩
  else if htier : key.tier.val + 1 < 2 ^ 8 then some ⟨⟨key.tier.val + 1, htier⟩, 0, 0, 0⟩
  else none

end StoredChunkKey

abbrev StoredChunks := Table StoredChunkKey (List UInt8)

/-! ### Dead chunks, one batch at a time -/

/-- Where a bounded scan of `chunks` stopped. -/
inductive StoredScan where
  /-- The next key to visit. -/
  | more (next : StoredChunkKey)
  | done
  deriving DecidableEq, Repr

namespace StoredChunks

/-- The keys a step visits from `start` on, and what it read past them. -/
def visit (chunks : StoredChunks) (start : StoredChunkKey) (limit : ℕ) :
    List StoredChunkKey × List StoredChunkKey :=
  let visited := (chunks.keysFrom start).take (min (limit + 1) (2 ^ 64 - 1))
  visited.splitAt (min visited.length limit)

/-- Visits at most `limit` entries of `chunks` from `start` on and deletes those `fate` deletes. -/
def deleteDeadChunks (chunks : StoredChunks) (start : StoredChunkKey) (limit : ℕ)
    (fate : StoredChunkKey → ChunkFate) : StoredScan × StoredChunks :=
  let (batch, rest) := chunks.visit start limit
  let scan := match rest.head? with
    | some next => .more next
    | none => .done
  (scan, (batch.filter fun key => fate key = .delete).foldl Table.erase chunks)

end StoredChunks

/-! ### A scan resumed, one step per commit -/

namespace Resumed

variable (limit : ℕ) (fate : ℕ → StoredChunkKey → ChunkFate) (chunks : ℕ → StoredChunks)

/-- Where the scan is before each step, over the tables the steps find. -/
def scanAt : ℕ → StoredScan
  | 0 => .more .first
  | n + 1 =>
      match scanAt n with
      | .more start => ((chunks n).deleteDeadChunks start limit (fate n)).1
      | .done => .done

/-- The keys a step gives their fate. -/
def judged (n : ℕ) : List StoredChunkKey :=
  match scanAt limit fate chunks n with
  | .more start => ((chunks n).visit start limit).1
  | .done => []

/-- The table a step leaves to the commits after it. -/
def left (n : ℕ) : StoredChunks :=
  match scanAt limit fate chunks n with
  | .more start => ((chunks n).deleteDeadChunks start limit (fate n)).2
  | .done => chunks n

/-- Every key given its fate before step `n`, in order. -/
def judgedBefore (n : ℕ) : List StoredChunkKey := (List.range n).flatMap (judged limit fate chunks)

end Resumed

/-! ### The spans with chunks -/

def Tier.name : Tier → String
  | raw => "raw"
  | minute => "minute"
  | hour => "hour"

/-- Why a stored key names no span. -/
inductive KeyError where
  | tierCode (tier : ℕ)
  | offGrid (tier : Tier)
  deriving DecidableEq, Repr

def KeyError.text : KeyError → String
  | tierCode tier => s!"a tier code {tier}"
  | offGrid tier => s!"a {tier.name} span off its grid"

def spanKey (tier span : ℕ) : Except KeyError SpanKey :=
  match Tier.fromCode tier with
  | none => .error (.tierCode tier)
  | some tier =>
      match SpanStart.new tier span with
      | none => .error (.offGrid tier)
      | some span => .ok ⟨tier, span⟩

def StoredChunkKey.spanKey (key : StoredChunkKey) : Except KeyError SpanKey :=
  HubStore.spanKey key.tier.val key.span.val

namespace StoredChunkKey

variable {a b : StoredChunkKey}

theorem lt_iff : a < b ↔ a.fields < b.fields := Iff.rfl

theorem first_le (key : StoredChunkKey) : first ≤ key := by
  change first.fields ≤ key.fields
  simp only [fields, Prod.Lex.toLex_le_toLex]
  have hzero : first.tier.val = 0 ∧ first.span.val = 0 ∧ first.id.val = 0 ∧ first.seq.val = 0 :=
    ⟨rfl, rfl, rfl, rfl⟩
  omega

theorem lt_pastSpan {key next : StoredChunkKey} (h : key.pastSpan = some next) : key < next := by
  rw [pastSpan] at h
  split_ifs at h with hspan htier
  · obtain rfl := Option.some.inj h
    simp [lt_iff, fields, Prod.Lex.toLex_lt_toLex]
  · obtain rfl := Option.some.inj h
    simp [lt_iff, fields, Prod.Lex.toLex_lt_toLex]

end StoredChunkKey

namespace StoredChunks

/-- The spans of the keys from `start` on, one seek per span. -/
def spansFrom (chunks : StoredChunks) (start : StoredChunkKey) (spans : Finset SpanKey) :
    Except KeyError (Finset SpanKey) :=
  match _hfirst : (chunks.keysFrom start).head? with
  | none => .ok spans
  | some key =>
      match key.spanKey with
      | .error e => .error e
      | .ok span =>
          match _hnext : key.pastSpan with
          | none => .ok (insert span spans)
          | some next => spansFrom chunks next (insert span spans)
  termination_by (chunks.keysFrom start).length
  decreasing_by exact Table.length_keysFrom_lt _hfirst (StoredChunkKey.lt_pastSpan _hnext)

/-- The spans with chunks in `chunks`. -/
def spansInRedb (chunks : StoredChunks) : Except KeyError (Finset SpanKey) :=
  chunks.spansFrom .first ∅

end StoredChunks

end MonitoringAgent.HubStore

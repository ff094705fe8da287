import MonitoringAgent.Model.Codec.Bits

/-! # The points log's entry format

One entry holds the points of one group commit, until the tails of their series hold them. -/

namespace MonitoringAgent.HubStore

/-- A series' interned id: a `u32`, never reused. -/
abbrev SeriesId := ℕ

/-- One point as the log keeps it until its series' tail holds it. -/
structure LoggedPoint where
  id : SeriesId
  ts : ℕ
  value : ℤ
  deriving DecidableEq, Repr

/-- Bytes that are no log entry. -/
inductive BadLogEntry where
  | badLogEntry
  deriving DecidableEq, Repr

def logV1 : UInt8 := 1

/-- The earliest timestamp of a commit's points, zero when it has none. -/
def logBase (points : List LoggedPoint) : ℕ := (points.map LoggedPoint.ts).min?.getD 0

/-- A group commit's points: a version byte, the point count and the earliest timestamp,
then per point its series id, its timestamp after the earliest and its zigzagged value, each
a varint. -/
def encodeLogEntry (points : List LoggedPoint) : List UInt8 :=
  let base := logBase points
  let out := writeVarint (writeVarint [logV1] points.length) base
  points.foldl
    (fun out p => writeVarint (writeVarint (writeVarint out p.id) (p.ts - base)) (zigzag p.value))
    out

/-- The varint at `pos`; any damage makes the entry a bad one. -/
def nextVarint (bytes : List UInt8) (pos : ℕ) : Except BadLogEntry (ℕ × ℕ) :=
  match readVarint bytes pos with
  | .ok read => .ok read
  | .error _ => .error .badLogEntry

/-- The points of an entry from `pos` on, `left` of them. -/
def decodeLogPoints (bytes : List UInt8) (base : ℕ) :
    ℕ → ℕ → Except BadLogEntry (List LoggedPoint × ℕ)
  | 0, pos => .ok ([], pos)
  | left + 1, pos => do
      let (id, pos) ← nextVarint bytes pos
      if id ≥ 2 ^ 32 then .error .badLogEntry
      let (after, pos) ← nextVarint bytes pos
      if base + after ≥ 2 ^ 64 then .error .badLogEntry
      let (code, pos) ← nextVarint bytes pos
      let (points, pos) ← decodeLogPoints bytes base left pos
      .ok (⟨id, base + after, unzigzag code⟩ :: points, pos)

def decodeLogEntry (bytes : List UInt8) : Except BadLogEntry (List LoggedPoint) := do
  if bytes.head? ≠ some logV1 then .error .badLogEntry
  let (count, pos) ← nextVarint bytes 1
  let (base, pos) ← nextVarint bytes pos
  let (points, pos) ← decodeLogPoints bytes base count pos
  if pos ≠ bytes.length then .error .badLogEntry
  .ok points

end MonitoringAgent.HubStore

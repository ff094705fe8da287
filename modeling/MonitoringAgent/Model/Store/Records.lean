import MonitoringAgent.Model.Store.Pass

/-! # Series records that do not decode

A series' key read from its `series` record, for the code that decides on data by its owner. A
record that doesn't decode is not the same as no record: the first is unreadable, never unmapped. -/

namespace MonitoringAgent.HubStore

open MonitoringAgent.Library

/-- Why a series' record couldn't name it: it is there but doesn't decode. -/
inductive Unreadable where
  | record
  deriving DecidableEq, Repr

/-- `series` as it is read: none for bytes that don't decode. -/
abbrev Records := Table SeriesId (Option SeriesRecord)

/-- The key `series` records for `id`: none only when it holds no record. -/
def recordedKey (records : Records) (id : SeriesId) : Except Unreadable (Option SeriesKey) :=
  match records.get? id with
  | none => .ok none
  | some none => .error .record
  | some (some record) => .ok (some record.key)

/-- Whose a series is: from the head, else from its record. -/
def readOwner (owners : Table SeriesId SeriesKey) (records : Records) (id : SeriesId) :
    Except Unreadable (Option Owner) :=
  match owners.get? id with
  | some key => .ok (some key.owner)
  | none => (recordedKey records id).map fun key => key.map SeriesKey.owner

/-- What the scan does to one chunk: a chunk whose owner can't be read is kept. -/
def readFate (owners : Table SeriesId SeriesKey) (records : Records)
    (world : World) (key : ChunkKey) : ChunkFate :=
  match readOwner owners records key.id with
  | .ok owner => chunkFate key owner world
  | .error _ => .keep

/-- Each generation the files hold, to its system: from the head, then from the records for a
generation the head doesn't name. -/
def readSystems (t : Tables) (owners : Table SeriesId SeriesKey) (records : Records) :
    Except Unreadable (Table ℕ (List UInt8)) :=
  let systems : Table ℕ (List UInt8) :=
    owners.entries.foldl (fun m e => m.insert e.2.generation e.2.system) .empty
  let unnamed := t.blockGenerations.entries.any fun e => !systems.contains (ofLex e.1).1
  if unnamed then
    records.entries.foldlM (fun m e =>
      match e.2 with
      | none => .error .record
      | some record =>
          .ok (if m.contains record.key.generation then m
            else m.insert record.key.generation record.key.system)) systems
  else .ok systems

/-- The files to retire: none when a holder can't be named, for it might be live. -/
def readRetirements (t : Tables) (owners : Table SeriesId SeriesKey)
    (records : Records) (world : World) : List Retirement :=
  match readSystems t owners records with
  | .error _ => []
  | .ok systems =>
      (readInventory t).entries.filterMap fun (span, record) =>
        if retires t systems world span then
          some ⟨⟨span.tier, span.span, record.rewrite⟩, holdersOf t span⟩
        else none

end MonitoringAgent.HubStore

import Mathlib.Data.String.Basic
import Mathlib.Tactic

/-! # The fleet registry

One row per system, and the rules the ingestion paths apply to what an agent reports of its
system. -/

namespace MonitoringAgent.Hub

/-- The identifier an agent presents, and the system's primary key. -/
abbrev SystemId := String

/-- The longest system id, in bytes. -/
def maxSystemIdBytes : ℕ := 255

/-- Why a value isn't a system id. -/
inductive SystemIdError where
  | empty
  | tooLong
  /-- `.` or `..`, which the dashboard's URLs would resolve away. -/
  | dotSegment
  deriving DecidableEq, Repr

/-- A value as a system id, unchanged. -/
def SystemId.tryFrom (value : String) : Except SystemIdError SystemId :=
  if value = "" then .error .empty
  else if value = "." ∨ value = ".." then .error .dotSegment
  else if maxSystemIdBytes < value.utf8ByteSize then .error .tooLong
  else .ok value

/-- An `f32`, by its bits. -/
abbrev Value := BitVec 32

/-! ### Times -/

/-- Unix seconds that the database can hold: at most `i64::MAX`. -/
structure SnapshotTime where
  seconds : ℕ
  inRange : seconds < 2 ^ 63
  deriving DecidableEq, Repr

namespace SnapshotTime

/-- `try_from` a `u64`. -/
def ofSecs (secs : ℕ) : Option SnapshotTime :=
  if h : secs < 2 ^ 63 then some ⟨secs, h⟩ else none

/-- The time `retentionSecs` before this one, never before 0. -/
def cutoff (time : SnapshotTime) (retentionSecs : ℕ) : SnapshotTime where
  seconds := time.seconds - retentionSecs
  inRange := lt_of_le_of_lt (Nat.sub_le _ _) time.inRange

end SnapshotTime

/-- A moment of the monotonic clock, in nanoseconds. -/
abbrev Instant := ℕ

/-! ### Rows -/

inductive SystemStatus where
  | online
  | offline
  | unknown
  deriving DecidableEq, Repr

/-- What a system was last seen as: the column's text, by where it came from. -/
inductive LastSeen where
  /-- Push: the frame's uptime display. -/
  | uptime (display : String)
  /-- Poll: the poll's ISO time. -/
  | polledAt (time : String)
  /-- Mail: the newest report's creation time. -/
  | reportedAt (time : SnapshotTime)
  /-- Nothing yet, or what a push disconnect leaves. -/
  | blank
  deriving DecidableEq, Repr

/-- The url push registration writes, which makes a system a push system. -/
def pushUrl : String := "push://"

/-- The url mail registration writes, which makes a system a mail system. -/
def mailUrl : String := "mail://"

/-- Where a system's snapshots come from. -/
inductive SystemSource where
  | push
  | poll
  | mail
  deriving DecidableEq, Repr

def SystemSource.of (url : String) : SystemSource :=
  if url = pushUrl then .push else if url = mailUrl then .mail else .poll

/-- How much memory a system may use: the display and the bytes, always together. -/
structure MemoryCapacity where
  display : String
  bytes : ℕ
  deriving DecidableEq, Repr

/-- A system's row. -/
structure SystemInfo where
  name : String
  url : String
  token : String
  status : SystemStatus
  lastSeen : LastSeen
  lastError : Option String
  os : Option String
  hostname : Option String
  kernel : Option String
  cpuModel : Option String
  cpuCores : Option ℕ
  totalMemoryDisplay : Option String
  totalMemoryBytes : Option ℕ
  pollIntervalSecs : ℕ
  enabled : Bool
  deriving DecidableEq, Repr

/-- The row a newly registered id gets, with no report stored yet. -/
def SystemInfo.registered (name url : String) : SystemInfo where
  name := name
  url := url
  token := ""
  status := .unknown
  lastSeen := .blank
  lastError := none
  os := none
  hostname := none
  kernel := none
  cpuModel := none
  cpuCores := none
  totalMemoryDisplay := none
  totalMemoryBytes := none
  pollIntervalSecs := 10
  enabled := true

/-! ### Rules -/

/-- One write of a system's status; with no `lastSeen` the column keeps its value. -/
structure StatusUpdate where
  status : SystemStatus
  lastSeen : Option LastSeen
  error : Option String
  deriving DecidableEq, Repr

/-- A stored snapshot: online, seen as given, no error. -/
def StatusUpdate.afterSnapshot (lastSeen : Option LastSeen) : StatusUpdate :=
  ⟨.online, lastSeen, none⟩

def maxDisplayBytes : ℕ := 64

/-- `char::is_control`: the general category Cc. -/
def isControl (c : Char) : Bool := c.val < 0x20 || (0x7f ≤ c.val && c.val ≤ 0x9f)

/-- The display rule: 1 to `maxDisplayBytes` bytes, no control character. -/
def followsDisplayRule (text : String) : Bool :=
  1 ≤ text.utf8ByteSize ∧ text.utf8ByteSize ≤ maxDisplayBytes ∧ ¬text.toList.any isControl

namespace MemoryCapacity

/-- The capacity an agent reported, when it reported both halves within bounds. -/
def reported (display : Option String) (bytes : Option ℕ) : Option MemoryCapacity := do
  let display ← display.filter followsDisplayRule
  let bytes ← bytes.filter (· < 2 ^ 63)
  some ⟨display, bytes⟩

/-- The capacity a row holds, when it holds both halves within `reported`'s bounds. -/
def stored (system : SystemInfo) : Option MemoryCapacity :=
  reported system.totalMemoryDisplay system.totalMemoryBytes

end MemoryCapacity

/-- The capacity to store after a report: the reported one when it differs. -/
def memoryCapacityRefresh (stored reported : Option MemoryCapacity) : Option MemoryCapacity :=
  reported.filter fun capacity => stored ≠ some capacity

/-- Whether a system's info is still to be filled: while its hostname or its OS is missing. -/
def needsSystemInfo (system : SystemInfo) : Bool := system.hostname.isNone || system.os.isNone

def defaultNameMaxBytes : ℕ := 8

/-- The longest run of leading characters within `room` bytes. -/
def takeBytes : ℕ → List Char → List Char
  | _, [] => []
  | room, c :: cs => if c.utf8Size ≤ room then c :: takeBytes (room - c.utf8Size) cs else []

/-- The name a new system gets: its id's longest prefix of at most 8 bytes. -/
def SystemId.defaultName (id : SystemId) : String :=
  String.ofList (takeBytes defaultNameMaxBytes id.toList)

def SystemId.isDefaultName (id : SystemId) (name : String) : Bool := name = SystemId.defaultName id

end MonitoringAgent.Hub

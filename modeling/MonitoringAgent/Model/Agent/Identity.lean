import Mathlib.Logic.Function.Basic
import MonitoringAgent.Model.Uuid

/-! # The push system id

Resolved once per process, before the runtime exists: from the id file when it exists, else from the
machine ids, the host name or a new UUID, which a missing id file is then written with. Agents that
share the file race; every access to it is one step. -/

namespace MonitoringAgent.Agent

open MonitoringAgent.Library

/-! ### Ids -/

/-- The longest id the hub accepts, in bytes. -/
def maxAgentIdBytes : ℕ := 255

/-- A push system id the hub will accept. -/
structure AgentId where
  text : String
  trimmed : trimAscii text = text
  nonempty : text ≠ ""
  noDots : ¬ (text = "." ∨ text = "..")
  short : text.utf8ByteSize ≤ maxAgentIdBytes

/-- The rule an id broke. -/
inductive AgentIdRule where
  | empty
  | tooLong
  | dotSegment
  deriving DecidableEq, Repr

/-- A value as an id, after trimming ASCII whitespace. -/
def AgentId.tryFrom (value : String) : Except AgentIdRule AgentId :=
  let id := trimAscii value
  if hempty : id = "" then .error .empty
  else if hdots : id = "." ∨ id = ".." then .error .dotSegment
  else if hlong : maxAgentIdBytes < id.utf8ByteSize then .error .tooLong
  else .ok ⟨id, trimAscii_trimAscii value, hempty, hdots, Nat.le_of_not_lt hlong⟩

/-- Where a resolved id came from, when it didn't come from the id file. -/
inductive IdSource where
  | machineId
  | dbusMachineId
  | hostName
  | random
  deriving DecidableEq, Repr

/-- How the id was resolved. -/
inductive Resolution where
  /-- Read from the id file. -/
  | fromFile
  /-- Resolved from a source and written to the id file, which keeps it from now on. -/
  | written (source : IdSource)
  deriving DecidableEq, Repr

structure ResolvedId where
  id : AgentId
  resolution : Resolution

/-- Why the id file refused startup. -/
inductive AgentIdError where
  | notUtf8
  | invalid (rule : AgentIdRule)
  /-- The file exists but couldn't be read. -/
  | unreadable
  /-- The file was missing and couldn't be written. -/
  | unwritable
  /-- The file couldn't be linked into place, the way a filesystem without hard links refuses. -/
  | noHardLinks

def parseIdFile (bytes : List UInt8) : Except AgentIdError AgentId :=
  match fromUtf8 bytes with
  | none => .error .notUtf8
  | some text => (AgentId.tryFrom text).mapError .invalid

/-- What the sources after the id file hold: none for a file that couldn't be read. -/
structure IdSources where
  machineId : Option (List UInt8)
  dbusMachineId : Option (List UInt8)
  /-- The host name's text, its bytes read lossily. -/
  hostName : Option String
  /-- The UUID drawn when no source is usable. -/
  random : Uuid

/-- The id a random UUID is. -/
def AgentId.ofUuid (u : Uuid) : AgentId where
  text := u.hyphenated
  trimmed := u.trimAscii_hyphenated
  nonempty h := by simpa [h] using u.utf8ByteSize_hyphenated
  noDots := by
    rintro (h | h)
    · have := u.utf8ByteSize_hyphenated
      rw [h] at this
      revert this
      decide
    · have := u.utf8ByteSize_hyphenated
      rw [h] at this
      revert this
      decide
  short := by
    rw [u.utf8ByteSize_hyphenated]
    decide

/-- The first usable source after the id file, else a new random UUID. -/
def fromSources (sources : IdSources) : AgentId × IdSource :=
  let usable (text : Option String) : Option AgentId :=
    text.bind fun text => (AgentId.tryFrom text).toOption
  match usable (sources.machineId.bind fromUtf8) with
  | some id => (id, .machineId)
  | none => match usable (sources.dbusMachineId.bind fromUtf8) with
      | some id => (id, .dbusMachineId)
      | none => match usable sources.hostName with
          | some id => (id, .hostName)
          | none => (.ofUuid sources.random, .random)

/-- What an id file holds: the id, then a newline. -/
def AgentId.content (id : AgentId) : List UInt8 := utf8 (id.text ++ "\n")

/-! ### The directory -/

/-- The names the agents use: the id file, and a temporary per UUID. -/
inductive FileName where
  | idFile
  | temp (uuid : Uuid)
  deriving DecidableEq, Repr

/-- A directory: names of files, and what each file holds. A file with two links has two names. -/
structure Directory where
  entries : FileName → Option ℕ
  data : ℕ → List UInt8
  /-- The next file created. -/
  next : ℕ

namespace Directory

/-- What the file of that name holds. -/
def contents (d : Directory) (name : FileName) : Option (List UInt8) := (d.entries name).map d.data

/-- A new empty file under a name nothing has. -/
def create (d : Directory) (name : FileName) : Directory where
  entries := Function.update d.entries name (some d.next)
  data := Function.update d.data d.next []
  next := d.next + 1

/-- More bytes at the end of an open file. -/
def append (d : Directory) (file : ℕ) (bytes : List UInt8) : Directory :=
  { d with data := Function.update d.data file (d.data file ++ bytes) }

/-- A second name for a file. -/
def link (d : Directory) (name : FileName) (file : ℕ) : Directory :=
  { d with entries := Function.update d.entries name (some file) }

def remove (d : Directory) (name : FileName) : Directory :=
  { d with entries := Function.update d.entries name none }

end Directory

/-! ### One agent -/

/-- Why the new id file isn't in place. -/
inductive LinkError where
  /-- Another process linked the file first. -/
  | taken
  | failed (error : AgentIdError)

/-- Where an agent is in `resolve_push_id`: before each access to the directory. -/
inductive Phase where
  /-- Before the first read of the id file. -/
  | reading
  | creating (id : AgentId) (source : IdSource)
  /-- The temporary is open; `rest` is still to be written. -/
  | writing (id : AgentId) (source : IdSource) (file : ℕ) (rest : List UInt8)
  | syncing (id : AgentId) (source : IdSource) (file : ℕ)
  | linking (id : AgentId) (source : IdSource) (file : ℕ)
  /-- Before the temporary is removed; `linked` says whether the id file is in place. -/
  | removing (linked : Except LinkError ResolvedId)
  /-- Before the read after losing the link. -/
  | rereading
  | done (result : Except AgentIdError ResolvedId)
  | crashed

/-- How an access may fail, beyond what the directory says. -/
inductive Fault where
  | io
  /-- `EPERM` or an unsupported operation. -/
  | unsupported
  deriving DecidableEq, Repr

/-- What a failed `hard_link` of the new id file means. -/
def linkFailure : Fault → AgentIdError
  | .io => .unwritable
  | .unsupported => .noHardLinks

/-- An agent: its sources, and the UUID in its temporary's name. -/
structure Starter where
  sources : IdSources
  temp : Uuid

namespace Phase

/-- The first read: the id in the file, or the sources when there is no file. -/
def read (a : Starter) (contents : Option (List UInt8)) : Phase :=
  match contents with
  | none =>
      let (id, source) := fromSources a.sources
      .creating id source
  | some bytes => .done ((parseIdFile bytes).map (⟨·, .fromFile⟩))

/-- The read after losing the link: any failure, a missing file included, is final. -/
def readFinal (contents : Option (List UInt8)) : Phase :=
  match contents with
  | none => .done (.error .unreadable)
  | some bytes => .done ((parseIdFile bytes).map (⟨·, .fromFile⟩))

/-- One access of the agent to the directory, failing as `fault` says; a write gets at most `count +
1` bytes through. The removal of the temporary, whose result the source drops, doesn't fail. -/
def step (a : Starter) (fault : Option Fault) (count : ℕ) (d : Directory) :
    Phase → Phase × Directory
  | .reading =>
      match fault with
      | some _ => (.done (.error .unreadable), d)
      | none => (read a (d.contents .idFile), d)
  | .creating id source =>
      match fault, d.entries (.temp a.temp) with
      | none, none => (.writing id source d.next id.content, d.create (.temp a.temp))
      | _, _ => (.removing (.error (.failed .unwritable)), d)
  | .writing id source file rest =>
      match fault, rest with
      | some _, _ => (.removing (.error (.failed .unwritable)), d)
      | none, [] => (.syncing id source file, d)
      | none, rest =>
          (.writing id source file (rest.drop (count + 1)), d.append file (rest.take (count + 1)))
  | .syncing id source file =>
      match fault with
      | some _ => (.removing (.error (.failed .unwritable)), d)
      | none => (.linking id source file, d)
  | .linking id source _ =>
      match fault, d.entries (.temp a.temp), d.entries .idFile with
      | some fault, _, _ => (.removing (.error (.failed (linkFailure fault))), d)
      | none, none, _ => (.removing (.error (.failed .unwritable)), d)
      | none, some _, some _ => (.removing (.error .taken), d)
      | none, some file, none => (.removing (.ok ⟨id, .written source⟩), d.link .idFile file)
  | .removing linked =>
      (match linked with
        | .ok resolved => .done (.ok resolved)
        | .error .taken => .rereading
        | .error (.failed error) => .done (.error error), d.remove (.temp a.temp))
  | .rereading =>
      match fault with
      | some _ => (.done (.error .unreadable), d)
      | none => (readFinal (d.contents .idFile), d)
  | .done result => (.done result, d)
  | .crashed => (.crashed, d)

end Phase

/-! ### Many agents -/

/-- Every agent's phase, and the directory they share. -/
structure Race (ι : Type) where
  phases : ι → Phase
  directory : Directory

/-- What happens next: an agent takes one step, or dies. -/
inductive RaceEvent (ι : Type) where
  | step (agent : ι) (fault : Option Fault) (count : ℕ)
  | crash (agent : ι)

namespace Race

variable {ι : Type} [DecidableEq ι]

/-- The agents before their first step, in a directory with no id file or with one an agent left. -/
def start (stored : Option AgentId) : Race ι where
  phases _ := .reading
  directory :=
    { entries := fun name => match name with
        | .idFile => stored.map fun _ => 0
        | .temp _ => none
      data := fun _ => (stored.map AgentId.content).getD []
      next := 1 }

def step (agents : ι → Starter) (s : Race ι) : RaceEvent ι → Race ι
  | .step agent fault count =>
      let (phase, directory) := (s.phases agent).step (agents agent) fault count s.directory
      ⟨Function.update s.phases agent phase, directory⟩
  | .crash agent =>
      match s.phases agent with
      | .done _ => s
      | _ => { s with phases := Function.update s.phases agent .crashed }

def run (agents : ι → Starter) (s : Race ι) (events : List (RaceEvent ι)) : Race ι :=
  events.foldl (step agents) s

end Race

end MonitoringAgent.Agent

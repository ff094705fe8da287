import MonitoringAgent.Library.Checked
import MonitoringAgent.Library.Lines
import MonitoringAgent.Library.Text
import MonitoringAgent.Library.Words

/-! # The monitored cgroup

Where the agent's cgroup v2 hierarchy is, read from `/proc/self/mountinfo`, and which of its cgroups
holds the workload. Texts are lists of characters, and a slice of one is between byte offsets. -/

namespace MonitoringAgent.Agent.Cgroup

open MonitoringAgent.Library

/-! ### Slices -/

/-- The text before and from a byte offset, none inside a character or past the end. -/
def splitBytes : ℕ → List Char → Option (List Char × List Char)
  | 0, text => some ([], text)
  | _ + 1, [] => none
  | n + 1, c :: text =>
    if c.utf8Size ≤ n + 1 then (splitBytes (n + 1 - c.utf8Size) text).map fun parts =>
      (c :: parts.1, parts.2) else none

def byteLength (text : List Char) : ℕ := (text.map Char.utf8Size).sum

/-- `text.get(start..stop)`. -/
def getBytes (text : List Char) (start stop : ℕ) : Option (List Char) :=
  (splitBytes start text).bind fun parts => (splitBytes (stop - start) parts.2).map Prod.fst

theorem splitBytes_shorter {n : ℕ} {text : List Char} {parts : List Char × List Char}
    (h : splitBytes (n + 1) text = some parts) : parts.2.length < text.length := by
  induction text generalizing n parts with
  | nil => cases h
  | cons c text ih =>
      rw [splitBytes] at h
      split_ifs at h with hc
      obtain ⟨rest, hrest, rfl⟩ := Option.map_eq_some_iff.mp h
      cases hn : n + 1 - c.utf8Size with
      | zero =>
          rw [hn, splitBytes] at hrest
          obtain rfl := Option.some.inj hrest
          exact Nat.lt_succ_self _
      | succ m =>
          rw [hn] at hrest
          exact (ih hrest).trans (Nat.lt_succ_self _)

/-! ### Octal escapes -/

def octalDigitOf (c : Char) :
    Option ℕ := if '0' ≤ c ∧ c ≤ '7' then some (c.toNat - '0'.toNat) else none

/-- `u8::from_str_radix` in base 8: digits after an optional plus sign. -/
def fromStrRadix8 (text : List Char) : Option ℕ :=
  let digits := match text with
    | '+' :: rest => rest
    | text => text
  if digits = [] then none
  else do
    let values ← digits.mapM octalDigitOf
    let n := values.foldl (fun n digit => 8 * n + digit) 0
    if n < 2 ^ 8 then some n else none

/-- The loop of `unescape_mountinfo`. -/
def unescapeMountinfo (rest : List Char) : Except (Stop Empty) (List Char) :=
  if '\\' ∈ rest then
    let before := rest.takeWhile (· ≠ '\\')
    let start := byteLength before
    match (getBytes rest (start + 1) (start + 4)).bind fromStrRadix8 with
    | some byte =>
      match _h : splitBytes (start + 4) rest with
      | some parts => (unescapeMountinfo parts.2).map (before ++ Char.ofNat byte :: ·)
      | none => .error .panic
    | none =>
      match _h : splitBytes (start + 1) rest with
      | some parts => (unescapeMountinfo parts.2).map (before ++ '\\' :: ·)
      | none => .error .panic
  else .ok rest
termination_by rest.length
decreasing_by
  · exact splitBytes_shorter _h
  · exact splitBytes_shorter _h

/-! ### Paths -/

/-- A path by its components. -/
structure Path where
  absolute : Bool
  parts : List (List Char)
  deriving DecidableEq, Repr

namespace Path

/-- The components of a text: what stands between slashes, without `.`. -/
def ofText (text : List Char) : Path :=
  ⟨text.head? = some '/', (words (· = '/') text).filter (· ≠ ['.'])⟩

/-- `base.join(p)`: an absolute path takes the base's place. -/
def join (base p : Path) : Path := if p.absolute then p else ⟨base.absolute, base.parts ++ p.parts⟩

/-- Without the root directory it starts at. -/
def stripRoot (p : Path) : Path := ⟨false, p.parts⟩

end Path

instance lawfulBEqText : LawfulBEq (List Char) := inferInstance

/-- A cgroup's path in the agent's cgroup namespace: its segments under the namespace root. None is
empty, `.` or `..`, or holds a slash. -/
structure CgroupPath where
  segments : List (List Char)
  named : ∀ segment ∈ segments, segment ≠ [] ∧ segment ≠ ['.'] ∧
    segment ≠ ['.', '.'] ∧ '/' ∉ segment

instance : DecidableEq CgroupPath := fun a b =>
  decidable_of_iff (a.segments = b.segments) ⟨fun h => by
    cases a; cases b; simpa using h, fun h => by rw [h]⟩

namespace CgroupPath

/-- The namespace root. -/
def root : CgroupPath := ⟨[], fun _ h => absurd h List.not_mem_nil⟩

/-- The path as `/proc/<pid>/cgroup` or mountinfo writes it; none when it isn't absolute or climbs.
-/
def parse (path : List Char) : Option CgroupPath :=
  match path with
  | '/' :: relative =>
    if h : ∀ segment ∈ words (· = '/') relative, segment ≠ ['.'] ∧ segment ≠ ['.', '.'] then
      some ⟨words (· = '/') relative, fun segment hsegment =>
        have hword := mem_words hsegment
        ⟨hword.1, (h segment hsegment).1, (h segment hsegment).2, fun hslash => by
          simpa using (hword.2 '/' hslash).1⟩⟩
    else none
  | _ => none

/-- This path relative to `start`, when that is this path or one of its ancestors. -/
def stripPrefix (p start : CgroupPath) : Option CgroupPath :=
  if start.segments <+: p.segments then
    some ⟨p.segments.drop start.segments.length, fun segment h => p.named segment
      (List.mem_of_mem_drop h)⟩
  else none

/-- Whether `other` is this cgroup or one under it. -/
def contains (p other : CgroupPath) : Bool := p.segments.isPrefixOf other.segments

def maxLevels : ℕ := 32

/-- This path and each of its ancestors, deepest first, at most `maxLevels` of them. -/
def ancestry (p : CgroupPath) : List CgroupPath :=
  ((List.range (p.segments.length + 1)).reverse.take maxLevels).map fun depth =>
    ⟨p.segments.take depth, fun segment h => p.named segment (List.mem_of_mem_take h)⟩

/-- This path as the kernel writes it. -/
def display (p : CgroupPath) : List Char := '/' :: ['/'].intercalate p.segments

/-- This path relative to a directory: each segment joined to what is before it. -/
def relative (p : CgroupPath) : Path := (p.segments.map Path.ofText).foldl Path.join ⟨false, []⟩

end CgroupPath

/-! ### The mount -/

/-- The cgroup2 filesystem as the agent's mount namespace shows it: where it is mounted, and the
cgroup shown there. -/
structure Cgroup2Mount where
  point : List Char
  root : CgroupPath
  deriving DecidableEq

/-- A mountinfo line's mount, when its filesystem type is `cgroup2`. -/
def cgroup2MountLine (line : List Char) : Except (Stop Empty) (Option Cgroup2Mount) :=
  match line.dropInfix? " - ".toList with
  | none => .ok none
  | some (mount, filesystem) =>
    if (words isWhitespace filesystem).head? ≠ some "cgroup2".toList then .ok none
    else
      match (words isWhitespace mount).drop 3 with
      | root :: point :: _ => do
        let point ← unescapeMountinfo point
        if (Path.ofText point).absolute ∧ ['.', '.'] ∉ (Path.ofText point).parts then do
          let root ← unescapeMountinfo root
          return (CgroupPath.parse root).map fun root => ⟨point, root⟩
        else return none
      | _ => .ok none

/-- The first line's mount that there is one of. -/
def findMount : List (List Char) → Except (Stop Empty) (Option Cgroup2Mount)
  | [] => .ok none
  | line :: lines => do
    match ← cgroup2MountLine line with
    | some mount => return some mount
    | none => findMount lines

/-- The first cgroup2 mount in `/proc/self/mountinfo`. -/
def parseCgroup2Mount (mountinfo : List Char) : Except (Stop Empty) (Option Cgroup2Mount) :=
  findMount (lines mountinfo)

/-! ### The monitored cgroup -/

/-- Why the agent has no cgroup v2 hierarchy to read. -/
inductive CgroupUnreadable where
  | v1Only
  | noCgroupMount
  | selfCgroupMissing
  | outsideMountRoot
  deriving DecidableEq, Repr

/-- What the agent found out about its cgroup at startup. -/
structure CgroupEvidence where
  selfCgroup : Except CgroupUnreadable CgroupPath
  mount : Option Cgroup2Mount
  namespaceRootTyped : Bool
  pid1Cgroup : Option CgroupPath

inductive Pid1Placement where
  | inside
  | outside
  deriving DecidableEq, Repr

/-- The cgroup holding the whole workload. -/
structure MonitoredCgroup where
  mountPoint : List Char
  /-- Under the mount point. -/
  dir : CgroupPath
  /-- In the agent's cgroup namespace. -/
  path : CgroupPath
  pid1 : Pid1Placement

namespace MonitoredCgroup

/-- A level's directory under the mount point, relative to the filesystem root. -/
def underMount (m : MonitoredCgroup) (level : CgroupPath) : Path :=
  (Path.ofText m.mountPoint).stripRoot.join level.relative

/-- The monitored cgroup's directory, and each ancestor up to the mount point, deepest first. -/
def levels (m : MonitoredCgroup) : List Path := m.dir.ancestry.map m.underMount

end MonitoredCgroup

def monitoredCgroup (evidence : CgroupEvidence) : Except CgroupUnreadable MonitoredCgroup := do
  let own ← evidence.selfCgroup
  match evidence.mount with
  | none => throw .noCgroupMount
  | some mount =>
    match own.stripPrefix mount.root with
    | none => throw .outsideMountRoot
    | some ownDir =>
      let privateRoot : Bool := mount.root = CgroupPath.root ∧ evidence.namespaceRootTyped
      let dir := if privateRoot then CgroupPath.root else ownDir
      let path := if privateRoot then CgroupPath.root else own
      let inside := evidence.pid1Cgroup.any path.contains
      return ⟨mount.point, dir, path, if inside then .inside else .outside⟩

end MonitoringAgent.Agent.Cgroup

import MonitoringAgent.Library.Datum
import MonitoringAgent.Library.Text
import MonitoringAgent.Model.Agent.Alerts

/-! # Applications to scrape

Which applications the agent scrapes and how often, read once from the environment. URLs are the
`url` crate's. -/

namespace MonitoringAgent.Agent

open MonitoringAgent.Library

/-! ### The environment -/

inductive VarError where
  | notPresent
  | notUnicode
  deriving DecidableEq, Repr

/-- Reads an environment variable. -/
abbrev Lookup := String → Except VarError String

/-- What makes a URL unusable as an actuator base URL. -/
inductive UrlProblem where
  | notAUrl
  | notHttp
  | hasUserinfo
  | hasQuery
  | hasFragment
  deriving DecidableEq, Repr

inductive CredentialProblem where
  | colon
  | controlCharacter
  deriving DecidableEq, Repr

/-- Why the configuration can't be used. -/
inductive ApplicationsConfigError where
  | notUnicode («variable» : String)
  | tooMany (count : ℕ)
  | malformedPair (position : ℕ)
  | invalidName (position : ℕ)
  | invalidUrl (position : ℕ) (problem : UrlProblem)
  | duplicateName (position : ℕ)
  | incompleteCredentials (missing : String)
  | invalidCredential («variable» : String) (problem : CredentialProblem)
  | invalidInterval
  deriving DecidableEq, Repr

/-- None when unset or empty. -/
def readVariable (lookup : Lookup) (name : String) :
    Except ApplicationsConfigError (Option String) :=
  match lookup name with
  | .ok value => .ok (if value = "" then none else some value)
  | .error .notPresent => .ok none
  | .error .notUnicode => .error (.notUnicode name)

/-- Trimmed; none when unset, empty or blank. -/
def readVariableTrimmed (lookup : Lookup) (name : String) :
    Except ApplicationsConfigError (Option String) := do
  let value ← readVariable lookup name
  return (value.map trimWhitespace).filter (· ≠ "")

/-! ### Names, URLs and credentials -/

/-- A byte an application's name may have. -/
def allowedInName (b : UInt8) : Bool :=
  (48 ≤ b && b ≤ 57) || (65 ≤ b && b ≤ 90) || (97 ≤ b && b ≤ 122) || b = 95 || b = 46 || b = 45

/-- An application's name, as the operator gave it. -/
structure ApplicationName where
  text : String
  length : 1 ≤ text.utf8ByteSize ∧ text.utf8ByteSize ≤ 64
  allowed : (utf8 text).all allowedInName = true
  noDots : text ≠ "." ∧ text ≠ ".."
  deriving DecidableEq

namespace ApplicationName

def parse (value : String) : Option ApplicationName :=
  if h : (1 ≤ value.utf8ByteSize ∧ value.utf8ByteSize ≤ 64) ∧
      (utf8 value).all allowedInName = true ∧
      value ≠ "." ∧ value ≠ ".." then
    some ⟨value, h.1, h.2.1, h.2.2⟩
  else none

/-- The key of the name's credential variables: upper case, with `-` and `.` read as `_`. -/
def credentialsKey (name : ApplicationName) : String :=
  String.ofList (name.text.toList.map fun c => if c = '-' ∨ c = '.' then '_' else c.toUpper)

end ApplicationName

/-- The `url` crate's URLs. -/
structure UrlCrate where
  Url : Type
  parse : String → Option Url
  scheme : Url → String
  username : Url → String
  password : Url → Option String
  query : Url → Option String
  fragment : Url → Option String
  path : Url → String
  setPath : Url → String → Url

variable (crate : UrlCrate)

/-- An absolute http(s) URL without userinfo, query or fragment, whose path ends in `/`. -/
def ActuatorBaseUrl.parse (value : String) : Except UrlProblem crate.Url := do
  let url ← (crate.parse value).elim (.error .notAUrl) .ok
  if ¬ (crate.scheme url = "http" ∨ crate.scheme url = "https") then throw .notHttp
  if crate.username url ≠ "" ∨ (crate.password url).isSome then throw .hasUserinfo
  if (crate.query url).isSome then throw .hasQuery
  if (crate.fragment url).isSome then throw .hasFragment
  let path := crate.path url
  return if (path.toList.getLast? ≠ some '/') then crate.setPath url (path ++ "/") else url

/-- C0, DEL and C1. -/
def isControl (c : Char) : Bool := c.toNat ≤ 0x1f || (0x7f ≤ c.toNat && c.toNat ≤ 0x9f)

/-- How the agent authenticates to an application's Actuator. -/
inductive ActuatorCredentials where
  | none
  | basic (username password : String)
  deriving DecidableEq, Repr

/-- Reads the two credential variables of an application: both or neither, then usable. -/
def ActuatorCredentials.read (name : ApplicationName) (lookup : Lookup) :
    Except ApplicationsConfigError ActuatorCredentials := do
  let key := name.credentialsKey
  let usernameVariable := "SPRING_BOOT_APP_" ++ key ++ "_USERNAME"
  let passwordVariable := "SPRING_BOOT_APP_" ++ key ++ "_PASSWORD"
  match ← readVariable lookup usernameVariable, ← readVariable lookup passwordVariable with
  | Option.none, Option.none => return .none
  | some username, some password =>
      if username.toList.any isControl
        then throw (.invalidCredential usernameVariable .controlCharacter)
      if ':' ∈ username.toList then throw (.invalidCredential usernameVariable .colon)
      if password.toList.any isControl
        then throw (.invalidCredential passwordVariable .controlCharacter)
      return .basic username password
  | some _, Option.none => throw (.incompleteCredentials passwordVariable)
  | Option.none, some _ => throw (.incompleteCredentials usernameVariable)

/-! ### The configuration -/

/-- One application to scrape. -/
structure ApplicationTarget where
  name : ApplicationName
  baseUrl : crate.Url
  credentials : ActuatorCredentials

/-- The two parts of a text around its first `=`. -/
def splitOnce (pair : String) : Option (String × String) :=
  match pair.toList.span (· ≠ '=') with
  | (name, _ :: url) => some (String.ofList name, String.ofList url)
  | (_, []) => none

/-- Parses the pair at `position`, from 1, and reads its credentials. -/
def ApplicationTarget.parse (position : ℕ) (pair : String) (lookup : Lookup) :
    Except ApplicationsConfigError (ApplicationTarget crate) := do
  let parts := ((splitOnce pair).map fun (name, url) =>
    (trimWhitespace name, trimWhitespace url)).filter
    fun (name, url) => name ≠ "" ∧ url ≠ ""
  let (name, url) ← parts.elim (.error (.malformedPair position)) .ok
  let name ← (ApplicationName.parse name).elim (.error (.invalidName position)) .ok
  let baseUrl ← match ActuatorBaseUrl.parse crate url with
    | .ok url => .ok url
    | .error problem => .error (.invalidUrl position problem)
  let credentials ← ActuatorCredentials.read name lookup
  return ⟨name, baseUrl, credentials⟩

/-- The time between two rounds, in seconds. -/
structure ScrapeInterval where
  secs : ℕ
  inRange : 10 ≤ secs ∧ secs ≤ 3600
  deriving DecidableEq, Repr

def ScrapeInterval.parse (value : Option String) : Except ApplicationsConfigError ScrapeInterval :=
  match value with
  | none => .ok ⟨15, by decide⟩
  | some value =>
      match parseU64 value with
      | some secs => if h : 10 ≤ secs ∧ secs ≤ 3600 then .ok ⟨secs, h⟩ else .error .invalidInterval
      | none => .error .invalidInterval

/-- The applications to scrape, and how often. -/
structure Applications where
  targets : List (ApplicationTarget crate)
  interval : ScrapeInterval

inductive ApplicationsConfig where
  | off
  | on (apps : Applications crate)

/-- The most applications one agent scrapes. -/
def maxApplications : ℕ := 16

/-- Parses every pair, refusing a name whose credential key an earlier pair already took. -/
def parseTargets (lookup : Lookup) (keys : List String) (position : ℕ) :
    List String → Except ApplicationsConfigError (List (ApplicationTarget crate))
  | [] => .ok []
  | pair :: pairs => do
      let target ← ApplicationTarget.parse crate position pair lookup
      if target.name.credentialsKey ∈ keys then throw (.duplicateName position)
      let targets ← parseTargets lookup (target.name.credentialsKey :: keys) (position + 1) pairs
      return target :: targets

def ApplicationsConfig.parse (lookup : Lookup) :
    Except ApplicationsConfigError (ApplicationsConfig crate) := do
  match ← readVariableTrimmed lookup "SPRING_BOOT_APPS" with
  | none => return .off
  | some apps =>
      let pairs := (apps.toList.splitOn ',').map fun pair => trimWhitespace (String.ofList pair)
      if maxApplications < pairs.length then throw (.tooMany pairs.length)
      let targets ← parseTargets crate lookup [] 1 pairs
      let interval ← ScrapeInterval.parse
        (← readVariableTrimmed lookup "SPRING_BOOT_SCRAPE_INTERVAL")
      return .on ⟨targets, interval⟩

end MonitoringAgent.Agent

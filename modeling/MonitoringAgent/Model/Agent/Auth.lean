import MonitoringAgent.Library.Checked
import MonitoringAgent.Library.Utf8

/-! # The token check of the agent's HTTP server

A request presents its token in the `Authorization` header, the `X-API-Key` header or its query. -/

namespace MonitoringAgent.Agent.Auth

open MonitoringAgent.Library

/-- A byte taken as the character of its code. -/
def byteChar (b : UInt8) : Char := Char.ofNat b.toNat

/-- What the check reads of a request. A header map keeps its names in lower case, and answers with
the first value of a name. -/
structure Request where
  path : String
  query : Option String
  headers : List (String × List UInt8)
  deriving DecidableEq, Repr

namespace Request

def header (r : Request) (name : String) : Option (List UInt8) := r.headers.lookup name

end Request

/-- A header value as text: visible ASCII and tabs only. -/
def toStr (value : List UInt8) : Option String :=
  if value.all fun b => 32 ≤ b && b < 127 || b = 9 then some (String.ofList (value.map byteChar))
  else none

/-! ### The query's encoding -/

def hexDigitOf (b : UInt8) : Option ℕ :=
  if 0x30 ≤ b ∧ b ≤ 0x39 then some (b.toNat - 0x30)
  else if 0x41 ≤ b ∧ b ≤ 0x46 then some (b.toNat - 0x41 + 10)
  else if 0x61 ≤ b ∧ b ≤ 0x66 then some (b.toNat - 0x61 + 10)
  else none

/-- `u8::from_str_radix` of two bytes of text: a plus sign may stand before the digits. -/
def fromStrRadix16 (b c : UInt8) : Option ℕ :=
  if b = 0x2b then hexDigitOf c
  else do
    let high ← hexDigitOf b
    let low ← hexDigitOf c
    return 16 * high + low

/-- The loop of `urlencoding`, from a byte on: the two bytes after a `%` are a slice of the text. -/
def urlencodingFrom : List UInt8 → Except (Stop Empty) (List Char)
  | [] => .ok []
  | [b] => .ok [if b = 0x2b then ' ' else byteChar b]
  | [b, c] => (urlencodingFrom [c]).map ((if b = 0x2b then ' ' else byteChar b) :: ·)
  | b :: c :: d :: more =>
    if b = 0x25 then
      if isCharBoundary (c :: d :: more) ∧ isCharBoundary more then
        match fromStrRadix16 c d with
        | some hex => (urlencodingFrom more).map (Char.ofNat hex :: ·)
        | none => (urlencodingFrom (c :: d :: more)).map (byteChar b :: ·)
      else .error .panic
    else (urlencodingFrom (c :: d :: more)).map ((if b = 0x2b then ' ' else byteChar b) :: ·)

def urlencoding (s : String) : Except (Stop Empty) String :=
  (urlencodingFrom (utf8 s)).map String.ofList

/-! ### The check -/

/-- What stands after a leading `start`. -/
def stripPrefix (start : String) (s : String) : Option String :=
  (s.toList.dropPrefix? start.toList).map String.ofList

namespace Request

def bearer (r : Request) : Option String :=
  ((r.header "authorization").bind fun value => (toStr value).bind
    (stripPrefix "Bearer ")).map trimWhitespace

def apiKey (r : Request) : Option String := ((r.header "x-api-key").bind toStr).map trimWhitespace

/-- The value of the query's first token pair, as it stands there. -/
def queryToken (r : Request) : Option String :=
  r.query.bind fun query => ((query.toList.splitOn '&').map String.ofList).findSome?
    (stripPrefix "token=")

end Request

def extractToken (r : Request) : Except (Stop Empty) (Option String) :=
  match r.bearer, r.apiKey, r.queryToken with
  | some token, _, _ => .ok (some token)
  | none, some key, _ => .ok (some key)
  | none, none, some v => (urlencoding v).map some
  | none, none, none => .ok none

def isExempt (path : String) : Bool :=
  path = "/api/health" || "/static/".toList.isPrefixOf path.toList || path = "/" || path =
    "/dashboard" || path = "/index.html"

def tokensMatch (presented : Option String) (expected : String) : Bool :=
  match presented with
  | some token => utf8 token = utf8 expected
  | none => false

/-- The token in the environment; an empty one is none. -/
def configuredToken (env : Option String) : Option String := env.filter (· ≠ "")

inductive Verdict where
  | passed
  | unauthorized
  deriving DecidableEq, Repr

def requireAuth (env : Option String) (r : Request) : Except (Stop Empty) Verdict :=
  match configuredToken env with
  | none => .ok .passed
  | some expected =>
    if isExempt r.path then .ok .passed
    else do
      let token ← extractToken r
      return if tokensMatch token expected then .passed else .unauthorized

end MonitoringAgent.Agent.Auth

import MonitoringAgent.Library.BigEndian
import MonitoringAgent.Library.Text
import MonitoringAgent.Model.Tier
import MonitoringAgent.Model.Value

/-! # Series names, and the bytes of a series' key and record

A series is a system key, a generation and a metric name; its record holds its value kind and, per
tier, the last span it has a chunk in. -/

namespace MonitoringAgent.HubStore.Series

open MonitoringAgent.Library

/-! ### Names -/

/-- The longest metric name: `disk:` plus a 256-byte mount point. -/
def maxMetricNameBytes : ℕ := 261

/-- The longest system key: a system id is at most 255 bytes. -/
def maxSystemKeyBytes : ℕ := 255

/-- A name the store refuses. -/
inductive InvalidName where
  | empty
  | tooLong
  | controlCharacter
  deriving DecidableEq, Repr

/-- Unicode's control characters, as `char::is_control`. -/
def isControl (c : Char) : Bool := c.toNat ≤ 0x1f || (0x7f ≤ c.toNat && c.toNat ≤ 0x9f)

/-- A metric name: 1 to 261 bytes of UTF-8 with no control character. -/
structure MetricName where
  text : String
  length : 0 < text.utf8ByteSize ∧ text.utf8ByteSize ≤ maxMetricNameBytes
  printable : text.toList.any isControl = false
  deriving DecidableEq

/-- A system id as the store keys it: 1 to 255 bytes. -/
structure SystemKey where
  bytes : List UInt8
  length : 0 < bytes.length ∧ bytes.length ≤ maxSystemKeyBytes
  deriving DecidableEq

/-- A registration of a system, a `u64`. -/
abbrev Generation := UInt64

def MetricName.tryFrom (name : String) : Except InvalidName MetricName :=
  if hpos : 0 < name.utf8ByteSize then
    if hmax : name.utf8ByteSize ≤ maxMetricNameBytes then
      if hprint : name.toList.any isControl = false then .ok ⟨name, ⟨hpos, hmax⟩, hprint⟩
      else .error .controlCharacter
    else .error .tooLong
  else .error .empty

def SystemKey.tryFrom (key : List UInt8) : Except InvalidName SystemKey :=
  if hpos : 0 < key.length then
    if hmax : key.length ≤ maxSystemKeyBytes then .ok ⟨key, hpos, hmax⟩ else .error .tooLong
  else .error .empty

/-! ### Keys -/

/-- Bytes that are no series key or record. -/
inductive RecordError where
  | unknownVersion (version : UInt8)
  | malformed
  deriving DecidableEq, Repr

/-- What a series is: whose, which registration, and which metric. -/
structure Key where
  system : SystemKey
  generation : Generation
  metric : MetricName
  deriving DecidableEq

/-- The first `n` bytes and the rest, when there are as many. -/
def splitAtChecked (n : ℕ) (bytes : List UInt8) : Except RecordError (List UInt8 × List UInt8) :=
  if n ≤ bytes.length then .ok (bytes.take n, bytes.drop n) else .error .malformed

/-- A value that isn't there is malformed bytes. -/
def orMalformed {α : Type} : Option α → Except RecordError α
  | some a => .ok a
  | none => .error .malformed

namespace Key

/-- The bytes every key of one system's generation starts with. -/
def systemPrefix (system : SystemKey) (generation : Generation) : List UInt8 :=
  UInt8.ofNat system.bytes.length :: (system.bytes ++ beBytes 8 generation.toNat)

/-- The length-prefixed system key, the generation (big-endian), then the metric name. -/
def toBytes (k : Key) : List UInt8 := systemPrefix k.system k.generation ++ utf8 k.metric.text

def fromBytes (bytes : List UInt8) : Except RecordError Key := do
  match bytes with
  | [] => .error .malformed
  | len :: rest =>
      let (system, rest) ← splitAtChecked len.toNat rest
      let (generation, metric) ← splitAtChecked 8 rest
      let metric ← orMalformed (fromUtf8 metric)
      let system ← orMalformed (SystemKey.tryFrom system).toOption
      let metric ← orMalformed (MetricName.tryFrom metric).toOption
      .ok ⟨system, UInt64.ofNat (ofBeBytes generation), metric⟩

end Key

/-! ### Records -/

def recordV1 : UInt8 := 1

/-- A series' persisted record. -/
structure Record where
  key : Key
  kind : ValueKind
  /-- Per tier, the last span holding a chunk of the series. -/
  lastSpans : Tier → Option SpanStart

/-- A presence byte, then the span start. -/
def putSpan : Option SpanStart → List UInt8
  | none => [0]
  | some start => 1 :: beBytes 8 start

/-- A presence byte, then a span start on the tier's grid. -/
def readSpan (bytes : List UInt8) (tier : Tier) :
    Except RecordError (Option SpanStart × List UInt8) := do
  match bytes with
  | [] => .error .malformed
  | presence :: rest =>
      if presence = 0 then .ok (none, rest)
      else if presence = 1 then
        let (start, rest) ← splitAtChecked 8 rest
        let span ← orMalformed (SpanStart.new tier (ofBeBytes start))
        .ok (some span, rest)
      else .error .malformed

namespace Record

/-- A version byte, the kind's code, per tier a presence byte and its span start, then the key's
length (two bytes, big-endian) and bytes. -/
def toBytes (r : Record) : List UInt8 :=
  let key := r.key.toBytes
  recordV1 :: UInt8.ofNat r.kind.code ::
    (Tier.all.flatMap (fun tier => putSpan (r.lastSpans tier)) ++ beBytes 2 key.length ++ key)

def fromBytes (bytes : List UInt8) : Except RecordError Record := do
  match bytes with
  | [] => .error .malformed
  | version :: rest =>
      if version ≠ recordV1 then .error (.unknownVersion version)
      else
        match rest with
        | [] => .error .malformed
        | kind :: rest =>
            let kind ← orMalformed (ValueKind.fromCode kind.toNat)
            let (raw, rest) ← readSpan rest .raw
            let (minute, rest) ← readSpan rest .minute
            let (hour, rest) ← readSpan rest .hour
            let (len, key) ← splitAtChecked 2 rest
            if key.length ≠ ofBeBytes len then .error .malformed
            else
              let key ← Key.fromBytes key
              let lastSpans : Tier → Option SpanStart
                | .raw => raw
                | .minute => minute
                | .hour => hour
              .ok ⟨key, kind, lastSpans⟩

end Record

end MonitoringAgent.HubStore.Series

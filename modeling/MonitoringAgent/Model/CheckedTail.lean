import MonitoringAgent.Model.Codec.Checked
import MonitoringAgent.Model.Tail

/-! # Reading a tail with every step checked

`from_tail` and what it calls beyond the decoders, with each operation that can overflow written as
a checked one. A product that overflows panics in a debug build and wraps in a release build. -/

namespace MonitoringAgent.HubStore.Checked

open MonitoringAgent.Library

variable {ε : Type}

/-! ### Writing bits -/

/-- The bit at place `i` of `value` appended, as one round of `BitWriter::push`. -/
def pushBit (w : BitWriter) (value i : ℕ) : Except (Stop ε) BitWriter := do
  let shifted ← shrWord 64 value i
  let bytes := if w.bits % 8 = 0 then w.bytes ++ [0] else w.bytes
  let bits ← addWord 64 w.bits 1
  if shifted &&& 1 = 1 then
    let last ← subWord bytes.length 1
    let byte ← indexed bytes last
    let mask ← shrWord 8 0x80 (w.bits % 8)
    .ok ⟨bytes.set last (byte ||| UInt8.ofNat mask), bits⟩
  else
    .ok ⟨bytes, bits⟩

def push (w : BitWriter) (value : ℕ) : ℕ → Except (Stop ε) BitWriter
  | 0 => .ok w
  | i + 1 => do
      let w ← pushBit w value i
      push w value i

def writeDod (w : BitWriter) (dod : ℤ) : Except (Stop ε) (Bool × BitWriter) :=
  match dodStep dod with
  | none => .ok (false, w)
  | some none => do
      let w ← push w 0 1
      .ok (true, w)
  | some (some (pre, prefixLen, width)) => do
      let w ← push w pre prefixLen
      let w ← push w (asU64 dod &&& lowBits width) width
      .ok (true, w)

def writeValue (w : BitWriter) (value : ℕ) : Except (Stop ε) BitWriter :=
  match valueStep value with
  | none => push w 0 1
  | some step => do
      let ones ← addWord 32 step 1
      let w ← push w (lowBits ones) ones
      let w ← if prefixLen step > ones then push w 0 1 else .ok w
      let width ← indexed valueWidths step
      push w value width

def writeBitVarintGroups : ℕ → BitWriter → ℕ → Except (Stop ε) BitWriter
  | 0, w, _ => .ok w
  | rounds + 1, w, value => do
      let more := value ≥ 0x80
      let w ← push w (if more then 1 else 0) 1
      let w ← push w (value &&& 0x7f) 7
      let rest ← shrWord 64 value 7
      if more then writeBitVarintGroups rounds w rest else .ok w

def writeBitVarint (w : BitWriter) (value : ℕ) : Except (Stop ε) BitWriter :=
  writeBitVarintGroups 10 w value

def writeSpread (w : BitWriter) (bucket : Bucket) : Except (Stop ε) BitWriter := do
  let w ← writeValue w (asU64 (wrapI64 (bucket.avg - bucket.min)))
  let w ← writeValue w (asU64 (wrapI64 (bucket.max - bucket.avg)))
  writeBitVarint w bucket.count

/-! ### Chunks -/

/-- `RawChunk::push`. -/
def pushRaw (c : RawChunk) (point : RawPoint) : Except (Stop PushRefused) RawChunk :=
  match c.ends with
  | none => .ok { c with ends := some (point, point), count := 1 }
  | some (first, last) =>
      if point.ts ≤ last.ts then .error (.refused .notAfterLast)
      else if c.count ≥ maxRawPoints then .error (.refused .full)
      else do
        let apart ← subWord point.ts last.ts
        if apart ≥ 2 ^ 63 then .error (.refused .full)
        else
          let tsStep : ℤ := apart
          let dod ← subInt 63 tsStep c.tsStep
          match dodBits dod with
          | none => .error (.refused .full)
          | some tsBits =>
              let valueStep := wrapI64 (point.value - last.value)
              let code := RawChunk.stepCode c.encoding c.valueStep valueStep
              let cost ← addWord 32 tsBits (valueBits code)
              let bits ← addWord 64 c.bits.bitLen cost
              let count ← addWord 64 c.count 1
              let length ← addWord 64 (RawChunk.headerLen count first) ((bits + 7) / 8)
              if length > maxRawChunkBytes then .error (.refused .full)
              else
                let (_, bits) ← writeDod c.bits dod
                let bits ← writeValue bits code
                .ok { c with bits, ends := some (first, point), tsStep, valueStep, count }

/-- `RollupChunk::push`. -/
def pushRollup (c : RollupChunk) (bucket : Bucket) : Except (Stop PushRefused) RollupChunk :=
  if ¬(bucket.min ≤ bucket.avg ∧ bucket.avg ≤ bucket.max ∧ bucket.count > 0) then
    .error (.refused .invalidBucket)
  else
    match c.ends with
    | none => do
        let bits ← writeSpread c.bits bucket
        .ok { c with bits, ends := some (bucket, bucket), count := 1 }
    | some (first, last) =>
        if bucket.index ≤ last.index then .error (.refused .notAfterLast)
        else if c.count ≥ c.tier.maxBuckets then .error (.refused .full)
        else do
          let apart ← subWord bucket.index last.index
          if apart ≥ 2 ^ 63 then .error (.refused .full)
          else
            let indexStep : ℤ := apart
            let dod ← subInt 63 indexStep c.indexStep
            let (written, bits) ← writeDod c.bits dod
            if written then
              let bits ← writeValue bits (zigzag (wrapI64 (bucket.avg - last.avg)))
              let bits ← writeSpread bits bucket
              let count ← addWord 64 c.count 1
              .ok { c with bits, ends := some (first, bucket), indexStep, count }
            else
              .error (.refused .full)

/-- The loop of `reopen`. -/
def pushAll {C Item : Type} (push : C → Item → Except (Stop PushRefused) C) :
    C → List Item → Decoding C
  | c, [] => .ok c
  | c, item :: items =>
      match push c item with
      | .ok c => pushAll push c items
      | .error .panic => .error .panic
      | .error (.refused _) => .error (.refused .malformed)

def reopenRaw (bytes : List UInt8) (encoding : Encoding) : Decoding RawChunk := do
  pushAll pushRaw (.new encoding) (← decodeRaw bytes encoding)

def reopenRollup (bytes : List UInt8) (tier : RollupTier) : Decoding RollupChunk := do
  pushAll pushRollup (.new tier) (← decodeRollup bytes tier)

/-- What a chunk encodes, or nothing where it doesn't decode. -/
def orDefault {α : Type} : Decoding (List α) → Except (Stop ε) (List α)
  | .ok items => .ok items
  | .error .panic => .error .panic
  | .error (.refused _) => .ok []

/-- `RawChunk::points`. -/
def points (c : RawChunk) : Except (Stop ε) (List RawPoint) := do
  let _ ← match c.ends with
    | none => .ok 2
    | some (first, _) => addWord 64 (RawChunk.headerLen c.count first) c.bits.asBytes.length
  orDefault (decodeRaw c.encode c.encoding)

/-- `RollupChunk::buckets`. -/
def buckets (c : RollupChunk) : Except (Stop ε) (List Bucket) := do
  let _ ← match c.ends with
    | none => .ok 2
    | some (first, _) =>
        addWord 64 (1 + varintLen c.count + varintLen first.index + varintLen (zigzag first.avg))
          c.bits.asBytes.length
  orDefault (decodeRollup c.encode c.tier)

/-! ### The tail -/

abbrev Reading (α : Type) : Type := Except (Stop TailError) α

/-- How `u64` products overflow. -/
inductive Build where
  | debug
  | release
  deriving DecidableEq, Repr

def Build.mul : Build → ℕ → ℕ → Except (Stop ε) ℕ
  | .debug, a, b => mulWord 64 a b
  | .release, a, b => .ok (a * b % 2 ^ 64)

/-- `Accumulator::from_parts`. -/
def fromParts (index : ℕ) (sum : ℤ) (count : ℕ) (min max : ℤ) :
    Except (Stop ε) (Option Accumulator) :=
  if count > 0 ∧ min ≤ max then do
    let low ← mulInt 127 count min
    if low ≤ sum then
      let high ← mulInt 127 count max
      .ok (if sum ≤ high then some ⟨index, sum, count, min, max⟩ else none)
    else
      .ok none
  else
    .ok none

/-- A field that ends early is a malformed tail. -/
def field {α : Type} (x : Except Short α) : Reading α := (orMalformed x).mapError .refused

def readOpen {C : Type} (r : Reader) (tier : Tier) (empty : C) (reopen : List UInt8 → Decoding C) :
    Reading (Open C × Reader) := do
  let (span, r) ← (readSpan r tier).mapError .refused
  let (nextSeq, r) ← field r.u16
  let (bytes, r) ← field r.u16Prefixed
  if bytes = [] then .ok (⟨empty, span, nextSeq⟩, r)
  else
    match reopen bytes with
    | .ok chunk => .ok (⟨chunk, span, nextSeq⟩, r)
    | .error .panic => .error .panic
    | .error (.refused _) => .error (.refused .malformed)

def readBucket (r : Reader) : Reading (Option Accumulator × Reader) := do
  let (presence, r) ← field r.u8
  match presence with
  | 0 => .ok (none, r)
  | 1 =>
      let (index, r) ← field r.u64
      let (sum, r) ← field r.i128
      let (count, r) ← field r.u32
      let (min, r) ← field r.i64
      let (max, r) ← field r.i64
      match ← fromParts index sum count min max with
      | none => .error (.refused .malformed)
      | some a => .ok (some a, r)
  | _ => .error (.refused .malformed)

/-- `Tier::span_of`. -/
def spanOf (tier : Tier) (ts : ℕ) : Except (Stop ε) SpanStart := subWord ts (ts % tier.spanSecs)

/-- Whether every time lies in the open chunk's span; an empty chunk needs none. -/
def inSpan (tier : Tier) (span : Option SpanStart) (times : List ℕ) : Except (Stop ε) Bool :=
  if times = [] then .ok true
  else
    match span with
    | none => .ok false
    | some s => times.allM fun t => do
        let start ← spanOf tier t
        .ok (start = s)

/-- A tier's part of the coherence check: whether it holds, and the start times of the tier's
buckets. -/
def coherent (build : Build) (s : RollupState) : Except (Stop ε) (Bool × List ℕ) := do
  let closed ← (← buckets s.open.chunk).mapM fun b => build.mul b.index s.tier.bucketSecs
  let within ← inSpan s.tier.tier s.open.span closed
  match s.bucket with
  | none => .ok (within, closed)
  | some a =>
      let start ← build.mul a.index s.tier.bucketSecs
      .ok (within && closed.getLast?.all (· < start), start :: closed)

def checkCoherence (build : Build) (s : SeriesState) : Reading Unit := do
  let raw := (← points s.raw.chunk).map RawPoint.ts
  let within ← inSpan .raw s.raw.span raw
  let (minute, minuteTimes) ← coherent build s.minute
  let (hour, hourTimes) ← coherent build s.hour
  let times := raw ++ minuteTimes ++ hourTimes
  let last := match s.lastTs with
    | none => times.isEmpty
    | some last => times.all (· ≤ last)
  if within && minute && hour && last then .ok () else .error (.refused .malformed)

def checkDomain (s : SeriesState) : Reading Unit := do
  let points ← points s.raw.chunk
  let minute ← buckets s.minute.open.chunk
  let hour ← buckets s.hour.open.chunk
  let closed := (minute ++ hour).flatMap fun b => [b.min, b.avg, b.max]
  let «open» := (s.minute.bucket.toList ++ s.hour.bucket.toList).flatMap fun a => [a.min, a.max]
  if (points.map RawPoint.value ++ closed ++ «open»).all fun v =>
    (s.kind.checkScaled v).isSome then .ok ()
  else .error (.refused .outOfDomain)

/-- A tail's fields, before they are checked against each other. -/
def readFields (bytes : List UInt8) : Reading SeriesState := do
  let (version, r) ← field (Reader.new bytes).u8
  if version ≠ tailV1 then .error (.refused (.unknownVersion version))
  else
    let (code, r) ← field r.u8
    match ValueKind.fromCode code with
    | none => .error (.refused .malformed)
    | some kind =>
        let (lastTs, r) ← (readOptionalU64 r).mapError .refused
        let (raw, r) ← readOpen r .raw (.new kind.encoding) (reopenRaw · kind.encoding)
        let (minute, r) ← readOpen r .minute (.new .minute) (reopenRollup · .minute)
        let (hour, r) ← readOpen r .hour (.new .hour) (reopenRollup · .hour)
        let (minuteBucket, r) ← readBucket r
        let (hourBucket, r) ← readBucket r
        let _ ← field r.finish
        .ok ⟨kind, lastTs, raw, ⟨.minute, minuteBucket, minute⟩, ⟨.hour, hourBucket, hour⟩⟩

/-- A series reopened from its tail. -/
def fromTail (build : Build) (bytes : List UInt8) : Reading SeriesState := do
  let state ← readFields bytes
  let _ ← checkDomain state
  let _ ← checkCoherence build state
  .ok state

end MonitoringAgent.HubStore.Checked

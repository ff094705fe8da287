import MonitoringAgent.Model.Codec.Bits
import MonitoringAgent.Model.Value

/-! # The raw chunk

One series' points, at most 240 or 1 KiB encoded: a format byte, a header (point count,
first time, first value), then per later point the time's delta of deltas and the value's
step. -/

namespace MonitoringAgent.HubStore

def rawFormatV1 : UInt8 := 0x01
def maxRawPoints : ℕ := 240
def maxRawChunkBytes : ℕ := 1024

/-- One point: hub time in seconds and the value in its kind's stored unit. -/
structure RawPoint where
  ts : ℕ
  value : ℤ
  deriving DecidableEq, Repr

/-- An open raw chunk: points are pushed in time order, and the encoded bytes are available
at any moment. -/
structure RawChunk where
  encoding : Encoding
  /-- The first and last points, once there is one. -/
  ends : Option (RawPoint × RawPoint)
  /-- The last time step and value step, which the next deltas of deltas start from. -/
  tsStep : ℤ
  valueStep : ℤ
  count : ℕ
  bits : BitWriter
  deriving DecidableEq, Repr

/-- `checked_add` on `i64`. -/
def checkedAddI64 (a b : ℤ) : Except DecodeError ℤ :=
  if -2 ^ 63 ≤ a + b ∧ a + b < 2 ^ 63 then .ok (a + b) else .error .malformed

/-- `checked_add` on `u64`. -/
def checkedAddU64 (a b : ℕ) : Except DecodeError ℕ :=
  if a + b < 2 ^ 64 then .ok (a + b) else .error .malformed

/-- The loop of `reopen`: every item pushed in order, a refused one ending it. -/
def pushAll {C Item : Type} (push : C → Item → Except PushRefused Unit × C) :
    C → List Item → Except DecodeError C
  | c, [] => .ok c
  | c, item :: items =>
      match push c item with
      | (.ok (), c) => pushAll push c items
      | (.error _, _) => .error .malformed

/-- A step as a `u64`, refused unless positive. -/
def positiveStep (step : ℤ) : Except DecodeError ℕ :=
  if 0 < step then .ok step.toNat else .error .malformed

namespace RawChunk

def new (encoding : Encoding) : RawChunk := ⟨encoding, none, 0, 0, 0, {}⟩

def headerLen (count : ℕ) (first : RawPoint) : ℕ :=
  1 + varintLen count + varintLen first.ts + varintLen (zigzag first.value)

/-- The number the value code holds for a step, after the previous step. -/
def stepCode (encoding : Encoding) (previous step : ℤ) : ℕ :=
  match encoding with
  | .delta => zigzag step
  | .deltaOfDelta => zigzag (wrapI64 (step - previous))

/-- The step a number of the value code stands for, after the previous step. -/
def codeStep (encoding : Encoding) (previous : ℤ) (code : ℕ) : ℤ :=
  match encoding with
  | .delta => unzigzag code
  | .deltaOfDelta => wrapI64 (previous + unzigzag code)

/-- Appends a point, or refuses it; the second component is the chunk afterwards. -/
def push (c : RawChunk) (point : RawPoint) : Except PushRefused Unit × RawChunk :=
  match c.ends with
  | none => (.ok (), { c with ends := some (point, point), count := 1 })
  | some (first, last) =>
      if point.ts ≤ last.ts then (.error .notAfterLast, c)
      else if c.count ≥ maxRawPoints then (.error .full, c)
      else if point.ts - last.ts ≥ 2 ^ 63 then (.error .full, c)
      else
        let tsStep : ℤ := (point.ts - last.ts : ℕ)
        let dod := tsStep - c.tsStep
        match dodBits dod with
        | none => (.error .full, c)
        | some tsBits =>
            let valueStep := wrapI64 (point.value - last.value)
            let code := stepCode c.encoding c.valueStep valueStep
            let bits := c.bits.bitLen + (tsBits + valueBits code)
            if headerLen (c.count + 1) first + (bits + 7) / 8 > maxRawChunkBytes then
              (.error .full, c)
            else
              (.ok (), { c with
                bits := writeValue (writeDod c.bits dod).2 code
                ends := some (first, point)
                tsStep := tsStep, valueStep := valueStep, count := c.count + 1 })

def len (c : RawChunk) : ℕ := c.count

def isEmpty (c : RawChunk) : Bool := c.count = 0

/-- The last point pushed. -/
def last (c : RawChunk) : Option RawPoint := c.ends.map (·.2)

/-- The length of `encode`'s bytes. -/
def encodedLen (c : RawChunk) : ℕ :=
  match c.ends with
  | none => 2
  | some (first, _) => headerLen c.count first + c.bits.asBytes.length

/-- The chunk's bytes, format byte first. An empty chunk encodes as a count of zero, which
no decoder accepts. -/
def encode (c : RawChunk) : List UInt8 :=
  let out := writeVarint [rawFormatV1] c.count
  match c.ends with
  | none => out
  | some (first, _) => writeVarint (writeVarint out first.ts) (zigzag first.value) ++ c.bits.asBytes

end RawChunk

/-- The format byte, the point count and the first point; and where the bit stream
starts. -/
def decodeRawHeader (bytes : List UInt8) : Except DecodeError (ℕ × RawPoint × ℕ) := do
  match bytes.head? with
  | none => .error .truncated
  | some format =>
      if format ≠ rawFormatV1 then .error (.unknownFormat format)
      else
        let (count, pos) ← readVarint bytes 1
        if count = 0 then .error .malformed
        else if count > maxRawPoints then .error .tooLong
        else
          let (ts, pos) ← readVarint bytes pos
          let (code, pos) ← readVarint bytes pos
          .ok (count, ⟨ts, unzigzag code⟩, pos)

/-- The points after `last`, `left` of them, the previous steps being `tsStep` and
`valueStep`. -/
def decodeRawPoints (encoding : Encoding) :
    ℕ → RawPoint → ℤ → ℤ → BitReader → Except DecodeError (List RawPoint × BitReader)
  | 0, _, _, _, r => .ok ([], r)
  | left + 1, last, tsStep, valueStep, r => do
      let (dod, r) ← readDod r
      let tsStep ← checkedAddI64 tsStep dod
      let step ← positiveStep tsStep
      let ts ← checkedAddU64 last.ts step
      let (code, r) ← readValue r
      let valueStep := RawChunk.codeStep encoding valueStep code
      let point : RawPoint := ⟨ts, wrapI64 (last.value + valueStep)⟩
      let (points, r) ← decodeRawPoints encoding left point tsStep valueStep r
      .ok (point :: points, r)

/-- The points of an encoded raw chunk, in time order. -/
def decodeRaw (bytes : List UInt8) (encoding : Encoding) : Except DecodeError (List RawPoint) := do
  let (count, first, pos) ← decodeRawHeader bytes
  let (points, r) ← decodeRawPoints encoding (count - 1) first 0 0 (.new (bytes.drop pos))
  if pos + r.bytesRead ≠ bytes.length then .error .malformed
  else .ok (first :: points)

namespace RawChunk

/-- The chunk's points, in time order; what does not decode has none. -/
def points (c : RawChunk) : List RawPoint :=
  match decodeRaw c.encode c.encoding with
  | .ok points => points
  | .error _ => []

/-- Reopens an encoded chunk to push more points into it. -/
def reopen (bytes : List UInt8) (encoding : Encoding) : Except DecodeError RawChunk := do
  pushAll push (new encoding) (← decodeRaw bytes encoding)

end RawChunk

end MonitoringAgent.HubStore

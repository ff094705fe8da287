import MonitoringAgent.Library.Checked
import MonitoringAgent.Model.Codec.Raw
import MonitoringAgent.Model.Codec.Rollup

/-! # The decoders with every step checked

The same readers and decoders, with each operation that panics outside its domain written as a
checked one: `usize` sums and products, subtractions, shifts and slice indexes. A `usize` has 64
bits. -/

namespace MonitoringAgent.HubStore.Checked

open Library

abbrev Decoding (α : Type) : Type := Except (Stop DecodeError) α

/-- One bit of `BitReader::read`'s fold. -/
def readBit (bytes : List UInt8) (acc i : ℕ) : Decoding ℕ := do
  let byte ← indexed bytes (i / 8)
  let shift ← subWord 7 (i % 8)
  let bit ← shrWord 8 byte.toNat shift
  let acc ← shlWord 64 acc 1
  .ok (acc ||| (bit &&& 1))

def read (r : BitReader) (width : ℕ) : Decoding (ℕ × BitReader) := do
  let stop ← addWord 64 r.pos width
  let bits ← mulWord 64 r.bytes.length 8
  if stop > bits then .error (.refused .truncated)
  else
    let value ← (List.range' r.pos width).foldlM (readBit r.bytes) 0
    .ok (value, ⟨r.bytes, stop⟩)

def readVarintGroups (bytes : List UInt8) : ℕ → ℕ → ℕ → ℕ → Decoding (ℕ × ℕ)
  | 0, _, _, _ => .error (.refused .malformed)
  | rounds + 1, group, pos, value =>
      match bytes[pos]? with
      | none => .error (.refused .truncated)
      | some byte => do
          let pos ← addWord 64 pos 1
          let bits := (byte &&& 0x7f).toNat
          if group = 9 ∧ bits > 1 then .error (.refused .malformed)
          else
            let places ← mulWord 31 7 group
            let shifted ← shlWord 64 bits places
            let value := value ||| shifted
            if byte &&& 0x80 = 0 then .ok (value, pos)
            else readVarintGroups bytes rounds (group + 1) pos value

def readVarint (bytes : List UInt8) (pos : ℕ) : Decoding (ℕ × ℕ) :=
  readVarintGroups bytes 10 0 pos 0

def readOnesFrom (r : BitReader) (ones : ℕ) : ℕ → Decoding (ℕ × BitReader)
  | 0 => .ok (ones, r)
  | left + 1 => do
      let (bit, r) ← read r 1
      if bit = 1 then
        let ones ← addWord 32 ones 1
        readOnesFrom r ones left
      else .ok (ones, r)

def readOnes (r : BitReader) (max : ℕ) : Decoding (ℕ × BitReader) := readOnesFrom r 0 max

def readDod (r : BitReader) : Decoding (ℤ × BitReader) := do
  let (ones, r) ← readOnes r dodSteps.length
  if ones = 0 then .ok (0, r)
  else
    let step ← subWord ones 1
    let (_, _, width) ← indexed dodSteps step
    let (field, r) ← read r width
    let shift ← subWord 64 width
    let shifted ← shlWord 64 field shift
    -- The arithmetic shift back panics where a logical one does.
    let _ ← shrWord 64 shifted shift
    .ok (((BitVec.ofNat 64 shifted).sshiftRight shift).toInt, r)

def readValue (r : BitReader) : Decoding (ℕ × BitReader) := do
  let (ones, r) ← readOnes r valueWidths.length
  if ones = 0 then .ok (0, r)
  else
    let step ← subWord ones 1
    let width ← indexed valueWidths step
    read r width

def readBitVarintGroups : ℕ → ℕ → BitReader → ℕ → Decoding (ℕ × BitReader)
  | 0, _, _, _ => .error (.refused .malformed)
  | rounds + 1, group, r, value => do
      let (more, r) ← read r 1
      let (bits, r) ← read r 7
      if group = 9 ∧ bits > 1 then .error (.refused .malformed)
      else
        let places ← mulWord 31 7 group
        let shifted ← shlWord 64 bits places
        let value := value ||| shifted
        if more = 1 then readBitVarintGroups rounds (group + 1) r value else .ok (value, r)

def readBitVarint (r : BitReader) : Decoding (ℕ × BitReader) := readBitVarintGroups 10 0 r 0

/-- An operation that refuses what it has no result for, as `checked_add` with `ok_or`. -/
def orRefused {α : Type} (x : Except DecodeError α) : Decoding α := x.mapError .refused

/-! ### Raw chunks -/

def decodeRawHeader (bytes : List UInt8) : Decoding (ℕ × RawPoint × ℕ) := do
  match bytes.head? with
  | none => .error (.refused .truncated)
  | some format =>
      if format ≠ rawFormatV1 then .error (.refused (.unknownFormat format))
      else
        let (count, pos) ← readVarint bytes 1
        if count = 0 then .error (.refused .malformed)
        else if count > maxRawPoints then .error (.refused .tooLong)
        else
          let (ts, pos) ← readVarint bytes pos
          let (code, pos) ← readVarint bytes pos
          .ok (count, ⟨ts, unzigzag code⟩, pos)

/-- The loop of `decode_raw`, `left` rounds of it to go after `points`. -/
def decodeRawPoints (encoding : Encoding) :
    ℕ → List RawPoint → ℤ → ℤ → BitReader → Decoding (List RawPoint × BitReader)
  | 0, points, _, _, r => .ok (points, r)
  | left + 1, points, tsStep, valueStep, r => do
      let final ← subWord points.length 1
      let last ← indexed points final
      let (dod, r) ← readDod r
      let tsStep ← orRefused (checkedAddI64 tsStep dod)
      let step ← orRefused (positiveStep tsStep)
      let ts ← orRefused (checkedAddU64 last.ts step)
      let (code, r) ← readValue r
      let valueStep := RawChunk.codeStep encoding valueStep code
      let point : RawPoint := ⟨ts, wrapI64 (last.value + valueStep)⟩
      decodeRawPoints encoding left (points ++ [point]) tsStep valueStep r

def decodeRaw (bytes : List UInt8) (encoding : Encoding) : Decoding (List RawPoint) := do
  let (count, first, pos) ← decodeRawHeader bytes
  let stream ← sliceFrom bytes pos
  let (points, r) ← decodeRawPoints encoding (count - 1) [first] 0 0 (.new stream)
  let pos ← addWord 64 pos r.bytesRead
  if pos ≠ bytes.length then .error (.refused .malformed) else .ok points

/-! ### Rollup chunks -/

def decodeRollupHeader (bytes : List UInt8) (tier : RollupTier) : Decoding (ℕ × ℕ × ℤ × ℕ) := do
  match bytes.head? with
  | none => .error (.refused .truncated)
  | some format =>
      if format ≠ rollupFormatV1 then .error (.refused (.unknownFormat format))
      else
        let (count, pos) ← readVarint bytes 1
        if count = 0 then .error (.refused .malformed)
        else if count > tier.maxBuckets then .error (.refused .tooLong)
        else
          let (index, pos) ← readVarint bytes pos
          let (code, pos) ← readVarint bytes pos
          .ok (count, index, unzigzag code, pos)

def readSpread (r : BitReader) (index : ℕ) (avg : ℤ) : Decoding (Bucket × BitReader) := do
  let (below, r) ← readValue r
  let (above, r) ← readValue r
  let (count, r) ← readBitVarint r
  if count ≥ 2 ^ 32 then .error (.refused .malformed)
  else
    let min ← orRefused (checkedAddI64 avg (-below))
    let max ← orRefused (checkedAddI64 avg above)
    if count = 0 then .error (.refused .malformed)
    else .ok (⟨index, avg, min, max, count⟩, r)

/-- The rounds of `decode_rollup`'s loop after the first. -/
def decodeBuckets : ℕ → ℕ → ℤ → ℤ → BitReader → Decoding (List Bucket × BitReader)
  | 0, _, _, _, r => .ok ([], r)
  | left + 1, index, avg, indexStep, r => do
      let (dod, r) ← readDod r
      let indexStep ← orRefused (checkedAddI64 indexStep dod)
      let step ← orRefused (positiveStep indexStep)
      let index ← orRefused (checkedAddU64 index step)
      let (code, r) ← readValue r
      let avg := wrapI64 (avg + unzigzag code)
      let (bucket, r) ← readSpread r index avg
      let (buckets, r) ← decodeBuckets left index avg indexStep r
      .ok (bucket :: buckets, r)

def decodeRollup (bytes : List UInt8) (tier : RollupTier) : Decoding (List Bucket) := do
  let (count, index, avg, pos) ← decodeRollupHeader bytes tier
  let stream ← sliceFrom bytes pos
  let (first, r) ← readSpread (.new stream) index avg
  let (buckets, r) ← decodeBuckets (count - 1) index avg 1 r
  let pos ← addWord 64 pos r.bytesRead
  if pos ≠ bytes.length then .error (.refused .malformed) else .ok (first :: buckets)

end MonitoringAgent.HubStore.Checked

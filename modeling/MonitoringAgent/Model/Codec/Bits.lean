import Mathlib.Tactic

/-! # Bit streams, varints and the two variable-length codes

The delta-of-delta code of timestamps and bucket indexes, and the code of zigzagged values.
A `u64` is a natural number and an `i64` an integer; where the code shifts or reinterprets
bits, the definition does so on 64-bit words. -/

namespace MonitoringAgent.HubStore

/-- Why bytes are not a chunk. -/
inductive DecodeError where
  /-- The bytes end before the chunk does. -/
  | truncated
  /-- A format byte this version doesn't know. -/
  | unknownFormat (format : UInt8)
  /-- More points or buckets than a chunk may hold. -/
  | tooLong
  /-- The bytes decode to something no encoder writes. -/
  | malformed
  deriving DecidableEq, Repr

/-- Why a chunk refuses another point or bucket. -/
inductive PushRefused where
  | full
  | notAfterLast
  | invalidBucket
  deriving DecidableEq, Repr

/-- Bits written most significant first. -/
structure BitWriter where
  bytes : List UInt8 := []
  bits : ℕ := 0
  deriving DecidableEq, Repr

/-- Bits read back in the order they were written. -/
structure BitReader where
  bytes : List UInt8
  pos : ℕ := 0
  deriving DecidableEq, Repr

namespace BitWriter

def pushBit (w : BitWriter) (bit : Bool) : BitWriter :=
  let bytes := if w.bits % 8 = 0 then w.bytes ++ [0] else w.bytes
  let bytes := if bit then
      bytes.modify (bytes.length - 1) (· ||| (0x80 >>> UInt8.ofNat (w.bits % 8)))
    else bytes
  ⟨bytes, w.bits + 1⟩

/-- Appends the low `width` bits of `value`. -/
def push (w : BitWriter) (value : ℕ) : ℕ → BitWriter
  | 0 => w
  | i + 1 => (w.pushBit (value.testBit i)).push value i

def bitLen (w : BitWriter) : ℕ := w.bits

/-- The bytes written so far, the last one padded with zeros. -/
def asBytes (w : BitWriter) : List UInt8 := w.bytes

end BitWriter

namespace BitReader

def new (bytes : List UInt8) : BitReader := ⟨bytes, 0⟩

/-- Reads `width` bits. -/
def read (r : BitReader) (width : ℕ) : Except DecodeError (ℕ × BitReader) :=
  let stop := r.pos + width
  if stop > r.bytes.length * 8 then .error .truncated
  else
    let value := (List.range' r.pos width).foldl (fun acc i =>
      let bit := ((r.bytes.getD (i / 8) 0).toNat >>> (7 - i % 8)) &&& 1
      ((acc <<< 1) % 2 ^ 64) ||| bit) 0
    .ok (value, ⟨r.bytes, stop⟩)

/-- The bytes the bits read so far take, the last one counted whole. -/
def bytesRead (r : BitReader) : ℕ := (r.pos + 7) / 8

end BitReader

/-- An `i64` written as a `u64` that keeps small magnitudes small. -/
def zigzag (value : ℤ) : ℕ :=
  let v := BitVec.ofInt 64 value
  ((v <<< 1) ^^^ v.sshiftRight 63).toNat

def unzigzag (value : ℕ) : ℤ :=
  let v := BitVec.ofNat 64 value
  ((v >>> 1) ^^^ -(v &&& 1#64)).toInt

/-- Two's-complement reduction to an `i64`: `wrapping_add`, `wrapping_sub` and `as i64`. -/
def wrapI64 (value : ℤ) : ℤ := (BitVec.ofInt 64 value).toInt

/-- An `i64` reinterpreted as a `u64`. -/
def asU64 (value : ℤ) : ℕ := (BitVec.ofInt 64 value).toNat

/-! ### Varints -/

/-- The rounds of `write_varint` left: a `u64` takes at most ten groups of seven bits. -/
def writeVarintGroups : ℕ → List UInt8 → ℕ → List UInt8
  | 0, out, value => out ++ [UInt8.ofNat value]
  | rounds + 1, out, value =>
      if value ≥ 0x80 then
        writeVarintGroups rounds (out ++ [(UInt8.ofNat value &&& 0x7f) ||| 0x80]) (value >>> 7)
      else out ++ [UInt8.ofNat value]

/-- LEB128, at most ten bytes, appended to `out`. -/
def writeVarint (out : List UInt8) (value : ℕ) : List UInt8 := writeVarintGroups 9 out value

def leadingZeros (value : ℕ) : ℕ := if value = 0 then 64 else 63 - value.log2

def varintLen (value : ℕ) : ℕ := (max (64 - leadingZeros value) 1 + 6) / 7

/-- The groups of `read_varint` from `group` on, `rounds` of the ten left. -/
def readVarintGroups (bytes : List UInt8) :
    ℕ → ℕ → ℕ → ℕ → Except DecodeError (ℕ × ℕ)
  | 0, _, _, _ => .error .malformed
  | rounds + 1, group, pos, value =>
      match bytes[pos]? with
      | none => .error .truncated
      | some byte =>
          let bits := (byte &&& 0x7f).toNat
          if group = 9 ∧ bits > 1 then .error .malformed
          else
            let value := value ||| (bits <<< (7 * group)) % 2 ^ 64
            if byte &&& 0x80 = 0 then .ok (value, pos + 1)
            else readVarintGroups bytes rounds (group + 1) (pos + 1) value

/-- The varint at `pos`, and the position after it. -/
def readVarint (bytes : List UInt8) (pos : ℕ) : Except DecodeError (ℕ × ℕ) :=
  readVarintGroups bytes 10 0 pos 0

/-! ### The timestamp code -/

/-- The timestamp code's steps: a prefix, its length and the width of the two's-complement
field after it. -/
def dodSteps : List (ℕ × ℕ × ℕ) :=
  [(0b10, 2, 3), (0b110, 3, 7), (0b1110, 4, 12), (0b1111, 4, 32)]

/-- `some none` for zero, `some (some step)` for the step that holds `dod`. -/
def dodStep (dod : ℤ) : Option (Option (ℕ × ℕ × ℕ)) :=
  if dod = 0 then some none
  else
    (dodSteps.find? fun (_, _, width) =>
      let half : ℤ := 2 ^ (width - 1)
      decide (-half ≤ dod ∧ dod < half)).map some

/-- The cost in bits of a delta of deltas in the timestamp code, if it has one. -/
def dodBits (dod : ℤ) : Option ℕ :=
  (dodStep dod).map fun
    | none => 1
    | some (_, prefixLen, width) => prefixLen + width

def lowBits (width : ℕ) : ℕ := if width ≥ 64 then 2 ^ 64 - 1 else 2 ^ width - 1

/-- Writes a delta of deltas the code holds; `false` writes nothing. -/
def writeDod (w : BitWriter) (dod : ℤ) : Bool × BitWriter :=
  match dodStep dod with
  | none => (false, w)
  | some none => (true, w.push 0 1)
  | some (some (pre, prefixLen, width)) =>
      (true, (w.push pre prefixLen).push (asU64 dod &&& lowBits width) width)

/-- Reads ones up to the first zero, or up to `max` ones; `ones` are already read. -/
def readOnesFrom (r : BitReader) (ones : ℕ) : ℕ → Except DecodeError (ℕ × BitReader)
  | 0 => .ok (ones, r)
  | left + 1 => do
      let (bit, r) ← r.read 1
      if bit = 1 then readOnesFrom r (ones + 1) left else .ok (ones, r)

def readOnes (r : BitReader) (max : ℕ) : Except DecodeError (ℕ × BitReader) :=
  readOnesFrom r 0 max

def readDod (r : BitReader) : Except DecodeError (ℤ × BitReader) := do
  let (ones, r) ← readOnes r dodSteps.length
  if ones = 0 then .ok (0, r)
  else
    let (_, _, width) := dodSteps.getD (ones - 1) (0, 0, 0)
    let (field, r) ← r.read width
    let shift := 64 - width
    .ok (((BitVec.ofNat 64 field <<< shift).sshiftRight shift).toInt, r)

/-! ### The value code -/

/-- The value code's field width per count of leading ones. -/
def valueWidths : List ℕ := [6, 13, 20, 32, 64]

/-- The step that holds a non-zero value, as an index into `valueWidths`. -/
def valueStep (value : ℕ) : Option ℕ :=
  if value ≠ 0 then
    some ((valueWidths.findIdx? fun w => value ≤ lowBits w).getD (valueWidths.length - 1))
  else none

/-- The length of a step's prefix: `step + 1` ones then a zero, except the last step's. -/
def prefixLen (step : ℕ) : ℕ := if step + 1 = valueWidths.length then step + 1 else step + 2

/-- The cost in bits of an unsigned value in the value code. -/
def valueBits (value : ℕ) : ℕ :=
  match valueStep value with
  | none => 1
  | some step => prefixLen step + valueWidths.getD step 0

def writeValue (w : BitWriter) (value : ℕ) : BitWriter :=
  match valueStep value with
  | none => w.push 0 1
  | some step =>
      let ones := step + 1
      let w := w.push (lowBits ones) ones
      let w := if prefixLen step > ones then w.push 0 1 else w
      w.push value (valueWidths.getD step 0)

def readValue (r : BitReader) : Except DecodeError (ℕ × BitReader) := do
  let (ones, r) ← readOnes r valueWidths.length
  if ones = 0 then .ok (0, r)
  else r.read (valueWidths.getD (ones - 1) 0)

/-! ### Varints inside a bit stream -/

/-- The rounds of `write_bit_varint` left. -/
def writeBitVarintGroups : ℕ → BitWriter → ℕ → BitWriter
  | 0, w, _ => w
  | rounds + 1, w, value =>
      let more := value ≥ 0x80
      let w := (w.push (if more then 1 else 0) 1).push (value &&& 0x7f) 7
      if more then writeBitVarintGroups rounds w (value >>> 7) else w

/-- Groups of seven bits, each after a continuation bit. -/
def writeBitVarint (w : BitWriter) (value : ℕ) : BitWriter := writeBitVarintGroups 10 w value

def readBitVarintGroups : ℕ → ℕ → BitReader → ℕ → Except DecodeError (ℕ × BitReader)
  | 0, _, _, _ => .error .malformed
  | rounds + 1, group, r, value => do
      let (more, r) ← r.read 1
      let (bits, r) ← r.read 7
      if group = 9 ∧ bits > 1 then .error .malformed
      else
        let value := value ||| (bits <<< (7 * group)) % 2 ^ 64
        if more = 1 then readBitVarintGroups rounds (group + 1) r value else .ok (value, r)

def readBitVarint (r : BitReader) : Except DecodeError (ℕ × BitReader) :=
  readBitVarintGroups 10 0 r 0

end MonitoringAgent.HubStore

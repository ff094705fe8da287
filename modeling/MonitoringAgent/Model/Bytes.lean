import MonitoringAgent.Library.BigEndian

/-! # Fixed-width, big-endian fields of the store's persisted values -/

namespace MonitoringAgent.HubStore

open MonitoringAgent.Library

/-- Bytes ended early, or more bytes followed the last field. -/
inductive Short where
  | short
  deriving DecidableEq, Repr

/-- A cursor over persisted bytes. -/
structure Reader where
  rest : List UInt8
  deriving DecidableEq, Repr

namespace Reader

def new (bytes : List UInt8) : Reader := ⟨bytes⟩

def bytes (r : Reader) (len : ℕ) : Except Short (List UInt8 × Reader) :=
  if len ≤ r.rest.length then .ok (r.rest.take len, ⟨r.rest.drop len⟩) else .error .short

/-- An unsigned field of `width` bytes. -/
def unsigned (r : Reader) (width : ℕ) : Except Short (ℕ × Reader) := do
  let (field, r) ← r.bytes width
  .ok (ofBeBytes field, r)

/-- A signed field of `width` bytes. -/
def signed (r : Reader) (width : ℕ) : Except Short (ℤ × Reader) := do
  let (field, r) ← r.bytes width
  .ok (ofBeBytesInt width field, r)

def u8 (r : Reader) : Except Short (ℕ × Reader) := r.unsigned 1
def u16 (r : Reader) : Except Short (ℕ × Reader) := r.unsigned 2
def u32 (r : Reader) : Except Short (ℕ × Reader) := r.unsigned 4
def u64 (r : Reader) : Except Short (ℕ × Reader) := r.unsigned 8
def i64 (r : Reader) : Except Short (ℤ × Reader) := r.signed 8
def i128 (r : Reader) : Except Short (ℤ × Reader) := r.signed 16

/-- A field of bytes after its two-byte length. -/
def u16Prefixed (r : Reader) : Except Short (List UInt8 × Reader) := do
  let (len, r) ← r.u16
  r.bytes len

/-- Succeeds only when every byte was read. -/
def finish (r : Reader) : Except Short Unit :=
  if r.rest = [] then .ok () else .error .short

end Reader

/-- A field of bytes after its two-byte length; the caller bounds it. -/
def putU16Prefixed (bytes : List UInt8) : List UInt8 := beBytes 2 bytes.length ++ bytes

end MonitoringAgent.HubStore

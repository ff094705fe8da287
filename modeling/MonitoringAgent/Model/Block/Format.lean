import MonitoringAgent.Library.Pieces
import MonitoringAgent.Model.Bytes
import MonitoringAgent.Model.Log
import MonitoringAgent.Model.Tier

/-! # The block file format

One closed span of one tier, written once:

- header: the magic, the format, the tier, the span's start, the chunk count, the index offset;
- data: the span's chunks, ordered by series and seq;
- index: per chunk its series, its seq, its offset, its length and its CRC, in index blocks of
  1,024 entries;
- summary: per index block its first series, its offset and its CRC;
- trailer: the summary offset, the CRC of header and summary, the magic.

Every field is big-endian. -/

namespace MonitoringAgent.HubStore

open MonitoringAgent.Library

/-- CRC-32C, of bytes and continued over more bytes. -/
structure Crc where
  crc32c : List UInt8 → UInt32
  crc32cAppend : UInt32 → List UInt8 → UInt32

/-- The Castagnoli polynomial's bits, reflected, over one byte. -/
def castagnoliByte (crc : UInt32) (byte : UInt8) : UInt32 :=
  (List.range 8).foldl (fun crc _ => if crc &&& 1 = 1 then (crc >>> 1) ^^^ 0x82f63b78
    else crc >>> 1) (crc ^^^ byte.toUInt32)

/-- CRC-32C itself. -/
def castagnoli : Crc where
  crc32c bytes := bytes.foldl castagnoliByte 0xffffffff ^^^ 0xffffffff
  crc32cAppend crc bytes := bytes.foldl castagnoliByte (crc ^^^ 0xffffffff) ^^^ 0xffffffff

def blockFormatV1 : ℕ := 1

/-- `HUBBLK`. -/
def blockMagic : List UInt8 := [0x48, 0x55, 0x42, 0x42, 0x4c, 0x4b]

def headerLen : ℕ := 6 + 1 + 1 + 8 + 4 + 8
def trailerLen : ℕ := 8 + 4 + 6
def indexEntryLen : ℕ := 4 + 2 + 8 + 4 + 4
def summaryEntryLen : ℕ := 4 + 8 + 4

/-- Index entries per index block. -/
def indexBlockEntries : ℕ := 1024

/-- Why bytes are not (part of) the block file they should be. -/
inductive BlockError where
  | badMagic
  | unknownFormat (format : ℕ)
  | wrongSpan
  | checksum
  | malformed
  deriving DecidableEq, Repr

/-- Chunks out of order, or too many or too long to index. -/
inductive Unordered where
  | unordered
  deriving DecidableEq, Repr

/-- One chunk to write; its id is a `u32` and its seq a `u16`. -/
structure ChunkRef where
  id : SeriesId
  seq : ℕ
  bytes : List UInt8
  inRange : id < 2 ^ 32 ∧ seq < 2 ^ 16
  deriving DecidableEq

/-- Where a chunk is and what its bytes must hash to. -/
structure IndexEntry where
  id : SeriesId
  seq : ℕ
  offset : ℕ
  length : ℕ
  crc : UInt32
  deriving DecidableEq

/-- An index block's first series, offset and CRC. -/
structure SummaryEntry where
  first : SeriesId
  offset : ℕ
  crc : UInt32
  deriving DecidableEq

/-- A block file's header and summary, checked. -/
structure BlockSummary where
  tier : Tier
  span : SpanStart
  chunkCount : ℕ
  indexOffset : ℕ
  summaryOffset : ℕ
  entries : List SummaryEntry
  deriving DecidableEq

/-- The byte range of one index block in its file. -/
structure IndexBlockRange where
  offset : ℕ
  len : ℕ
  deriving DecidableEq

/-- `checked_add` on `u64`. -/
def checkedAdd (a b : ℕ) : Option ℕ := if a + b < 2 ^ 64 then some (a + b) else none

/-- `checked_mul` on `u64`. -/
def checkedMul (a b : ℕ) : Option ℕ := if a * b < 2 ^ 64 then some (a * b) else none

section Crc

variable (crc : Crc)

/-- A chunk's CRC: over the tier, span, series and seq, then its bytes. -/
def chunkCrc (tier : Tier) (span : SpanStart) (id : SeriesId) (seq : ℕ)
    (bytes : List UInt8) : UInt32 :=
  crc.crc32cAppend
    (crc.crc32c (UInt8.ofNat tier.code :: beBytes 8 span ++ beBytes 4 id ++ beBytes 2 seq)) bytes

/-! ### Writing -/

def headerBytes (tier : Tier) (span : SpanStart) (count indexOffset : ℕ) : List UInt8 :=
  blockMagic ++ beBytes 1 blockFormatV1 ++ beBytes 1 tier.code ++
    beBytes 8 span ++ beBytes 4 count ++
    beBytes 8 indexOffset

def indexEntryBytes (entry : IndexEntry) : List UInt8 :=
  beBytes 4 entry.id ++ beBytes 2 entry.seq ++ beBytes 8 entry.offset ++ beBytes 4 entry.length ++
    beBytes 4 entry.crc.toNat

/-- The index entry of a chunk written at `at'`. -/
def indexEntry (tier : Tier) (span : SpanStart) (c : ChunkRef) (at' : ℕ) : IndexEntry :=
  ⟨c.id, c.seq, at', c.bytes.length, chunkCrc crc tier span c.id c.seq c.bytes⟩

def putIndexEntry (index : List UInt8) (tier : Tier) (span : SpanStart) (c : ChunkRef) (at' : ℕ) :
    List UInt8 :=
  index ++ indexEntryBytes (indexEntry crc tier span c at')

def summaryEntryBytes (entry : SummaryEntry) : List UInt8 :=
  beBytes 4 entry.first ++ beBytes 8 entry.offset ++ beBytes 4 entry.crc.toNat

/-- Per index block of 1,024 entries: its first series, its offset and its CRC. -/
def summaryBytes (index : List UInt8) (chunks : List ChunkRef) (indexOffset : ℕ) : List UInt8 :=
  let blockLen := indexBlockEntries * indexEntryLen
  ((pieces blockLen index).zip (pieces indexBlockEntries chunks)).zipIdx.flatMap
    fun ((bytes, block), i) =>
      match block with
      | [] => []
      | c :: _ => summaryEntryBytes ⟨c.id, indexOffset + i * blockLen, crc.crc32c bytes⟩

/-- The order of a file's chunks. -/
def ChunkRef.Before (a b : ChunkRef) : Prop := a.id < b.id ∨ a.id = b.id ∧ a.seq < b.seq

instance (a b : ChunkRef) : Decidable (ChunkRef.Before a b) :=
  inferInstanceAs (Decidable (_ ∨ _))

/-- The data region's and the index's bytes, the header written. -/
def putChunks (tier : Tier) (span : SpanStart) (out : List UInt8) (chunks : List ChunkRef) :
    List UInt8 × List UInt8 :=
  chunks.foldl (fun (out, index) c => (out ++ c.bytes,
    putIndexEntry crc index tier span c out.length))
    (out, [])

/-- The whole file for a span's chunks, which must come in strictly increasing order. -/
def encodeBlock (tier : Tier) (span : SpanStart) (chunks : List ChunkRef) :
    Except Unordered (List UInt8) :=
  if chunks.length < 2 ^ 32 then
    if chunks.IsChain ChunkRef.Before ∧ ∀ c ∈ chunks, c.bytes.length < 2 ^ 32 then
      let dataLen := (chunks.map fun c => c.bytes.length).sum
      let indexOffset := headerLen + dataLen
      let header := headerBytes tier span chunks.length indexOffset
      let (out, index) := putChunks crc tier span header chunks
      let summary := summaryBytes crc index chunks indexOffset
      let out := out ++ index
      let summaryOffset := out.length
      let out := out ++ summary
      let fileCrc := crc.crc32cAppend (crc.crc32c (out.take headerLen)) summary
      .ok (out ++ beBytes 8 summaryOffset ++ beBytes 4 fileCrc.toNat ++ blockMagic)
    else .error .unordered
  else .error .unordered

/-! ### Reading -/

/-- A field that ends early, or is followed by more, is malformed. -/
def orMalformedBlock {α : Type} (r : Except Short α) : Except BlockError α :=
  match r with
  | .ok a => .ok a
  | .error _ => .error .malformed

/-- The summary offset a trailer names, once its magic is checked. -/
def readTrailer (trailer : List UInt8) : Except BlockError ℕ := do
  let (offset, magic) ← orMalformedBlock do
    let (offset, r) ← (Reader.new trailer).u64
    let (_, r) ← r.u32
    let (magic, r) ← r.bytes 6
    r.finish
    .ok (offset, magic)
  if magic ≠ blockMagic then .error .badMagic else .ok offset

/-- A trailer's CRC of the header and summary. -/
def trailerCrc (trailer : List UInt8) : Except BlockError UInt32 :=
  let bytes := (trailer.drop 8).take 4
  if bytes.length = 4 then .ok (UInt32.ofNat (ofBeBytes bytes)) else .error .malformed

/-- The header's chunk count and index offset, its magic, format, tier and span checked. -/
def readHeader (tier : Tier) (span : SpanStart) (header : List UInt8) :
    Except BlockError (ℕ × ℕ) := do
  let (magic, r) ← orMalformedBlock ((Reader.new header).bytes 6)
  if magic ≠ blockMagic then .error .badMagic
  else
    let (format, r) ← orMalformedBlock r.u8
    if format ≠ blockFormatV1 then .error (.unknownFormat format)
    else
      let (code, r) ← orMalformedBlock r.u8
      if code ≠ tier.code then .error .wrongSpan
      else
        let (start, r) ← orMalformedBlock r.u64
        if start ≠ span then .error .wrongSpan
        else
          let (count, r) ← orMalformedBlock r.u32
          let (offset, r) ← orMalformedBlock r.u64
          orMalformedBlock r.finish
          .ok (count, offset)

def readSummaryEntry (bytes : List UInt8) : Except BlockError SummaryEntry :=
  orMalformedBlock do
    let (first, r) ← (Reader.new bytes).u32
    let (offset, r) ← r.u64
    let (crc, r) ← r.u32
    r.finish
    .ok ⟨first, offset, UInt32.ofNat crc⟩

def readIndexEntry (bytes : List UInt8) : Except BlockError IndexEntry :=
  orMalformedBlock do
    let (id, r) ← (Reader.new bytes).u32
    let (seq, r) ← r.u16
    let (offset, r) ← r.u64
    let (length, r) ← r.u32
    let (crc, r) ← r.u32
    r.finish
    .ok ⟨id, seq, offset, length, UInt32.ofNat crc⟩

namespace BlockSummary

/-- The header's and the summary's fields agree: the index right before the summary, one summary
entry per index block, each at its block's place, first series non-decreasing. -/
def laidOut (s : BlockSummary) : Bool :=
  let blockLen := indexBlockEntries * indexEntryLen
  let indexEnd := (checkedMul s.chunkCount indexEntryLen).bind (checkedAdd s.indexOffset)
  headerLen ≤ s.indexOffset ∧ indexEnd = some s.summaryOffset ∧
    s.entries.length = (s.chunkCount + indexBlockEntries - 1) / indexBlockEntries ∧
    (s.entries.zipIdx.all fun (e, i) =>
      (checkedMul i blockLen).bind (checkedAdd · s.indexOffset) = some e.offset) ∧
    s.entries.IsChain (fun a b => a.first ≤ b.first)

/-- The header and the summary, trailer included, of a file of `len` bytes named for `tier` and
`span`, checked against each other, the file's length and the trailer's CRC. -/
def parse (tier : Tier) (span : SpanStart) (header summaryAndTrailer : List UInt8) (len : ℕ) :
    Except BlockError BlockSummary := do
  let (chunkCount, indexOffset) ← readHeader tier span header
  if summaryAndTrailer.length < trailerLen then .error .malformed
  else
    let split := summaryAndTrailer.length - trailerLen
    let summary := summaryAndTrailer.take split
    let trailer := summaryAndTrailer.drop split
    let summaryOffset ← readTrailer trailer
    if checkedAdd summaryOffset summaryAndTrailer.length ≠ some len then .error .malformed
    else
      let fileCrc ← trailerCrc trailer
      if crc.crc32cAppend (crc.crc32c header) summary ≠ fileCrc then .error .checksum
      else if summary.length % summaryEntryLen ≠ 0 then .error .malformed
      else
        let entries ← (pieces summaryEntryLen summary).mapM readSummaryEntry
        let parsed : BlockSummary := ⟨tier, span, chunkCount, indexOffset, summaryOffset, entries⟩
        if parsed.laidOut then .ok parsed else .error .malformed

/-- The index blocks that may hold entries of `id`: those whose first series is at most `id` and
whose successor's is at least `id`. -/
def indexBlocksFor (s : BlockSummary) (id : SeriesId) : List ℕ :=
  (List.range s.entries.length).filter fun i =>
    (s.entries[i]?.any (·.first ≤ id)) && (s.entries[i + 1]?.all (id ≤ ·.first))

/-- Where index block `i` lies. -/
def indexBlock (s : BlockSummary) (i : ℕ) : Option IndexBlockRange := do
  let entry ← s.entries[i]?
  if i * indexBlockEntries ≤ s.chunkCount then
    some ⟨entry.offset, min (s.chunkCount - i * indexBlockEntries) indexBlockEntries *
      indexEntryLen⟩
  else none

/-- The order of an index block's entries. -/
def EntryBefore (a b : IndexEntry) : Prop := a.id < b.id ∨ a.id = b.id ∧ a.seq < b.seq

instance (a b : IndexEntry) : Decidable (EntryBefore a b) := inferInstanceAs (Decidable (_ ∨ _))

/-- Index block `i`'s entries, checked against its CRC, its order and the data region. -/
def decodeIndexBlock (s : BlockSummary) (i : ℕ) (bytes : List UInt8) :
    Except BlockError (List IndexEntry) :=
  match s.indexBlock i, s.entries[i]? with
  | some range, some summary =>
      if bytes.length ≠ range.len ∨ crc.crc32c bytes ≠ summary.crc then .error .checksum
      else do
        let entries ← (pieces indexEntryLen bytes).mapM readIndexEntry
        if entries.IsChain EntryBefore ∧ entries.head?.map IndexEntry.id = some summary.first ∧
            ∀ e ∈ entries, headerLen ≤ e.offset ∧ (checkedAdd e.offset e.length).any
              (· ≤ s.indexOffset) then
          .ok entries
        else .error .malformed
  | _, _ => .error .malformed

/-- A chunk's bytes, if they hash to its entry's CRC under this file's tier and span. -/
def checkChunk (s : BlockSummary) (entry : IndexEntry) (bytes : List UInt8) :
    Except BlockError (List UInt8) :=
  if bytes.length = entry.length ∧
      chunkCrc crc s.tier s.span entry.id entry.seq bytes = entry.crc then
    .ok bytes
  else .error .checksum

end BlockSummary

/-! ### Files -/

/-- `len` bytes at `offset`; a file shorter than that is damaged. -/
def readAt (file : List UInt8) (offset len : ℕ) : Except BlockError (List UInt8) :=
  if offset + len ≤ file.length then .ok ((file.drop offset).take len) else .error .malformed

/-- A series' chunks in a file, by seq, each checked against its CRC. -/
def readSeries (file : List UInt8) (summary : BlockSummary) (id : SeriesId) :
    Except BlockError (List (ℕ × List UInt8)) := do
  let blocks ← (summary.indexBlocksFor id).mapM fun i =>
    match summary.indexBlock i with
    | none => .error .malformed
    | some range => do
        let index ← readAt file range.offset range.len
        let entries ← summary.decodeIndexBlock crc i index
        (entries.filter (·.id = id)).mapM fun entry => do
          let bytes ← readAt file entry.offset entry.length
          let bytes ← summary.checkChunk crc entry bytes
          .ok (entry.seq, bytes)
  .ok blocks.flatten

end Crc

end MonitoringAgent.HubStore

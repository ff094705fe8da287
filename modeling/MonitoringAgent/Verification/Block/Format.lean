import MonitoringAgent.Library.Except
import MonitoringAgent.Model.Block.Format
import MonitoringAgent.Verification.Bytes

/-! # What the encoder lays out, and the fields read back -/

namespace MonitoringAgent.HubStore

open MonitoringAgent.Library

/-! ### Entries -/

theorem length_indexEntryBytes (e : IndexEntry) : (indexEntryBytes e).length = indexEntryLen := by
  simp [indexEntryBytes, indexEntryLen]

theorem length_summaryEntryBytes (e : SummaryEntry) :
    (summaryEntryBytes e).length = summaryEntryLen := by
  simp [summaryEntryBytes, summaryEntryLen]

theorem toNat_lt_pow (crc : UInt32) : crc.toNat < 256 ^ 4 := crc.toNat_lt

theorem readIndexEntry_bytes {e : IndexEntry} (hid : e.id < 2 ^ 32) (hseq : e.seq < 2 ^ 16)
    (hoffset : e.offset < 2 ^ 64) (hlength : e.length < 2 ^ 32) :
    readIndexEntry (indexEntryBytes e) = .ok e := by
  have hrest : indexEntryBytes e = beBytes 4 e.id ++ (beBytes 2 e.seq ++ (beBytes 8 e.offset ++
      (beBytes 4 e.length ++ (beBytes 4 e.crc.toNat ++ [])))) := by
    simp [indexEntryBytes]
  rw [readIndexEntry, hrest, Reader.new, Reader.u32, Reader.unsigned_append 4 e.id _ (by omega),
    except_ok_bind]
  dsimp only
  rw [Reader.u16, Reader.unsigned_append 2 e.seq _ (by omega), except_ok_bind]
  dsimp only
  rw [Reader.u64, Reader.unsigned_append 8 e.offset _ (by omega), except_ok_bind]
  dsimp only
  rw [Reader.u32, Reader.unsigned_append 4 e.length _ (by omega), except_ok_bind]
  dsimp only
  rw [Reader.u32, Reader.unsigned_append 4 e.crc.toNat _ (toNat_lt_pow _), except_ok_bind]
  dsimp only
  rw [UInt32.ofNat_toNat]
  rfl

theorem readSummaryEntry_bytes {e : SummaryEntry} (hfirst : e.first < 2 ^ 32)
    (hoffset : e.offset < 2 ^ 64) : readSummaryEntry (summaryEntryBytes e) = .ok e := by
  have hrest : summaryEntryBytes e =
      beBytes 4 e.first ++ (beBytes 8 e.offset ++ (beBytes 4 e.crc.toNat ++ [])) := by
    simp [summaryEntryBytes]
  rw [readSummaryEntry, hrest, Reader.new, Reader.u32, Reader.unsigned_append 4 e.first _
    (by omega), except_ok_bind]
  dsimp only
  rw [Reader.u64, Reader.unsigned_append 8 e.offset _ (by omega), except_ok_bind]
  dsimp only
  rw [Reader.u32, Reader.unsigned_append 4 e.crc.toNat _ (toNat_lt_pow _), except_ok_bind]
  dsimp only
  rw [UInt32.ofNat_toNat]
  rfl

/-! ### Header and trailer -/

theorem length_headerBytes (tier : Tier) (span : SpanStart) (count indexOffset : ℕ) :
    (headerBytes tier span count indexOffset).length = headerLen := by
  simp [headerBytes, headerLen, blockMagic]

theorem readHeader_bytes {tier : Tier} {span : SpanStart} {count indexOffset : ℕ}
    (hspan : span < 2 ^ 64) (hcount : count < 2 ^ 32) (hoffset : indexOffset < 2 ^ 64) :
    readHeader tier span (headerBytes tier span count indexOffset) = .ok (count, indexOffset) := by
  have hrest : headerBytes tier span count indexOffset = blockMagic ++ (beBytes 1 blockFormatV1 ++
      (beBytes 1 tier.code ++ (beBytes 8 span ++
        (beBytes 4 count ++ (beBytes 8 indexOffset ++ []))))) := by
    simp [headerBytes]
  have hcode : tier.code < 256 ^ 1 := by
    cases tier <;> decide
  have hmagic : ∀ rest, Reader.bytes ⟨blockMagic ++ rest⟩ 6 = .ok (blockMagic, ⟨rest⟩) :=
    Reader.bytes_append blockMagic
  rw [readHeader, hrest, Reader.new, hmagic, orMalformedBlock, except_ok_bind]
  dsimp only
  rw [if_neg (not_not.mpr rfl), Reader.u8, Reader.unsigned_append 1 blockFormatV1 _ (by decide),
    orMalformedBlock, except_ok_bind]
  dsimp only
  rw [if_neg (not_not.mpr rfl), Reader.u8, Reader.unsigned_append 1 tier.code _ hcode,
    orMalformedBlock, except_ok_bind]
  dsimp only
  rw [if_neg (not_not.mpr rfl), Reader.u64, Reader.unsigned_append 8 span _ (by exact hspan),
    orMalformedBlock, except_ok_bind]
  dsimp only
  rw [if_neg (not_not.mpr rfl), Reader.u32, Reader.unsigned_append 4 count _ (by omega),
    orMalformedBlock, except_ok_bind]
  dsimp only
  rw [Reader.u64, Reader.unsigned_append 8 indexOffset _ (by omega),
    orMalformedBlock, except_ok_bind]
  rfl

/-- A trailer's bytes. -/
def trailerBytes (summaryOffset : ℕ) (fileCrc : UInt32) : List UInt8 :=
  beBytes 8 summaryOffset ++ beBytes 4 fileCrc.toNat ++ blockMagic

theorem length_trailerBytes (summaryOffset : ℕ) (fileCrc : UInt32) :
    (trailerBytes summaryOffset fileCrc).length = trailerLen := by
  simp [trailerBytes, trailerLen, blockMagic]

theorem readTrailer_bytes {summaryOffset : ℕ} (fileCrc : UInt32) (h : summaryOffset < 2 ^ 64) :
    readTrailer (trailerBytes summaryOffset fileCrc) = .ok summaryOffset := by
  have hrest : trailerBytes summaryOffset fileCrc =
      beBytes 8 summaryOffset ++ (beBytes 4 fileCrc.toNat ++ (blockMagic ++ [])) := by
    simp [trailerBytes]
  have hmagic : Reader.bytes ⟨blockMagic ++ []⟩ 6 = .ok (blockMagic, ⟨[]⟩) :=
    Reader.bytes_append blockMagic []
  rw [readTrailer, hrest, Reader.new, Reader.u64, Reader.unsigned_append 8 summaryOffset _
    (by omega), except_ok_bind]
  dsimp only
  rw [Reader.u32, Reader.unsigned_append 4 fileCrc.toNat _ (toNat_lt_pow _), except_ok_bind]
  dsimp only
  rw [hmagic]
  rfl

theorem trailerCrc_bytes (summaryOffset : ℕ) (fileCrc : UInt32) :
    trailerCrc (trailerBytes summaryOffset fileCrc) = .ok fileCrc := by
  have hfield : ((trailerBytes summaryOffset fileCrc).drop 8).take 4 = beBytes 4 fileCrc.toNat := by
    rw [trailerBytes, List.append_assoc, List.drop_left' (length_beBytes 8 _),
      List.take_left' (length_beBytes 4 _)]
  rw [trailerCrc, hfield, length_beBytes, if_pos rfl, ofBeBytes_beBytes,
    Nat.mod_eq_of_lt (toNat_lt_pow _), UInt32.ofNat_toNat]

/-! ### The layout -/

/-- Chunks with the offsets they are written at, from `at'` on. -/
def placed : List ChunkRef → ℕ → List (ChunkRef × ℕ)
  | [], _ => []
  | c :: chunks, at' => (c, at') :: placed chunks (at' + c.bytes.length)

/-- The data region's bytes. -/
def dataBytes (chunks : List ChunkRef) : List UInt8 := chunks.flatMap ChunkRef.bytes

theorem map_fst_placed (chunks : List ChunkRef) (at' : ℕ) :
    (placed chunks at').map Prod.fst = chunks := by
  induction chunks generalizing at' with
  | nil => rfl
  | cons c chunks ih => rw [placed, List.map_cons, ih]

theorem length_placed (chunks : List ChunkRef) (at' : ℕ) :
    (placed chunks at').length = chunks.length := by
  rw [← List.length_map Prod.fst, map_fst_placed]

theorem length_dataBytes (chunks : List ChunkRef) :
    (dataBytes chunks).length = (chunks.map fun c => c.bytes.length).sum := by
  rw [dataBytes, List.length_flatMap]

/-- Where a placed chunk's bytes are, in any bytes that hold the data region at its offset. -/
theorem placed_bytes {chunks : List ChunkRef} {front : List UInt8} (rest : List UInt8)
    {p : ChunkRef × ℕ} (hp : p ∈ placed chunks front.length) :
    front.length ≤ p.2 ∧ p.2 + p.1.bytes.length ≤ (front ++ dataBytes chunks).length ∧
      ((front ++ dataBytes chunks ++ rest).drop p.2).take p.1.bytes.length = p.1.bytes := by
  induction chunks generalizing front with
  | nil => exact absurd hp List.not_mem_nil
  | cons c chunks ih =>
      have hdata : front ++ dataBytes (c :: chunks) = (front ++ c.bytes) ++ dataBytes chunks := by
        rw [dataBytes, List.flatMap_cons, ← List.append_assoc, ← dataBytes]
      rw [hdata]
      rcases List.mem_cons.mp hp with rfl | hp
      · refine ⟨le_rfl, ?_, ?_⟩
        · rw [List.length_append, List.length_append]
          exact Nat.le_add_right _ _
        · rw [List.append_assoc, List.append_assoc, List.drop_left, List.take_left]
      · rw [← List.length_append] at hp
        obtain ⟨hle, hend, hbytes⟩ := ih hp
        refine ⟨le_trans ?_ hle, hend, hbytes⟩
        rw [List.length_append]
        exact Nat.le_add_right _ _

section Layout

variable (crc : Crc) (tier : Tier) (span : SpanStart)

/-- A placed chunk's index entry. -/
def placedEntry (p : ChunkRef × ℕ) : IndexEntry := indexEntry crc tier span p.1 p.2

/-- The index's bytes of placed chunks. -/
def indexBytes (ps : List (ChunkRef × ℕ)) : List UInt8 :=
  ps.flatMap fun p => indexEntryBytes (placedEntry crc tier span p)

theorem length_indexBytes (ps : List (ChunkRef × ℕ)) :
    (indexBytes crc tier span ps).length = ps.length * indexEntryLen :=
  length_flatMap_const (fun _ => length_indexEntryBytes _) ps

theorem putChunks_eq (out : List UInt8) (chunks : List ChunkRef) :
    putChunks crc tier span out chunks =
      (out ++ dataBytes chunks, indexBytes crc tier span (placed chunks out.length)) := by
  suffices h : ∀ (out index : List UInt8),
      chunks.foldl (fun s c => (s.1 ++ c.bytes, putIndexEntry crc s.2 tier span c s.1.length))
        (out, index) = (out ++ dataBytes chunks, index ++ indexBytes crc tier span
          (placed chunks out.length)) by
    rw [← List.nil_append (indexBytes crc tier span (placed chunks out.length))]
    exact h out []
  intro out index
  induction chunks generalizing out index with
  | nil => simp [dataBytes, indexBytes, placed]
  | cons c chunks ih =>
      rw [List.foldl_cons, ih, putIndexEntry, List.length_append, placed]
      simp only [dataBytes, indexBytes, placedEntry, List.flatMap_cons, List.append_assoc]

/-- One index block's summary entry. -/
def blockEntry (indexOffset : ℕ) (block : List (ChunkRef × ℕ)) (i : ℕ) : SummaryEntry where
  first := (block.head?.map (·.1.id)).getD 0
  offset := indexOffset + i * (indexBlockEntries * indexEntryLen)
  crc := crc.crc32c (indexBytes crc tier span block)

/-- The summary's entries, one per index block. -/
def blockEntries (indexOffset : ℕ) (ps : List (ChunkRef × ℕ)) : List SummaryEntry :=
  (pieces indexBlockEntries ps).zipIdx.map fun (block, i) =>
    blockEntry crc tier span indexOffset block i

theorem summaryBytes_eq (chunks : List ChunkRef) (at' indexOffset : ℕ) :
    summaryBytes crc (indexBytes crc tier span (placed chunks at')) chunks indexOffset =
      (blockEntries crc tier span indexOffset (placed chunks at')).flatMap summaryEntryBytes := by
  have hindex : pieces (indexBlockEntries * indexEntryLen)
      (indexBytes crc tier span (placed chunks at')) =
      (pieces indexBlockEntries (placed chunks at')).map (indexBytes crc tier span) :=
    pieces_flatMap (by decide) (fun _ => length_indexEntryBytes _) (by decide) _
  have hchunks : pieces indexBlockEntries chunks =
      (pieces indexBlockEntries (placed chunks at')).map (List.map Prod.fst) := by
    rw [← pieces_map, map_fst_placed]
  rw [summaryBytes, hindex, hchunks, List.zip_map', List.zipIdx_map, List.flatMap_map, blockEntries,
    List.flatMap_map]
  refine List.flatMap_congr fun x hx => ?_
  obtain ⟨block, i⟩ := x
  have hblock := piece_ne_nil (by decide) (List.fst_mem_of_mem_zipIdx hx)
  cases block with
  | nil => exact absurd rfl hblock
  | cons p block => rfl

/-! ### The file -/

/-- What a file of `chunks` says of itself. -/
def writtenSummary (chunks : List ChunkRef) : BlockSummary where
  tier := tier
  span := span
  chunkCount := chunks.length
  indexOffset := headerLen + (dataBytes chunks).length
  summaryOffset := headerLen + (dataBytes chunks).length + chunks.length * indexEntryLen
  entries := blockEntries crc tier span (headerLen + (dataBytes chunks).length)
    (placed chunks headerLen)

/-- The header of a file of `chunks`. -/
def writtenHeader (chunks : List ChunkRef) : List UInt8 :=
  headerBytes tier span chunks.length (headerLen + (dataBytes chunks).length)

theorem length_writtenHeader (chunks : List ChunkRef) :
    (writtenHeader tier span chunks).length = headerLen :=
  length_headerBytes _ _ _ _

/-- The summary's bytes of a file of `chunks`. -/
def writtenSummaryBytes (chunks : List ChunkRef) : List UInt8 :=
  (writtenSummary crc tier span chunks).entries.flatMap summaryEntryBytes

/-- The summary and the trailer of a file of `chunks`. -/
def writtenTail (chunks : List ChunkRef) : List UInt8 :=
  writtenSummaryBytes crc tier span chunks ++
    trailerBytes (writtenSummary crc tier span chunks).summaryOffset
      (crc.crc32cAppend (crc.crc32c (writtenHeader tier span chunks))
        (writtenSummaryBytes crc tier span chunks))

/-- The file of `chunks`. -/
def writtenFile (chunks : List ChunkRef) : List UInt8 :=
  writtenHeader tier span chunks ++ dataBytes chunks ++
    indexBytes crc tier span (placed chunks headerLen) ++ writtenTail crc tier span chunks

theorem encodeBlock_eq {chunks : List ChunkRef} (hcount : chunks.length < 2 ^ 32)
    (hordered : chunks.IsChain ChunkRef.Before) (hlengths : ∀ c ∈ chunks, c.bytes.length < 2 ^ 32) :
    encodeBlock crc tier span chunks = .ok (writtenFile crc tier span chunks) := by
  have hheader := length_writtenHeader tier span chunks
  have hsummary : summaryBytes crc (indexBytes crc tier span (placed chunks headerLen)) chunks
      (headerLen + (dataBytes chunks).length) = writtenSummaryBytes crc tier span chunks :=
    summaryBytes_eq crc tier span chunks headerLen _
  have htake : ((writtenHeader tier span chunks ++ dataBytes chunks ++
      indexBytes crc tier span (placed chunks headerLen)) ++
        writtenSummaryBytes crc tier span chunks).take
        headerLen = writtenHeader tier span chunks := by
    rw [List.append_assoc, List.append_assoc, List.take_left' hheader]
  have hoffset : (writtenHeader tier span chunks ++ dataBytes chunks ++
      indexBytes crc tier span (placed chunks headerLen)).length =
        (writtenSummary crc tier span chunks).summaryOffset := by
    rw [List.length_append, List.length_append, hheader, length_indexBytes, length_placed]
    rfl
  rw [encodeBlock, if_pos hcount, if_pos ⟨hordered, hlengths⟩]
  dsimp only
  rw [← length_dataBytes, ← writtenHeader, putChunks_eq, hheader]
  dsimp only
  rw [hsummary, htake, hoffset, writtenFile, writtenTail, trailerBytes]
  simp only [List.append_assoc]

end Layout

end MonitoringAgent.HubStore

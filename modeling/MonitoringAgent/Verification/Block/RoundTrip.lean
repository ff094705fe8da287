import MonitoringAgent.Verification.Block.Format

/-! # A block file read back through its sparse index -/

namespace MonitoringAgent.HubStore

open MonitoringAgent.Library

theorem ChunkRef.Before.trans {a b c : ChunkRef} (hab : a.Before b) (hbc : b.Before c) :
    a.Before c := by
  rcases hab with hab | ⟨hab, hseq⟩
  · rcases hbc with hbc | ⟨hbc, -⟩
    · exact .inl (hab.trans hbc)
    · exact .inl (hab.trans_eq hbc)
  · rcases hbc with hbc | ⟨hbc, hseq'⟩
    · exact .inl (hab.trans_lt hbc)
    · exact .inr ⟨hab.trans hbc, hseq.trans hseq'⟩

theorem ChunkRef.Before.id_le {a b : ChunkRef} (h : a.Before b) : a.id ≤ b.id := by
  rcases h with h | ⟨h, -⟩
  · exact h.le
  · exact h.le

instance : IsTrans ChunkRef ChunkRef.Before := ⟨fun _ _ _ => ChunkRef.Before.trans⟩

section Written

variable {crc : Crc} {tier : Tier} {span : SpanStart} {chunks : List ChunkRef}

/-! ### Offsets -/

theorem length_writtenSummaryBytes :
    (writtenSummaryBytes crc tier span chunks).length =
      (writtenSummary crc tier span chunks).entries.length * summaryEntryLen :=
  length_flatMap_const length_summaryEntryBytes _

theorem length_writtenFile :
    (writtenFile crc tier span chunks).length =
      (writtenSummary crc tier span chunks).summaryOffset +
        (writtenTail crc tier span chunks).length := by
  rw [writtenFile, List.length_append, List.length_append, List.length_append, length_indexBytes,
    length_placed, length_writtenHeader]
  rfl

theorem take_writtenFile :
    (writtenFile crc tier span chunks).take headerLen = writtenHeader tier span chunks := by
  rw [writtenFile, List.append_assoc, List.append_assoc,
    List.take_left' (length_writtenHeader _ _ _)]

theorem drop_writtenFile :
    (writtenFile crc tier span chunks).drop (writtenSummary crc tier span chunks).summaryOffset =
      writtenTail crc tier span chunks := by
  rw [writtenFile, List.drop_left']
  rw [List.length_append, List.length_append, length_indexBytes, length_placed,
    length_writtenHeader]
  rfl

theorem length_writtenTail :
    (writtenTail crc tier span chunks).length =
      (writtenSummaryBytes crc tier span chunks).length + trailerLen := by
  rw [writtenTail, List.length_append, length_trailerBytes]

/-- Every offset of a file is at most its length. -/
theorem summaryOffset_lt (hfile : (writtenFile crc tier span chunks).length < 2 ^ 64) :
    (writtenSummary crc tier span chunks).summaryOffset < 2 ^ 64 :=
  lt_of_le_of_lt (by rw [length_writtenFile]; exact Nat.le_add_right _ _) hfile

theorem indexOffset_lt (hfile : (writtenFile crc tier span chunks).length < 2 ^ 64) :
    (writtenSummary crc tier span chunks).indexOffset < 2 ^ 64 :=
  lt_of_le_of_lt (Nat.le_add_right _ _) (summaryOffset_lt hfile)

/-! ### Index blocks -/

/-- The chunks of index block `i`, with their offsets. -/
theorem getElem?_entries (i : ℕ) :
    (writtenSummary crc tier span chunks).entries[i]? =
      ((pieces indexBlockEntries (placed chunks headerLen))[i]?).map fun block =>
        blockEntry crc tier span (headerLen + (dataBytes chunks).length) block i := by
  rw [writtenSummary, blockEntries, List.getElem?_map, List.getElem?_zipIdx]
  cases (pieces indexBlockEntries (placed chunks headerLen))[i]? with
  | none => rfl
  | some block => simp

theorem length_entries :
    (writtenSummary crc tier span chunks).entries.length =
      (chunks.length + indexBlockEntries - 1) / indexBlockEntries := by
  rw [writtenSummary, blockEntries, List.length_map, List.length_zipIdx,
    length_pieces, length_placed]

/-- An index block starts inside the index. -/
theorem mul_lt_of_block {i : ℕ} {block : List (ChunkRef × ℕ)}
    (h : (pieces indexBlockEntries (placed chunks headerLen))[i]? = some block) :
    i * indexBlockEntries < chunks.length ∧
      block = ((placed chunks headerLen).drop (i * indexBlockEntries)).take indexBlockEntries := by
  rw [getElem?_pieces (by decide), length_placed] at h
  split_ifs at h with hlt
  exact ⟨hlt, (Option.some.inj h).symm⟩

theorem placed_of_block {i : ℕ} {block : List (ChunkRef × ℕ)}
    (h : (pieces indexBlockEntries (placed chunks headerLen))[i]? = some block) {p : ChunkRef × ℕ}
    (hp : p ∈ block) : p ∈ placed chunks headerLen := by
  obtain ⟨-, rfl⟩ := mul_lt_of_block h
  exact List.mem_of_mem_drop (List.mem_of_mem_take hp)

variable (crc tier span) in
/-- An index block lies before the summary. -/
theorem block_le {i : ℕ} {block : List (ChunkRef × ℕ)}
    (h : (pieces indexBlockEntries (placed chunks headerLen))[i]? = some block) :
    headerLen + (dataBytes chunks).length + i * (indexBlockEntries * indexEntryLen) ≤
      (writtenSummary crc tier span chunks).summaryOffset := by
  obtain ⟨hlt, -⟩ := mul_lt_of_block h
  rw [writtenSummary, ← Nat.mul_assoc]
  exact Nat.add_le_add_left (Nat.mul_le_mul_right _ hlt.le) _

/-! ### The order -/

theorem pairwise_placed (hordered : chunks.IsChain ChunkRef.Before) :
    (placed chunks headerLen).Pairwise fun a b => a.1.Before b.1 := by
  have hpairwise := List.isChain_iff_pairwise.mp hordered
  rw [← map_fst_placed chunks headerLen, List.pairwise_map] at hpairwise
  exact hpairwise

/-- A chunk written before another has no greater series. -/
theorem placed_id_le (hordered : chunks.IsChain ChunkRef.Before) {i j : ℕ} (hij : i ≤ j)
    {p q : ChunkRef × ℕ} (hp : (placed chunks headerLen)[i]? = some p)
    (hq : (placed chunks headerLen)[j]? = some q) : p.1.id ≤ q.1.id := by
  rcases hij.eq_or_lt with rfl | hlt
  · rw [hp] at hq
    obtain rfl := Option.some.inj hq
    exact le_rfl
  · obtain ⟨hi, rfl⟩ := List.getElem?_eq_some_iff.mp hp
    obtain ⟨hj, rfl⟩ := List.getElem?_eq_some_iff.mp hq
    exact (List.pairwise_iff_getElem.mp (pairwise_placed hordered) i j hi hj hlt).id_le

variable (crc tier span) in
/-- An index block's first series is that of the first chunk in it. -/
theorem first_of_block {i : ℕ} {block : List (ChunkRef × ℕ)}
    (h : (pieces indexBlockEntries (placed chunks headerLen))[i]? = some block) :
    ∃ p, (placed chunks headerLen)[i * indexBlockEntries]? = some p ∧ block.head? = some p ∧
      ∀ indexOffset, (blockEntry crc tier span indexOffset block i).first = p.1.id := by
  obtain ⟨hlt, rfl⟩ := mul_lt_of_block h
  rw [← length_placed chunks headerLen] at hlt
  have hhead :
      (((placed chunks headerLen).drop (i * indexBlockEntries)).take indexBlockEntries).head? =
      some (placed chunks headerLen)[i * indexBlockEntries] := by
    rw [List.head?_take, if_neg (by decide), List.head?_drop, List.getElem?_eq_getElem hlt]
  refine ⟨_, List.getElem?_eq_getElem hlt, hhead, fun indexOffset => ?_⟩
  rw [blockEntry, hhead]
  rfl

/-- Where the chunks of an index block stand among all. -/
theorem mem_block {i : ℕ} {block : List (ChunkRef × ℕ)}
    (h : (pieces indexBlockEntries (placed chunks headerLen))[i]? = some block) {p : ChunkRef × ℕ}
    (hp : p ∈ block) :
    ∃ k, i * indexBlockEntries ≤ k ∧ k ≤ (i + 1) * indexBlockEntries ∧
      (placed chunks headerLen)[k]? = some p := by
  obtain ⟨-, rfl⟩ := mul_lt_of_block h
  obtain ⟨k, hk⟩ := List.getElem?_of_mem hp
  rw [List.getElem?_take] at hk
  split_ifs at hk with hlt
  rw [List.getElem?_drop] at hk
  exact ⟨_, Nat.le_add_right _ _, by rw [Nat.succ_mul]; omega, hk⟩

/-! ### The summary -/

theorem summary_inRange (hfile : (writtenFile crc tier span chunks).length < 2 ^ 64)
    {e : SummaryEntry} (he : e ∈ (writtenSummary crc tier span chunks).entries) :
    e.first < 2 ^ 32 ∧ e.offset < 2 ^ 64 := by
  obtain ⟨i, hi⟩ := List.getElem?_of_mem he
  rw [getElem?_entries] at hi
  obtain ⟨block, hblock, rfl⟩ := Option.map_eq_some_iff.mp hi
  obtain ⟨p, -, -, hfirst⟩ := first_of_block crc tier span hblock
  rw [hfirst]
  exact ⟨p.1.inRange.1, lt_of_le_of_lt (block_le crc tier span hblock) (summaryOffset_lt hfile)⟩

theorem laidOut_written (hordered : chunks.IsChain ChunkRef.Before)
    (hfile : (writtenFile crc tier span chunks).length < 2 ^ 64) :
    (writtenSummary crc tier span chunks).laidOut = true := by
  have hend := summaryOffset_lt hfile
  have hsum : (writtenSummary crc tier span chunks).indexOffset + chunks.length * indexEntryLen =
      (writtenSummary crc tier span chunks).summaryOffset := rfl
  rw [BlockSummary.laidOut, decide_eq_true_eq]
  refine ⟨Nat.le_add_right _ _, ?_, length_entries, ?_, ?_⟩
  · have hmul : checkedMul chunks.length indexEntryLen = some (chunks.length * indexEntryLen) := by
      rw [checkedMul, if_pos (by omega)]
    change (checkedMul chunks.length indexEntryLen).bind _ = _
    rw [hmul, Option.bind_some, checkedAdd, if_pos (by omega), hsum]
  · rw [List.all_eq_true]
    rintro ⟨e, i⟩ he
    rw [List.mk_mem_zipIdx_iff_getElem?, getElem?_entries] at he
    obtain ⟨block, hblock, rfl⟩ := Option.map_eq_some_iff.mp he
    have hle := block_le crc tier span hblock
    change headerLen + (dataBytes chunks).length + _ ≤ _ at hle
    have hmul : checkedMul i (indexBlockEntries * indexEntryLen) =
        some (i * (indexBlockEntries * indexEntryLen)) := by
      rw [checkedMul, if_pos (by omega)]
    dsimp only
    rw [hmul, Option.bind_some, checkedAdd, decide_eq_true_eq]
    change (if _ + (headerLen + (dataBytes chunks).length) < 2 ^ 64 then _ else _) = _
    rw [if_pos (by omega), Nat.add_comm]
    rfl
  · rw [List.isChain_iff_getElem]
    intro i hi
    have hthis := List.getElem?_eq_getElem (Nat.lt_of_succ_lt hi)
    have hnext := List.getElem?_eq_getElem hi
    rw [getElem?_entries] at hthis hnext
    obtain ⟨block, hblock, hthis⟩ := Option.map_eq_some_iff.mp hthis
    obtain ⟨block', hblock', hnext⟩ := Option.map_eq_some_iff.mp hnext
    obtain ⟨p, hp, -, hfirst⟩ := first_of_block crc tier span hblock
    obtain ⟨q, hq, -, hfirst'⟩ := first_of_block crc tier span hblock'
    rw [← hthis, ← hnext, hfirst, hfirst']
    exact placed_id_le hordered (Nat.mul_le_mul_right _ (Nat.le_succ i)) hp hq

/-- The summary is accepted. -/
theorem parse_written (hspan : span < 2 ^ 64) (hcount : chunks.length < 2 ^ 32)
    (hordered : chunks.IsChain ChunkRef.Before)
    (hfile : (writtenFile crc tier span chunks).length < 2 ^ 64) :
    BlockSummary.parse crc tier span (writtenHeader tier span chunks)
      (writtenTail crc tier span chunks)
      (writtenFile crc tier span chunks).length = .ok (writtenSummary crc tier span chunks) := by
  have hheader : readHeader tier span (writtenHeader tier span chunks) =
      .ok (chunks.length, (writtenSummary crc tier span chunks).indexOffset) :=
    readHeader_bytes hspan hcount (indexOffset_lt hfile)
  have hsplit : (writtenTail crc tier span chunks).length - trailerLen =
      (writtenSummaryBytes crc tier span chunks).length := by
    rw [length_writtenTail, Nat.add_sub_cancel]
  have htake : (writtenTail crc tier span chunks).take
      (writtenSummaryBytes crc tier span chunks).length =
      writtenSummaryBytes crc tier span chunks := by
    rw [writtenTail, List.take_left]
  have hdrop : (writtenTail crc tier span chunks).drop
      (writtenSummaryBytes crc tier span chunks).length =
      trailerBytes (writtenSummary crc tier span chunks).summaryOffset (crc.crc32cAppend
        (crc.crc32c (writtenHeader tier span chunks))
        (writtenSummaryBytes crc tier span chunks)) := by
    rw [writtenTail, List.drop_left]
  have hlen : checkedAdd (writtenSummary crc tier span chunks).summaryOffset
      (writtenTail crc tier span chunks).length = some
        (writtenFile crc tier span chunks).length := by
    rw [checkedAdd, ← length_writtenFile, if_pos hfile]
  have hentries : (pieces summaryEntryLen (writtenSummaryBytes crc tier span chunks)).mapM
      readSummaryEntry = .ok (writtenSummary crc tier span chunks).entries := by
    have hread : ∀ e ∈ (writtenSummary crc tier span chunks).entries,
        (readSummaryEntry ∘ summaryEntryBytes) e = .ok (id e) := fun e he =>
      readSummaryEntry_bytes (summary_inRange hfile he).1 (summary_inRange hfile he).2
    rw [writtenSummaryBytes, pieces_flatMap_one length_summaryEntryBytes (by decide), List.mapM_map,
      except_mapM_ok hread, List.map_id]
  rw [BlockSummary.parse, hheader, except_ok_bind]
  dsimp only
  rw [if_neg (by rw [length_writtenTail]; omega), hsplit, htake, hdrop,
    readTrailer_bytes _ (summaryOffset_lt hfile), except_ok_bind, if_neg (not_not.mpr hlen),
    trailerCrc_bytes, except_ok_bind, if_neg (not_not.mpr rfl), if_neg, hentries, except_ok_bind]
  · exact if_pos (laidOut_written hordered hfile)
  · rw [length_writtenSummaryBytes, Nat.mul_mod_left]
    exact not_not.mpr rfl

/-! ### One index block -/

theorem readAt_append (front bytes rest : List UInt8) :
    readAt (front ++ bytes ++ rest) front.length bytes.length = .ok bytes := by
  rw [readAt, if_pos (by rw [List.length_append, List.length_append]; omega), List.append_assoc,
    List.drop_left, List.take_left]

variable (crc tier span) in
/-- Where a placed chunk lies in the file. -/
theorem placed_written {p : ChunkRef × ℕ} (hp : p ∈ placed chunks headerLen) :
    headerLen ≤ p.2 ∧ p.2 + p.1.bytes.length ≤ (writtenSummary crc tier span chunks).indexOffset ∧
      readAt (writtenFile crc tier span chunks) p.2 p.1.bytes.length = .ok p.1.bytes := by
  rw [← length_writtenHeader tier span chunks] at hp
  obtain ⟨hle, hend, hbytes⟩ := placed_bytes
    (indexBytes crc tier span (placed chunks headerLen) ++ writtenTail crc tier span chunks) hp
  rw [length_writtenHeader] at hle
  rw [List.length_append, length_writtenHeader] at hend
  refine ⟨hle, hend, ?_⟩
  rw [readAt, if_pos, writtenFile, List.append_assoc _ (indexBytes _ _ _ _), hbytes]
  rw [length_writtenFile]
  exact hend.trans (Nat.le_add_right_of_le (Nat.le_add_right _ _))

theorem readIndexEntry_placed (hlengths : ∀ c ∈ chunks, c.bytes.length < 2 ^ 32)
    (hfile : (writtenFile crc tier span chunks).length < 2 ^ 64) {p : ChunkRef × ℕ}
    (hp : p ∈ placed chunks headerLen) :
    readIndexEntry (indexEntryBytes (placedEntry crc tier span p)) =
      .ok (placedEntry crc tier span p) := by
  have hmem : p.1 ∈ chunks := by
    rw [← map_fst_placed chunks headerLen]
    exact List.mem_map_of_mem hp
  obtain ⟨-, hend, -⟩ := placed_written crc tier span hp
  have hindex := indexOffset_lt hfile
  refine readIndexEntry_bytes p.1.inRange.1 p.1.inRange.2 ?_ (hlengths p.1 hmem)
  change p.2 < 2 ^ 64
  omega

section Block

variable {i : ℕ} {block : List (ChunkRef × ℕ)}

theorem length_block (h : (pieces indexBlockEntries (placed chunks headerLen))[i]? = some block) :
    block.length = min (chunks.length - i * indexBlockEntries) indexBlockEntries := by
  obtain ⟨-, rfl⟩ := mul_lt_of_block h
  rw [List.length_take, List.length_drop, length_placed, min_comm]

theorem indexBlock_written
    (h : (pieces indexBlockEntries (placed chunks headerLen))[i]? = some block) :
    (writtenSummary crc tier span chunks).indexBlock i =
      some ⟨headerLen + (dataBytes chunks).length + i * (indexBlockEntries * indexEntryLen),
        block.length * indexEntryLen⟩ := by
  obtain ⟨hlt, -⟩ := mul_lt_of_block h
  rw [BlockSummary.indexBlock, getElem?_entries, h]
  change (if i * indexBlockEntries ≤ chunks.length then _ else _) = _
  rw [if_pos hlt.le, length_block h]
  rfl

theorem readAt_block (h : (pieces indexBlockEntries (placed chunks headerLen))[i]? = some block) :
    readAt (writtenFile crc tier span chunks)
      (headerLen + (dataBytes chunks).length + i * (indexBlockEntries * indexEntryLen))
      (block.length * indexEntryLen) = .ok (indexBytes crc tier span block) := by
  obtain ⟨hlt, hblock⟩ := mul_lt_of_block h
  have hplaced : placed chunks headerLen = (placed chunks headerLen).take (i * indexBlockEntries) ++
      (block ++ (placed chunks headerLen).drop (i * indexBlockEntries + indexBlockEntries)) := by
    rw [hblock, ← List.drop_drop, List.take_append_drop, List.take_append_drop]
  have hindex : indexBytes crc tier span (placed chunks headerLen) =
      indexBytes crc tier span ((placed chunks headerLen).take (i * indexBlockEntries)) ++
        (indexBytes crc tier span block ++
          indexBytes crc tier span ((placed chunks headerLen).drop
            (i * indexBlockEntries + indexBlockEntries))) := by
    conv_lhs => rw [hplaced]
    simp only [indexBytes, List.flatMap_append]
  have hread := readAt_append (writtenHeader tier span chunks ++ dataBytes chunks ++
      indexBytes crc tier span ((placed chunks headerLen).take (i * indexBlockEntries)))
    (indexBytes crc tier span block)
    (indexBytes crc tier span
      ((placed chunks headerLen).drop (i * indexBlockEntries + indexBlockEntries)) ++
      writtenTail crc tier span chunks)
  rw [length_indexBytes, List.length_append, List.length_append, length_writtenHeader,
    length_indexBytes, List.length_take, length_placed, min_eq_left hlt.le, Nat.mul_assoc] at hread
  rw [writtenFile, hindex, ← hread]
  simp only [List.append_assoc]

/-- An index block is decoded to the entries of its chunks. -/
theorem decodeIndexBlock_written (hordered : chunks.IsChain ChunkRef.Before)
    (hlengths : ∀ c ∈ chunks, c.bytes.length < 2 ^ 32)
    (hfile : (writtenFile crc tier span chunks).length < 2 ^ 64)
    (h : (pieces indexBlockEntries (placed chunks headerLen))[i]? = some block) :
    (writtenSummary crc tier span chunks).decodeIndexBlock crc i (indexBytes crc tier span block) =
      .ok (block.map (placedEntry crc tier span)) := by
  have hentry : (writtenSummary crc tier span chunks).entries[i]? =
      some (blockEntry crc tier span (headerLen + (dataBytes chunks).length) block i) := by
    rw [getElem?_entries, h]
    rfl
  have hread : ∀ p ∈ block,
      (readIndexEntry ∘ fun p => indexEntryBytes (placedEntry crc tier span p)) p =
        .ok (placedEntry crc tier span p) := fun p hp =>
    readIndexEntry_placed hlengths hfile (placed_of_block h hp)
  rw [BlockSummary.decodeIndexBlock, indexBlock_written h, hentry]
  dsimp only
  rw [if_neg, indexBytes, pieces_flatMap_one (fun _ => length_indexEntryBytes _) (by decide),
    List.mapM_map, except_mapM_ok hread, except_ok_bind, if_pos]
  · refine ⟨?_, ?_, fun e he => ?_⟩
    · have hsub : block.Sublist (placed chunks headerLen) := by
        obtain ⟨-, rfl⟩ := mul_lt_of_block h
        exact (List.take_sublist _ _).trans (List.drop_sublist _ _)
      exact List.Pairwise.isChain (List.pairwise_map.mpr ((pairwise_placed hordered).sublist hsub))
    · obtain ⟨p, -, hhead, hfirst⟩ := first_of_block crc tier span h
      rw [List.head?_map, hhead, hfirst]
      rfl
    · obtain ⟨p, hp, rfl⟩ := List.mem_map.mp he
      obtain ⟨hle, hend, -⟩ := placed_written crc tier span (placed_of_block h hp)
      have hindex := indexOffset_lt hfile
      refine ⟨hle, ?_⟩
      change (checkedAdd p.2 p.1.bytes.length).any _ = true
      rw [checkedAdd, if_pos (by omega)]
      simpa using hend
  · rw [length_indexBytes]
    rintro (hlen | hcrc)
    · exact hlen rfl
    · exact hcrc rfl

end Block

/-! ### The search -/

variable (crc tier span) in
/-- An index block the search passes over holds no chunk of the series. -/
theorem passed_over (hordered : chunks.IsChain ChunkRef.Before) {i : ℕ}
    {block : List (ChunkRef × ℕ)}
    (h : (pieces indexBlockEntries (placed chunks headerLen))[i]? = some block) {id : SeriesId}
    (hpassed : i ∉ (writtenSummary crc tier span chunks).indexBlocksFor id) :
    block.filter (·.1.id = id) = [] := by
  obtain ⟨first, hfirstAt, -, hfirst⟩ := first_of_block crc tier span h
  have hentry : (writtenSummary crc tier span chunks).entries[i]? =
      some (blockEntry crc tier span (headerLen + (dataBytes chunks).length) block i) := by
    rw [getElem?_entries, h]
    rfl
  have hrange : i < (writtenSummary crc tier span chunks).entries.length :=
    (List.getElem?_eq_some_iff.mp hentry).1
  rw [List.filter_eq_nil_iff]
  intro p hp hid
  rw [decide_eq_true_eq] at hid
  obtain ⟨k, hlow, hhigh, hk⟩ := mem_block h hp
  -- It starts at or before the series: the chunk is no earlier than the block's first.
  have hstart : (blockEntry crc tier span (headerLen + (dataBytes chunks).length) block i).first ≤
      id := by
    rw [hfirst, ← hid]
    exact placed_id_le hordered hlow hfirstAt hk
  refine hpassed (List.mem_filter.mpr ⟨List.mem_range.mpr hrange, ?_⟩)
  rw [hentry, Option.any_some, decide_eq_true hstart, Bool.true_and, getElem?_entries]
  cases hnext : (pieces indexBlockEntries (placed chunks headerLen))[i + 1]? with
  | none => rfl
  | some next =>
      obtain ⟨q, hq, -, hfirst'⟩ := first_of_block crc tier span hnext
      rw [Option.map_some, Option.all_some, hfirst', decide_eq_true_eq, ← hid]
      exact placed_id_le hordered hhigh hk hq

/-- What reading index block `i` gives of a series. -/
def seriesIn (chunks : List ChunkRef) (id : SeriesId) (i : ℕ) : List (ℕ × List UInt8) :=
  (((pieces indexBlockEntries (placed chunks headerLen))[i]?.getD []).filter (·.1.id = id)).map
    fun p => (p.1.seq, p.1.bytes)

/-- The index blocks the search names hold all of the series. -/
theorem seriesIn_flatten (hordered : chunks.IsChain ChunkRef.Before) (id : SeriesId) :
    (((writtenSummary crc tier span chunks).indexBlocksFor id).map (seriesIn chunks id)).flatten =
      (chunks.filter (·.id = id)).map fun c => (c.seq, c.bytes) := by
  have hlength : (writtenSummary crc tier span chunks).entries.length =
      (pieces indexBlockEntries (placed chunks headerLen)).length := by
    rw [length_entries, length_pieces, length_placed]
  have hall : (((writtenSummary crc tier span chunks).indexBlocksFor id).map
      (seriesIn chunks id)).flatten =
      ((List.range (pieces indexBlockEntries (placed chunks headerLen)).length).map
        (seriesIn chunks id)).flatten := by
    rw [← List.flatMap_def, ← List.flatMap_def, BlockSummary.indexBlocksFor, hlength]
    refine flatMap_filter_of_nil fun i hi hpassed => ?_
    have h := List.getElem?_eq_getElem (List.mem_range.mp hi)
    rw [seriesIn, h, Option.getD_some, passed_over crc tier span hordered h, List.map_nil]
    intro hmem
    exact hpassed (List.mem_filter.mp hmem).2
  have hblocks : (List.range (pieces indexBlockEntries (placed chunks headerLen)).length).map
      (fun i => (pieces indexBlockEntries (placed chunks headerLen))[i]?.getD []) =
        pieces indexBlockEntries (placed chunks headerLen) := by
    refine List.ext_getElem (by simp) fun i hi hi' => ?_
    rw [List.getElem_map, List.getElem_range, List.getElem?_eq_getElem hi', Option.getD_some]
  have hseries : seriesIn chunks id = List.map (fun p => (p.1.seq, p.1.bytes)) ∘
      List.filter (fun p : ChunkRef × ℕ => p.1.id = id) ∘
      fun i => (pieces indexBlockEntries (placed chunks headerLen))[i]?.getD [] := rfl
  rw [hall, hseries, ← List.map_map, ← List.map_map, hblocks, ← List.map_flatten,
    ← List.filter_flatten, flatten_pieces (by decide)]
  conv_rhs => rw [← map_fst_placed chunks headerLen]
  rw [List.filter_map, List.map_map]
  rfl

theorem readSeries_written (hordered : chunks.IsChain ChunkRef.Before)
    (hlengths : ∀ c ∈ chunks, c.bytes.length < 2 ^ 32)
    (hfile : (writtenFile crc tier span chunks).length < 2 ^ 64) (id : SeriesId) :
    readSeries crc (writtenFile crc tier span chunks) (writtenSummary crc tier span chunks) id =
      .ok ((chunks.filter (·.id = id)).map fun c => (c.seq, c.bytes)) := by
  rw [readSeries, except_mapM_ok (g := seriesIn chunks id), except_ok_bind,
    seriesIn_flatten hordered]
  intro i hi
  have hrange := List.mem_range.mp (List.mem_filter.mp hi).1
  rw [length_entries, ← length_placed chunks headerLen, ← length_pieces] at hrange
  have h := List.getElem?_eq_getElem hrange
  generalize (pieces indexBlockEntries (placed chunks headerLen))[i] = block at h
  rw [indexBlock_written h]
  dsimp only
  rw [readAt_block h, except_ok_bind, decodeIndexBlock_written hordered hlengths hfile h,
    except_ok_bind, List.filter_map, List.mapM_map, seriesIn, h, Option.getD_some]
  refine except_mapM_ok fun p hp => ?_
  obtain ⟨-, -, hread⟩ := placed_written crc tier span
    (placed_of_block h (List.mem_of_mem_filter hp))
  change (readAt _ p.2 p.1.bytes.length >>= _) = _
  rw [hread, except_ok_bind]
  rw [BlockSummary.checkChunk, if_pos ⟨rfl, rfl⟩, except_ok_bind]
  rfl

theorem readTrailer_written (hfile : (writtenFile crc tier span chunks).length < 2 ^ 64) :
    readTrailer ((writtenFile crc tier span chunks).drop
      ((writtenFile crc tier span chunks).length - trailerLen)) =
      .ok (writtenSummary crc tier span chunks).summaryOffset := by
  have hlength : (writtenFile crc tier span chunks).length - trailerLen =
      (writtenSummary crc tier span chunks).summaryOffset +
        (writtenSummaryBytes crc tier span chunks).length := by
    rw [length_writtenFile, length_writtenTail]
    omega
  rw [hlength, ← List.drop_drop, drop_writtenFile, writtenTail, List.drop_left]
  exact readTrailer_bytes _ (summaryOffset_lt hfile)

end Written

/-- Fewer than 2³² chunks in strictly increasing order are written, the file's header and summary
are accepted, and each series, present or not, is read back whole through the index blocks the
search names; chunks out of order are refused. A file has fewer than 2⁶⁴ bytes. -/
theorem block_round_trip (crc : Crc) (tier : Tier) (span : SpanStart) (chunks : List ChunkRef) :
    (span < 2 ^ 64 → chunks.length < 2 ^ 32 → chunks.IsChain ChunkRef.Before →
      (∀ c ∈ chunks, c.bytes.length < 2 ^ 32) →
      ∃ file, encodeBlock crc tier span chunks = .ok file ∧
        (file.length < 2 ^ 64 → ∃ offset summary,
          readTrailer (file.drop (file.length - trailerLen)) = .ok offset ∧
          BlockSummary.parse crc tier span (file.take headerLen) (file.drop offset) file.length =
            .ok summary ∧
          ∀ id, readSeries crc file summary id =
              .ok ((chunks.filter (·.id = id)).map fun c => (c.seq, c.bytes)) ∧
            ((chunks.filter (·.id = id)).map ChunkRef.seq).Pairwise (· < ·))) ∧
    (¬chunks.IsChain ChunkRef.Before → encodeBlock crc tier span chunks = .error .unordered) := by
  refine ⟨fun hspan hcount hordered hlengths => ?_, fun hunordered => ?_⟩
  · refine ⟨_, encodeBlock_eq crc tier span hcount hordered hlengths, fun hfile => ?_⟩
    refine ⟨_, _, readTrailer_written hfile, ?_, fun id =>
      ⟨readSeries_written hordered hlengths hfile id, ?_⟩⟩
    · rw [take_writtenFile, drop_writtenFile]
      exact parse_written hspan hcount hordered hfile
    · have hpairwise := (List.isChain_iff_pairwise.mp hordered).filter (·.id = id)
      refine List.pairwise_map.mpr (hpairwise.imp_of_mem fun {a b} ha hb hbefore => ?_)
      have haid : a.id = id := by simpa using (List.mem_filter.mp ha).2
      have hbid : b.id = id := by simpa using (List.mem_filter.mp hb).2
      rcases hbefore with hlt | ⟨-, hseq⟩
      · rw [haid, hbid] at hlt
        exact absurd hlt (lt_irrefl _)
      · exact hseq
  · rw [encodeBlock]
    split_ifs with hcount hwritten
    · exact absurd hwritten.1 hunordered
    · rfl
    · rfl

/-- Two series, one of two chunks. -/
def threeChunks : List ChunkRef :=
  [⟨3, 0, [1, 2], by decide⟩, ⟨3, 1, [], by decide⟩, ⟨7, 0, [9], by decide⟩]

theorem block_round_trip_threeChunks :
    threeChunks.IsChain ChunkRef.Before ∧ (∀ c ∈ threeChunks, c.bytes.length < 2 ^ 32) ∧
      ∃ file summary, encodeBlock castagnoli .raw 3600 threeChunks = .ok file ∧
        readSeries castagnoli file summary 3 = .ok [(0, [1, 2]), (1, [])] ∧
        readSeries castagnoli file summary 5 = .ok [] := by
  have hordered : threeChunks.IsChain ChunkRef.Before := by decide
  have hlengths : ∀ c ∈ threeChunks, c.bytes.length < 2 ^ 32 := by decide
  obtain ⟨file, hfile, hread⟩ :=
    (block_round_trip castagnoli .raw 3600 threeChunks).1 (by decide) (by decide) hordered hlengths
  have hlength : file.length < 2 ^ 64 := by
    have hwritten := encodeBlock_eq castagnoli .raw 3600 (by decide) hordered hlengths
    rw [hwritten] at hfile
    obtain rfl := Except.ok.inj hfile
    rw [length_writtenFile, length_writtenTail, length_writtenSummaryBytes, length_entries]
    decide
  obtain ⟨_, summary, -, -, hseries⟩ := hread hlength
  exact ⟨hordered, hlengths, file, summary, hfile, (hseries 3).1, (hseries 5).1⟩

/-- 2³² chunks: 2¹⁶ series of 2¹⁶ empty chunks. -/
def manyChunks : List ChunkRef :=
  (List.finRange (2 ^ 32)).map fun i =>
    ⟨i.val / 2 ^ 16, i.val % 2 ^ 16, [],
      lt_of_le_of_lt (Nat.div_le_self _ _) i.isLt, Nat.mod_lt _ (by decide)⟩

/-- More chunks than the header can count are refused, in order as they are. -/
theorem manyChunks_refused :
    SpanStart.new .raw 0 = some 0 ∧ manyChunks.IsChain ChunkRef.Before ∧
      (∀ c ∈ manyChunks, c.bytes.length < 2 ^ 32) ∧
      encodeBlock castagnoli .raw 0 manyChunks = .error .unordered := by
  have hlength : manyChunks.length = 2 ^ 32 := by
    rw [manyChunks, List.length_map, List.length_finRange]
  refine ⟨rfl, ?_, fun c hc => ?_, ?_⟩
  · refine List.Pairwise.isChain
      (List.pairwise_map.mpr ((List.pairwise_lt_finRange _).imp fun {i j} hij => ?_))
    rw [Fin.lt_def] at hij
    have hbefore : i.val / 2 ^ 16 < j.val / 2 ^ 16 ∨
        i.val / 2 ^ 16 = j.val / 2 ^ 16 ∧ i.val % 2 ^ 16 < j.val % 2 ^ 16 := by omega
    exact hbefore
  · obtain ⟨i, -, rfl⟩ := List.mem_map.mp hc
    exact Nat.two_pow_pos 32
  · rw [encodeBlock, if_neg (by rw [hlength]; exact lt_irrefl _)]

end MonitoringAgent.HubStore

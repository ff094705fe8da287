import MonitoringAgent.Model.Codec.Rollup
import MonitoringAgent.Verification.Codec.Raw

/-! # Rollup chunks round trip

The same three facts as for raw chunks: a chunk is the buckets pushed into it, its bytes
decode to them, and they rebuild it. -/

namespace MonitoringAgent.HubStore

open List MonitoringAgent.Library

/-- A closed bucket: a `u64` index, an average between the `i64` extremes, and a `u32` count
of at least one point. -/
structure Bucket.Valid (b : Bucket) : Prop where
  index_lt : b.index < 2 ^ 64
  min_le : b.min ≤ b.avg
  le_max : b.avg ≤ b.max
  min_ge : -2 ^ 63 ≤ b.min
  max_lt : b.max < 2 ^ 63
  count_pos : 0 < b.count
  count_lt : b.count < 2 ^ 32

theorem Bucket.Valid.isI64_avg {b : Bucket} (h : b.Valid) : IsI64 b.avg :=
  ⟨h.min_ge.trans h.min_le, lt_of_le_of_lt h.le_max h.max_lt⟩

/-- The chunk is `buckets`, pushed one after another into an empty chunk. -/
structure RollupChunk.Contents (c : RollupChunk) (buckets : List Bucket) : Prop where
  built : pushAll RollupChunk.push (RollupChunk.new c.tier) buckets = .ok c
  valid : ∀ b ∈ buckets, b.Valid

/-! ### What the codes of later buckets depend on -/

/-- The last bucket and the last index step. -/
structure BucketCursor where
  last : Bucket
  indexStep : ℤ

/-- The bits of a bucket's distances and count. -/
def Bucket.spreadCode (b : Bucket) : List Bool :=
  valueCode (b.avg - b.min).toNat ++ (valueCode (b.max - b.avg).toNat ++ bitVarintCode b.count)

namespace BucketCursor

def next (cur : BucketCursor) (b : Bucket) : BucketCursor :=
  ⟨b, (b.index : ℤ) - cur.last.index⟩

def dod (cur : BucketCursor) (b : Bucket) : ℤ := (b.index : ℤ) - cur.last.index - cur.indexStep

def avgCode (cur : BucketCursor) (b : Bucket) : ℕ := zigzag (wrapI64 (b.avg - cur.last.avg))

def code (cur : BucketCursor) (b : Bucket) : List Bool :=
  dodCode (cur.dod b) ++ (valueCode (cur.avgCode b) ++ b.spreadCode)

/-- The bucket is after the last one, by a step the index code holds. -/
structure Codable (cur : BucketCursor) (b : Bucket) : Prop where
  after : cur.last.index < b.index
  step_lt : b.index - cur.last.index < 2 ^ 63
  step : (dodStep (cur.dod b)).isSome
  valid : b.Valid

end BucketCursor

/-! ### A bucket's distances and count -/

theorem asU64_wrapI64 {value : ℤ} (h0 : 0 ≤ value) (h : value < 2 ^ 64) :
    asU64 (wrapI64 value) = value.toNat := by
  have hround : BitVec.ofInt 64 (BitVec.ofInt 64 value).toInt = BitVec.ofInt 64 value :=
    BitVec.ofInt_toInt
  rw [asU64, wrapI64, hround, BitVec.toNat_ofInt]
  congr 1
  exact Int.emod_eq_of_lt h0 h

theorem writeSpread_writes {b : Bucket} (h : b.Valid) :
    Writes (writeSpread · b) b.spreadCode := by
  have hmin := h.min_le
  have hmax := h.le_max
  have hlo := h.min_ge
  have hhi := h.max_lt
  intro w bits hb
  have h1 := writeValue_writes (show (b.avg - b.min).toNat < 2 ^ 64 by omega) w bits hb
  have h2 := writeValue_writes (show (b.max - b.avg).toNat < 2 ^ 64 by omega) _ _ h1
  have h3 := writeBitVarint_writes b.count _ _ h2
  have hbelow := asU64_wrapI64 (show 0 ≤ b.avg - b.min by omega) (by omega)
  have habove := asU64_wrapI64 (show 0 ≤ b.max - b.avg by omega) (by omega)
  rw [← hbelow, ← habove] at h3
  rw [Bucket.spreadCode, ← hbelow, ← habove]
  simpa [writeSpread, List.append_assoc] using h3

theorem readSpread_reads {b : Bucket} (h : b.Valid) :
    Reads (readSpread · b.index b.avg) b.spreadCode b := by
  have hmin := h.min_le
  have hmax := h.le_max
  have hlo := h.min_ge
  have hhi := h.max_lt
  have hpos := h.count_pos
  have hcount := h.count_lt
  intro r rest hr
  simp only [Bucket.spreadCode, List.append_assoc] at hr
  obtain ⟨h1, hr1⟩ := (readValue_reads (show (b.avg - b.min).toNat < 2 ^ 64 by omega)).step hr
  obtain ⟨h2, hr2⟩ := (readValue_reads (show (b.max - b.avg).toNat < 2 ^ 64 by omega)).step hr1
  obtain ⟨h3, -⟩ := (readBitVarint_reads (show b.count < 2 ^ 64 by omega)).step hr2
  have hbelow : b.avg + -((b.avg - b.min).toNat : ℤ) = b.min := by omega
  have habove : b.avg + ((b.max - b.avg).toNat : ℤ) = b.max := by omega
  have hi1 : IsI64 (b.avg + -((b.avg - b.min).toNat : ℤ)) := by
    rw [hbelow]; constructor <;> omega
  have hi2 : IsI64 (b.avg + ((b.max - b.avg).toNat : ℤ)) := by
    rw [habove]; constructor <;> omega
  simp only [readSpread, h1, h2, h3, except_ok_bind, if_neg (show ¬ b.count ≥ 2 ^ 32 by omega),
    checkedAddI64_eq hi1, checkedAddI64_eq hi2, hbelow, habove,
    if_neg (show ¬ b.count = 0 by omega)]
  simp [Bucket.spreadCode, Nat.add_assoc]

theorem valueBits_le {value : ℕ} (h : value < 2 ^ 64) : valueBits value ≤ 69 := by
  rcases valueStep_cases h with ⟨-, hs⟩ | ⟨step, h5, hs, -⟩
  · simp [valueBits, hs]
  · simp only [valueBits, hs]
    interval_cases step <;> decide

theorem length_dodCode_le {dod : ℤ} (h : (dodStep dod).isSome) : (dodCode dod).length ≤ 36 := by
  rcases dodStep_cases h with ⟨-, hs⟩ | ⟨-, -, hs⟩ | ⟨-, -, hs⟩ | ⟨-, -, hs⟩ | ⟨-, -, hs⟩ <;>
    simp [dodCode, hs]

private theorem length_bitVarintGroups (rounds value : ℕ) :
    (bitVarintGroups rounds value).length ≤ 8 * rounds := by
  induction rounds generalizing value with
  | zero => simp [bitVarintGroups]
  | succ rounds ih =>
      have := ih (value / 2 ^ 7)
      rw [bitVarintGroups]
      split
      · rw [List.length_cons, List.length_append, length_toBits]
        omega
      · rw [List.length_cons, length_toBits]
        omega

theorem Bucket.length_spreadCode {b : Bucket} (h : b.Valid) : b.spreadCode.length ≤ 218 := by
  have hmin := h.min_le
  have hmax := h.le_max
  have hlo := h.min_ge
  have hhi := h.max_lt
  have hbelow : (b.avg - b.min).toNat < 2 ^ 64 := by omega
  have habove : (b.max - b.avg).toNat < 2 ^ 64 := by omega
  have h1 := valueBits_le hbelow
  have h2 := valueBits_le habove
  have h3 := length_bitVarintGroups 10 b.count
  rw [Bucket.spreadCode, List.length_append, List.length_append, length_valueCode hbelow,
    length_valueCode habove, bitVarintCode]
  omega

/-! ### Layout of a chunk -/

/-- The bits of a chunk of at least one bucket. -/
def chunkCode (first : Bucket) (later : List Bucket) : List Bool :=
  first.spreadCode ++ emit BucketCursor.next BucketCursor.code ⟨first, 1⟩ later

/-- A chunk of at least one bucket: its ends, its step and its bits. -/
structure RollupChunk.Layout (c : RollupChunk) (first : Bucket) (later : List Bucket) : Prop where
  ends : c.ends = some (first, (later.foldl BucketCursor.next ⟨first, 1⟩).last)
  indexStep : c.indexStep = (later.foldl BucketCursor.next ⟨first, 1⟩).indexStep
  count : c.count = later.length + 1
  count_le : later.length + 1 ≤ c.tier.maxBuckets
  bits : c.bits.Holds (chunkCode first later)
  codable : AllFrom BucketCursor.next BucketCursor.Codable ⟨first, 1⟩ later

/-- A refused bucket leaves the chunk as it was. -/
theorem RollupChunk.push_refused {c : RollupChunk} {b : Bucket} {e : PushRefused}
    (h : (c.push b).1 = .error e) : (c.push b).2 = c := by
  revert h
  fun_cases RollupChunk.push c b with
  | case6 _ first last _ _ _ _ indexStep bits hdod =>
      intro _
      have hnone : dodStep (indexStep - c.indexStep) = none := by
        have := writeDod_fst c.bits (indexStep - c.indexStep)
        rw [hdod] at this
        simpa using this.symm
      rw [writeDod_none c.bits hnone] at hdod
      simp only [Prod.mk.injEq] at hdod
      rw [← hdod.2]
  | _ => simp

/-- An empty chunk takes any valid bucket. -/
theorem RollupChunk.push_empty {c : RollupChunk} {b : Bucket} (hb : b.Valid) (h : c.ends = none) :
    c.push b = (.ok (), { c with
      bits := writeSpread c.bits b, ends := some (b, b), count := 1 }) := by
  simp [RollupChunk.push, h, hb.min_le, hb.le_max, hb.count_pos]

/-- What an accepted bucket after a first one was checked for, and what it writes. -/
theorem RollupChunk.push_cases {c : RollupChunk} {b first last : Bucket}
    (hends : c.ends = some (first, last)) (h : (c.push b).1 = .ok ()) :
    last.index < b.index ∧ c.count < c.tier.maxBuckets ∧ b.index - last.index < 2 ^ 63 ∧
      (dodStep ((b.index : ℤ) - last.index - c.indexStep)).isSome ∧
      (c.push b).2 = { c with
        bits :=
          writeSpread (writeValue (writeDod c.bits ((b.index : ℤ) - last.index - c.indexStep)).2
          (zigzag (wrapI64 (b.avg - last.avg)))) b
        ends := some (first, b), indexStep := (b.index : ℤ) - last.index,
            count := c.count + 1 } := by
  revert h
  fun_cases RollupChunk.push c b with
  | case2 _ hnone => simp [hnone] at hends
  | case7 _ f l hsome hafter hcount hstep indexStep bits hdod written =>
      intro _
      obtain ⟨rfl, rfl⟩ : f = first ∧ l = last := by simpa [hsome] using hends
      have hcast : indexStep = (b.index : ℤ) - l.index := by
        simp only [indexStep]
        omega
      rw [hcast] at hdod
      refine ⟨by omega, by omega, by omega, ?_, ?_⟩
      · rw [← writeDod_fst c.bits, hdod]
      · simp [hcast, hdod, written]
  | _ => simp

@[simp] theorem RollupChunk.push_tier (c : RollupChunk) (b : Bucket) :
    (c.push b).2.tier = c.tier := by
  fun_cases RollupChunk.push c b <;> rfl

theorem RollupTier.maxBuckets_bounds (tier : RollupTier) :
    0 < tier.maxBuckets ∧ tier.maxBuckets ≤ 60 := by
  cases tier <;> decide

private theorem rollupLayout_first {c : RollupChunk} {b : Bucket} (hc : c = RollupChunk.new c.tier)
    (hb : b.Valid) : (c.push b).2.Layout b [] := by
  have hends : c.ends = none := by rw [hc]; rfl
  rw [RollupChunk.push_empty hb hends]
  refine ⟨rfl, ?_, rfl, c.tier.maxBuckets_bounds.1, ?_, trivial⟩
  · rw [hc]; rfl
  · have hbits : c.bits = {} := by rw [hc]; rfl
    have := writeSpread_writes hb {} [] BitWriter.holds_nil
    simpa [chunkCode, emit, hbits] using this

private theorem rollupLayout_push {c : RollupChunk} {first b : Bucket} {later : List Bucket}
    (hl : c.Layout first later) (hb : b.Valid) (hok : (c.push b).1 = .ok ()) :
    (c.push b).2.Layout first (later ++ [b]) := by
  obtain ⟨hends, hstepEq, hcount, -, hbits, hcodable⟩ := hl
  generalize hcur : later.foldl BucketCursor.next ⟨first, 1⟩ = cur at *
  obtain ⟨hafter, hroom, hstep, hsome, hnext⟩ := RollupChunk.push_cases hends hok
  have hfold : (later ++ [b]).foldl BucketCursor.next ⟨first, 1⟩ = cur.next b := by
    simp [List.foldl_append, hcur]
  have hwritten : (c.push b).2.bits.Holds (chunkCode first later ++ cur.code b) := by
    rw [hnext, BucketCursor.code, BucketCursor.dod, ← hstepEq, BucketCursor.avgCode,
      ← List.append_assoc, ← List.append_assoc]
    exact writeSpread_writes hb _ _
      (writeValue_writes (zigzag_lt _) _ _ (writeDod_writes hsome _ _ hbits))
  refine ⟨by rw [hnext, hfold]; rfl, by rw [hnext, hfold]; rfl, by
    rw [hnext]; simp [hcount], ?_, ?_, ?_⟩
  · rw [RollupChunk.push_tier]
    simp
    omega
  · rw [chunkCode, emit_concat, hcur, ← List.append_assoc]
    exact hwritten
  · rw [allFrom_concat, hcur]
    refine ⟨hcodable, hafter, hstep, ?_, hb⟩
    rw [BucketCursor.dod, ← hstepEq]
    exact hsome

theorem RollupChunk.contents_new (tier : RollupTier) : (RollupChunk.new tier).Contents [] :=
  ⟨rfl, by simp⟩

namespace RollupChunk.Contents

variable {c : RollupChunk} {buckets : List Bucket} {b : Bucket}

theorem eq_new (h : c.Contents []) : c = RollupChunk.new c.tier := by
  have := h.built
  simp only [pushAll, Except.ok.injEq] at this
  exact this.symm

/-- Pushing an accepted bucket adds it to the contents. -/
theorem push (h : c.Contents buckets) (hb : b.Valid) (hok : (c.push b).1 = .ok ()) :
    (c.push b).2.Contents (buckets ++ [b]) := by
  refine ⟨?_, ?_⟩
  · rw [RollupChunk.push_tier]
    exact pushAll_concat h.built hok
  · intro q hq
    rcases List.mem_append.mp hq with hq | hq
    · exact h.valid q hq
    · rw [List.mem_singleton.mp hq]
      exact hb

theorem layout {first : Bucket} {later : List Bucket} (h : c.Contents (first :: later)) :
    c.Layout first later := by
  induction later using List.reverseRecOn generalizing c with
  | nil =>
      obtain ⟨c0, hc0, -, hc⟩ := pushAll_prefix [] h.built
      obtain rfl : RollupChunk.new c.tier = c0 := by simpa [pushAll] using hc0
      rw [← hc]
      exact rollupLayout_first rfl (h.valid first (by simp))
  | append_singleton later b ih =>
      obtain ⟨c0, hc0, hok, hc⟩ := pushAll_prefix (first :: later) h.built
      have htier : c0.tier = c.tier := by rw [← hc, RollupChunk.push_tier]
      have h0 : c0.Contents (first :: later) :=
        ⟨by rw [htier]; exact hc0, fun q hq => h.valid q (by
          rw [← List.cons_append]; exact List.mem_append_left _ hq)⟩
      rw [← hc]
      exact rollupLayout_push (ih h0) (h.valid b (by simp)) hok

end RollupChunk.Contents

/-! ### Decoding -/

theorem decodeBuckets_reads (cur : BucketCursor) (later : List Bucket)
    (h : AllFrom BucketCursor.next BucketCursor.Codable cur later) :
    Reads (decodeBuckets later.length cur.last.index cur.last.avg cur.indexStep)
      (emit BucketCursor.next BucketCursor.code cur later) later := by
  induction later generalizing cur with
  | nil => intro r rest _; rfl
  | cons b later ih =>
      intro r rest hr
      obtain ⟨⟨hafter, hstep, hdod, hvalid⟩, hlater⟩ := h
      simp only [emit, BucketCursor.code, List.append_assoc] at hr
      obtain ⟨hreadDod, hr1⟩ := (readDod_reads hdod).step hr
      obtain ⟨hreadValue, hr2⟩ := (readValue_reads (zigzag_lt _)).step hr1
      obtain ⟨hreadSpread, hr3⟩ := (readSpread_reads hvalid).step hr2
      have hrest := ih (cur.next b) hlater _ _ hr3
      have hindex : cur.indexStep + cur.dod b = (b.index : ℤ) - cur.last.index := by
        rw [BucketCursor.dod]; ring
      have hi64 : IsI64 (cur.indexStep + cur.dod b) := by
        rw [hindex]
        constructor <;> omega
      have hnat : ((b.index : ℤ) - cur.last.index).toNat = b.index - cur.last.index := by omega
      have hsum : cur.last.index + (b.index - cur.last.index) = b.index := by omega
      have havg : wrapI64 (cur.last.avg + unzigzag (zigzag (wrapI64 (b.avg - cur.last.avg)))) =
          b.avg := by
        rw [unzigzag_zigzag (isI64_wrapI64 _), wrapI64_add_wrapI64_sub hvalid.isI64_avg]
      simp only [List.length_cons, decodeBuckets, hreadDod, except_ok_bind, checkedAddI64_eq hi64,
        hindex, positiveStep_eq (show (0 : ℤ) < b.index - cur.last.index by omega), hnat,
        checkedAddU64_eq (show cur.last.index + (b.index - cur.last.index) < 2 ^ 64 by
          rw [hsum]; exact hvalid.index_lt), hsum, hreadValue, havg, hreadSpread]
      simp only [BucketCursor.next] at hrest
      rw [hrest]
      simp [emit, BucketCursor.code, BucketCursor.avgCode, BucketCursor.next, BitReader.advance,
        Nat.add_assoc]

theorem RollupChunk.encode_some {c : RollupChunk} {first last : Bucket}
    (h : c.ends = some (first, last)) :
    c.encode = rollupFormatV1 :: (varintBytes c.count ++ varintBytes first.index ++
      varintBytes (zigzag first.avg) ++ c.bits.bytes) := by
  simp [RollupChunk.encode, h, writeVarint_eq, BitWriter.asBytes]

theorem decodeRollupHeader_encode {c : RollupChunk} {first last : Bucket}
    (hends : c.ends = some (first, last)) (hpos : 0 < c.count)
    (hcount : c.count ≤ c.tier.maxBuckets) (hfirst : first.Valid) :
    ∃ pos, decodeRollupHeader c.encode c.tier = .ok (c.count, first.index, first.avg, pos) ∧
      c.encode.drop pos = c.bits.bytes ∧ pos + c.bits.bytes.length = c.encode.length := by
  have hbound := c.tier.maxBuckets_bounds
  have henc := RollupChunk.encode_some hends
  have hd : c.encode.drop 1 = varintBytes c.count ++ (varintBytes first.index ++
      (varintBytes (zigzag first.avg) ++ c.bits.bytes)) := by
    rw [henc]; simp
  obtain ⟨h1, hd1⟩ := readVarint_varintBytes (by omega) hd
  obtain ⟨h2, hd2⟩ := readVarint_varintBytes hfirst.index_lt hd1
  obtain ⟨h3, hd3⟩ := readVarint_varintBytes (zigzag_lt _) hd2
  refine ⟨_, ?_, hd3, ?_⟩
  · have hhead : c.encode.head? = some rollupFormatV1 := by rw [henc]; rfl
    simp only [decodeRollupHeader, hhead, ne_eq, not_true_eq_false, if_false, h1, except_ok_bind,
      if_neg (show ¬ c.count = 0 by omega), if_neg (show ¬ c.count > c.tier.maxBuckets by omega),
      h2, h3, unzigzag_zigzag hfirst.isI64_avg]
  · rw [henc]
    simp
    omega

namespace RollupChunk.Contents

variable {c : RollupChunk} {buckets : List Bucket}

/-- What a chunk encodes decodes to its contents. -/
theorem decode (h : c.Contents buckets) (hne : buckets ≠ []) :
    decodeRollup c.encode c.tier = .ok buckets := by
  obtain ⟨first, later, rfl⟩ := List.exists_cons_of_ne_nil hne
  have hl := h.layout
  have hfirst := h.valid first (by simp)
  obtain ⟨pos, hheader, hdrop, hlen⟩ := decodeRollupHeader_encode hl.ends
    (by rw [hl.count]; omega) (by rw [hl.count]; exact hl.count_le) hfirst
  have hahead : (BitReader.new c.bits.bytes).ahead = first.spreadCode ++
      (emit BucketCursor.next BucketCursor.code ⟨first, 1⟩ later ++
        replicate (8 * c.bits.bytes.length - (chunkCode first later).length) false) := by
    rw [BitReader.ahead_new, hl.bits.stream, chunkCode, List.append_assoc]
  obtain ⟨hspread, hr⟩ := (readSpread_reads hfirst).step hahead
  have hread := decodeBuckets_reads ⟨first, 1⟩ later hl.codable _ _ hr
  have hcount : c.count - 1 = later.length := by rw [hl.count]; rfl
  have hend : (BitReader.advance (.new c.bits.bytes) (first.spreadCode.length +
      (emit BucketCursor.next BucketCursor.code ⟨first, 1⟩ later).length)).bytesRead =
        c.bits.bytes.length := by
    rw [hl.bits.length_bytes, chunkCode]
    simp [BitReader.advance, BitReader.new, BitReader.bytesRead]
  simp only [decodeRollup, hheader, except_ok_bind, hdrop, hspread, hcount, hread,
    BitReader.advance_advance, hend, hlen, ne_eq, not_true_eq_false, if_false]

theorem buckets_eq (h : c.Contents buckets) : c.buckets = buckets := by
  by_cases hne : buckets = []
  · subst hne
    rw [h.eq_new]
    cases c.tier <;> decide
  · rw [RollupChunk.buckets, h.decode hne]

theorem isEmpty_iff (h : c.Contents buckets) : c.isEmpty = true ↔ buckets = [] := by
  cases buckets with
  | nil => rw [h.eq_new]; simp [RollupChunk.isEmpty, RollupChunk.new]
  | cons first later => simp [RollupChunk.isEmpty, h.layout.count]

/-- Reopening a chunk's bytes gives the chunk back. -/
theorem reopen (h : c.Contents buckets) (hne : buckets ≠ []) :
    RollupChunk.reopen c.encode c.tier = .ok c := by
  rw [RollupChunk.reopen, h.decode hne]
  exact h.built

theorem push_empty (h : c.Contents []) {b : Bucket} (hb : b.Valid) : (c.push b).1 = .ok () := by
  rw [RollupChunk.push_empty hb (by rw [h.eq_new]; rfl)]

/-- A chunk's bytes stay far below what a two-byte length holds. -/
theorem length_encode_lt (h : c.Contents buckets) (hne : buckets ≠ []) :
    c.encode.length < 2 ^ 16 := by
  obtain ⟨first, later, rfl⟩ := List.exists_cons_of_ne_nil hne
  have hl := h.layout
  have hfirst := h.valid first (by simp)
  have hmax := c.tier.maxBuckets_bounds
  have hle := hl.count_le
  have hcode : ∀ (cur : BucketCursor) (rest : List Bucket),
      AllFrom BucketCursor.next BucketCursor.Codable cur rest →
      (emit BucketCursor.next BucketCursor.code cur rest).length ≤ 323 * rest.length := by
    intro cur rest hall
    induction rest generalizing cur with
    | nil => simp [emit]
    | cons b rest ih =>
        have hrest := ih _ hall.2
        have h1 := length_dodCode_le hall.1.step
        have h2 := valueBits_le (zigzag_lt (wrapI64 (b.avg - cur.last.avg)))
        have h3 := Bucket.length_spreadCode hall.1.valid
        simp only [emit, BucketCursor.code, BucketCursor.avgCode, List.length_append,
          length_valueCode (zigzag_lt _), List.length_cons]
        omega
  have hlater := hcode ⟨first, 1⟩ later hl.codable
  have hspread := Bucket.length_spreadCode hfirst
  have h1 := varintLen_le c.count
  have h2 := varintLen_le first.index
  have h3 := varintLen_le (zigzag first.avg)
  rw [RollupChunk.encode_some hl.ends]
  simp only [List.length_cons, List.length_append, hl.bits.length_bytes, chunkCode,
    length_varintBytes hfirst.index_lt, length_varintBytes (zigzag_lt _),
    length_varintBytes (show c.count < 2 ^ 64 by rw [hl.count]; omega)]
  omega

end RollupChunk.Contents

end MonitoringAgent.HubStore

import MonitoringAgent.Model.Codec.Checked
import MonitoringAgent.Verification.Codec.Decoded

/-! # No step of a decoder leaves its domain

Whatever the bytes, a checked decoder ends as the plain one does: every `usize` operation fits,
every shift is by less than the word's width and every index is inside its slice. -/

namespace MonitoringAgent.HubStore

open Library

/-- The reader stands inside its bytes, and these are few enough for a `usize` to count their bits
and the widest field after them. -/
structure BitReader.InRange (r : BitReader) : Prop where
  pos_le : r.pos ≤ r.bytes.length * 8
  bits_lt : r.bytes.length * 8 + 64 < 2 ^ 64

namespace Checked

variable {α β : Type}

/-- A reading that keeps to a plain one and leaves its reader in range. -/
structure Reads (x : Decoding (α × BitReader)) (y : Except DecodeError (α × BitReader)) : Prop where
  calm : Calm x y
  inRange : ∀ a r, y = .ok (a, r) → r.InRange

theorem Reads.ok {r : BitReader} (hr : r.InRange) (a : α) : Reads (.ok (a, r)) (.ok (a, r)) := by
  refine ⟨calm_ok _, fun a' r' h => ?_⟩
  cases h
  exact hr

theorem Reads.refused (e : DecodeError) :
    Reads (.error (.refused e) : Decoding (α × BitReader)) (.error e) :=
  ⟨calm_refused e, fun _ _ h => by cases h⟩

theorem Reads.bind {x : Decoding (α × BitReader)} {y : Except DecodeError (α × BitReader)}
    {f : α × BitReader → Decoding (β × BitReader)}
    {g : α × BitReader → Except DecodeError (β × BitReader)} (hx : Reads x y)
    (hf : ∀ a r, r.InRange → y = .ok (a, r) → Reads (f (a, r)) (g (a, r))) :
    Reads (x >>= f) (y >>= g) := by
  refine ⟨hx.calm.bind fun (a, r) hy => (hf a r (hx.inRange a r hy) hy).calm, fun b r' h => ?_⟩
  obtain ⟨⟨a, r⟩, hy, hg⟩ := except_bind_eq_ok.mp h
  exact (hf a r (hx.inRange a r hy) hy).inRange b r' hg

theorem Reads.refuse {y : Except DecodeError α} {f : α → Decoding (β × BitReader)}
    {g : α → Except DecodeError (β × BitReader)} (hf : ∀ a, y = .ok a → Reads (f a) (g a)) :
    Reads (orRefused y >>= f) (y >>= g) := by
  have hy : Calm (orRefused y) y := rfl
  refine ⟨hy.bind fun a ha => (hf a ha).calm, fun b r' h => ?_⟩
  obtain ⟨a, ha, hg⟩ := except_bind_eq_ok.mp h
  exact (hf a ha).inRange b r' hg

/-! ### Fields -/

theorem read_reads {r : BitReader} (hr : r.InRange) {width : ℕ} (hwidth : width ≤ 64) :
    Reads (read r width) (r.read width) := by
  obtain ⟨hpos, hbits⟩ := hr
  rw [read, addWord_eq (by omega), mulWord_eq (by omega)]
  simp only [except_ok_bind]
  rw [BitReader.read]
  split_ifs with hend
  · exact Reads.refused _
  · have hfold : (List.range' r.pos width).foldlM (readBit r.bytes) 0 =
        (.ok ((List.range' r.pos width).foldl (fun acc i =>
          let bit := ((r.bytes.getD (i / 8) 0).toNat >>> (7 - i % 8)) &&& 1
          ((acc <<< 1) % 2 ^ 64) ||| bit) 0) : Decoding ℕ) := by
      refine foldlM_ok (fun acc i hi => ?_) 0
      rw [List.mem_range'_1] at hi
      have hbyte : r.bytes[i / 8]? = some (r.bytes.getD (i / 8) 0) := by
        have hlt : i / 8 < r.bytes.length := by omega
        rw [List.getD_eq_getElem _ _ hlt, List.getElem?_eq_getElem hlt]
      rw [readBit, indexed_eq hbyte, subWord_eq (by omega), shlWord_eq (by omega)]
      simp only [except_ok_bind]
      rw [shrWord_eq (by omega)]
      rfl
    have hstop : BitReader.InRange ⟨r.bytes, r.pos + width⟩ := ⟨not_lt.mp hend, hbits⟩
    rw [hfold]
    exact Reads.ok hstop _

theorem readOnesFrom_reads {r : BitReader} (hr : r.InRange) {ones left : ℕ}
    (h : ones + left < 2 ^ 32) :
    Reads (readOnesFrom r ones left) (HubStore.readOnesFrom r ones left) := by
  induction left generalizing r ones with
  | zero => exact Reads.ok hr ones
  | succ left ih =>
      refine (read_reads hr (by norm_num)).bind fun bit r hr _ => ?_
      dsimp only
      split_ifs
      · rw [addWord_eq (by omega)]
        exact ih hr (by omega)
      · exact Reads.ok hr ones

theorem readOnes_reads {r : BitReader} (hr : r.InRange) {max : ℕ} (h : max < 2 ^ 32) :
    Reads (readOnes r max) (HubStore.readOnes r max) :=
  readOnesFrom_reads hr (by omega)

theorem readDod_reads {r : BitReader} (hr : r.InRange) :
    Reads (readDod r) (HubStore.readDod r) := by
  refine (readOnes_reads hr (by decide)).bind fun ones r hr hones => ?_
  dsimp only
  split_ifs with hzero
  · exact Reads.ok hr 0
  · obtain ⟨hle, -⟩ := readOnes_ok hones
    obtain ⟨width, hwidth, hpos, h64, -⟩ := dodBits_le_of_field (Nat.pos_of_ne_zero hzero) hle
    have hstep : dodSteps[ones - 1]? = some (dodSteps.getD (ones - 1) (0, 0, 0)) := by
      have hlt : ones - 1 < dodSteps.length := by omega
      rw [List.getD_eq_getElem _ _ hlt, List.getElem?_eq_getElem hlt]
    rw [subWord_eq (by omega)]
    simp only [except_ok_bind]
    rw [indexed_eq hstep]
    simp only [except_ok_bind, hwidth]
    refine (read_reads hr h64).bind fun field r hr _ => ?_
    dsimp only
    rw [subWord_eq h64]
    simp only [except_ok_bind]
    rw [shlWord_eq (by omega)]
    simp only [except_ok_bind]
    rw [shrWord_eq (by omega)]
    have hshift : BitVec.ofNat 64 (field <<< (64 - width) % 2 ^ 64) =
        BitVec.ofNat 64 field <<< (64 - width) := by
      apply BitVec.eq_of_toNat_eq
      simp [BitVec.toNat_shiftLeft, Nat.shiftLeft_eq, Nat.mod_mul_mod]
    simp only [except_ok_bind, hshift]
    exact Reads.ok hr _

theorem readValue_reads {r : BitReader} (hr : r.InRange) :
    Reads (readValue r) (HubStore.readValue r) := by
  refine (readOnes_reads hr (by decide)).bind fun ones r hr hones => ?_
  dsimp only
  split_ifs with hzero
  · exact Reads.ok hr 0
  · obtain ⟨hle, -⟩ := readOnes_ok hones
    obtain ⟨width, hwidth, -, h64, -⟩ := valueBits_le_of_field (Nat.pos_of_ne_zero hzero) hle
    have hstep : valueWidths[ones - 1]? = some (valueWidths.getD (ones - 1) 0) := by
      have hlt : ones - 1 < valueWidths.length := by omega
      rw [List.getD_eq_getElem _ _ hlt, List.getElem?_eq_getElem hlt]
    rw [subWord_eq (by omega)]
    simp only [except_ok_bind]
    rw [indexed_eq hstep, hwidth]
    exact read_reads hr h64

theorem readBitVarintGroups_reads {r : BitReader} (hr : r.InRange) {rounds group value : ℕ}
    (h : rounds + group = 10) :
    Reads (readBitVarintGroups rounds group r value)
      (HubStore.readBitVarintGroups rounds group r value) := by
  induction rounds generalizing r group value with
  | zero => exact Reads.refused _
  | succ rounds ih =>
      refine (read_reads hr (by norm_num)).bind fun more r hr _ => ?_
      refine (read_reads hr (by norm_num)).bind fun bits r hr _ => ?_
      dsimp only
      split_ifs with hlong hmore
      · exact Reads.refused _
      · rw [mulWord_eq (by omega)]
        simp only [except_ok_bind]
        rw [shlWord_eq (by omega)]
        exact ih hr (by omega)
      · rw [mulWord_eq (by omega)]
        simp only [except_ok_bind]
        rw [shlWord_eq (by omega)]
        exact Reads.ok hr _

theorem readBitVarint_reads {r : BitReader} (hr : r.InRange) :
    Reads (readBitVarint r) (HubStore.readBitVarint r) :=
  readBitVarintGroups_reads hr rfl

theorem readVarintGroups_calm {bytes : List UInt8} (hbytes : bytes.length < 2 ^ 64)
    {rounds group pos value : ℕ} (h : rounds + group = 10) :
    Calm (readVarintGroups bytes rounds group pos value)
      (HubStore.readVarintGroups bytes rounds group pos value) := by
  induction rounds generalizing group pos value with
  | zero => exact calm_refused _
  | succ rounds ih =>
      rw [readVarintGroups, HubStore.readVarintGroups]
      cases hbyte : bytes[pos]? with
      | none => exact calm_refused _
      | some byte =>
          have hpos := (List.getElem?_eq_some_iff.mp hbyte).1
          dsimp only
          rw [addWord_eq (by omega)]
          simp only [except_ok_bind]
          split_ifs with hlong hlast
          · exact calm_refused _
          · rw [mulWord_eq (by omega)]
            simp only [except_ok_bind]
            rw [shlWord_eq (by omega)]
            exact calm_ok _
          · rw [mulWord_eq (by omega)]
            simp only [except_ok_bind]
            rw [shlWord_eq (by omega)]
            exact ih (by omega)

theorem readVarint_calm {bytes : List UInt8} (hbytes : bytes.length < 2 ^ 64) (pos : ℕ) :
    Calm (readVarint bytes pos) (HubStore.readVarint bytes pos) :=
  readVarintGroups_calm hbytes rfl

/-- A reader at the start of what follows the header is in range. -/
theorem inRange_new {bytes : List UInt8} (hbytes : bytes.length * 8 + 64 < 2 ^ 64) (pos : ℕ) :
    (BitReader.new (bytes.drop pos)).InRange := by
  refine ⟨Nat.zero_le _, ?_⟩
  rw [BitReader.new, List.length_drop]
  omega

/-- The bytes read and the header's position are a position of the input. -/
theorem bytesRead_lt {bytes : List UInt8} {r : BitReader} {pos : ℕ} (hr : r.InRange)
    (hbytes : bytes.length * 8 + 64 < 2 ^ 64) (hpos : pos ≤ bytes.length) :
    pos + r.bytesRead < 2 ^ 64 := by
  obtain ⟨hle, hlt⟩ := hr
  rw [BitReader.bytesRead]
  omega

/-! ### Raw chunks -/

theorem decodeRawHeader_calm {bytes : List UInt8} (hbytes : bytes.length < 2 ^ 64) :
    Calm (decodeRawHeader bytes) (HubStore.decodeRawHeader bytes) := by
  rw [decodeRawHeader, HubStore.decodeRawHeader]
  cases bytes.head? with
  | none => exact calm_refused _
  | some format =>
      dsimp only
      split_ifs with hformat
      · exact calm_refused _
      · refine (readVarint_calm hbytes 1).bind fun count _ => ?_
        obtain ⟨count, pos⟩ := count
        dsimp only
        split_ifs with hzero hlong
        · exact calm_refused _
        · exact calm_refused _
        · refine (readVarint_calm hbytes pos).bind fun ts _ => ?_
          exact (readVarint_calm hbytes ts.2).bind fun _ _ => calm_ok _

theorem decodeRawPoints_reads (encoding : Encoding) {r : BitReader} (hr : r.InRange) (left : ℕ)
    (points : List RawPoint) (last : RawPoint) (tsStep valueStep : ℤ) :
    Reads (decodeRawPoints encoding left (points ++ [last]) tsStep valueStep r)
      (HubStore.decodeRawPoints encoding left last tsStep valueStep r >>= fun (later, r) =>
        .ok (points ++ last :: later, r)) := by
  induction left generalizing r points last tsStep valueStep with
  | zero => exact Reads.ok hr _
  | succ left ih =>
      have hlast : (points ++ [last])[(points ++ [last]).length - 1]? = some last := by simp
      rw [decodeRawPoints, subWord_eq (by simp)]
      simp only [except_ok_bind]
      rw [indexed_eq hlast]
      simp only [except_ok_bind, HubStore.decodeRawPoints, bind_assoc]
      refine (readDod_reads hr).bind fun dod r hr _ => ?_
      refine Reads.refuse fun tsStep _ => ?_
      refine Reads.refuse fun step _ => ?_
      refine Reads.refuse fun ts _ => ?_
      refine (readValue_reads hr).bind fun code r hr _ => ?_
      have hrest := ih hr (points ++ [last])
        ⟨ts, wrapI64 (last.value + RawChunk.codeStep encoding valueStep code)⟩ tsStep
        (RawChunk.codeStep encoding valueStep code)
      simpa [except_ok_bind, bind_assoc] using hrest

theorem decodeRaw_calm {bytes : List UInt8} (hbytes : bytes.length * 8 + 64 < 2 ^ 64)
    (encoding : Encoding) : Calm (decodeRaw bytes encoding)
    (HubStore.decodeRaw bytes encoding) := by
  refine (decodeRawHeader_calm (by omega)).bind fun (count, first, pos) hheader => ?_
  obtain ⟨-, -, -, -, hpos⟩ := decodeRawHeader_ok hheader
  have hreads := decodeRawPoints_reads encoding (inRange_new hbytes pos) (count - 1) [] first 0 0
  have hplain : (HubStore.decodeRawPoints encoding (count - 1) first 0 0 (.new (bytes.drop pos)) >>=
      fun (later, r) => if pos + r.bytesRead ≠ bytes.length then .error .malformed
        else .ok (first :: later)) =
      (HubStore.decodeRawPoints encoding (count - 1) first 0 0 (.new (bytes.drop pos)) >>=
        fun (later, r) => .ok ([] ++ first :: later, r)) >>=
      fun (points, r) => if pos + r.bytesRead ≠ bytes.length then .error .malformed
        else .ok points := by
    rw [bind_assoc]
    rfl
  dsimp only
  rw [sliceFrom_eq hpos]
  simp only [except_ok_bind]
  rw [hplain]
  refine hreads.calm.bind fun (points, r) hpoints => ?_
  dsimp only
  rw [addWord_eq (bytesRead_lt (hreads.inRange _ _ hpoints) hbytes hpos)]
  simp only [except_ok_bind]
  split_ifs
  · exact calm_refused _
  · exact calm_ok _

/-! ### Rollup chunks -/

theorem decodeRollupHeader_calm {bytes : List UInt8} (hbytes : bytes.length < 2 ^ 64)
    (tier : RollupTier) : Calm (decodeRollupHeader bytes tier)
    (HubStore.decodeRollupHeader bytes tier) := by
  rw [decodeRollupHeader, HubStore.decodeRollupHeader]
  cases bytes.head? with
  | none => exact calm_refused _
  | some format =>
      dsimp only
      split_ifs with hformat
      · exact calm_refused _
      · refine (readVarint_calm hbytes 1).bind fun count _ => ?_
        obtain ⟨count, pos⟩ := count
        dsimp only
        split_ifs with hzero hlong
        · exact calm_refused _
        · exact calm_refused _
        · refine (readVarint_calm hbytes pos).bind fun index _ => ?_
          exact (readVarint_calm hbytes index.2).bind fun _ _ => calm_ok _

theorem readSpread_reads {r : BitReader} (hr : r.InRange) (index : ℕ) (avg : ℤ) :
    Reads (readSpread r index avg) (HubStore.readSpread r index avg) := by
  refine (readValue_reads hr).bind fun below r hr _ => ?_
  refine (readValue_reads hr).bind fun above r hr _ => ?_
  refine (readBitVarint_reads hr).bind fun count r hr _ => ?_
  dsimp only
  split_ifs with hlong hzero
  · exact Reads.refused _
  · refine Reads.refuse fun min _ => ?_
    refine Reads.refuse fun max _ => ?_
    exact Reads.refused _
  · refine Reads.refuse fun min _ => ?_
    refine Reads.refuse fun max _ => ?_
    exact Reads.ok hr _

theorem decodeBuckets_reads {r : BitReader} (hr : r.InRange) (left index : ℕ) (avg indexStep : ℤ) :
    Reads (decodeBuckets left index avg indexStep r)
      (HubStore.decodeBuckets left index avg indexStep r) := by
  induction left generalizing r index avg indexStep with
  | zero => exact Reads.ok hr []
  | succ left ih =>
      refine (readDod_reads hr).bind fun dod r hr _ => ?_
      refine Reads.refuse fun indexStep _ => ?_
      refine Reads.refuse fun step _ => ?_
      refine Reads.refuse fun index _ => ?_
      refine (readValue_reads hr).bind fun code r hr _ => ?_
      refine (readSpread_reads hr _ _).bind fun bucket r hr _ => ?_
      exact (ih hr _ _ _).bind fun buckets r hr _ => Reads.ok hr _

theorem decodeRollup_calm {bytes : List UInt8} (hbytes : bytes.length * 8 + 64 < 2 ^ 64)
    (tier : RollupTier) : Calm (decodeRollup bytes tier) (HubStore.decodeRollup bytes tier) := by
  refine (decodeRollupHeader_calm (by omega) tier).bind fun (count, index, avg, pos) hheader => ?_
  obtain ⟨-, -, -, hpos⟩ := decodeRollupHeader_ok hheader
  have hspread := readSpread_reads (inRange_new hbytes pos) index avg
  dsimp only
  rw [sliceFrom_eq hpos]
  simp only [except_ok_bind]
  refine hspread.calm.bind fun (first, r) hfirst => ?_
  have hreads := decodeBuckets_reads (hspread.inRange _ _ hfirst) (count - 1) index avg 1
  refine hreads.calm.bind fun (buckets, r) hlater => ?_
  dsimp only
  rw [addWord_eq (bytesRead_lt (hreads.inRange _ _ hlater) hbytes hpos)]
  simp only [except_ok_bind]
  split_ifs
  · exact calm_refused _
  · exact calm_ok _

end Checked

/-- Whatever decodes reopens. Points that decode are a chunk's worth in time order, and within the
size limit they reopen to a chunk of exactly them, no longer than the bytes; buckets that decode are
valid, in index order and at most one span's worth, and reopen to a chunk of exactly them. Neither
decoder panics on bytes whose bits, and the widest field after them, a `usize` can count. -/
theorem decoded_reopens (bytes : List UInt8) :
    (∀ encoding points, decodeRaw bytes encoding = .ok points →
      points ≠ [] ∧ points.length ≤ 240 ∧ (points.Pairwise fun p q => p.ts < q.ts) ∧
        (bytes.length ≤ 1024 → ∃ c, RawChunk.reopen bytes encoding = .ok c ∧
          c.points = points ∧ c.encode.length ≤ bytes.length)) ∧
    (∀ tier buckets, decodeRollup bytes tier = .ok buckets →
      (buckets.Pairwise fun a b => a.index < b.index) ∧ buckets.length ≤ tier.maxBuckets ∧
        (∀ b ∈ buckets, b.min ≤ b.avg ∧ b.avg ≤ b.max ∧ 0 < b.count) ∧
        ∃ c, RollupChunk.reopen bytes tier = .ok c ∧ c.buckets = buckets) ∧
    (bytes.length * 8 + 64 < 2 ^ 64 →
      (∀ encoding, Checked.decodeRaw bytes encoding = (decodeRaw bytes encoding).mapError .refused ∧
        Checked.decodeRaw bytes encoding ≠ .error .panic) ∧
      ∀ tier, Checked.decodeRollup bytes tier = (decodeRollup bytes tier).mapError .refused ∧
        Checked.decodeRollup bytes tier ≠ .error .panic) := by
  refine ⟨fun encoding points h => decodeRaw_ok h, fun tier buckets h => ?_, fun hbytes => ⟨?_, ?_⟩⟩
  · obtain ⟨hpairwise, hlength, hvalid, hreopen⟩ := decodeRollup_ok h
    refine ⟨hpairwise, hlength, fun b hb => ?_, hreopen⟩
    exact ⟨(hvalid b hb).min_le, (hvalid b hb).le_max, (hvalid b hb).count_pos⟩
  · intro encoding
    have hcalm := Checked.decodeRaw_calm hbytes encoding
    exact ⟨hcalm, hcalm.ne_panic⟩
  · intro tier
    have hcalm := Checked.decodeRollup_calm hbytes tier
    exact ⟨hcalm, hcalm.ne_panic⟩

/-- A point whose count is a varint longer than it need be decodes, and reopens a byte shorter. -/
theorem decoded_reopens_padded :
    decodeRaw [0x01, 0x81, 0x00, 0x05, 0x06] .delta = .ok [⟨5, 3⟩] ∧
      (∃ c, RawChunk.reopen [0x01, 0x81, 0x00, 0x05, 0x06] .delta = .ok c ∧ c.points = [⟨5, 3⟩] ∧
        c.encode.length ≤ 5) ∧
      (∃ c, RollupChunk.reopen [0x02, 0x81, 0x00, 0x05, 0x06, 0x00, 0x80] .minute = .ok c ∧
        c.buckets = [⟨5, 3, 3, 3, 2⟩]) ∧
      Checked.decodeRaw [0x01, 0x81] .delta ≠ .error .panic := by
  have hraw : decodeRaw [0x01, 0x81, 0x00, 0x05, 0x06] .delta = .ok [⟨5, 3⟩] := by decide
  obtain ⟨-, -, -, hreopen⟩ := (decoded_reopens _).1 _ _ hraw
  obtain ⟨-, -, -, hrollup⟩ :=
    (decoded_reopens [0x02, 0x81, 0x00, 0x05, 0x06, 0x00, 0x80]).2.1 .minute
      [⟨5, 3, 3, 3, 2⟩] (by decide)
  exact ⟨hraw, hreopen (by decide), hrollup, (((decoded_reopens _).2.2 (by decide)).1 .delta).2⟩

end MonitoringAgent.HubStore

import MonitoringAgent.Model.CheckedTail
import MonitoringAgent.Verification.Codec.Checked
import MonitoringAgent.Verification.Series.Tail

/-! # A tail read back, with every step checked

Nothing overflows while a tail's chunks are reopened and its fields are read. The products of the
coherence check are the only ones that can, and where they don't the tail is checked whole. -/

namespace MonitoringAgent.HubStore

open MonitoringAgent.Library

namespace Checked

variable {ε : Type}

/-! ### Writing bits -/

theorem mask_eq {place : ℕ} (h : place < 8) :
    UInt8.ofNat (0x80 >>> place) = 0x80 >>> UInt8.ofNat place := by
  interval_cases place <;> decide

theorem testBit_eq (value i : ℕ) : value.testBit i = decide (value >>> i &&& 1 = 1) := by
  rw [Nat.testBit, Nat.and_comm]
  have hbit := Nat.and_one_is_mod (value >>> i)
  rcases Nat.mod_two_eq_zero_or_one (value >>> i) with h | h
  · simp [hbit, h]
  · simp [hbit, h]

theorem pushBit_calm (value : ℕ) {i : ℕ} (hi : i < 64) {w : BitWriter} {bits : List Bool}
    (hw : w.Holds bits) (hroom : bits.length + 1 < 2 ^ 64) :
    (pushBit w value i : Except (Stop ε) BitWriter) = .ok (w.pushBit (value.testBit i)) := by
  have hbits := hw.bits_eq
  have hbytes := hw.le_bytes
  simp only [pushBit, shrWord_eq hi, except_ok_bind]
  rw [addWord_eq (by omega), except_ok_bind, BitWriter.pushBit, testBit_eq]
  generalize hopened : (if w.bits % 8 = 0 then w.bytes ++ [0] else w.bytes) = opened
  by_cases hone : value >>> i &&& 1 = 1
  · have hpos : 0 < opened.length := by
      rw [← hopened]
      split_ifs with height
      · simp
      · omega
    have hlast : opened[opened.length - 1]? = some
        (opened.get ⟨opened.length - 1, Nat.sub_lt hpos Nat.one_pos⟩) :=
      List.getElem?_eq_getElem _
    rw [if_pos hone, subWord_eq hpos, except_ok_bind, indexed_eq hlast, except_ok_bind,
      shrWord_eq (Nat.mod_lt _ (by norm_num)), except_ok_bind, mask_eq (Nat.mod_lt _ (by norm_num))]
    simp only [hone, decide_true, if_true]
    rw [List.modify_eq_set, hlast]
    rfl
  · simp only [hone, decide_false, if_false]
    rfl

theorem push_calm (value : ℕ) {width : ℕ} (hwidth : width ≤ 64) {w : BitWriter} {bits : List Bool}
    (hw : w.Holds bits) (hroom : bits.length + width < 2 ^ 64) :
    (push w value width : Except (Stop ε) BitWriter) = .ok (w.push value width) := by
  induction width generalizing w bits with
  | zero => rfl
  | succ width ih =>
      rw [push, pushBit_calm value (by omega) hw (by omega), except_ok_bind, BitWriter.push]
      refine ih (by omega) (BitWriter.pushBit_holds (value.testBit width) w bits hw) ?_
      rw [List.length_append, List.length_singleton]
      omega

theorem writeDod_calm (dod : ℤ) {w : BitWriter} {bits : List Bool} (hw : w.Holds bits)
    (hroom : bits.length + 64 < 2 ^ 64) :
    (writeDod w dod : Except (Stop ε) _) = .ok (HubStore.writeDod w dod) := by
  cases hstep : dodStep dod with
  | none => simp only [writeDod, HubStore.writeDod, hstep]
  | some step =>
      have hfield : ∀ {pre len width : ℕ}, len ≤ 4 → width ≤ 32 →
          dodStep dod = some (some (pre, len, width)) →
          (writeDod w dod : Except (Stop ε) _) = .ok (HubStore.writeDod w dod) := by
        intro pre len width hlen hwidth hs
        simp only [writeDod, HubStore.writeDod, hs]
        rw [push_calm pre (by omega) hw (by omega), except_ok_bind,
          push_calm _ (by omega) (BitWriter.push_writes pre len w bits hw) ?_, except_ok_bind]
        rw [List.length_append, length_toBits]
        omega
      have hsome : (dodStep dod).isSome := by rw [hstep]; rfl
      rcases dodStep_cases hsome with ⟨-, hs⟩ | ⟨-, -, hs⟩ | ⟨-, -, hs⟩ | ⟨-, -, hs⟩ | ⟨-, -, hs⟩
      · simp only [writeDod, HubStore.writeDod, hs]
        rw [push_calm 0 (by norm_num) hw (by omega), except_ok_bind]
      all_goals exact hfield (by norm_num) (by norm_num) hs

theorem writeValue_calm {value : ℕ} (hvalue : value < 2 ^ 64) {w : BitWriter} {bits : List Bool}
    (hw : w.Holds bits) (hroom : bits.length + 70 < 2 ^ 64) :
    (writeValue w value : Except (Stop ε) BitWriter) = .ok (HubStore.writeValue w value) := by
  rcases valueStep_cases hvalue with ⟨-, hs⟩ | ⟨step, h5, hs, -⟩
  · simp only [writeValue, HubStore.writeValue, hs]
    exact push_calm 0 (by norm_num) hw (by omega)
  · have hwidth : ∃ width, valueWidths[step]? = some width ∧ width ≤ 64 := by
      interval_cases step <;> exact ⟨_, rfl, by norm_num⟩
    obtain ⟨width, hget, hwidth⟩ := hwidth
    have hgetD : valueWidths.getD step 0 = width := by
      rw [List.getD_eq_getElem?_getD, hget]
      rfl
    simp only [writeValue, HubStore.writeValue, hs]
    rw [addWord_eq (by omega), except_ok_bind, push_calm _ (by omega) hw (by omega), except_ok_bind]
    have h1 := BitWriter.push_writes (lowBits (step + 1)) (step + 1) w bits hw
    by_cases hp : prefixLen step > step + 1
    · rw [if_pos hp, if_pos hp, push_calm 0 (by norm_num) h1 ?_, except_ok_bind, indexed_eq hget,
        except_ok_bind, hgetD]
      · have h2 := BitWriter.push_writes 0 1 _ _ h1
        refine push_calm value hwidth h2 ?_
        simp only [List.length_append, length_toBits]
        omega
      · simp only [List.length_append, length_toBits]
        omega
    · rw [if_neg hp, if_neg hp, except_ok_bind, indexed_eq hget, except_ok_bind, hgetD]
      refine push_calm value hwidth h1 ?_
      simp only [List.length_append, length_toBits]
      omega

theorem writeBitVarintGroups_calm (rounds value : ℕ) {w : BitWriter} {bits : List Bool}
    (hw : w.Holds bits) (hroom : bits.length + 8 * rounds < 2 ^ 64) :
    (writeBitVarintGroups rounds w value : Except (Stop ε) BitWriter) =
      .ok (HubStore.writeBitVarintGroups rounds w value) := by
  induction rounds generalizing value w bits with
  | zero => rfl
  | succ rounds ih =>
      simp only [writeBitVarintGroups, HubStore.writeBitVarintGroups]
      rw [push_calm _ (by norm_num) hw (by omega), except_ok_bind]
      have h1 := BitWriter.push_writes (if value ≥ 0x80 then 1 else 0) 1 w bits hw
      have hlen1 : (bits ++ toBits 1 (if value ≥ 0x80 then 1 else 0)).length = bits.length + 1 := by
        rw [List.length_append, length_toBits]
      rw [push_calm _ (by norm_num) h1 (by omega), except_ok_bind,
        shrWord_eq (by norm_num), except_ok_bind]
      have h2 := BitWriter.push_writes (value &&& 0x7f) 7 _ _ h1
      dsimp only at h2
      split_ifs with hmore
      · rw [if_pos hmore] at h2 hlen1
        refine ih (value >>> 7) h2 ?_
        rw [List.length_append, hlen1, length_toBits]
        omega
      · rfl

theorem writeBitVarint_calm (value : ℕ) {w : BitWriter} {bits : List Bool} (hw : w.Holds bits)
    (hroom : bits.length + 80 < 2 ^ 64) :
    (writeBitVarint w value : Except (Stop ε) BitWriter) = .ok (HubStore.writeBitVarint w value) :=
  writeBitVarintGroups_calm 10 value hw hroom

theorem writeSpread_calm (bucket : Bucket) {w : BitWriter} {bits : List Bool} (hw : w.Holds bits)
    (hroom : bits.length + 300 < 2 ^ 64) :
    (writeSpread w bucket : Except (Stop ε) BitWriter) = .ok (HubStore.writeSpread w bucket) := by
  have hbelow := asU64_lt (wrapI64 (bucket.avg - bucket.min))
  have habove := asU64_lt (wrapI64 (bucket.max - bucket.avg))
  have hfirst := valueBits_le hbelow
  have hsecond := valueBits_le habove
  simp only [writeSpread, HubStore.writeSpread]
  rw [writeValue_calm hbelow hw (by omega), except_ok_bind]
  have h1 := writeValue_writes hbelow w bits hw
  rw [writeValue_calm habove h1 ?_, except_ok_bind]
  · have h2 := writeValue_writes habove _ _ h1
    refine writeBitVarint_calm bucket.count h2 ?_
    rw [List.length_append, List.length_append, length_valueCode hbelow, length_valueCode habove]
    omega
  · rw [List.length_append, length_valueCode hbelow]
    omega

/-! ### Pushing -/

/-- What a push leaves, or why it was refused. -/
def taken {C : Type} (x : Except PushRefused Unit × C) : Except PushRefused C :=
  x.1.map fun _ => x.2

theorem holds_bits_le {w : BitWriter} {bits : List Bool} (hw : w.Holds bits) :
    w.bitLen ≤ 8 * w.bytes.length := by
  have hbits := hw.bits_eq
  have hbytes := hw.le_bytes
  rw [BitWriter.bitLen]
  omega

theorem rawLayout_bounds {c : RawChunk} {first : RawPoint} {later : List RawPoint}
    (h : c.Layout first later) (hfirst : first.Valid) :
    0 ≤ c.tsStep ∧ c.tsStep < 2 ^ 63 ∧ c.count ≤ 240 ∧ c.bits.bitLen ≤ 8192 := by
  have hcount := h.count
  have hle := h.count_le
  have hsize := h.size
  have hbits := holds_bits_le h.bits
  have hmax : maxRawPoints = 240 := rfl
  have hbytes : maxRawChunkBytes = 1024 := rfl
  rw [RawChunk.length_encode h.ends (by omega) hfirst.1] at hsize
  have hstep : 0 ≤ c.tsStep ∧ c.tsStep < 2 ^ 63 := by
    have htsStep := h.tsStep
    have hcodable := h.codable
    cases later using List.reverseRecOn with
    | nil =>
        rw [htsStep]
        exact ⟨le_rfl, by norm_num⟩
    | append_singleton later p =>
        obtain ⟨hafter, hfar, -, -⟩ := ((allFrom_concat _ later p).mp hcodable).2
        rw [List.foldl_append] at htsStep
        generalize later.foldl RawCursor.next ⟨first, 0, 0⟩ = cur at hafter hfar htsStep
        have hnext : c.tsStep = (p.ts : ℤ) - cur.last.ts := htsStep
        omega
  exact ⟨hstep.1, hstep.2, by omega, by omega⟩

theorem pushRaw_calm {c : RawChunk} {points : List RawPoint}
    (hc : c.Contents points) (p : RawPoint) : Calm (pushRaw c p) (taken (c.push p)) := by
  cases points with
  | nil =>
      have hends : c.ends = none := by
        rw [hc.eq_new]
        rfl
      simp only [pushRaw, RawChunk.push, hends]
      rfl
  | cons first later =>
      have hl := hc.layout
      obtain ⟨hstep, hstepLt, hcount, hbits⟩ := rawLayout_bounds hl
        (hc.valid first List.mem_cons_self)
      simp only [pushRaw, RawChunk.push, hl.ends]
      generalize (later.foldl RawCursor.next ⟨first, 0, 0⟩).last = last
      by_cases hafter : p.ts ≤ last.ts
      · rw [if_pos hafter, if_pos hafter]
        rfl
      rw [if_neg hafter, if_neg hafter]
      by_cases hfull : c.count ≥ maxRawPoints
      · rw [if_pos hfull, if_pos hfull]
        rfl
      rw [if_neg hfull, if_neg hfull, subWord_eq (not_le.mp hafter).le, except_ok_bind]
      by_cases hfar : p.ts - last.ts ≥ 2 ^ 63
      · rw [if_pos hfar, if_pos hfar]
        rfl
      rw [if_neg hfar, if_neg hfar, subInt_eq (by constructor <;> omega), except_ok_bind]
      cases hdod : dodBits (((p.ts - last.ts : ℕ) : ℤ) - c.tsStep) with
      | none => rfl
      | some tsBits =>
          have hvalue := stepCode_lt c.encoding c.valueStep (wrapI64 (p.value - last.value))
          generalize RawChunk.stepCode c.encoding c.valueStep (wrapI64 (p.value - last.value)) =
            code at hvalue
          have hsome : (dodStep (((p.ts - last.ts : ℕ) : ℤ) - c.tsStep)).isSome := by
            cases hnone : dodStep (((p.ts - last.ts : ℕ) : ℤ) - c.tsStep) with
            | none => simp [dodBits, hnone] at hdod
            | some _ => rfl
          have htsBits : tsBits ≤ 36 := by
            rw [← length_dodCode hdod]
            exact length_dodCode_le hsome
          have hcost := valueBits_le hvalue
          have hheader : RawChunk.headerLen (c.count + 1) first ≤ 31 := by
            have h1 := varintLen_le (c.count + 1)
            have h2 := varintLen_le first.ts
            have h3 := varintLen_le (zigzag first.value)
            rw [RawChunk.headerLen]
            omega
          dsimp only
          rw [addWord_eq (by omega), except_ok_bind, addWord_eq (by omega), except_ok_bind,
            addWord_eq (by omega), except_ok_bind, addWord_eq (by omega), except_ok_bind]
          by_cases hsize : RawChunk.headerLen (c.count + 1) first +
              (c.bits.bitLen + (tsBits + valueBits code) + 7) / 8 >
              maxRawChunkBytes
          · rw [if_pos hsize, if_pos hsize]
            rfl
          · have hroom := hl.bits.bits_eq
            rw [BitWriter.bitLen] at hbits
            have hwritten := writeDod_writes hsome c.bits _ hl.bits
            rw [if_neg hsize, if_neg hsize, writeDod_calm _ hl.bits (by omega), except_ok_bind,
              writeValue_calm hvalue hwritten ?_]
            · rfl
            · have hlength := length_dodCode_le hsome
              rw [List.length_append]
              omega

theorem rollupLayout_bounds {c : RollupChunk} {first : Bucket} {later : List Bucket}
    (h : c.Contents (first :: later)) :
    0 ≤ c.indexStep ∧ c.indexStep < 2 ^ 63 ∧ c.count ≤ 60 ∧ c.bits.bitLen < 2 ^ 20 := by
  have hl := h.layout
  have hcount := hl.count
  have hle := hl.count_le
  have hbits := holds_bits_le hl.bits
  have hmax := c.tier.maxBuckets_bounds
  have hsize := h.length_encode_lt (List.cons_ne_nil first later)
  rw [RollupChunk.encode_some hl.ends, List.length_cons, List.length_append] at hsize
  have hstep : 0 ≤ c.indexStep ∧ c.indexStep < 2 ^ 63 := by
    have hindexStep := hl.indexStep
    have hcodable := hl.codable
    cases later using List.reverseRecOn with
    | nil =>
        rw [hindexStep]
        exact ⟨by norm_num, by norm_num⟩
    | append_singleton later b =>
        obtain ⟨hafter, hfar, -, -⟩ := ((allFrom_concat _ later b).mp hcodable).2
        rw [List.foldl_append] at hindexStep
        generalize later.foldl BucketCursor.next ⟨first, 1⟩ = cur at hafter hfar hindexStep
        have hnext : c.indexStep = (b.index : ℤ) - cur.last.index := hindexStep
        omega
  exact ⟨hstep.1, hstep.2, by omega, by omega⟩

theorem pushRollup_calm {c : RollupChunk} {buckets : List Bucket}
    (hc : c.Contents buckets) (b : Bucket) : Calm (pushRollup c b) (taken (c.push b)) := by
  rw [pushRollup, RollupChunk.push]
  by_cases hvalid : ¬(b.min ≤ b.avg ∧ b.avg ≤ b.max ∧ b.count > 0)
  · rw [if_pos hvalid, if_pos hvalid]
    rfl
  rw [if_neg hvalid, if_neg hvalid]
  cases buckets with
  | nil =>
      have hends : c.ends = none := by
        rw [hc.eq_new]
        rfl
      have hbits : c.bits = {} := by
        rw [hc.eq_new]
        rfl
      have hholds : c.bits.Holds [] := hbits ▸ BitWriter.holds_nil
      simp only [hends]
      rw [writeSpread_calm b hholds (by norm_num), except_ok_bind]
      rfl
  | cons first later =>
      have hl := hc.layout
      obtain ⟨hstep, hstepLt, hcount, hbits⟩ := rollupLayout_bounds hc
      rw [BitWriter.bitLen, hl.bits.bits_eq] at hbits
      simp only [hl.ends]
      generalize (later.foldl BucketCursor.next ⟨first, 1⟩).last = last
      by_cases hafter : b.index ≤ last.index
      · rw [if_pos hafter, if_pos hafter]
        rfl
      rw [if_neg hafter, if_neg hafter]
      by_cases hfull : c.count ≥ c.tier.maxBuckets
      · rw [if_pos hfull, if_pos hfull]
        rfl
      rw [if_neg hfull, if_neg hfull, subWord_eq (not_le.mp hafter).le, except_ok_bind]
      by_cases hfar : b.index - last.index ≥ 2 ^ 63
      · rw [if_pos hfar, if_pos hfar]
        rfl
      rw [if_neg hfar, if_neg hfar, subInt_eq (by constructor <;> omega), except_ok_bind,
        writeDod_calm _ hl.bits (by omega), except_ok_bind]
      cases hwritten : HubStore.writeDod c.bits
        (((b.index - last.index : ℕ) : ℤ) - c.indexStep) with
      | mk written bits =>
          cases written with
          | false => rfl
          | true =>
              have hsome : (dodStep (((b.index - last.index : ℕ) : ℤ) - c.indexStep)).isSome := by
                rw [← writeDod_fst c.bits, hwritten]
              have hdod := writeDod_writes hsome c.bits _ hl.bits
              have hlength := length_dodCode_le hsome
              simp only [hwritten] at hdod
              have hzigzag := zigzag_lt (wrapI64 (b.avg - last.avg))
              have hcost := valueBits_le hzigzag
              have hvalue := writeValue_writes hzigzag bits _ hdod
              dsimp only
              rw [if_pos rfl, writeValue_calm hzigzag hdod ?_, except_ok_bind,
                writeSpread_calm b hvalue ?_, except_ok_bind, addWord_eq (by omega), except_ok_bind]
              · rfl
              · rw [List.length_append, List.length_append, length_valueCode hzigzag]
                omega
              · rw [List.length_append]
                omega

/-! ### Reopening -/

section PushAll

variable {C Item : Type} {push : C → Item → Except PushRefused Unit × C}
  {checked : C → Item → Except (Stop PushRefused) C} (Holds : C → List Item → Prop)
  {Valid : Item → Prop}

/-- Item after item, what one checked push keeps to, all of them do. -/
theorem pushAll_calm (hcalm : ∀ c items item, Holds c items →
    Calm (checked c item) (taken (push c item))) (hpush : ∀ c items item, Holds c items →
      Valid item → (push c item).1 = .ok () →
      Holds (push c item).2 (items ++ [item])) {c : C} {before items : List Item}
    (hc : Holds c before)
    (hvalid : ∀ item ∈ items, Valid item) :
    Calm (pushAll checked c items) (HubStore.pushAll push c items) ∧
      ∀ c', HubStore.pushAll push c items = .ok c' → Holds c' (before ++ items) := by
  induction items generalizing c before with
  | nil =>
      refine ⟨rfl, fun c' hc' => ?_⟩
      rw [← Except.ok.inj hc', List.append_nil]
      exact hc
  | cons item items ih =>
      have hstep := hcalm c before item hc
      rw [Calm] at hstep
      have hnext := hpush c before item hc (hvalid item List.mem_cons_self)
      rw [pushAll, HubStore.pushAll, hstep]
      cases hresult : push c item with
      | mk result c' =>
          rw [hresult] at hnext
          cases result with
          | error e => exact ⟨rfl, fun c' hc' => absurd hc' (by simp)⟩
          | ok _ =>
              have hrest := ih (hnext rfl) fun other hother =>
                hvalid other (List.mem_cons_of_mem item hother)
              rw [List.append_assoc, List.singleton_append] at hrest
              exact hrest

end PushAll

theorem reopenRaw_safe {bytes : List UInt8} (hbytes : bytes.length * 8 + 64 < 2 ^ 64)
    (encoding : Encoding) :
    Safe (reopenRaw bytes encoding) fun c => c.encoding = encoding ∧
      ∃ points, c.Contents points := by
  refine (decodeRaw_calm hbytes encoding).safe.bind fun points hpoints => ?_
  obtain ⟨hcalm, hcontents⟩ :=
    pushAll_calm (fun c points => c.encoding = encoding ∧ RawChunk.Contents c points)
    (fun c points p hc => pushRaw_calm hc.2 p)
    (fun c points p hc hp hok => ⟨(RawChunk.push_encoding c p).trans hc.1, hc.2.push hp hok⟩)
    ⟨rfl, RawChunk.contents_new encoding⟩ (decodeRaw_valid hpoints)
  refine hcalm.safe.mono fun c hc => ?_
  obtain ⟨hencoding, hc⟩ := hcontents c hc
  exact ⟨hencoding, _, hc⟩

theorem reopenRollup_safe {bytes : List UInt8} (hbytes : bytes.length * 8 + 64 < 2 ^ 64)
    (tier : RollupTier) :
    Safe (reopenRollup bytes tier) fun c => c.tier = tier ∧ ∃ buckets, c.Contents buckets := by
  refine (decodeRollup_calm hbytes tier).safe.bind fun buckets hbuckets => ?_
  obtain ⟨-, -, hvalid, -⟩ := decodeRollup_ok hbuckets
  obtain ⟨hcalm, hcontents⟩ :=
    pushAll_calm (fun c buckets => c.tier = tier ∧ RollupChunk.Contents c buckets)
    (fun c buckets b hc => pushRollup_calm hc.2 b)
    (fun c buckets b hc hb hok => ⟨(RollupChunk.push_tier c b).trans hc.1, hc.2.push hb hok⟩)
    ⟨rfl, RollupChunk.contents_new tier⟩ hvalid
  refine hcalm.safe.mono fun c hc => ?_
  obtain ⟨htier, hc⟩ := hcontents c hc
  exact ⟨htier, _, hc⟩

/-! ### What a chunk holds -/

/-- Where the counters can't run over, the checked decoder yields the points the chunk says it
holds. -/
theorem points_decoded {c : RawChunk} (hbytes : c.encode.length * 8 + 64 < 2 ^ 64) :
    (orDefault (decodeRaw c.encode c.encoding) : Except (Stop ε) (List RawPoint)) =
      .ok c.points := by
  have hcalm := decodeRaw_calm hbytes c.encoding
  rw [Calm] at hcalm
  rw [hcalm, RawChunk.points]
  cases HubStore.decodeRaw c.encode c.encoding <;> rfl

theorem buckets_decoded {c : RollupChunk} (hbytes : c.encode.length * 8 + 64 < 2 ^ 64) :
    (orDefault (decodeRollup c.encode c.tier) : Except (Stop ε) (List Bucket)) = .ok c.buckets := by
  have hcalm := decodeRollup_calm hbytes c.tier
  rw [Calm] at hcalm
  rw [hcalm, RollupChunk.buckets]
  cases HubStore.decodeRollup c.encode c.tier <;> rfl

theorem points_eq {c : RawChunk} {points : List RawPoint} (h : c.Contents points) :
    (Checked.points c : Except (Stop ε) (List RawPoint)) = .ok c.points := by
  cases points with
  | nil =>
      have hends : c.ends = none := by
        rw [h.eq_new]
        rfl
      have hencode : c.encode.length = 2 := by
        rw [h.eq_new]
        rfl
      rw [Checked.points, hends, except_ok_bind]
      exact points_decoded (by omega)
  | cons first later =>
      have hl := h.layout
      have hsize := hl.size
      have hmax : maxRawChunkBytes = 1024 := rfl
      obtain ⟨-, -, hcount, -⟩ := rawLayout_bounds hl (h.valid first List.mem_cons_self)
      have hlength := hsize
      rw [RawChunk.length_encode hl.ends (by omega) (h.valid first List.mem_cons_self).1] at hlength
      simp only [Checked.points, hl.ends]
      rw [addWord_eq (by rw [BitWriter.asBytes]; omega), except_ok_bind]
      exact points_decoded (by omega)

theorem buckets_eq {c : RollupChunk} {buckets : List Bucket} (h : c.Contents buckets) :
    (Checked.buckets c : Except (Stop ε) (List Bucket)) = .ok c.buckets := by
  cases buckets with
  | nil =>
      have hends : c.ends = none := by
        rw [h.eq_new]
        rfl
      have hencode : c.encode.length = 2 := by
        rw [h.eq_new]
        rfl
      rw [Checked.buckets, hends, except_ok_bind]
      exact buckets_decoded (by omega)
  | cons first later =>
      have hl := h.layout
      have hsize := h.length_encode_lt (List.cons_ne_nil first later)
      have hlength := hsize
      rw [RollupChunk.encode_some hl.ends, List.length_cons, List.length_append] at hlength
      have h1 := varintLen_le c.count
      have h2 := varintLen_le first.index
      have h3 := varintLen_le (zigzag first.avg)
      simp only [Checked.buckets, hl.ends]
      rw [addWord_eq (by rw [BitWriter.asBytes]; omega), except_ok_bind]
      exact buckets_decoded (by omega)

theorem inSpan_eq (tier : Tier) (span : Option SpanStart) (times : List ℕ) :
    (inSpan tier span times : Except (Stop ε) Bool) = .ok (timesInSpan tier span times) := by
  unfold inSpan timesInSpan
  by_cases hempty : times = []
  · simp [hempty]
  rw [if_neg hempty]
  cases span with
  | none => simp [hempty]
  | some s =>
      have hall (times : List ℕ) : (times.allM fun t => do
          let start ← spanOf tier t
          .ok (decide (start = s)) : Except (Stop ε) Bool) =
              .ok (times.all fun t => decide (tier.spanOf t = s)) := by
        induction times with
        | nil => rfl
        | cons t times ih =>
            rw [List.allM_cons, spanOf, subWord_eq (Nat.mod_le _ _),
              except_ok_bind, ih, List.all_cons]
            rw [Tier.spanOf, except_ok_bind]
            cases decide (t - t % tier.spanSecs = s) <;> rfl
      dsimp only
      rw [hall, Option.any_some]
      simp only [hempty, false_or, Bool.decide_eq_true]

/-! ### The checks -/

/-- No product of the tier's bucket indexes overflows a `u64`. -/
def ProductsFit (s : RollupState) : Prop :=
  (∀ b ∈ s.open.chunk.buckets, b.index * s.tier.bucketSecs < 2 ^ 64) ∧
    ∀ a, s.bucket = some a → a.index * s.tier.bucketSecs < 2 ^ 64

theorem mapM_mul_eq (build : Build) {buckets : List Bucket} {secs : ℕ}
    (h : ∀ b ∈ buckets, b.index * secs < 2 ^ 64) :
    (buckets.mapM fun b => build.mul b.index secs : Except (Stop ε) (List ℕ)) = .ok
      (buckets.map (·.index * secs)) := by
  induction buckets with
  | nil => rfl
  | cons b buckets ih =>
      have hb := h b List.mem_cons_self
      have hmul : (build.mul b.index secs : Except (Stop ε) ℕ) = .ok (b.index * secs) := by
        cases build with
        | debug => exact mulWord_eq hb
        | release => exact congrArg Except.ok (Nat.mod_eq_of_lt hb)
      rw [List.mapM_cons, hmul, except_ok_bind, ih fun other hother => h other
        (List.mem_cons_of_mem b hother)]
      rfl

theorem mapM_mul_panic {buckets : List Bucket} {secs : ℕ}
    (h : ¬∀ b ∈ buckets, b.index * secs < 2 ^ 64) :
    (buckets.mapM fun b => Build.debug.mul b.index secs : Except (Stop ε) (List ℕ)) =
      .error .panic := by
  induction buckets with
  | nil => exact absurd (fun b hb => absurd hb List.not_mem_nil) h
  | cons b buckets ih =>
      rw [List.mapM_cons]
      by_cases hb : b.index * secs < 2 ^ 64
      · have hmul : (Build.debug.mul b.index secs : Except (Stop ε) ℕ) =
          .ok (b.index * secs) := mulWord_eq hb
        rw [hmul, except_ok_bind, ih]
        · rfl
        · intro hall
          exact h (List.forall_mem_cons.mpr ⟨hb, hall⟩)
      · have hmul : (Build.debug.mul b.index secs : Except (Stop ε) ℕ) = .error .panic := if_neg hb
        rw [hmul]
        rfl

theorem coherent_eq (build : Build) {s : RollupState} {buckets : List Bucket}
    (h : s.open.chunk.Contents buckets) (hfit : ProductsFit s) :
    (coherent build s : Except (Stop ε) (Bool × List ℕ)) = .ok (s.coherent, s.times) := by
  rw [coherent, buckets_eq h, except_ok_bind, mapM_mul_eq build hfit.1, except_ok_bind, inSpan_eq,
    except_ok_bind, RollupState.coherent, RollupState.times]
  cases hbucket : s.bucket with
  | none =>
      simp only [Option.all_none, Bool.and_true]
      rfl
  | some a =>
      have hmul : (build.mul a.index s.tier.bucketSecs : Except (Stop ε) ℕ) =
          .ok (a.index * s.tier.bucketSecs) := by
        cases build with
        | debug => exact mulWord_eq (hfit.2 a hbucket)
        | release => exact congrArg Except.ok (Nat.mod_eq_of_lt (hfit.2 a hbucket))
      dsimp only
      rw [hmul]
      rfl

/-- A product that overflows panics in a debug build. -/
theorem coherent_panic {s : RollupState} {buckets : List Bucket} (h : s.open.chunk.Contents buckets)
    (hfit : ¬ProductsFit s) :
    (coherent .debug s : Except (Stop ε) (Bool × List ℕ)) = .error .panic := by
  rw [coherent, buckets_eq h, except_ok_bind]
  by_cases hclosed : ∀ b ∈ s.open.chunk.buckets, b.index * s.tier.bucketSecs < 2 ^ 64
  · rw [mapM_mul_eq .debug hclosed, except_ok_bind, inSpan_eq, except_ok_bind]
    cases hbucket : s.bucket with
    | none =>
        refine absurd ⟨hclosed, fun a ha => ?_⟩ hfit
        rw [hbucket] at ha
        cases ha
    | some a =>
        have hover : ¬a.index * s.tier.bucketSecs < 2 ^ 64 := by
          intro hlt
          refine hfit ⟨hclosed, fun b hb => ?_⟩
          rw [hbucket] at hb
          obtain rfl := Option.some.inj hb
          exact hlt
        have hmul : (Build.debug.mul a.index s.tier.bucketSecs : Except (Stop ε) ℕ) =
          .error .panic := if_neg hover
        dsimp only
        rw [hmul]
        rfl
  · rw [mapM_mul_panic hclosed]
    rfl

/-- A series' fields as they are read: its chunks hold what was pushed into them. -/
structure Reopened (s : SeriesState) : Prop where
  raw : ∃ points, s.raw.chunk.Contents points
  minute : ∃ buckets, s.minute.open.chunk.Contents buckets
  hour : ∃ buckets, s.hour.open.chunk.Contents buckets
  minuteTier : s.minute.tier = .minute
  hourTier : s.hour.tier = .hour

theorem calm_check {e : ε} (b : Bool) :
    Calm (if b = true then .ok () else .error (.refused e) : Except (Stop ε) Unit)
      (if b = true then .ok () else .error e) := by
  split_ifs
  · exact calm_ok ()
  · exact calm_refused e

theorem checkDomain_calm {s : SeriesState} (h : Reopened s) :
    Calm (checkDomain s) s.checkDomain := by
  obtain ⟨points, hraw⟩ := h.raw
  obtain ⟨minutes, hminute⟩ := h.minute
  obtain ⟨hours, hhour⟩ := h.hour
  rw [checkDomain, points_eq hraw, except_ok_bind, buckets_eq hminute, except_ok_bind,
    buckets_eq hhour, except_ok_bind, SeriesState.checkDomain]
  exact calm_check _

theorem checkCoherence_calm (build : Build) {s : SeriesState} (h : Reopened s)
    (hminute : ProductsFit s.minute) (hhour : ProductsFit s.hour) :
    Calm (checkCoherence build s) s.checkCoherence := by
  obtain ⟨points, hraw⟩ := h.raw
  obtain ⟨minutes, hminutes⟩ := h.minute
  obtain ⟨hours, hhours⟩ := h.hour
  rw [checkCoherence, points_eq hraw, except_ok_bind]
  dsimp only
  rw [inSpan_eq, except_ok_bind, coherent_eq build hminutes hminute, except_ok_bind,
    coherent_eq build hhours hhour, except_ok_bind, SeriesState.checkCoherence]
  exact calm_check _

theorem checkCoherence_panic {s : SeriesState} (h : Reopened s)
    (hfit : ¬(ProductsFit s.minute ∧ ProductsFit s.hour)) :
    checkCoherence .debug s = .error .panic := by
  obtain ⟨points, hraw⟩ := h.raw
  obtain ⟨minutes, hminutes⟩ := h.minute
  obtain ⟨hours, hhours⟩ := h.hour
  rw [checkCoherence, points_eq hraw, except_ok_bind]
  dsimp only
  rw [inSpan_eq, except_ok_bind]
  by_cases hminute : ProductsFit s.minute
  · rw [coherent_eq .debug hminutes hminute, except_ok_bind, coherent_panic hhours
      fun hhour => hfit ⟨hminute, hhour⟩]
    rfl
  · rw [coherent_panic hminutes hminute]
    rfl

/-! ### Reading the fields -/

theorem field_safe {α : Type} {x : Except Short α} {P : α → Prop} (h : ∀ a, x = .ok a → P a) :
    Safe (field x) P := by
  cases x with
  | error e => exact safe_refused _
  | ok a => exact safe_ok (h a rfl)

theorem mapError_safe {α : Type} (x : Except TailError α) :
    Safe (x.mapError .refused : Reading α) fun _ => True := by
  cases x with
  | error e => exact safe_refused e
  | ok a => exact safe_ok trivial

theorem bytes_length_eq {r r' : Reader} {len : ℕ} {field : List UInt8}
    (h : r.bytes len = .ok (field, r')) : field.length = len := by
  rw [Reader.bytes] at h
  split_ifs at h with hlen
  obtain ⟨rfl, -⟩ := Prod.mk.inj (Except.ok.inj h)
  exact List.length_take_of_le hlen

theorem unsigned_lt {r r' : Reader} {width value : ℕ} (h : r.unsigned width = .ok (value, r')) :
    value < 256 ^ width := by
  rw [Reader.unsigned, except_bind_eq_ok] at h
  obtain ⟨⟨field, rest⟩, hfield, hvalue⟩ := h
  obtain ⟨rfl, -⟩ := Prod.mk.inj (Except.ok.inj hvalue)
  have hlt := ofBeBytes_lt field
  rwa [bytes_length_eq hfield] at hlt

theorem i64_bounds {r r' : Reader} {value : ℤ} (h : r.i64 = .ok (value, r')) :
    -2 ^ 63 ≤ value ∧ value < 2 ^ 63 := by
  rw [Reader.i64, Reader.signed, except_bind_eq_ok] at h
  obtain ⟨⟨field, rest⟩, -, hvalue⟩ := h
  obtain ⟨rfl, -⟩ := Prod.mk.inj (Except.ok.inj hvalue)
  exact ofBeBytesInt_bounds 8 field

theorem u16Prefixed_length_lt {r r' : Reader} {field : List UInt8}
    (h : r.u16Prefixed = .ok (field, r')) : field.length < 2 ^ 16 := by
  rw [Reader.u16Prefixed, except_bind_eq_ok] at h
  obtain ⟨⟨len, rest⟩, hlen, hfield⟩ := h
  rw [bytes_length_eq hfield]
  exact unsigned_lt hlen

/-- The products of the check are within an `i128`. -/
theorem fromParts_safe {index count : ℕ} {sum min max : ℤ} (hcount : count < 2 ^ 32)
    (hmin : -2 ^ 63 ≤ min ∧ min < 2 ^ 63) (hmax : -2 ^ 63 ≤ max ∧ max < 2 ^ 63) :
    Safe (fromParts index sum count min max : Reading (Option Accumulator)) fun _ => True := by
  have hproduct (v : ℤ) (hv : -2 ^ 63 ≤ v ∧ v < 2 ^ 63) : -2 ^ 127 ≤ (count : ℤ) * v ∧
      (count : ℤ) * v < 2 ^ 127 := by
    constructor <;> nlinarith
  rw [fromParts]
  split_ifs with hparts
  · rw [mulInt_eq (hproduct min hmin), except_ok_bind]
    split_ifs
    · rw [mulInt_eq (hproduct max hmax), except_ok_bind]
      exact safe_ok trivial
    · exact safe_ok trivial
  · exact safe_ok trivial

theorem readBucket_safe (r : Reader) : Safe (readBucket r) fun _ => True := by
  rw [readBucket]
  refine (field_safe (P := fun _ => True) fun _ _ => trivial).bind fun ⟨presence, r⟩ _ => ?_
  dsimp only
  split
  · exact safe_ok trivial
  · refine (field_safe (P := fun _ => True) fun _ _ => trivial).bind fun ⟨index, r⟩ _ => ?_
    refine (field_safe (P := fun _ => True) fun _ _ => trivial).bind fun ⟨sum, r⟩ _ => ?_
    refine (field_safe fun read hread => unsigned_lt hread).bind fun ⟨count, r⟩ hcount => ?_
    refine (field_safe fun read hread => i64_bounds hread).bind fun ⟨min, r⟩ hmin => ?_
    refine (field_safe fun read hread => i64_bounds hread).bind fun ⟨max, r⟩ hmax => ?_
    refine (fromParts_safe hcount hmin hmax).bind fun parts _ => ?_
    cases parts with
    | none => exact safe_refused _
    | some a => exact safe_ok trivial
  · exact safe_refused _

theorem readOpen_safe {C : Type} {P : C → Prop} (r : Reader) (tier : Tier) {empty : C}
    {reopen : List UInt8 → Decoding C} (hempty : P empty)
    (hreopen : ∀ bytes : List UInt8, bytes.length * 8 + 64 < 2 ^ 64 → Safe (reopen bytes) P) :
    Safe (readOpen r tier empty reopen) fun read => P read.1.chunk := by
  rw [readOpen]
  refine (mapError_safe _).bind fun ⟨span, r⟩ _ => ?_
  refine (field_safe (P := fun _ => True) fun _ _ => trivial).bind fun ⟨nextSeq, r⟩ _ => ?_
  refine (field_safe fun read hread => u16Prefixed_length_lt hread).bind fun ⟨bytes, r⟩ hbytes => ?_
  dsimp only at hbytes ⊢
  split_ifs with hnone
  · exact safe_ok hempty
  · have hsafe := hreopen bytes (by omega)
    cases hread : reopen bytes with
    | ok chunk => exact safe_ok (hsafe.2 chunk hread)
    | error stop =>
        cases stop with
        | panic => exact absurd hread hsafe.1
        | refused e => exact safe_refused _

theorem readFields_safe (bytes : List UInt8) : Safe (readFields bytes) Reopened := by
  rw [readFields]
  refine (field_safe (P := fun _ => True) fun _ _ => trivial).bind fun ⟨version, r⟩ _ => ?_
  dsimp only
  split_ifs with hversion
  · exact safe_refused _
  refine (field_safe (P := fun _ => True) fun _ _ => trivial).bind fun ⟨code, r⟩ _ => ?_
  dsimp only
  cases ValueKind.fromCode code with
  | none => exact safe_refused _
  | some kind =>
      refine (mapError_safe _).bind fun ⟨lastTs, r⟩ _ => ?_
      refine (readOpen_safe r .raw ⟨_, RawChunk.contents_new kind.encoding⟩ fun bytes hbytes =>
        (reopenRaw_safe hbytes kind.encoding).mono fun c hc => hc.2).bind fun ⟨raw, r⟩ hraw => ?_
      refine (readOpen_safe r .minute ⟨_, RollupChunk.contents_new .minute⟩ fun bytes hbytes =>
        (reopenRollup_safe hbytes .minute).mono fun c hc => hc.2).bind fun ⟨minute, r⟩ hminute => ?_
      refine (readOpen_safe r .hour ⟨_, RollupChunk.contents_new .hour⟩ fun bytes hbytes =>
        (reopenRollup_safe hbytes .hour).mono fun c hc => hc.2).bind fun ⟨hour, r⟩ hhour => ?_
      refine (readBucket_safe r).bind fun ⟨minuteBucket, r⟩ _ => ?_
      refine (readBucket_safe r).bind fun ⟨hourBucket, r⟩ _ => ?_
      refine (field_safe (P := fun _ => True) fun _ _ => trivial).bind fun _ _ => ?_
      exact safe_ok ⟨hraw, hminute, hhour, rfl, rfl⟩

/-! ### What is checked -/

theorem mem_timesInSpan {tier : Tier} {span : Option SpanStart} {times : List ℕ} {t : ℕ}
    (h : timesInSpan tier span times = true) (ht : t ∈ times) : span = some (tier.spanOf t) := by
  rw [timesInSpan, decide_eq_true_eq] at h
  rcases h with rfl | h
  · cases ht
  · obtain ⟨start, hstart, hall⟩ := (Option.any_eq_true _ _).mp h
    have hspan := List.all_eq_true.mp hall t ht
    rw [decide_eq_true_eq] at hspan
    rw [hstart, hspan]

theorem pairwise_buckets (c : RollupChunk) : c.buckets.Pairwise fun a b => a.index < b.index := by
  rw [RollupChunk.buckets]
  split
  · next hdecoded => exact (decodeRollup_ok hdecoded).1
  · exact List.Pairwise.nil

/-- A tier of the series as it should be: its closed buckets in the span, its open one after them,
none past the last time. -/
structure WholeTier (lastTs : Option ℕ) (kind : ValueKind) (r : RollupState) : Prop where
  span : ∀ b ∈ r.open.chunk.buckets, r.open.span =
    some (r.tier.tier.spanOf (b.index * r.tier.bucketSecs))
  closed_le : ∀ b ∈ r.open.chunk.buckets, ∃ last, lastTs = some last ∧
    b.index * r.tier.bucketSecs ≤ last
  open_le : ∀ a, r.bucket = some a → ∃ last, lastTs = some last ∧ a.index * r.tier.bucketSecs ≤ last
  closed_lt : ∀ a, r.bucket = some a → ∀ b ∈ r.open.chunk.buckets,
    b.index * r.tier.bucketSecs < a.index * r.tier.bucketSecs
  closed_domain : ∀ b ∈ r.open.chunk.buckets, kind.InDomain b.min ∧
    kind.InDomain b.avg ∧ kind.InDomain b.max
  open_domain : ∀ a, r.bucket = some a → kind.InDomain a.min ∧ kind.InDomain a.max

/-- A series checked whole. -/
structure Whole (s : SeriesState) : Prop where
  minuteTier : s.minute.tier = .minute
  hourTier : s.hour.tier = .hour
  span : ∀ p ∈ s.raw.chunk.points, s.raw.span = some (Tier.raw.spanOf p.ts)
  point_le : ∀ p ∈ s.raw.chunk.points, ∃ last, s.lastTs = some last ∧ p.ts ≤ last
  domain : ∀ p ∈ s.raw.chunk.points, s.kind.InDomain p.value
  minute : WholeTier s.lastTs s.kind s.minute
  hour : WholeTier s.lastTs s.kind s.hour

/-- The open bucket is after the last closed one, and so after each. -/
theorem closed_lt_of_coherent {r : RollupState} (h : r.coherent = true) {a : Accumulator}
    (ha : r.bucket = some a) :
    ∀ b ∈ r.open.chunk.buckets, b.index * r.tier.bucketSecs < a.index * r.tier.bucketSecs := by
  intro b hb
  rw [RollupState.coherent, Bool.and_eq_true, ha, Option.all_some] at h
  have hlast := h.2
  have hpairwise := pairwise_buckets r.open.chunk
  rw [RollupState.closedTimes] at hlast
  rcases List.eq_nil_or_concat r.open.chunk.buckets with hnil | ⟨before, last, hconcat⟩
  · rw [hnil] at hb
    cases hb
  · rw [hconcat] at hb hlast hpairwise
    rw [List.concat_eq_append] at hb hlast hpairwise
    rw [List.map_append, List.map_singleton, List.getLast?_concat, Option.all_some,
      decide_eq_true_eq] at hlast
    rcases List.mem_append.mp hb with hb | hb
    · have hlt := (List.pairwise_append.mp hpairwise).2.2 b hb last List.mem_cons_self
      exact (Nat.mul_le_mul_right _ hlt.le).trans_lt hlast
    · rwa [List.mem_singleton.mp hb]

theorem wholeTier_of {s : SeriesState} {r : RollupState} (hcoherent : r.coherent = true)
    (hle : ∀ t ∈ r.times, ∃ last, s.lastTs = some last ∧ t ≤ last)
    (hclosed : ∀ b ∈ r.open.chunk.buckets, ∀ v ∈ [b.min, b.avg, b.max], s.kind.InDomain v)
    (hopen : ∀ a ∈ r.bucket.toList, ∀ v ∈ [a.min, a.max], s.kind.InDomain v) :
    WholeTier s.lastTs s.kind r where
  span := by
    intro b hb
    rw [RollupState.coherent, Bool.and_eq_true] at hcoherent
    exact mem_timesInSpan hcoherent.1 (List.mem_map_of_mem hb)
  closed_le := fun b hb => hle _ (List.mem_append_right _ (List.mem_map_of_mem hb))
  open_le := fun a ha => hle _
    (List.mem_append_left _ (List.mem_map_of_mem (Option.mem_toList.mpr ha)))
  closed_lt := fun a ha => closed_lt_of_coherent hcoherent ha
  closed_domain := fun b hb => ⟨hclosed b hb _ (by simp), hclosed b hb _ (by simp),
    hclosed b hb _ (by simp)⟩
  open_domain := fun a ha =>
    ⟨hopen a (Option.mem_toList.mpr ha) _ (by simp), hopen a (Option.mem_toList.mpr ha) _ (by simp)⟩

theorem whole_of_checks {s : SeriesState} (h : Reopened s) (hdomain : s.checkDomain = .ok ())
    (hcoherent : s.checkCoherence = .ok ()) : Whole s := by
  rw [SeriesState.checkDomain] at hdomain
  split_ifs at hdomain with hvalues
  rw [SeriesState.checkCoherence] at hcoherent
  split_ifs at hcoherent with hall
  rw [List.all_eq_true] at hvalues
  simp only [Bool.and_eq_true] at hall
  obtain ⟨⟨⟨hspan, hminute⟩, hhour⟩, hlast⟩ := hall
  have hle : ∀ t ∈ s.raw.chunk.points.map RawPoint.ts ++ s.minute.times ++ s.hour.times,
      ∃ last, s.lastTs = some last ∧ t ≤ last := by
    intro t ht
    cases hts : s.lastTs with
    | none =>
        rw [hts] at hlast
        rw [List.isEmpty_iff.mp hlast] at ht
        cases ht
    | some last =>
        rw [hts] at hlast
        exact ⟨last, rfl, of_decide_eq_true (List.all_eq_true.mp hlast t ht)⟩
  have hclosed (b : Bucket) (hb : b ∈ s.minute.open.chunk.buckets ++ s.hour.open.chunk.buckets) :
      ∀ v ∈ [b.min, b.avg, b.max], s.kind.InDomain v := fun v hv =>
    ValueKind.isSome_checkScaled.mp
      (hvalues v (List.mem_append_left _
        (List.mem_append_right _ (List.mem_flatMap.mpr ⟨b, hb, hv⟩))))
  have hopen (a : Accumulator) (ha : a ∈ s.minute.bucket.toList ++ s.hour.bucket.toList) :
      ∀ v ∈ [a.min, a.max], s.kind.InDomain v := fun v hv =>
    ValueKind.isSome_checkScaled.mp
      (hvalues v (List.mem_append_right _ (List.mem_flatMap.mpr ⟨a, ha, hv⟩)))
  exact {
    minuteTier := h.minuteTier
    hourTier := h.hourTier
    span := fun p hp => mem_timesInSpan hspan (List.mem_map_of_mem hp)
    point_le := fun p hp => hle _
      (List.mem_append_left _ (List.mem_append_left _ (List.mem_map_of_mem hp)))
    domain := fun p hp => ValueKind.isSome_checkScaled.mp
      (hvalues p.value (List.mem_append_left _ (List.mem_append_left _ (List.mem_map_of_mem hp))))
    minute := wholeTier_of hminute
      (fun t ht => hle t (List.mem_append_left _ (List.mem_append_right _ ht)))
      (fun b hb => hclosed b (List.mem_append_left _ hb)) fun a ha =>
        hopen a (List.mem_append_left _ ha)
    hour := wholeTier_of hhour (fun t ht => hle t (List.mem_append_right _ ht))
      (fun b hb => hclosed b (List.mem_append_right _ hb)) fun a ha =>
        hopen a (List.mem_append_right _ ha) }

/-- A tail is read without an overflow, and what is accepted is whole, exactly when the bucket
indexes its products are taken of leave them within a `u64`. -/
theorem fromTail_whole_iff (bytes : List UInt8) :
    (fromTail .debug bytes ≠ .error .panic ∧ ∀ build s, fromTail build bytes = .ok s → Whole s) ↔
      ∀ s, readFields bytes = .ok s → checkDomain s = .ok () → ProductsFit s.minute ∧
        ProductsFit s.hour := by
  have hfields := readFields_safe bytes
  constructor
  · rintro ⟨hpanic, -⟩ s hread hdomain
    by_contra hfit
    refine hpanic ?_
    rw [fromTail, hread, except_ok_bind, hdomain, except_ok_bind,
      checkCoherence_panic (hfields.2 s hread) hfit]
    rfl
  · intro hfit
    have hsafe (build : Build) : Safe (fromTail build bytes) Whole := by
      rw [fromTail]
      cases hread : readFields bytes with
      | error stop =>
          cases stop with
          | panic => exact absurd hread hfields.1
          | refused e => exact safe_refused e
      | ok s =>
          have hreopened := hfields.2 s hread
          have hdomain := checkDomain_calm hreopened
          rw [except_ok_bind]
          cases hplain : s.checkDomain with
          | error e =>
              rw [Calm, hplain] at hdomain
              rw [hdomain]
              exact safe_refused e
          | ok _ =>
              rw [Calm, hplain] at hdomain
              obtain ⟨hminute, hhour⟩ := hfit s hread hdomain
              rw [hdomain]
              refine (checkCoherence_calm build hreopened hminute hhour).safe.bind
                fun _ hcoherent => ?_
              exact safe_ok (whole_of_checks hreopened hplain hcoherent)
    exact ⟨(hsafe .debug).1, fun build s h => (hsafe build).2 s h⟩

/-- A series whose only bucket is an open minute that starts past the last time. -/
def highBucket : SeriesState :=
  ⟨.percent, some 0, ⟨.new .delta, none, 0⟩, ⟨.minute, some ⟨2 ^ 62, 0, 1, 0, 0⟩,
    ⟨.new .minute, none, 0⟩⟩, ⟨.hour, none, ⟨.new .hour, none, 0⟩⟩⟩

/-- Its tail. A debug build panics on it, and a release build takes the bucket's start for zero. -/
theorem highBucket_accepted :
    fromTail .debug highBucket.toTail = .error .panic ∧
      fromTail .release highBucket.toTail = .ok highBucket ∧
      ¬Whole highBucket := by
  refine ⟨by decide +kernel, by decide +kernel, fun hwhole => ?_⟩
  obtain ⟨last, hlast, hle⟩ := hwhole.minute.open_le _ rfl
  obtain rfl := Option.some.inj hlast
  exact absurd hle (by decide)

end Checked

end MonitoringAgent.HubStore

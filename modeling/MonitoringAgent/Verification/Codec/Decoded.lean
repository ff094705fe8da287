import MonitoringAgent.Verification.Codec.Rollup

/-! # What decodes can be reopened

The decoders take more than the encoders write: padded varints, wider fields than needed, any
padding bits. What they read is nevertheless in range, in order and no longer to write again,
so the push path takes it. -/

namespace MonitoringAgent.HubStore

open List MonitoringAgent.Library

/-! ### Fields -/

/-- A field that is read fits its width and lies inside the bytes. -/
theorem BitReader.read_ok {r r' : BitReader} {width value : ℕ} (hpos : 0 < width) (h64 : width ≤ 64)
    (h : r.read width = .ok (value, r')) : value < 2 ^ width ∧ r' = r.advance width := by
  by_cases hin : r.pos + width > r.bytes.length * 8
  · rw [read, if_pos hin] at h
    cases h
  · have hlen : (r.ahead.take width).length = width := by
      rw [List.length_take, ahead, List.length_drop, length_byteBits]
      omega
    have hread := read_bits (r.ahead.take width) hlen hpos h64 r (r.ahead.drop width)
      (List.take_append_drop width r.ahead).symm
    simp only [h, hlen, Except.ok.injEq, Prod.mk.injEq] at hread
    obtain ⟨rfl, rfl⟩ := hread
    have hlt := ofBits_lt (r.ahead.take width)
    rw [hlen] at hlt
    exact ⟨hlt, rfl⟩

/-- The ones read, and the closing zero unless all of them were ones. -/
theorem readOnesFrom_ok {r r' : BitReader} {ones left n : ℕ}
    (h : readOnesFrom r ones left = .ok (n, r')) :
    ones ≤ n ∧ n ≤ ones + left ∧ r' = r.advance (n - ones + if n < ones + left then 1 else 0) := by
  induction left generalizing r ones with
  | zero =>
      obtain ⟨rfl, rfl⟩ := by simpa [readOnesFrom] using h
      simp
  | succ left ih =>
      rw [readOnesFrom, except_bind_eq_ok] at h
      obtain ⟨⟨bit, r₁⟩, hbit, h⟩ := h
      obtain ⟨-, rfl⟩ := BitReader.read_ok (by norm_num) (by norm_num) hbit
      dsimp only at h
      split_ifs at h with hone
      · obtain ⟨hlow, hhigh, rfl⟩ := ih h
        refine ⟨by omega, by omega, ?_⟩
        rw [BitReader.advance_advance]
        congr 1
        split_ifs <;> omega
      · obtain ⟨rfl, rfl⟩ := by simpa using h
        simp

theorem readOnes_ok {r r' : BitReader} {max n : ℕ} (h : readOnes r max = .ok (n, r')) :
    n ≤ max ∧ r' = r.advance (n + if n < max then 1 else 0) := by
  obtain ⟨-, hle, hr⟩ := readOnesFrom_ok h
  simpa using And.intro hle hr

/-! ### The timestamp code -/

/-- The cost of a delta of deltas: that of the narrowest field that holds it. -/
theorem dodBits_eq (dod : ℤ) :
    dodBits dod =
      if dod = 0 then some 1
      else if -2 ^ 2 ≤ dod ∧ dod < 2 ^ 2 then some 5
      else if -2 ^ 6 ≤ dod ∧ dod < 2 ^ 6 then some 10
      else if -2 ^ 11 ≤ dod ∧ dod < 2 ^ 11 then some 16
      else if -2 ^ 31 ≤ dod ∧ dod < 2 ^ 31 then some 36
      else none := by
  rw [dodBits, dodStep]
  by_cases h0 : dod = 0
  · rw [if_pos h0, if_pos h0]
    rfl
  rw [if_neg h0, if_neg h0, dodSteps]
  by_cases h3 : -2 ^ 2 ≤ dod ∧ dod < 2 ^ 2
  · rw [if_pos h3, List.find?_cons_of_pos]
    · rfl
    · exact decide_eq_true h3
  rw [if_neg h3, List.find?_cons_of_neg (by exact fun h => h3 (of_decide_eq_true h))]
  by_cases h7 : -2 ^ 6 ≤ dod ∧ dod < 2 ^ 6
  · rw [if_pos h7, List.find?_cons_of_pos]
    · rfl
    · exact decide_eq_true h7
  rw [if_neg h7, List.find?_cons_of_neg (by exact fun h => h7 (of_decide_eq_true h))]
  by_cases h12 : -2 ^ 11 ≤ dod ∧ dod < 2 ^ 11
  · rw [if_pos h12, List.find?_cons_of_pos]
    · rfl
    · exact decide_eq_true h12
  rw [if_neg h12, List.find?_cons_of_neg (by exact fun h => h12 (of_decide_eq_true h))]
  by_cases h32 : -2 ^ 31 ≤ dod ∧ dod < 2 ^ 31
  · rw [if_pos h32, List.find?_cons_of_pos]
    · rfl
    · exact decide_eq_true h32
  rw [if_neg h32, List.find?_cons_of_neg (by exact fun h => h32 (of_decide_eq_true h))]
  rfl

/-- A field of `width` bits, sign-extended. -/
theorem signExtend_bounds (field : ℕ) {width : ℕ} (hpos : 0 < width) (h64 : width ≤ 64) :
    -2 ^ (width - 1) ≤
        ((BitVec.ofNat 64 field <<< (64 - width)).sshiftRight (64 - width)).toInt ∧
      ((BitVec.ofNat 64 field <<< (64 - width)).sshiftRight (64 - width)).toInt <
        2 ^ (width - 1) := by
  have hlow := BitVec.le_toInt (BitVec.ofNat 64 field <<< (64 - width))
  have hhigh := BitVec.toInt_lt (x := BitVec.ofNat 64 field <<< (64 - width))
  have hpow : (2 : ℤ) ^ (width - 1) * 2 ^ (64 - width) = 2 ^ (64 - 1) := by
    rw [← pow_add]
    congr 1
    omega
  rw [BitVec.toInt_sshiftRight, Int.shiftRight_eq_div_pow, Nat.cast_pow, Nat.cast_ofNat,
    Int.le_ediv_iff_mul_le (by positivity), Int.ediv_lt_iff_lt_mul (by positivity), neg_mul, hpow]
  exact ⟨hlow, hhigh⟩

/-- The wider a field, the longer its prefix: what fits it costs no more in its own field. -/
theorem dodBits_le_of_field {ones : ℕ} (hpos : 0 < ones) (hle : ones ≤ dodSteps.length) :
    ∃ width, (dodSteps.getD (ones - 1) (0, 0, 0)).2.2 = width ∧ 0 < width ∧ width ≤ 64 ∧
      ∀ d : ℤ, -2 ^ (width - 1) ≤ d → d < 2 ^ (width - 1) →
        ∃ bits, dodBits d = some bits ∧
          bits ≤ (ones + if ones < dodSteps.length then 1 else 0) + width := by
  have hones : ones = 1 ∨ ones = 2 ∨ ones = 3 ∨ ones = 4 := by
    simp only [dodSteps, List.length_cons, List.length_nil] at hle
    omega
  have hlen : dodSteps.length = 4 := rfl
  rcases hones with rfl | rfl | rfl | rfl
  · refine ⟨3, rfl, by norm_num, by norm_num, fun d hlow hhigh => ?_⟩
    rw [dodBits_eq, hlen]
    split_ifs <;> first | omega | exact ⟨_, rfl, by norm_num⟩
  · refine ⟨7, rfl, by norm_num, by norm_num, fun d hlow hhigh => ?_⟩
    rw [dodBits_eq, hlen]
    split_ifs <;> first | omega | exact ⟨_, rfl, by norm_num⟩
  · refine ⟨12, rfl, by norm_num, by norm_num, fun d hlow hhigh => ?_⟩
    rw [dodBits_eq, hlen]
    split_ifs <;> first | omega | exact ⟨_, rfl, by norm_num⟩
  · refine ⟨32, rfl, by norm_num, by norm_num, fun d hlow hhigh => ?_⟩
    rw [dodBits_eq, hlen]
    split_ifs <;> first | omega | exact ⟨_, rfl, by norm_num⟩

/-- A delta of deltas read back is one the code holds, at no more bits than were read. -/
theorem readDod_ok {r r' : BitReader} {dod : ℤ} (h : readDod r = .ok (dod, r')) :
    ∃ bits count, dodBits dod = some bits ∧ bits ≤ count ∧ r' = r.advance count := by
  rw [readDod, except_bind_eq_ok] at h
  obtain ⟨⟨ones, r₁⟩, hones, h⟩ := h
  obtain ⟨hle, rfl⟩ := readOnes_ok hones
  dsimp only at h
  by_cases hzero : ones = 0
  · subst hzero
    obtain ⟨rfl, rfl⟩ := by simpa using h
    exact ⟨1, 1, by simp [dodBits_eq], le_rfl, rfl⟩
  · obtain ⟨width, hwidth, hpos, h64, hcost⟩ := dodBits_le_of_field (Nat.pos_of_ne_zero hzero) hle
    rw [if_neg hzero, except_bind_eq_ok, hwidth] at h
    obtain ⟨⟨field, r₂⟩, hfield, h⟩ := h
    obtain ⟨-, rfl⟩ := BitReader.read_ok hpos h64 hfield
    simp only [Except.ok.injEq, Prod.mk.injEq] at h
    obtain ⟨rfl, rfl⟩ := h
    obtain ⟨hlow, hhigh⟩ := signExtend_bounds field hpos h64
    obtain ⟨bits, hbits, hbound⟩ := hcost _ hlow hhigh
    exact ⟨bits, _, hbits, hbound, BitReader.advance_advance _ _ _⟩

/-! ### The value code -/

/-- The cost of a value: that of the narrowest field that holds it. -/
theorem valueBits_eq {value : ℕ} (h : value < 2 ^ 64) :
    valueBits value =
      if value = 0 then 1
      else if value < 2 ^ 6 then 8
      else if value < 2 ^ 13 then 16
      else if value < 2 ^ 20 then 24
      else if value < 2 ^ 32 then 37
      else 69 := by
  have hlow : ∀ w < 64, value ≤ lowBits w ↔ value < 2 ^ w := by
    intro w hw
    have := Nat.two_pow_pos w
    rw [lowBits, if_neg (by omega)]
    omega
  have hlow64 : value ≤ lowBits 64 := by
    simp only [lowBits, le_refl, if_true]
    omega
  rw [valueBits, valueStep]
  by_cases h0 : value = 0
  · simp [h0]
  rw [if_pos h0, if_neg h0, valueWidths]
  simp only [List.findIdx?_cons, hlow 6 (by norm_num), hlow 13 (by norm_num), hlow 20 (by norm_num),
    hlow 32 (by norm_num), hlow64]
  by_cases h6 : value < 2 ^ 6
  · simp only [h6, decide_true, if_true]
    rfl
  by_cases h13 : value < 2 ^ 13
  · simp only [h6, h13, decide_true, decide_false, if_true, if_false]
    rfl
  by_cases h20 : value < 2 ^ 20
  · simp only [h6, h13, h20, decide_true, decide_false, if_true, if_false]
    rfl
  by_cases h32 : value < 2 ^ 32
  · simp only [h6, h13, h20, h32, decide_true, decide_false, if_true, if_false]
    rfl
  · simp only [h6, h13, h20, h32, decide_true, decide_false, if_true, if_false]
    rfl

/-- The wider a field, the longer its prefix: what fits it costs no more in its own field. -/
theorem valueBits_le_of_field {ones : ℕ} (hpos : 0 < ones) (hle : ones ≤ valueWidths.length) :
    ∃ width, valueWidths.getD (ones - 1) 0 = width ∧ 0 < width ∧ width ≤ 64 ∧
      ∀ v, v < 2 ^ 64 → v < 2 ^ width →
        valueBits v ≤ (ones + if ones < valueWidths.length then 1 else 0) + width := by
  have hones : ones = 1 ∨ ones = 2 ∨ ones = 3 ∨ ones = 4 ∨ ones = 5 := by
    simp only [valueWidths, List.length_cons, List.length_nil] at hle
    omega
  have hlen : valueWidths.length = 5 := rfl
  rcases hones with rfl | rfl | rfl | rfl | rfl
  · refine ⟨6, rfl, by norm_num, by norm_num, fun v h64 hlt => ?_⟩
    rw [valueBits_eq h64, hlen]
    split_ifs <;> omega
  · refine ⟨13, rfl, by norm_num, by norm_num, fun v h64 hlt => ?_⟩
    rw [valueBits_eq h64, hlen]
    split_ifs <;> omega
  · refine ⟨20, rfl, by norm_num, by norm_num, fun v h64 hlt => ?_⟩
    rw [valueBits_eq h64, hlen]
    split_ifs <;> omega
  · refine ⟨32, rfl, by norm_num, by norm_num, fun v h64 hlt => ?_⟩
    rw [valueBits_eq h64, hlen]
    split_ifs <;> omega
  · refine ⟨64, rfl, by norm_num, by norm_num, fun v h64 hlt => ?_⟩
    rw [valueBits_eq h64, hlen]
    split_ifs <;> omega

/-- A value read back is a `u64`, at no more bits than were read. -/
theorem readValue_ok {r r' : BitReader} {value : ℕ} (h : readValue r = .ok (value, r')) :
    value < 2 ^ 64 ∧ ∃ count, valueBits value ≤ count ∧ r' = r.advance count := by
  rw [readValue, except_bind_eq_ok] at h
  obtain ⟨⟨ones, r₁⟩, hones, h⟩ := h
  obtain ⟨hle, rfl⟩ := readOnes_ok hones
  dsimp only at h
  by_cases hzero : ones = 0
  · subst hzero
    obtain ⟨rfl, rfl⟩ := by simpa using h
    exact ⟨by norm_num, 1, by simp [valueBits_eq], rfl⟩
  · obtain ⟨width, hwidth, hpos, h64, hcost⟩ := valueBits_le_of_field (Nat.pos_of_ne_zero hzero) hle
    rw [if_neg hzero, hwidth] at h
    obtain ⟨hlt, rfl⟩ := BitReader.read_ok hpos h64 h
    have hvalue : value < 2 ^ 64 := lt_of_lt_of_le hlt (Nat.pow_le_pow_right (by norm_num) h64)
    exact ⟨hvalue, _, hcost value hvalue hlt, BitReader.advance_advance _ _ _⟩

/-! ### Varints -/

theorem varintLen_le_of_lt {value groups : ℕ} (h64 : value < 2 ^ 64) (hpos : 0 < groups)
    (h : value < 2 ^ (7 * groups)) : varintLen value ≤ groups := by
  rw [varintLen, leadingZeros]
  split_ifs with h0
  · omega
  · have hlog : value.log2 < 7 * groups := (Nat.log2_lt h0).mpr h
    have hlog64 : value.log2 < 64 := (Nat.log2_lt h0).mpr h64
    omega

theorem varintLen_mono {a b : ℕ} (h : a ≤ b) : varintLen a ≤ varintLen b := by
  rw [varintLen, varintLen, leadingZeros, leadingZeros]
  split_ifs with ha hb hb
  · omega
  · omega
  · omega
  · have hlog : a.log2 ≤ b.log2 := by
      rw [Nat.log2_eq_log_two, Nat.log2_eq_log_two]
      exact Nat.log_mono_right h
    omega

/-- The groups read hold a number no wider than they are. -/
theorem readVarintGroups_ok {bytes : List UInt8} {rounds group pos value v pos' : ℕ}
    (hg : rounds + group = 10) (hvalue : value < 2 ^ (7 * group))
    (h : readVarintGroups bytes rounds group pos value = .ok (v, pos')) :
    pos < pos' ∧ pos' ≤ bytes.length ∧ v < 2 ^ 64 ∧ v < 2 ^ (7 * (group + (pos' - pos))) := by
  induction rounds generalizing group pos value with
  | zero => cases h
  | succ rounds ih =>
      rw [readVarintGroups] at h
      split at h
      · cases h
      next byte hbyte =>
        have hin : pos < bytes.length := (List.getElem?_eq_some_iff.mp hbyte).1
        dsimp only at h
        split_ifs at h with hbits hlast
        all_goals
          have hgroup : value ||| ((byte &&& 0x7f).toNat <<< (7 * group)) % 2 ^ 64 <
              2 ^ (7 * (group + 1)) ∧
              value ||| ((byte &&& 0x7f).toNat <<< (7 * group)) % 2 ^ 64 < 2 ^ 64 := by
            have hbound : (byte &&& 0x7f).toNat < 2 ^ 7 := by
              rw [UInt8.toNat_and]
              exact lt_of_le_of_lt Nat.and_le_right (by decide)
            have hshift : ((byte &&& 0x7f).toNat <<< (7 * group)) % 2 ^ 64 <
                2 ^ (7 * (group + 1)) := by
              refine lt_of_le_of_lt (Nat.mod_le _ _) ?_
              rw [Nat.shiftLeft_eq, Nat.mul_add, Nat.mul_one, pow_add, mul_comm]
              exact Nat.mul_lt_mul_of_pos_left hbound (Nat.two_pow_pos _)
            have hle : 2 ^ (7 * group) ≤ 2 ^ (7 * (group + 1)) :=
              Nat.pow_le_pow_right (by norm_num) (by omega)
            have h64 : 2 ^ (7 * group) ≤ 2 ^ 64 := Nat.pow_le_pow_right (by norm_num) (by omega)
            exact ⟨Nat.or_lt_two_pow (lt_of_lt_of_le hvalue hle) hshift,
              Nat.or_lt_two_pow (lt_of_lt_of_le hvalue h64) (Nat.mod_lt _ (by norm_num))⟩
        · obtain ⟨rfl, rfl⟩ := by simpa using h
          refine ⟨Nat.lt_succ_self _, hin, hgroup.2, ?_⟩
          rw [Nat.add_sub_cancel_left]
          exact hgroup.1
        · obtain ⟨hlt, hlen, hv, hwidth⟩ := ih (by omega) hgroup.1 h
          refine ⟨by omega, hlen, hv, ?_⟩
          have heq : group + 1 + (pos' - (pos + 1)) = group + (pos' - pos) := by omega
          rwa [heq] at hwidth

/-- A varint read back is a `u64`, at no more bytes than were read. -/
theorem readVarint_ok {bytes : List UInt8} {pos v pos' : ℕ}
    (h : readVarint bytes pos = .ok (v, pos')) :
    v < 2 ^ 64 ∧ pos + varintLen v ≤ pos' ∧ pos' ≤ bytes.length := by
  obtain ⟨hlt, hlen, hv, hwidth⟩ := readVarintGroups_ok rfl (by norm_num) h
  have hgroups : 0 < pos' - pos := Nat.sub_pos_of_lt hlt
  have hle := varintLen_le_of_lt hv hgroups (by simpa using hwidth)
  exact ⟨hv, by omega, hlen⟩

/-! ### Zigzag -/

theorem isI64_unzigzag (code : ℕ) : IsI64 (unzigzag code) := by
  have hlow := BitVec.le_toInt ((BitVec.ofNat 64 code >>> 1) ^^^ -(BitVec.ofNat 64 code &&& 1#64))
  have hhigh := BitVec.toInt_lt
    (x := (BitVec.ofNat 64 code >>> 1) ^^^ -(BitVec.ofNat 64 code &&& 1#64))
  exact ⟨by simpa [unzigzag] using hlow, by simpa [unzigzag] using hhigh⟩

theorem zigzag_unzigzag_bitVec (u : BitVec 64) :
    let v := (u >>> 1) ^^^ -(u &&& 1#64)
    (v <<< 1) ^^^ v.sshiftRight 63 = u := by
  intro v
  have hlow : u &&& 1#64 = if u.getLsbD 0 then 1#64 else 0#64 := by
    apply BitVec.eq_of_getLsbD_eq
    intro i hi
    by_cases h0 : i = 0
    · subst h0
      rw [BitVec.getLsbD_and]
      cases h : u.getLsbD 0 <;> rfl
    · cases u.getLsbD 0 <;> simp [h0]
  have hneg : -(u &&& 1#64) = if u.getLsbD 0 then BitVec.allOnes 64 else 0#64 := by
    rw [hlow]
    cases u.getLsbD 0 <;> decide
  have hmsb : v.msb = u.getLsbD 0 := by
    simp only [v, hneg, BitVec.msb_eq_getLsbD_last]
    cases h : u.getLsbD 0 <;> simp
  have hsign : v.sshiftRight 63 = if u.getLsbD 0 then BitVec.allOnes 64 else 0#64 := by
    rw [← hmsb]
    exact sshiftRight_63 v
  rw [hsign]
  apply BitVec.eq_of_getLsbD_eq
  intro i hi
  cases h : u.getLsbD 0 with
  | false =>
      by_cases h0 : i = 0
      · subst h0
        have hbit : u[0] = false := h
        simp [hbit]
      · simp only [v, hneg, h]
        simp [h0, hi, show 1 + (i - 1) = i by omega]
  | true =>
      by_cases h0 : i = 0
      · subst h0
        simp [-BitVec.reduceAllOnes, h]
      · simp only [v, hneg, h]
        simp [-BitVec.reduceAllOnes, h0, hi, show 1 + (i - 1) = i by omega]

theorem zigzag_unzigzag {code : ℕ} (h : code < 2 ^ 64) : zigzag (unzigzag code) = code := by
  simp only [zigzag, unzigzag, BitVec.ofInt_toInt]
  rw [zigzag_unzigzag_bitVec, BitVec.toNat_ofNat, Nat.mod_eq_of_lt h]

/-- Subtracting what a wrapped sum started from undoes it. -/
theorem wrapI64_sub_wrapI64_add {a b : ℤ} (ha : IsI64 a) : wrapI64 (wrapI64 (b + a) - b) = a := by
  have h : wrapI64 (wrapI64 (b + a) - b) = wrapI64 a := by
    simp only [wrapI64, BitVec.toInt_ofInt]
    rw [Int.bmod_sub_bmod]
    congr 1
    ring
  rw [h, wrapI64_of_isI64 ha]

/-! ### Raw chunks -/

theorem checkedAddI64_ok {a b c : ℤ} (h : checkedAddI64 a b = .ok c) : IsI64 c ∧ a + b = c := by
  rw [checkedAddI64] at h
  split_ifs at h with hin
  obtain rfl := Except.ok.inj h
  exact ⟨hin, rfl⟩

theorem checkedAddU64_ok {a b c : ℕ} (h : checkedAddU64 a b = .ok c) : c < 2 ^ 64 ∧ a + b = c := by
  rw [checkedAddU64] at h
  split_ifs at h with hin
  obtain rfl := Except.ok.inj h
  exact ⟨hin, rfl⟩

theorem positiveStep_ok {step : ℤ} {n : ℕ} (h : positiveStep step = .ok n) :
    0 < step ∧ (n : ℤ) = step := by
  rw [positiveStep] at h
  split_ifs at h with hpos
  obtain rfl := Except.ok.inj h
  exact ⟨hpos, Int.toNat_of_nonneg hpos.le⟩

theorem isI64_codeStep (encoding : Encoding) (previous : ℤ) (code : ℕ) :
    IsI64 (RawChunk.codeStep encoding previous code) := by
  cases encoding with
  | delta => exact isI64_unzigzag code
  | deltaOfDelta => exact isI64_wrapI64 _

/-- The code of a value step read back from one. -/
theorem stepCode_codeStep (encoding : Encoding) (previous : ℤ) {code : ℕ} (h : code < 2 ^ 64) :
    RawChunk.stepCode encoding previous (RawChunk.codeStep encoding previous code) = code := by
  cases encoding with
  | delta => exact zigzag_unzigzag h
  | deltaOfDelta =>
      simp only [RawChunk.stepCode, RawChunk.codeStep]
      rw [wrapI64_sub_wrapI64_add (isI64_unzigzag code), zigzag_unzigzag h]

theorem dodStep_of_dodBits {dod : ℤ} {bits : ℕ} (h : dodBits dod = some bits) :
    (dodStep dod).isSome := by
  cases hstep : dodStep dod with
  | none => simp [dodBits, hstep] at h
  | some _ => rfl

/-- The points read are points the chunk takes, at no more bits than were read. -/
theorem decodeRawPoints_ok {encoding : Encoding} {left : ℕ} {cur : RawCursor} {r r' : BitReader}
    {points : List RawPoint}
    (h : decodeRawPoints encoding left cur.last cur.tsStep cur.valueStep r = .ok (points, r')) :
    points.length = left ∧ AllFrom RawCursor.next RawCursor.Codable cur points ∧
      ∃ count, (emit RawCursor.next (RawCursor.code encoding) cur points).length ≤ count ∧
        r' = r.advance count := by
  induction left generalizing cur r points with
  | zero =>
      obtain ⟨rfl, rfl⟩ := by simpa [decodeRawPoints] using h
      exact ⟨rfl, trivial, 0, le_rfl, rfl⟩
  | succ left ih =>
      simp only [decodeRawPoints, except_bind_eq_ok] at h
      obtain ⟨⟨dod, r₁⟩, hdod, tsStep, htsStep, step, hstep, ts, hts, ⟨code, r₂⟩, hcode, ⟨rest, r₃⟩,
        hrest, hdone⟩ := h
      dsimp only at htsStep hcode hrest hdone
      simp only [Except.ok.injEq, Prod.mk.injEq] at hdone
      obtain ⟨rfl, rfl⟩ := hdone
      obtain ⟨dodCost, dodCount, hdodBits, hdodLe, rfl⟩ := readDod_ok hdod
      obtain ⟨htsI64, rfl⟩ := checkedAddI64_ok htsStep
      obtain ⟨hpositive, hstepEq⟩ := positiveStep_ok hstep
      obtain ⟨hts64, rfl⟩ := checkedAddU64_ok hts
      obtain ⟨hcode64, valueCount, hvalueLe, rfl⟩ := readValue_ok hcode
      have hback := wrapI64_sub_wrapI64_add (b := cur.last.value)
        (isI64_codeStep encoding cur.valueStep code)
      generalize hp : RawPoint.mk (cur.last.ts + step)
        (wrapI64 (cur.last.value + RawChunk.codeStep encoding cur.valueStep code)) = p at hrest ⊢
      have hpts : p.ts = cur.last.ts + step := by rw [← hp]
      have hpvalue : p.value =
          wrapI64 (cur.last.value + RawChunk.codeStep encoding cur.valueStep code) := by rw [← hp]
      -- The cursor after the point is where the decoder goes on.
      have hnext : cur.next p =
          ⟨p, cur.tsStep + dod, RawChunk.codeStep encoding cur.valueStep code⟩ := by
        rw [RawCursor.next, hpts, hpvalue, hback, ← hstepEq]
        congr 1
        push_cast
        ring
      have hdodEq : cur.dod p = dod := by
        rw [RawCursor.dod, hpts]
        push_cast
        omega
      have hcodeEq : cur.stepCode encoding p = code := by
        rw [RawCursor.stepCode, hpvalue, hback, stepCode_codeStep _ _ hcode64]
      have hcursor : decodeRawPoints encoding left (cur.next p).last (cur.next p).tsStep
          (cur.next p).valueStep ((r.advance dodCount).advance valueCount) = .ok (rest, r₃) := by
        rw [hnext]
        exact hrest
      obtain ⟨hlen, hall, restCount, hrestLe, rfl⟩ := ih hcursor
      have hbound := htsI64.2
      refine ⟨by rw [List.length_cons, hlen], ⟨⟨by omega, by omega, ?_, ?_⟩, hall⟩,
        dodCount + (valueCount + restCount), ?_, ?_⟩
      · rw [hdodEq]
        exact dodStep_of_dodBits hdodBits
      · rw [RawPoint.Valid, hpts, hpvalue]
        exact ⟨hts64, isI64_wrapI64 _⟩
      · rw [emit, RawCursor.code, hdodEq, hcodeEq, List.length_append, List.length_append,
          length_dodCode hdodBits, length_valueCode hcode64]
        omega
      · rw [BitReader.advance_advance, BitReader.advance_advance]

theorem RawCursor.pairwise_of_codable {cur : RawCursor} {points : List RawPoint}
    (h : AllFrom RawCursor.next RawCursor.Codable cur points) :
    (cur.last :: points).Pairwise fun p q => p.ts < q.ts := by
  induction points generalizing cur with
  | nil => simp
  | cons p points ih =>
      have hrest : (p :: points).Pairwise fun p q => p.ts < q.ts := ih h.2
      refine List.pairwise_cons.mpr ⟨fun q hq => ?_, hrest⟩
      rcases List.mem_cons.mp hq with rfl | hq
      · exact h.1.after
      · exact h.1.after.trans ((List.pairwise_cons.mp hrest).1 q hq)

theorem RawCursor.valid_of_codable {cur : RawCursor} {points : List RawPoint}
    (h : AllFrom RawCursor.next RawCursor.Codable cur points) : ∀ p ∈ points, p.Valid := by
  induction points generalizing cur with
  | nil => simp
  | cons p points ih =>
      intro q hq
      rcases List.mem_cons.mp hq with rfl | hq
      · exact h.1.valid
      · exact ih h.2 q hq

/-- A point with room for its bits is taken. -/
theorem RawChunk.push_ok {c : RawChunk} {first last p : RawPoint} {tsBits : ℕ}
    (hends : c.ends = some (first, last)) (hafter : last.ts < p.ts)
    (hcount : c.count < maxRawPoints) (hstep : p.ts - last.ts < 2 ^ 63)
    (hdod : dodBits ((p.ts : ℤ) - last.ts - c.tsStep) = some tsBits)
    (hsize : headerLen (c.count + 1) first +
      (c.bits.bitLen + (tsBits + valueBits (stepCode c.encoding
      c.valueStep (wrapI64 (p.value - last.value)))) + 7) / 8 ≤ maxRawChunkBytes) :
    (c.push p).1 = .ok () := by
  have hcast : ((p.ts - last.ts : ℕ) : ℤ) = (p.ts : ℤ) - last.ts := by omega
  simp only [push, hends, if_neg (not_le.mpr hafter), if_neg (not_le.mpr hcount),
    if_neg (not_le.mpr hstep), hcast, hdod, if_neg (not_lt.mpr hsize)]

/-- Points in order that the code holds are all taken while their bytes fit. -/
theorem RawChunk.pushAll_ok (encoding : Encoding) {first : RawPoint} {later : List RawPoint}
    (hfirst : first.Valid) (hall : AllFrom RawCursor.next RawCursor.Codable ⟨first, 0, 0⟩ later)
    (hcount : later.length + 1 ≤ maxRawPoints)
    (hsize : headerLen (later.length + 1) first +
      ((emit RawCursor.next (RawCursor.code encoding) ⟨first, 0, 0⟩ later).length + 7) / 8 ≤
        maxRawChunkBytes) :
    ∃ c, c.encoding = encoding ∧ pushAll push (new encoding) (first :: later) = .ok c ∧
      c.Contents (first :: later) := by
  induction later using List.reverseRecOn with
  | nil =>
      have hpush := push_empty first (c := new encoding) rfl
      refine ⟨(push (new encoding) first).2, by rw [push_encoding]; rfl, ?_, ?_⟩
      · simp only [pushAll, hpush]
      · exact (contents_new encoding).push hfirst (by rw [hpush])
  | append_singleton later p ih =>
      rw [allFrom_concat] at hall
      rw [emit_concat, List.length_append, List.length_append, List.length_singleton] at hsize
      rw [List.length_append, List.length_singleton] at hcount
      have hheader : headerLen (later.length + 1) first ≤
          headerLen (later.length + 1 + 1) first := by
        have hmono : varintLen (later.length + 1) ≤ varintLen (later.length + 1 + 1) :=
          varintLen_mono (Nat.le_succ _)
        simp only [headerLen]
        omega
      obtain ⟨c, hencoding, hpushed, hcontents⟩ := ih hall.1 (by omega) (by omega)
      have hl := hcontents.layout
      obtain ⟨hafter, hstep, hsome, hvalid⟩ := hall.2
      obtain ⟨tsBits, hdod⟩ : ∃ tsBits, dodBits ((later.foldl RawCursor.next ⟨first, 0, 0⟩).dod p) =
          some tsBits := by
        rw [dodBits]
        obtain ⟨s, hs⟩ := Option.isSome_iff_exists.mp hsome
        exact ⟨_, by rw [hs]; rfl⟩
      have hok : (c.push p).1 = .ok () := by
        have hdod' := hdod
        rw [RawCursor.dod, ← hl.tsStep] at hdod'
        refine push_ok hl.ends hafter (by rw [hl.count]; omega) hstep hdod' ?_
        · rw [RawCursor.code, List.length_append, length_dodCode hdod, RawCursor.stepCode,
            length_valueCode (stepCode_lt _ _ _), ← hencoding] at hsize
          rw [hl.count, hl.valueStep, BitWriter.bitLen, hl.bits.bits_eq]
          omega
      refine ⟨(c.push p).2, by rw [push_encoding, hencoding], ?_, ?_⟩
      · rw [← List.cons_append]
        exact pushAll_concat hpushed hok
      · rw [← List.cons_append]
        exact hcontents.push hvalid hok

theorem decodeRawHeader_ok {bytes : List UInt8} {count pos : ℕ} {first : RawPoint}
    (h : decodeRawHeader bytes = .ok (count, first, pos)) :
    0 < count ∧ count ≤ maxRawPoints ∧ first.Valid ∧ RawChunk.headerLen count first ≤ pos ∧
      pos ≤ bytes.length := by
  rw [decodeRawHeader] at h
  split at h
  · cases h
  next format hformat =>
    split_ifs at h with hknown
    simp only [except_bind_eq_ok] at h
    obtain ⟨⟨count', pos₁⟩, hcount, h⟩ := h
    dsimp only at h
    split_ifs at h with hzero hlong
    simp only [except_bind_eq_ok] at h
    obtain ⟨⟨ts, pos₂⟩, hts, ⟨code, pos₃⟩, hcode, h⟩ := h
    dsimp only at hcode
    simp only [Except.ok.injEq, Prod.mk.injEq] at h
    obtain ⟨rfl, rfl, rfl⟩ := h
    obtain ⟨-, hcountLen, -⟩ := readVarint_ok hcount
    obtain ⟨hts64, htsLen, -⟩ := readVarint_ok hts
    obtain ⟨hcode64, hcodeLen, hpos⟩ := readVarint_ok hcode
    refine ⟨Nat.pos_of_ne_zero hzero, not_lt.mp hlong, ⟨hts64, isI64_unzigzag code⟩, ?_, hpos⟩
    rw [RawChunk.headerLen, zigzag_unzigzag hcode64]
    dsimp only
    omega

/-- What decodes is a chunk's worth of points in time order; within the size limit it reopens to
a chunk of exactly those points, no longer encoded than it was. -/
theorem decodeRaw_ok {bytes : List UInt8} {encoding : Encoding} {points : List RawPoint}
    (h : decodeRaw bytes encoding = .ok points) :
    points ≠ [] ∧ points.length ≤ maxRawPoints ∧ (points.Pairwise fun p q => p.ts < q.ts) ∧
      (bytes.length ≤ maxRawChunkBytes → ∃ c, RawChunk.reopen bytes encoding = .ok c ∧
        c.points = points ∧ c.encode.length ≤ bytes.length) := by
  have hdecoded := h
  rw [decodeRaw] at h
  simp only [except_bind_eq_ok] at h
  obtain ⟨⟨count, first, pos⟩, hheader, ⟨later, r⟩, hlater, h⟩ := h
  dsimp only at hlater h
  split_ifs at h with hend
  obtain rfl := Except.ok.inj h
  obtain ⟨hpos, hcount, hfirst, hheaderLen, hposLe⟩ := decodeRawHeader_ok hheader
  have hcursor : decodeRawPoints encoding (count - 1) (RawCursor.mk first 0 0).last
      (RawCursor.mk first 0 0).tsStep (RawCursor.mk first 0 0).valueStep (.new (bytes.drop pos)) =
      .ok (later, r) := hlater
  obtain ⟨hlen, hall, bits, hbits, rfl⟩ := decodeRawPoints_ok hcursor
  have hlength : later.length + 1 = count := by omega
  have hread : pos + (bits + 7) / 8 = bytes.length := by
    have hbytesRead : ((BitReader.new (bytes.drop pos)).advance bits).bytesRead =
        (bits + 7) / 8 := by
      simp [BitReader.new, BitReader.advance, BitReader.bytesRead]
    rw [hbytesRead, ne_eq, not_not] at hend
    exact hend
  have hsize : RawChunk.headerLen (later.length + 1) first +
      ((emit RawCursor.next (RawCursor.code encoding) ⟨first, 0, 0⟩ later).length + 7) / 8 ≤
        bytes.length := by
    rw [hlength]
    omega
  refine ⟨List.cons_ne_nil _ _, by rw [List.length_cons, hlength]; exact hcount,
    RawCursor.pairwise_of_codable hall, fun hlimit => ?_⟩
  obtain ⟨c, hencoding, hpushed, hcontents⟩ := RawChunk.pushAll_ok encoding hfirst hall
    (by rw [hlength]; exact hcount) (hsize.trans hlimit)
  have hl := hcontents.layout
  refine ⟨c, ?_, hcontents.points_eq, ?_⟩
  · rw [RawChunk.reopen, hdecoded]
    exact hpushed
  · have hbound : c.count ≤ 240 := by
      rw [hl.count, hlength]
      exact hcount
    rw [RawChunk.length_encode hl.ends (by omega) hfirst.1, hl.count,
      hl.bits.length_bytes, hencoding]
    exact hsize

/-- What decodes is points the code holds. -/
theorem decodeRaw_valid {bytes : List UInt8} {encoding : Encoding} {points : List RawPoint}
    (h : decodeRaw bytes encoding = .ok points) : ∀ p ∈ points, p.Valid := by
  rw [decodeRaw] at h
  simp only [except_bind_eq_ok] at h
  obtain ⟨⟨count, first, pos⟩, hheader, ⟨later, r⟩, hlater, h⟩ := h
  dsimp only at hlater h
  split_ifs at h with hend
  obtain rfl := Except.ok.inj h
  obtain ⟨-, -, hfirst, -, -⟩ := decodeRawHeader_ok hheader
  have hcursor : decodeRawPoints encoding (count - 1) (RawCursor.mk first 0 0).last
      (RawCursor.mk first 0 0).tsStep (RawCursor.mk first 0 0).valueStep (.new (bytes.drop pos)) =
      .ok (later, r) := hlater
  obtain ⟨-, hall, -⟩ := decodeRawPoints_ok hcursor
  intro p hp
  rcases List.mem_cons.mp hp with rfl | hp
  · exact hfirst
  · exact RawCursor.valid_of_codable hall p hp

/-! ### Rollup chunks -/

/-- The bucket read is a valid one, with the index and the average it was read for. -/
theorem readSpread_ok {r r' : BitReader} {index : ℕ} {avg : ℤ} {b : Bucket}
    (hindex : index < 2 ^ 64) (h : readSpread r index avg = .ok (b, r')) :
    b.Valid ∧ b.index = index ∧ b.avg = avg := by
  rw [readSpread] at h
  simp only [except_bind_eq_ok] at h
  obtain ⟨⟨below, r₁⟩, hbelow, ⟨above, r₂⟩, habove, ⟨count, r₃⟩, hcount, h⟩ := h
  dsimp only at h
  split_ifs at h with hlong hzero
  · simp [except_bind_eq_ok] at h
  simp only [except_bind_eq_ok] at h
  obtain ⟨min, hmin, max, hmax, h⟩ := h
  simp only [Except.ok.injEq, Prod.mk.injEq] at h
  obtain ⟨rfl, -⟩ := h
  obtain ⟨hminI64, rfl⟩ := checkedAddI64_ok hmin
  obtain ⟨hmaxI64, rfl⟩ := checkedAddI64_ok hmax
  refine ⟨⟨hindex, ?_, ?_, hminI64.1, hmaxI64.2, Nat.pos_of_ne_zero hzero, not_le.mp hlong⟩,
    rfl, rfl⟩
  · dsimp only
    omega
  · dsimp only
    omega

/-- The buckets read are buckets the chunk takes. -/
theorem decodeBuckets_ok {left : ℕ} {cur : BucketCursor} {r r' : BitReader} {buckets : List Bucket}
    (h : decodeBuckets left cur.last.index cur.last.avg cur.indexStep r = .ok (buckets, r')) :
    buckets.length = left ∧ AllFrom BucketCursor.next BucketCursor.Codable cur buckets := by
  induction left generalizing cur r r' buckets with
  | zero =>
      obtain ⟨rfl, -⟩ := by simpa [decodeBuckets] using h
      exact ⟨rfl, trivial⟩
  | succ left ih =>
      simp only [decodeBuckets, except_bind_eq_ok] at h
      obtain ⟨⟨dod, r₁⟩, hdod, indexStep, hindexStep, step, hstep, index, hindex, ⟨code, r₂⟩, -,
        ⟨b, r₃⟩, hspread, ⟨rest, r₄⟩, hrest, hdone⟩ := h
      dsimp only at hindexStep hspread hrest hdone
      simp only [Except.ok.injEq, Prod.mk.injEq] at hdone
      obtain ⟨rfl, -⟩ := hdone
      obtain ⟨dodCost, -, hdodBits, -⟩ := readDod_ok hdod
      obtain ⟨hstepI64, rfl⟩ := checkedAddI64_ok hindexStep
      obtain ⟨hpositive, hstepEq⟩ := positiveStep_ok hstep
      obtain ⟨hindex64, rfl⟩ := checkedAddU64_ok hindex
      obtain ⟨hvalid, hbindex, hbavg⟩ := readSpread_ok hindex64 hspread
      have hdodEq : cur.dod b = dod := by
        rw [BucketCursor.dod, hbindex]
        push_cast
        omega
      have hcursor : decodeBuckets left (cur.next b).last.index (cur.next b).last.avg
          (cur.next b).indexStep r₃ = .ok (rest, r₄) := by
        have hnext : (cur.next b).indexStep = cur.indexStep + dod := by
          rw [BucketCursor.next, ← hstepEq]
          simp only [hbindex]
          push_cast
          ring
        rw [hnext]
        simp only [BucketCursor.next, hbindex, hbavg]
        exact hrest
      obtain ⟨hlen, hall⟩ := ih hcursor
      have hbound := hstepI64.2
      refine ⟨by rw [List.length_cons, hlen], ⟨by omega, by omega, ?_, hvalid⟩, hall⟩
      rw [hdodEq]
      exact dodStep_of_dodBits hdodBits

theorem BucketCursor.pairwise_of_codable {cur : BucketCursor} {buckets : List Bucket}
    (h : AllFrom BucketCursor.next BucketCursor.Codable cur buckets) :
    ((cur.last :: buckets).Pairwise fun a b => a.index < b.index) ∧ ∀ b ∈ buckets, b.Valid := by
  induction buckets generalizing cur with
  | nil => simp
  | cons b buckets ih =>
      obtain ⟨hrest, hvalid⟩ := ih h.2
      have hrest : (b :: buckets).Pairwise fun a b => a.index < b.index := hrest
      refine ⟨List.pairwise_cons.mpr ⟨fun q hq => ?_, hrest⟩, fun q hq => ?_⟩
      · rcases List.mem_cons.mp hq with rfl | hq
        · exact h.1.after
        · exact h.1.after.trans ((List.pairwise_cons.mp hrest).1 q hq)
      · rcases List.mem_cons.mp hq with rfl | hq
        · exact h.1.valid
        · exact hvalid q hq

/-- A valid bucket that the code holds is taken while there is room. -/
theorem RollupChunk.push_ok {c : RollupChunk} {first last b : Bucket} (hb : b.Valid)
    (hends : c.ends = some (first, last)) (hafter : last.index < b.index)
    (hcount : c.count < c.tier.maxBuckets) (hstep : b.index - last.index < 2 ^ 63)
    (hdod : (dodStep ((b.index : ℤ) - last.index - c.indexStep)).isSome) :
    (c.push b).1 = .ok () := by
  have hcast : ((b.index - last.index : ℕ) : ℤ) = (b.index : ℤ) - last.index := by omega
  rw [← writeDod_fst c.bits] at hdod
  rw [push, if_neg (not_not.mpr ⟨hb.min_le, hb.le_max, hb.count_pos⟩)]
  simp only [hends, if_neg (not_le.mpr hafter), if_neg (not_le.mpr hcount),
    if_neg (not_le.mpr hstep), hcast]
  split
  next bits hwrite =>
    rw [hwrite] at hdod
    cases hdod
  · rfl

/-- Buckets in order that the code holds are all taken, up to one span's worth. -/
theorem RollupChunk.pushAll_ok (tier : RollupTier) {first : Bucket} {later : List Bucket}
    (hfirst : first.Valid) (hall : AllFrom BucketCursor.next BucketCursor.Codable ⟨first, 1⟩ later)
    (hcount : later.length + 1 ≤ tier.maxBuckets) :
    ∃ c, c.tier = tier ∧ pushAll push (new tier) (first :: later) = .ok c ∧
      c.Contents (first :: later) := by
  induction later using List.reverseRecOn with
  | nil =>
      have hpush := push_empty (c := new tier) hfirst rfl
      refine ⟨(push (new tier) first).2, by rw [push_tier]; rfl, ?_, ?_⟩
      · simp only [pushAll, hpush]
      · exact (contents_new tier).push hfirst (by rw [hpush])
  | append_singleton later b ih =>
      rw [allFrom_concat] at hall
      rw [List.length_append, List.length_singleton] at hcount
      obtain ⟨c, htier, hpushed, hcontents⟩ := ih hall.1 (by omega)
      have hl := hcontents.layout
      obtain ⟨hafter, hstep, hsome, hvalid⟩ := hall.2
      have hok : (c.push b).1 = .ok () := by
        refine push_ok hvalid hl.ends hafter (by rw [hl.count, htier]; omega) hstep ?_
        rw [hl.indexStep]
        exact hsome
      refine ⟨(c.push b).2, by rw [push_tier, htier], ?_, ?_⟩
      · rw [← List.cons_append]
        exact pushAll_concat hpushed hok
      · rw [← List.cons_append]
        exact hcontents.push hvalid hok

theorem decodeRollupHeader_ok {bytes : List UInt8} {tier : RollupTier} {count index pos : ℕ}
    {avg : ℤ} (h : decodeRollupHeader bytes tier = .ok (count, index, avg, pos)) :
    0 < count ∧ count ≤ tier.maxBuckets ∧ index < 2 ^ 64 ∧ pos ≤ bytes.length := by
  rw [decodeRollupHeader] at h
  split at h
  · cases h
  next format hformat =>
    split_ifs at h with hknown
    simp only [except_bind_eq_ok] at h
    obtain ⟨⟨count', pos₁⟩, -, h⟩ := h
    dsimp only at h
    split_ifs at h with hzero hlong
    simp only [except_bind_eq_ok] at h
    obtain ⟨⟨index', pos₂⟩, hindex, ⟨code, pos₃⟩, hcode, h⟩ := h
    dsimp only at hcode
    simp only [Except.ok.injEq, Prod.mk.injEq] at h
    obtain ⟨rfl, rfl, -, rfl⟩ := h
    exact ⟨Nat.pos_of_ne_zero hzero, not_lt.mp hlong, (readVarint_ok hindex).1,
      (readVarint_ok hcode).2.2⟩

/-- What decodes is at most one span's worth of valid buckets in index order, and reopens to a
chunk of exactly those buckets. -/
theorem decodeRollup_ok {bytes : List UInt8} {tier : RollupTier} {buckets : List Bucket}
    (h : decodeRollup bytes tier = .ok buckets) :
    (buckets.Pairwise fun a b => a.index < b.index) ∧ buckets.length ≤ tier.maxBuckets ∧
      (∀ b ∈ buckets, b.Valid) ∧
      ∃ c, RollupChunk.reopen bytes tier = .ok c ∧ c.buckets = buckets := by
  have hdecoded := h
  rw [decodeRollup] at h
  simp only [except_bind_eq_ok] at h
  obtain ⟨⟨count, index, avg, pos⟩, hheader, ⟨first, r₁⟩, hspread, ⟨later, r₂⟩, hlater, h⟩ := h
  dsimp only at hspread hlater h
  split_ifs at h with hend
  obtain rfl := Except.ok.inj h
  obtain ⟨hpos, hcount, hindex, -⟩ := decodeRollupHeader_ok hheader
  obtain ⟨hfirst, hfirstIndex, hfirstAvg⟩ := readSpread_ok hindex hspread
  have hcursor : decodeBuckets (count - 1) (BucketCursor.mk first 1).last.index
      (BucketCursor.mk first 1).last.avg (BucketCursor.mk first 1).indexStep r₁ =
        .ok (later, r₂) := by
    simp only [hfirstIndex, hfirstAvg]
    exact hlater
  obtain ⟨hlen, hall⟩ := decodeBuckets_ok hcursor
  have hlength : later.length + 1 ≤ tier.maxBuckets := by omega
  obtain ⟨hpairwise, hvalid⟩ := BucketCursor.pairwise_of_codable hall
  obtain ⟨c, -, hpushed, hcontents⟩ := RollupChunk.pushAll_ok tier hfirst hall hlength
  refine ⟨hpairwise, hlength, fun b hb => ?_, c, ?_, hcontents.buckets_eq⟩
  · rcases List.mem_cons.mp hb with rfl | hb
    · exact hfirst
    · exact hvalid b hb
  · rw [RollupChunk.reopen, hdecoded]
    exact hpushed

end MonitoringAgent.HubStore

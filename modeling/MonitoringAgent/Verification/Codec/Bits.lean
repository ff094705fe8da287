import MonitoringAgent.Library.Except
import MonitoringAgent.Library.BitList
import MonitoringAgent.Model.Codec.Bits

/-! # The bit codes are self-delimiting

A writer holds a list of bits, a reader has one ahead of it, and each code is the list of
bits it writes. A field read from in front of any further bits is the field written. -/

namespace MonitoringAgent.HubStore

open List MonitoringAgent.Library

/-! ### Writers and readers over bit lists -/

/-- The writer holds exactly `bits`, its last byte padded with zeros. -/
structure BitWriter.Holds (w : BitWriter) (bits : List Bool) : Prop where
  bits_eq : w.bits = bits.length
  le_bytes : bits.length ≤ 8 * w.bytes.length
  bytes_lt : 8 * w.bytes.length < bits.length + 8
  stream : byteBits w.bytes = bits ++ replicate (8 * w.bytes.length - bits.length) false

/-- The bits a reader has not read yet. -/
def BitReader.ahead (r : BitReader) : List Bool := (byteBits r.bytes).drop r.pos

/-- The reader after `count` more bits. -/
def BitReader.advance (r : BitReader) (count : ℕ) : BitReader := ⟨r.bytes, r.pos + count⟩

/-- `write` appends the bits `code` to any writer. -/
def Writes (write : BitWriter → BitWriter) (code : List Bool) : Prop :=
  ∀ w bits, w.Holds bits → (write w).Holds (bits ++ code)

/-- `read` turns the bits `code` into `a`, whatever follows them. -/
def Reads {α : Type} (read : BitReader → Except DecodeError (α × BitReader))
    (code : List Bool) (a : α) : Prop :=
  ∀ r rest, r.ahead = code ++ rest → read r = .ok (a, r.advance code.length)

theorem BitWriter.holds_nil : ({} : BitWriter).Holds [] :=
  ⟨rfl, by simp, by simp, by simp⟩

theorem BitReader.ahead_advance {r : BitReader} {code rest : List Bool}
    (h : r.ahead = code ++ rest) : (r.advance code.length).ahead = rest := by
  have hd : (byteBits r.bytes).drop (r.pos + code.length) = r.ahead.drop code.length := by
    rw [BitReader.ahead, List.drop_drop]
  rw [BitReader.ahead, BitReader.advance, hd, h, List.drop_left]

@[simp] theorem BitReader.advance_zero (r : BitReader) : r.advance 0 = r := rfl

@[simp] theorem BitReader.advance_advance (r : BitReader) (m n : ℕ) :
    (r.advance m).advance n = r.advance (m + n) := by
  simp [BitReader.advance, Nat.add_assoc]

theorem BitReader.ahead_new (bytes : List UInt8) :
    (BitReader.new bytes).ahead = byteBits bytes := by
  simp [BitReader.ahead, BitReader.new]

private theorem byteBits_modify_last (init : List UInt8) (last : UInt8) (k : ℕ) (hk : k < 8) :
    byteBits ((init ++ [last]).modify init.length (· ||| (0x80 >>> UInt8.ofNat k))) =
      byteBits init ++ (toBits 8 last.toNat).set k true := by
  have hmodify : (init ++ [last]).modify init.length (· ||| (0x80 >>> UInt8.ofNat k)) =
      init ++ [last ||| (0x80 >>> UInt8.ofNat k)] := by
    rw [List.modify_eq_take_cons_drop (by simp)]
    simp
  have hmask : (0x80 >>> UInt8.ofNat k : UInt8).toNat = 2 ^ (7 - k) := by
    interval_cases k <;> decide
  rw [hmodify, byteBits_append, byteBits_singleton, UInt8.toNat_or, hmask,
    toBits_or_two_pow _ _ hk]

/-- The last byte of a writer that is not on a byte boundary holds its last bits. -/
private theorem pushBit_partial {w : BitWriter} {bits : List Bool} (h : w.Holds bits)
    (h8 : w.bits % 8 ≠ 0) : (w.pushBit true).Holds (bits ++ [true]) := by
  obtain ⟨hb, hle, hlt, hs⟩ := h
  have hne : w.bytes ≠ [] := by
    intro hnil
    simp [hnil] at hle
    simp [hle, hb] at h8
  obtain ⟨init, last, hw⟩ : ∃ init last, w.bytes = init ++ [last] :=
    ⟨_, _, (List.dropLast_append_getLast hne).symm⟩
  have hlen : w.bytes.length = init.length + 1 := by simp [hw]
  have hk : w.bits % 8 < 8 := Nat.mod_lt _ (by norm_num)
  have hpos : bits.length = 8 * init.length + w.bits % 8 := by omega
  have hset : byteBits init ++ (toBits 8 last.toNat).set (w.bits % 8) true =
      (byteBits w.bytes).set bits.length true := by
    rw [hw, byteBits_append, byteBits_singleton, List.set_append_right _ _ (by simp; omega)]
    congr 2
    simp; omega
  refine ⟨by simp [BitWriter.pushBit, hb], ?_, ?_, ?_⟩
  · simp [BitWriter.pushBit, h8]; omega
  · simp [BitWriter.pushBit, h8]; omega
  · have hbytes : (w.pushBit true).bytes =
        (init ++ [last]).modify init.length (· ||| (0x80 >>> UInt8.ofNat (w.bits % 8))) := by
      simp [BitWriter.pushBit, h8, hw]
    have hl : (w.pushBit true).bytes.length = w.bytes.length := by
      simp [hbytes, hlen]
    rw [hbytes, byteBits_modify_last _ _ _ hk, hset, hs, ← hbytes, hl,
      List.set_append_right _ _ le_rfl]
    obtain ⟨pad, hpad⟩ : ∃ pad, 8 * w.bytes.length - bits.length = pad + 1 :=
      ⟨8 * w.bytes.length - bits.length - 1, by omega⟩
    have hpad' : 8 * w.bytes.length - (bits ++ [true]).length = pad := by simp; omega
    rw [hpad', hpad, Nat.sub_self, List.replicate_succ, List.set_cons_zero]
    simp

theorem BitWriter.pushBit_holds (bit : Bool) : Writes (·.pushBit bit) [bit] := by
  intro w bits h
  obtain ⟨hb, hle, hlt, hs⟩ := h
  by_cases h8 : w.bits % 8 = 0
  · -- A new byte opens; its first bit is the one pushed.
    have hfull : 8 * w.bytes.length = bits.length := by omega
    have hs' : byteBits w.bytes = bits := by simpa [hfull] using hs
    cases bit with
    | false =>
        refine ⟨by simp [BitWriter.pushBit, hb], ?_, ?_, ?_⟩
        · simp [BitWriter.pushBit, h8]; omega
        · simp [BitWriter.pushBit, h8]; omega
        · have hz : toBits 8 (0 : UInt8).toNat = replicate 8 false := by decide
          have hp : 8 * (w.bytes.length + 1) - (bits.length + 1) = 7 := by omega
          simp only [BitWriter.pushBit, h8, if_true, Bool.false_eq_true, if_false,
            byteBits_append, byteBits_singleton, hs', hz, List.length_append,
            List.length_singleton, hp, List.append_assoc]
          rfl
    | true =>
        have hbytes : (w.pushBit true).bytes =
            (w.bytes ++ [0]).modify w.bytes.length (· ||| (0x80 >>> UInt8.ofNat 0)) := by
          simp [BitWriter.pushBit, h8]
        refine ⟨by simp [BitWriter.pushBit, hb], ?_, ?_, ?_⟩
        · simp [hbytes]; omega
        · simp [hbytes]; omega
        · have hz : (toBits 8 (0 : UInt8).toNat).set 0 true = true :: replicate 7 false := by
            decide
          have hp : 8 * (w.bytes.length + 1) - (bits.length + 1) = 7 := by omega
          rw [hbytes, byteBits_modify_last _ _ _ (by norm_num), hs', hz]
          simp [hp]
  · cases bit with
    | true => exact pushBit_partial ⟨hb, hle, hlt, hs⟩ h8
    | false =>
        obtain ⟨pad, hpad⟩ : ∃ pad, 8 * w.bytes.length - bits.length = pad + 1 :=
          ⟨8 * w.bytes.length - bits.length - 1, by omega⟩
        refine ⟨by simp [BitWriter.pushBit, hb], ?_, ?_, ?_⟩
        · simp [BitWriter.pushBit, h8]; omega
        · simp [BitWriter.pushBit, h8]; omega
        · have hpad' : 8 * w.bytes.length - (bits ++ [false]).length = pad := by simp; omega
          have hbytes : (w.pushBit false).bytes = w.bytes := by simp [BitWriter.pushBit, h8]
          rw [hbytes, hpad', hs, hpad]
          simp [List.replicate_succ]

theorem Writes.comp {f g : BitWriter → BitWriter} {xs ys : List Bool}
    (hf : Writes f xs) (hg : Writes g ys) : Writes (fun w => g (f w)) (xs ++ ys) := by
  intro w bits h
  rw [← List.append_assoc]
  exact hg _ _ (hf w bits h)

theorem BitWriter.push_writes (value width : ℕ) :
    Writes (fun w => w.push value width) (toBits width value) := by
  induction width with
  | zero => intro w bits h; simpa [BitWriter.push] using h
  | succ width ih =>
      exact Writes.comp (BitWriter.pushBit_holds (value.testBit width)) ih

/-! ### Reading a field -/

private theorem read_fold (bytes : List UInt8) (width pos : ℕ) (bits : List Bool)
    (hlen : bits.length = width) (h64 : width ≤ 64)
    (hbit : ∀ j < width, bits[j]? =
      some ((bytes.getD ((pos + j) / 8) 0).toNat.testBit (7 - (pos + j) % 8))) :
    (List.range' pos width).foldl (fun acc i =>
      ((acc <<< 1) % 2 ^ 64) ||| (((bytes.getD (i / 8) 0).toNat >>> (7 - i % 8)) &&& 1)) 0 =
      ofBits bits := by
  induction width generalizing bits with
  | zero => simp_all
  | succ width ih =>
      obtain ⟨front, last, rfl⟩ : ∃ front last, bits = front ++ [last] := by
        have hne : bits ≠ [] := by intro hn; simp [hn] at hlen
        exact ⟨_, _, (List.dropLast_append_getLast hne).symm⟩
      have hfront : front.length = width := by simpa using hlen
      have hprev := ih front hfront (by omega) (by
        intro j hj
        have := hbit j (by omega)
        rwa [List.getElem?_append_left (by omega)] at this)
      have hlast : last = (bytes.getD ((pos + width) / 8) 0).toNat.testBit
          (7 - (pos + width) % 8) := by
        have := hbit width (by omega)
        rw [List.getElem?_append_right (by omega)] at this
        simpa [hfront] using this
      have hlt : ofBits front < 2 ^ width := hfront ▸ ofBits_lt front
      have hlt' : 2 * ofBits front < 2 ^ 64 := by
        have : 2 ^ (width + 1) ≤ 2 ^ 64 := Nat.pow_le_pow_right (by norm_num) h64
        rw [pow_succ] at this
        omega
      have hshift : (ofBits front <<< 1) % 2 ^ 64 = 2 * ofBits front := by
        rw [Nat.shiftLeft_eq, pow_one, mul_comm, Nat.mod_eq_of_lt hlt']
      have hone : ((bytes.getD ((pos + width) / 8) 0).toNat >>> (7 - (pos + width) % 8)) &&& 1
          = last.toNat := by
        rw [hlast, Nat.toNat_testBit, Nat.and_one_is_mod, Nat.shiftRight_eq_div_pow]
      have hor : 2 * ofBits front ||| last.toNat = 2 * ofBits front + last.toNat := by
        have := Nat.two_pow_add_eq_or_of_lt (i := 1) (b := last.toNat)
          (by cases last <;> decide) (ofBits front)
        simpa using this.symm
      rw [List.range'_concat, List.foldl_append, List.foldl_cons, List.foldl_nil, hprev]
      simp only [one_mul, hshift, hone, hor]
      simp [ofBits, List.foldl_append]

/-- A field of 1 to 64 bits is read as the number its bits spell. -/
theorem BitReader.read_bits {width : ℕ} (bits : List Bool) (hlen : bits.length = width)
    (hpos : 0 < width) (h64 : width ≤ 64) : Reads (·.read width) bits (ofBits bits) := by
  intro r rest h
  have hin : r.pos + width ≤ 8 * r.bytes.length := by
    have := congrArg List.length h
    simp [BitReader.ahead] at this
    omega
  have hbit : ∀ j < width, bits[j]? =
      some ((r.bytes.getD ((r.pos + j) / 8) 0).toNat.testBit (7 - (r.pos + j) % 8)) := by
    intro j hj
    have hj' : r.ahead[j]? = bits[j]? := by
      rw [h, List.getElem?_append_left (by omega)]
    rw [← hj', BitReader.ahead, List.getElem?_drop, getElem?_byteBits _ (by omega)]
  have hfold := read_fold r.bytes width r.pos bits hlen h64 hbit
  simp only [BitReader.read]
  rw [if_neg (by omega), hfold, hlen, BitReader.advance]

theorem BitReader.read_toBits (width value : ℕ) (hpos : 0 < width) (h64 : width ≤ 64) :
    Reads (·.read width) (toBits width value) (value % 2 ^ width) := by
  rw [← ofBits_toBits]
  exact BitReader.read_bits _ (length_toBits _ _) hpos h64

/-- A reader with a code ahead reads it and has what followed the code ahead. -/
theorem Reads.step {α : Type} {read : BitReader → Except DecodeError (α × BitReader)}
    {code rest : List Bool} {a : α} {r : BitReader} (hx : Reads read code a)
    (h : r.ahead = code ++ rest) :
    read r = .ok (a, r.advance code.length) ∧ (r.advance code.length).ahead = rest :=
  ⟨hx r rest h, BitReader.ahead_advance h⟩

/-! ### Zigzag and two's complement -/

/-- The values of an `i64`. -/
def IsI64 (value : ℤ) : Prop := -2 ^ 63 ≤ value ∧ value < 2 ^ 63

instance (value : ℤ) : Decidable (IsI64 value) :=
  inferInstanceAs (Decidable (-2 ^ 63 ≤ value ∧ value < 2 ^ 63))

theorem wrapI64_of_isI64 {value : ℤ} (h : IsI64 value) : wrapI64 value = value := by
  obtain ⟨hl, hu⟩ := h
  rw [wrapI64, BitVec.toInt_ofInt]
  exact Int.bmod_eq_of_le (by omega) (by omega)

theorem isI64_wrapI64 (value : ℤ) : IsI64 (wrapI64 value) := by
  have hl := BitVec.le_toInt (BitVec.ofInt 64 value)
  have hu := BitVec.toInt_lt (x := BitVec.ofInt 64 value)
  exact ⟨by simpa [wrapI64] using hl, by simpa [wrapI64] using hu⟩

/-- Adding back a wrapped difference undoes it. -/
theorem wrapI64_add_wrapI64_sub {a b : ℤ} (ha : IsI64 a) :
    wrapI64 (b + wrapI64 (a - b)) = a := by
  have h : wrapI64 (b + wrapI64 (a - b)) = wrapI64 a := by
    simp only [wrapI64, BitVec.toInt_ofInt]
    rw [Int.add_bmod_bmod]
    congr 1
    ring
  rw [h, wrapI64_of_isI64 ha]

theorem asU64_lt (value : ℤ) : asU64 value < 2 ^ 64 := (BitVec.ofInt 64 value).isLt

theorem zigzag_lt (value : ℤ) : zigzag value < 2 ^ 64 := BitVec.isLt _

theorem sshiftRight_63 (v : BitVec 64) :
    v.sshiftRight 63 = if v.msb then BitVec.allOnes 64 else 0#64 := by
  apply BitVec.eq_of_getLsbD_eq
  intro i hi
  rw [BitVec.getLsbD_sshiftRight]
  by_cases h0 : 63 + i < 64
  · have hi0 : i = 0 := by omega
    subst hi0
    cases h : v.msb <;> simp_all [BitVec.msb_eq_getLsbD_last]
  · cases v.msb <;> simp [-BitVec.reduceAllOnes, h0, hi]

theorem unzigzag_zigzag_bitVec (v : BitVec 64) :
    let u := (v <<< 1) ^^^ v.sshiftRight 63
    (u >>> 1) ^^^ -(u &&& 1#64) = v := by
  intro u
  have hlow : u &&& 1#64 = if v.msb then 1#64 else 0#64 := by
    apply BitVec.eq_of_getLsbD_eq
    intro i hi
    by_cases h0 : i = 0
    · subst h0
      cases h : v.msb <;> simp [u, sshiftRight_63, h]
    · cases v.msb <;> simp [u, h0]
  have hneg : -(u &&& 1#64) = if v.msb then BitVec.allOnes 64 else 0#64 := by
    rw [hlow]
    cases v.msb <;> decide
  rw [hneg]
  apply BitVec.eq_of_getLsbD_eq
  intro i hi
  cases h : v.msb with
  | false =>
      by_cases hlast : i = 63
      · subst hlast
        simp [u, sshiftRight_63, h]
        simpa [BitVec.msb_eq_getLsbD_last] using h.symm
      · simp [u, sshiftRight_63, h, hi, show 1 + i < 64 by omega]
  | true =>
      by_cases hlast : i = 63
      · subst hlast
        simp [u, sshiftRight_63, h]
        simpa [BitVec.msb_eq_getLsbD_last] using h
      · simp [-BitVec.reduceAllOnes, u, sshiftRight_63, h, hi, show 1 + i < 64 by omega]

theorem unzigzag_zigzag {value : ℤ} (h : IsI64 value) : unzigzag (zigzag value) = value := by
  have hw := wrapI64_of_isI64 h
  simp only [unzigzag, zigzag, BitVec.ofNat_toNat, BitVec.setWidth_eq]
  rw [unzigzag_zigzag_bitVec]
  exact hw

/-! ### Runs of ones -/

private theorem read_one (bit : Bool) : Reads (·.read 1) [bit] bit.toNat := by
  have h := BitReader.read_bits [bit] (show [bit].length = 1 from rfl) (by norm_num) (by norm_num)
  simpa [ofBits] using h

theorem readOnesFrom_stop (ones left run : ℕ) (h : run < left) :
    Reads (readOnesFrom · ones left) (replicate run true ++ [false]) (ones + run) := by
  induction run generalizing ones left with
  | zero =>
      obtain ⟨left, rfl⟩ : ∃ l, left = l + 1 := ⟨left - 1, by omega⟩
      intro r rest hr
      obtain ⟨hbit, -⟩ := (read_one false).step (show r.ahead = [false] ++ rest by simpa using hr)
      simp [readOnesFrom, hbit]
  | succ run ih =>
      obtain ⟨left, rfl⟩ : ∃ l, left = l + 1 := ⟨left - 1, by omega⟩
      intro r rest hr
      obtain ⟨hbit, hnext⟩ := (read_one true).step (show r.ahead = [true] ++
        (replicate run true ++ [false] ++ rest) by simpa [replicate_succ] using hr)
      have hrun := ih (ones + 1) left (by omega) _ _ hnext
      simp only [List.length_append, length_replicate, length_singleton,
        BitReader.advance_advance] at hrun ⊢
      simp [readOnesFrom, hbit, hrun]
      constructor
      · omega
      · congr 1; omega

theorem readOnesFrom_full (ones left : ℕ) :
    Reads (readOnesFrom · ones left) (replicate left true) (ones + left) := by
  induction left generalizing ones with
  | zero => intro r rest _; simp [readOnesFrom]
  | succ left ih =>
      intro r rest hr
      obtain ⟨hbit, hnext⟩ := (read_one true).step
        (show r.ahead = [true] ++ (replicate left true ++ rest) by simpa [replicate_succ] using hr)
      have hrun := ih (ones + 1) _ _ hnext
      simp only [length_replicate, length_singleton, BitReader.advance_advance] at hrun ⊢
      simp [readOnesFrom, hbit, hrun]
      constructor
      · omega
      · congr 1; omega

theorem readOnes_stop (max run : ℕ) (h : run < max) :
    Reads (readOnes · max) (replicate run true ++ [false]) run := by
  simpa [readOnes] using readOnesFrom_stop 0 max run h

theorem readOnes_full (max : ℕ) : Reads (readOnes · max) (replicate max true) max := by
  simpa [readOnes] using readOnesFrom_full 0 max

/-! ### The timestamp code -/

/-- The bits of a delta of deltas: its step's prefix, then its two's-complement field. -/
def dodCode (dod : ℤ) : List Bool :=
  match dodStep dod with
  | none => []
  | some none => [false]
  | some (some (pre, prefixLen, width)) => toBits prefixLen pre ++ toBits width (asU64 dod)

theorem length_dodCode {dod : ℤ} {bits : ℕ} (h : dodBits dod = some bits) :
    (dodCode dod).length = bits := by
  unfold dodBits at h
  unfold dodCode
  split at * <;> simp_all

/-- A delta of deltas the code holds is zero or lies in one of the four fields. -/
theorem dodStep_cases {dod : ℤ} (h : (dodStep dod).isSome) :
    (dod = 0 ∧ dodStep dod = some none) ∨
    (-2 ^ 2 ≤ dod ∧ dod < 2 ^ 2 ∧ dodStep dod = some (some (0b10, 2, 3))) ∨
    (-2 ^ 6 ≤ dod ∧ dod < 2 ^ 6 ∧ dodStep dod = some (some (0b110, 3, 7))) ∨
    (-2 ^ 11 ≤ dod ∧ dod < 2 ^ 11 ∧ dodStep dod = some (some (0b1110, 4, 12))) ∨
    (-2 ^ 31 ≤ dod ∧ dod < 2 ^ 31 ∧ dodStep dod = some (some (0b1111, 4, 32))) := by
  unfold dodStep dodSteps at *
  by_cases h0 : dod = 0
  · simp [h0]
  · by_cases h3 : -2 ^ 2 ≤ dod ∧ dod < 2 ^ 2
    · simp_all
    · by_cases h7 : -2 ^ 6 ≤ dod ∧ dod < 2 ^ 6
      · simp_all
      · by_cases h12 : -2 ^ 11 ≤ dod ∧ dod < 2 ^ 11
        · simp_all
        · by_cases h32 : -2 ^ 31 ≤ dod ∧ dod < 2 ^ 31
          · simp_all
          · simp [h0] at h
            omega

private theorem toBits_and_lowBits (width value : ℕ) (h : width < 64) :
    toBits width (value &&& lowBits width) = toBits width value := by
  rw [lowBits, if_neg (by omega), Nat.and_two_pow_sub_one_eq_mod, toBits_mod]

theorem writeDod_writes {dod : ℤ} (h : (dodStep dod).isSome) :
    Writes (fun w => (writeDod w dod).2) (dodCode dod) := by
  have hfield : ∀ {pre len width : ℕ}, width < 64 → dodStep dod = some (some (pre, len, width)) →
      Writes (fun w => (writeDod w dod).2) (dodCode dod) := by
    intro pre len width hw hs w bits hb
    have h1 := BitWriter.push_writes pre len w bits hb
    have h2 := BitWriter.push_writes (asU64 dod &&& lowBits width) width _ _ h1
    rw [toBits_and_lowBits _ _ hw, List.append_assoc] at h2
    simpa [writeDod, dodCode, hs] using h2
  rcases dodStep_cases h with ⟨-, hs⟩ | ⟨-, -, hs⟩ | ⟨-, -, hs⟩ | ⟨-, -, hs⟩ | ⟨-, -, hs⟩
  · have hzero : toBits 1 0 = [false] := by decide
    simpa [writeDod, dodCode, hs, hzero] using BitWriter.push_writes 0 1
  all_goals exact hfield (by norm_num) hs

theorem writeDod_fst (w : BitWriter) (dod : ℤ) : (writeDod w dod).1 = (dodStep dod).isSome := by
  unfold writeDod
  split <;> simp_all

theorem writeDod_none {dod : ℤ} (w : BitWriter) (h : dodStep dod = none) :
    writeDod w dod = (false, w) := by
  simp [writeDod, h]

/-- Sign extension of a field that holds a delta of deltas. -/
private theorem signExtend_field {dod : ℤ} {width : ℕ} (hw : width ∈ [3, 7, 12, 32])
    (hl : -2 ^ (width - 1) ≤ dod) (hu : dod < 2 ^ (width - 1)) :
    ((BitVec.ofNat 64 (asU64 dod % 2 ^ width) <<< (64 - width)).sshiftRight (64 - width)).toInt =
      dod := by
  rw [BitVec.toInt_sshiftRight, BitVec.toInt_shiftLeft, asU64, BitVec.toNat_ofInt,
    Int.shiftRight_eq_div_pow, BitVec.toNat_ofNat, Nat.shiftLeft_eq]
  fin_cases hw <;> norm_num at * <;> simp only [Int.bmod] <;> omega

private theorem readDod_field {dod : ℤ} (ones : ℕ) {width : ℕ} {code : List Bool} (hne : ones ≠ 0)
    (hstep : (dodSteps.getD (ones - 1) (0, 0, 0)).2.2 = width) (hw : width ∈ [3, 7, 12, 32])
    (hones : Reads (readOnes · dodSteps.length) code ones)
    (hl : -2 ^ (width - 1) ≤ dod) (hu : dod < 2 ^ (width - 1)) :
    Reads readDod (code ++ toBits width (asU64 dod)) dod := by
  intro r rest hr
  have hsign := signExtend_field hw hl hu
  have hread : Reads (·.read width) (toBits width (asU64 dod)) (asU64 dod % 2 ^ width) := by
    apply BitReader.read_toBits <;> fin_cases hw <;> norm_num
  obtain ⟨h1, hr1⟩ := hones.step (r := r) (by simpa using hr)
  obtain ⟨h2, -⟩ := hread.step hr1
  simp only [readDod, h1, except_ok_bind, if_neg hne, hstep, h2, hsign]
  simp

theorem readDod_reads {dod : ℤ} (h : (dodStep dod).isSome) : Reads readDod (dodCode dod) dod := by
  rcases dodStep_cases h with ⟨h0, hs⟩ | ⟨hl, hu, hs⟩ | ⟨hl, hu, hs⟩ | ⟨hl, hu, hs⟩ | ⟨hl, hu, hs⟩
  · have hcode : dodCode dod = [false] := by simp [dodCode, hs]
    rw [hcode, h0]
    intro r rest hr
    obtain ⟨h1, -⟩ := (readOnes_stop dodSteps.length 0 (by decide)).step
      (show r.ahead = _ ++ rest by simpa using hr)
    simp [readDod, h1]
  all_goals simp only [dodCode, hs]
  · exact readDod_field 1 (by norm_num) (by decide) (by simp)
      (readOnes_stop 4 1 (by decide)) hl hu
  · exact readDod_field 2 (by norm_num) (by decide) (by simp)
      (readOnes_stop 4 2 (by decide)) hl hu
  · exact readDod_field 3 (by norm_num) (by decide) (by simp)
      (readOnes_stop 4 3 (by decide)) hl hu
  · exact readDod_field 4 (by norm_num) (by decide) (by simp)
      (readOnes_full 4) hl hu

/-! ### The value code -/

/-- The bits of a value: its step's ones, the closing zero if the step has one, its field. -/
def valueCode (value : ℕ) : List Bool :=
  match valueStep value with
  | none => [false]
  | some step =>
      replicate (step + 1) true ++ (if prefixLen step > step + 1 then [false] else []) ++
        toBits (valueWidths.getD step 0) value

/-- A `u64` is zero or fits the field of its step, whose count of ones is read back. -/
theorem valueStep_cases {value : ℕ} (h : value < 2 ^ 64) :
    (value = 0 ∧ valueStep value = none) ∨
    ∃ step < 5, valueStep value = some step ∧ value < 2 ^ valueWidths.getD step 0 := by
  unfold valueStep
  by_cases h0 : value = 0
  · simp [h0]
  · have hlow : ∀ w < 64, value ≤ lowBits w ↔ value < 2 ^ w := by
      intro w hw
      have := Nat.two_pow_pos w
      rw [lowBits, if_neg (by omega)]
      omega
    have hlow64 : value ≤ lowBits 64 := by simp [lowBits]; omega
    right
    simp only [valueWidths, List.findIdx?_cons, hlow 6 (by norm_num), hlow 13 (by norm_num),
      hlow 20 (by norm_num), hlow 32 (by norm_num), hlow64, if_pos h0, ne_eq]
    by_cases h6 : value < 64
    · exact ⟨0, by simp [h6]⟩
    · by_cases h13 : value < 8192
      · exact ⟨1, by simp [h6, h13]⟩
      · by_cases h20 : value < 1048576
        · exact ⟨2, by simp [h6, h13, h20]⟩
        · by_cases h32 : value < 4294967296
          · exact ⟨3, by simp [h6, h13, h20, h32]⟩
          · exact ⟨4, by simp [h6, h13, h20, h32]; omega⟩

private theorem toBits_lowBits (width : ℕ) (h : width < 64) :
    toBits width (lowBits width) = replicate width true := by
  apply List.ext_getElem?
  intro i
  by_cases hi : i < width
  · rw [getElem?_toBits _ hi, lowBits, if_neg (by omega), Nat.testBit_two_pow_sub_one]
    simp [hi]
    omega
  · rw [List.getElem?_eq_none (by simp; omega), List.getElem?_eq_none (by simp; omega)]

theorem writeValue_writes {value : ℕ} (h : value < 2 ^ 64) :
    Writes (writeValue · value) (valueCode value) := by
  have hzero : toBits 1 0 = [false] := by decide
  rcases valueStep_cases h with ⟨-, hs⟩ | ⟨step, h5, hs, -⟩
  · simpa [writeValue, valueCode, hs, hzero] using BitWriter.push_writes 0 1
  · intro w bits hb
    have h1 := BitWriter.push_writes (lowBits (step + 1)) (step + 1) w bits hb
    rw [toBits_lowBits _ (by omega)] at h1
    simp only [writeValue, valueCode, hs]
    by_cases hp : prefixLen step > step + 1
    · have h2 := BitWriter.push_writes 0 1 _ _ h1
      have h3 := BitWriter.push_writes value (valueWidths.getD step 0) _ _ h2
      simpa [hp, hzero] using h3
    · have h3 := BitWriter.push_writes value (valueWidths.getD step 0) _ _ h1
      simpa [hp] using h3

theorem length_valueCode {value : ℕ} (h : value < 2 ^ 64) :
    (valueCode value).length = valueBits value := by
  rcases valueStep_cases h with ⟨-, hs⟩ | ⟨step, h5, hs, -⟩
  · simp [valueCode, valueBits, hs]
  · simp only [valueCode, valueBits, hs]
    interval_cases step <;> simp [prefixLen, valueWidths]

theorem readValue_reads {value : ℕ} (h : value < 2 ^ 64) :
    Reads readValue (valueCode value) value := by
  rcases valueStep_cases h with ⟨h0, hs⟩ | ⟨step, h5, hs, hlt⟩
  · have hcode : valueCode value = [false] := by simp [valueCode, hs]
    rw [hcode, h0]
    intro r rest hr
    obtain ⟨h1, -⟩ := (readOnes_stop valueWidths.length 0 (by decide)).step
      (show r.ahead = _ ++ rest by simpa using hr)
    simp [readValue, h1]
  · have hones : Reads (readOnes · valueWidths.length)
        (replicate (step + 1) true ++ (if prefixLen step > step + 1 then [false] else []))
        (step + 1) := by
      by_cases h4 : step = 4
      · subst h4
        exact readOnes_full 5
      · have hp : prefixLen step > step + 1 := by
          rw [prefixLen, if_neg (by simp [valueWidths]; omega)]
          omega
        rw [if_pos hp]
        exact readOnes_stop _ _ (by simp [valueWidths]; omega)
    have hwidth : 0 < valueWidths.getD step 0 ∧ valueWidths.getD step 0 ≤ 64 := by
      interval_cases step <;> decide
    intro r rest hr
    simp only [valueCode, hs, List.append_assoc] at hr ⊢
    obtain ⟨h1, hr1⟩ := hones.step (r := r) (by rw [hr, List.append_assoc])
    obtain ⟨h2, -⟩ := (BitReader.read_toBits _ value hwidth.1 hwidth.2).step hr1
    rw [Nat.mod_eq_of_lt hlt] at h2
    simp only [readValue, h1, except_ok_bind, Nat.add_one_ne_zero, if_false, Nat.add_sub_cancel, h2]
    simp [Nat.add_assoc]

/-! ### Varints inside a bit stream -/

/-- The bits of a varint inside a bit stream, in at most `rounds` groups. -/
def bitVarintGroups : ℕ → ℕ → List Bool
  | 0, _ => []
  | rounds + 1, value =>
      if value ≥ 0x80 then true :: (toBits 7 value ++ bitVarintGroups rounds (value / 2 ^ 7))
      else false :: toBits 7 value

def bitVarintCode (value : ℕ) : List Bool := bitVarintGroups 10 value

private theorem toBits_and_mask (value : ℕ) : toBits 7 (value &&& 0x7f) = toBits 7 value := by
  rw [show (0x7f : ℕ) = 2 ^ 7 - 1 by norm_num, Nat.and_two_pow_sub_one_eq_mod, toBits_mod]

private theorem writeBitVarintGroups_writes (rounds value : ℕ) :
    Writes (writeBitVarintGroups rounds · value) (bitVarintGroups rounds value) := by
  induction rounds generalizing value with
  | zero => intro w bits hb; simpa [writeBitVarintGroups, bitVarintGroups] using hb
  | succ rounds ih =>
      intro w bits hb
      have hflag : ∀ b : Bool, toBits 1 (if b then 1 else 0) = [b] := by decide
      by_cases hm : value ≥ 0x80
      · have h1 := BitWriter.push_writes 1 1 w bits hb
        have h2 := BitWriter.push_writes (value &&& 0x7f) 7 _ _ h1
        have h3 := ih (value >>> 7) _ _ h2
        rw [toBits_and_mask, Nat.shiftRight_eq_div_pow] at h3
        simpa [writeBitVarintGroups, bitVarintGroups, hm, Nat.shiftRight_eq_div_pow,
          show toBits 1 1 = [true] by decide] using h3
      · have h1 := BitWriter.push_writes 0 1 w bits hb
        have h2 := BitWriter.push_writes (value &&& 0x7f) 7 _ _ h1
        rw [toBits_and_mask] at h2
        simpa [writeBitVarintGroups, bitVarintGroups, hm,
          show toBits 1 0 = [false] by decide] using h2

theorem writeBitVarint_writes (value : ℕ) :
    Writes (writeBitVarint · value) (bitVarintCode value) :=
  writeBitVarintGroups_writes 10 value

/-- The group at `7 * group`, put on top of the lower groups. -/
private theorem varint_group (value group : ℕ) (h : value < 2 ^ 64) :
    value % 2 ^ (7 * group) ||| ((value / 2 ^ (7 * group) % 2 ^ 7) <<< (7 * group)) % 2 ^ 64 =
      value % 2 ^ (7 * (group + 1)) := by
  have hlt : value % 2 ^ (7 * group) < 2 ^ (7 * group) := Nat.mod_lt _ (Nat.two_pow_pos _)
  have hsum : value % 2 ^ (7 * (group + 1)) =
      2 ^ (7 * group) * (value / 2 ^ (7 * group) % 2 ^ 7) + value % 2 ^ (7 * group) := by
    rw [show 7 * (group + 1) = 7 * group + 7 by ring, pow_add, Nat.mod_mul]
    ring
  have hsmall : 2 ^ (7 * group) * (value / 2 ^ (7 * group) % 2 ^ 7) < 2 ^ 64 := by
    have := Nat.mod_le value (2 ^ (7 * (group + 1)))
    omega
  rw [Nat.shiftLeft_eq, mul_comm _ (2 ^ (7 * group)), Nat.mod_eq_of_lt hsmall, Nat.or_comm,
    ← Nat.two_pow_add_eq_or_of_lt hlt, hsum]

private theorem readBitVarintGroups_reads {value : ℕ} (h : value < 2 ^ 64) (rounds group : ℕ)
    (hg : rounds + group = 10) (hr : 0 < rounds)
    (hend : value / 2 ^ (7 * group) < 2 ^ (7 * rounds)) :
    Reads (readBitVarintGroups rounds group · (value % 2 ^ (7 * group)))
      (bitVarintGroups rounds (value / 2 ^ (7 * group))) value := by
  induction rounds generalizing group with
  | zero => omega
  | succ rounds ih =>
      intro r rest hrest
      have hlast : ¬ (group = 9 ∧ value / 2 ^ (7 * group) % 2 ^ 7 > 1) := by
        rintro ⟨rfl, hbig⟩
        have : value / 2 ^ (7 * 9) < 2 := by
          rw [Nat.div_lt_iff_lt_mul (by positivity)]; omega
        omega
      have hgroup := varint_group value group h
      by_cases hm : value / 2 ^ (7 * group) ≥ 0x80
      · have hcode : bitVarintGroups (rounds + 1) (value / 2 ^ (7 * group)) =
            [true] ++ (toBits 7 (value / 2 ^ (7 * group)) ++
              bitVarintGroups rounds (value / 2 ^ (7 * group) / 2 ^ 7)) := by
          simp [bitVarintGroups, hm]
        have hrounds : 0 < rounds := by
          by_contra hz
          have : rounds = 0 := by omega
          subst this
          simp at hend
          omega
        have hdiv : value / 2 ^ (7 * group) / 2 ^ 7 = value / 2 ^ (7 * (group + 1)) := by
          rw [Nat.div_div_eq_div_mul, ← pow_add]
          congr 2
        have hend' : value / 2 ^ (7 * (group + 1)) < 2 ^ (7 * rounds) := by
          rw [← hdiv, Nat.div_lt_iff_lt_mul (by positivity), ← pow_add]
          convert hend using 2
          ring
        have hnext := ih (group + 1) (by omega) hrounds hend'
        rw [hcode, hdiv] at hrest ⊢
        simp only [List.append_assoc] at hrest
        obtain ⟨h1, hr1⟩ := (read_one true).step hrest
        obtain ⟨h2, hr2⟩ := (BitReader.read_toBits 7 (value / 2 ^ (7 * group))
          (by norm_num) (by norm_num)).step hr1
        obtain ⟨h3, -⟩ := hnext.step hr2
        simp only [readBitVarintGroups, h1, h2, except_ok_bind, if_neg hlast, hgroup,
          Bool.toNat_true, if_true, h3]
        simp only [BitReader.advance_advance, List.length_append, Nat.add_assoc]
      · have hcode : bitVarintGroups (rounds + 1) (value / 2 ^ (7 * group)) =
            [false] ++ toBits 7 (value / 2 ^ (7 * group)) := by
          simp [bitVarintGroups, hm]
        have hvalue : value % 2 ^ (7 * (group + 1)) = value := by
          apply Nat.mod_eq_of_lt
          rw [show 7 * (group + 1) = 7 + 7 * group by ring, pow_add]
          exact (Nat.div_lt_iff_lt_mul (by positivity)).mp (by omega)
        rw [hcode] at hrest ⊢
        rw [List.append_assoc] at hrest
        obtain ⟨h1, hr1⟩ := (read_one false).step hrest
        obtain ⟨h2, -⟩ := (BitReader.read_toBits 7 (value / 2 ^ (7 * group))
          (by norm_num) (by norm_num)).step hr1
        simp only [readBitVarintGroups, h1, h2, except_ok_bind, if_neg hlast, hgroup, hvalue]
        simp

theorem readBitVarint_reads {value : ℕ} (h : value < 2 ^ 64) :
    Reads readBitVarint (bitVarintCode value) value := by
  have := readBitVarintGroups_reads h 10 0 rfl (by norm_num) (by simp; omega)
  simp only [mul_zero, pow_zero, Nat.mod_one, Nat.div_one] at this
  exact this

/-! ### Varints in a byte list -/

/-- The bytes of a varint. -/
def varintBytes (value : ℕ) : List UInt8 := writeVarint [] value

theorem writeVarintGroups_append (rounds value : ℕ) (out : List UInt8) :
    writeVarintGroups rounds out value = out ++ writeVarintGroups rounds [] value := by
  induction rounds generalizing out value with
  | zero => simp [writeVarintGroups]
  | succ rounds ih =>
      by_cases h : value ≥ 0x80
      · simp only [writeVarintGroups, if_pos h]
        rw [ih, ih _ ([] ++ _), List.append_assoc]
        simp
      · simp [writeVarintGroups, h]

theorem writeVarint_eq (out : List UInt8) (value : ℕ) :
    writeVarint out value = out ++ varintBytes value :=
  writeVarintGroups_append 9 value out

private theorem group_byte (value : ℕ) :
    (((UInt8.ofNat value &&& 0x7f) ||| 0x80) &&& 0x7f).toNat = value % 2 ^ 7 ∧
      ((UInt8.ofNat value &&& 0x7f) ||| 0x80) &&& 0x80 ≠ 0 := by
  have hall : ∀ n : Fin 256, (((UInt8.ofNat n.val &&& 0x7f) ||| 0x80) &&& 0x7f).toNat =
      n.val % 2 ^ 7 ∧
      ((UInt8.ofNat n.val &&& 0x7f) ||| 0x80) &&& 0x80 ≠ 0 := by decide +kernel
  have hmod : UInt8.ofNat value = UInt8.ofNat (value % 256) := by
    apply UInt8.toNat_inj.mp
    simp
  have h := hall ⟨value % 256, Nat.mod_lt _ (by norm_num)⟩
  rw [hmod]
  refine ⟨?_, h.2⟩
  rw [h.1]
  simp only
  omega

private theorem last_byte (value : ℕ) (h : value < 0x80) :
    (UInt8.ofNat value &&& 0x7f).toNat = value % 2 ^ 7 ∧ UInt8.ofNat value &&& 0x80 = 0 := by
  have hall : ∀ n : Fin 128, (UInt8.ofNat n.val &&& 0x7f).toNat = n.val % 2 ^ 7 ∧
      UInt8.ofNat n.val &&& 0x80 = 0 := by decide +kernel
  exact hall ⟨value, h⟩

private theorem getElem?_of_drop {bytes rest : List UInt8} {pos : ℕ} {byte : UInt8}
    (h : bytes.drop pos = byte :: rest) :
    bytes[pos]? = some byte ∧ bytes.drop (pos + 1) = rest := by
  constructor
  · have h0 : (bytes.drop pos)[0]? = some byte := by rw [h]; rfl
    simpa using h0
  · rw [← List.drop_drop, h]
    rfl

private theorem readVarintGroups_written {value : ℕ} (h : value < 2 ^ 64) (rounds group : ℕ)
    (hg : rounds + group = 9) (bytes rest : List UInt8) (pos : ℕ)
    (hend : value / 2 ^ (7 * group) < 2 ^ (7 * (rounds + 1)))
    (hd : bytes.drop pos = writeVarintGroups rounds [] (value / 2 ^ (7 * group)) ++ rest) :
    readVarintGroups bytes (rounds + 1) group pos (value % 2 ^ (7 * group)) =
      .ok (value, pos + (writeVarintGroups rounds [] (value / 2 ^ (7 * group))).length) := by
  induction rounds generalizing group pos with
  | zero =>
      have hsmall : value / 2 ^ (7 * group) < 0x80 := by simpa using hend
      have hbyte := last_byte _ hsmall
      obtain ⟨hget, -⟩ := getElem?_of_drop (by simpa [writeVarintGroups] using hd)
      have hlast : ¬ (group = 9 ∧ value / 2 ^ (7 * group) % 2 ^ 7 > 1) := by
        rintro ⟨rfl, hbig⟩
        have : value / 2 ^ (7 * 9) < 2 := by
          rw [Nat.div_lt_iff_lt_mul (by positivity)]; omega
        omega
      have hvalue : value % 2 ^ (7 * (group + 1)) = value := by
        apply Nat.mod_eq_of_lt
        rw [show 7 * (group + 1) = 7 + 7 * group by ring, pow_add]
        exact (Nat.div_lt_iff_lt_mul (by positivity)).mp (by omega)
      simp only [readVarintGroups, hget, hbyte, if_neg hlast, varint_group value group h, hvalue]
      simp [writeVarintGroups]
  | succ rounds ih =>
      have hlast : ¬ (group = 9 ∧ value / 2 ^ (7 * group) % 2 ^ 7 > 1) := by omega
      by_cases hm : value / 2 ^ (7 * group) ≥ 0x80
      · have hbyte := group_byte (value / 2 ^ (7 * group))
        have hdiv : value / 2 ^ (7 * group) / 2 ^ 7 = value / 2 ^ (7 * (group + 1)) := by
          rw [Nat.div_div_eq_div_mul, ← pow_add]
          congr 2
        have hcode : writeVarintGroups (rounds + 1) [] (value / 2 ^ (7 * group)) =
            ((UInt8.ofNat (value / 2 ^ (7 * group)) &&& 0x7f) ||| 0x80) ::
              writeVarintGroups rounds [] (value / 2 ^ (7 * (group + 1))) := by
          rw [writeVarintGroups, if_pos hm, writeVarintGroups_append, Nat.shiftRight_eq_div_pow,
            hdiv]
          rfl
        rw [hcode, List.cons_append] at hd
        obtain ⟨hget, hrest⟩ := getElem?_of_drop hd
        have hend' : value / 2 ^ (7 * (group + 1)) < 2 ^ (7 * (rounds + 1)) := by
          rw [← hdiv, Nat.div_lt_iff_lt_mul (by positivity), ← pow_add]
          convert hend using 2
          ring
        have hnext := ih (group + 1) (by omega) (pos + 1) hend' hrest
        rw [readVarintGroups]
        simp only [hget, hbyte.1, if_neg hlast, varint_group value group h, if_neg hbyte.2, hnext,
          hcode, List.length_cons]
        congr 2
        omega
      · have hbyte := last_byte _ (show value / 2 ^ (7 * group) < 0x80 by omega)
        have hcode : writeVarintGroups (rounds + 1) [] (value / 2 ^ (7 * group)) =
            [UInt8.ofNat (value / 2 ^ (7 * group))] := by
          simp [writeVarintGroups, hm]
        rw [hcode] at hd ⊢
        obtain ⟨hget, -⟩ := getElem?_of_drop (by simpa using hd)
        have hvalue : value % 2 ^ (7 * (group + 1)) = value := by
          apply Nat.mod_eq_of_lt
          rw [show 7 * (group + 1) = 7 + 7 * group by ring, pow_add]
          exact (Nat.div_lt_iff_lt_mul (by positivity)).mp (by omega)
        rw [readVarintGroups]
        simp only [hget, hbyte, if_neg hlast, varint_group value group h, hvalue]
        simp

/-- A varint reads back from in front of any bytes. -/
theorem readVarint_varintBytes {value pos : ℕ} {bytes rest : List UInt8} (h : value < 2 ^ 64)
    (hd : bytes.drop pos = varintBytes value ++ rest) :
    readVarint bytes pos = .ok (value, pos + (varintBytes value).length) ∧
      bytes.drop (pos + (varintBytes value).length) = rest := by
  constructor
  · have := readVarintGroups_written h 9 0 rfl bytes rest pos (by simp; omega)
      (by simpa [varintBytes, writeVarint] using hd)
    simpa [readVarint, varintBytes, writeVarint, Nat.mod_one] using this
  · rw [← List.drop_drop, hd, List.drop_left]

private theorem length_writeVarintGroups (rounds value : ℕ) (h : value < 2 ^ (7 * (rounds + 1))) :
    (writeVarintGroups rounds [] value).length = (max (value.log2 + 1) 1 + 6) / 7 := by
  induction rounds generalizing value with
  | zero =>
      have hlog : value.log2 < 7 ∨ value = 0 := by
        by_cases h0 : value = 0
        · exact Or.inr h0
        · exact Or.inl ((Nat.log2_lt h0).mpr (by simpa using h))
      rcases hlog with hlog | rfl
      · simp [writeVarintGroups]; omega
      · decide
  | succ rounds ih =>
      by_cases hm : value ≥ 0x80
      · have hdiv : value >>> 7 < 2 ^ (7 * (rounds + 1)) := by
          rw [Nat.shiftRight_eq_div_pow, Nat.div_lt_iff_lt_mul (by positivity), ← pow_add]
          convert h using 2
          ring
        have hlog : (value >>> 7).log2 = value.log2 - 7 := by
          rw [Nat.log2_eq_log_two, Nat.log2_eq_log_two, Nat.shiftRight_eq_div_pow]
          exact Nat.log_div_base_pow 2 value 7
        have hseven : 7 ≤ value.log2 := (Nat.le_log2 (by omega)).mpr (by omega)
        rw [writeVarintGroups, if_pos hm, writeVarintGroups_append, List.length_append,
          ih _ hdiv, hlog]
        simp
        omega
      · have hlog : value.log2 < 7 ∨ value = 0 := by
          by_cases h0 : value = 0
          · exact Or.inr h0
          · exact Or.inl ((Nat.log2_lt h0).mpr (by omega))
        rw [writeVarintGroups, if_neg hm]
        rcases hlog with hlog | rfl
        · simp; omega
        · decide

theorem length_varintBytes {value : ℕ} (h : value < 2 ^ 64) :
    (varintBytes value).length = varintLen value := by
  have hlen := length_writeVarintGroups 9 value (by simp; omega)
  rw [varintBytes, writeVarint, hlen, varintLen, leadingZeros]
  by_cases h0 : value = 0
  · subst h0
    decide
  · have : value.log2 < 64 := (Nat.log2_lt h0).mpr h
    rw [if_neg h0]
    omega

end MonitoringAgent.HubStore

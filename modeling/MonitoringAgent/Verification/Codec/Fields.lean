import MonitoringAgent.Verification.Codec.Decoded

/-! # Fields of any codes in one bit stream

A stream's fields delimit themselves: read in the order they were written, each in its code, they
come back, and take exactly the bits they cost. -/

namespace MonitoringAgent.HubStore

open List MonitoringAgent.Library

/-- A field of a bit stream, with its code. -/
inductive Field where
  | dod (dod : ℤ)
  | value (value : ℕ)
  | bitVarint (value : ℕ)
  /-- The low `width` bits of a `u64`. -/
  | raw (value width : ℕ)
  deriving DecidableEq, Repr

/-- What a reader knows of a field before it reads it. -/
inductive FieldKind where
  | dod
  | value
  | bitVarint
  | raw (width : ℕ)
  deriving DecidableEq, Repr

namespace Field

def kind : Field → FieldKind
  | dod _ => .dod
  | value _ => .value
  | bitVarint _ => .bitVarint
  | raw _ width => .raw width

/-- A field its code can hold. -/
def Codable : Field → Prop
  | dod d => (dodBits d).isSome
  | value v => v < 2 ^ 64
  | bitVarint v => v < 2 ^ 64
  | raw v width => v < 2 ^ 64 ∧ width ≤ 64

def write (w : BitWriter) : Field → BitWriter
  | dod d => (writeDod w d).2
  | value v => writeValue w v
  | bitVarint v => writeBitVarint w v
  | raw v width => w.push v width

/-- What the field costs, in bits. -/
def bits : Field → ℕ
  | dod d => (dodBits d).getD 0
  | value v => valueBits v
  | bitVarint v => 8 * varintLen v
  | raw _ width => width

/-- What is read of the field: all of it, but for the bits of a raw one above its width. -/
def stored : Field → Field
  | raw v width => raw (v % 2 ^ width) width
  | field => field

def code : Field → List Bool
  | dod d => dodCode d
  | value v => valueCode v
  | bitVarint v => bitVarintCode v
  | raw v width => toBits width v

end Field

/-- The next field, of a known kind. -/
def FieldKind.read (r : BitReader) : FieldKind → Except DecodeError (Field × BitReader)
  | dod => do
      let (d, r) ← readDod r
      .ok (.dod d, r)
  | value => do
      let (v, r) ← readValue r
      .ok (.value v, r)
  | bitVarint => do
      let (v, r) ← readBitVarint r
      .ok (.bitVarint v, r)
  | raw width => do
      let (v, r) ← r.read width
      .ok (.raw v width, r)

def writeAll (w : BitWriter) (fields : List Field) : BitWriter := fields.foldl Field.write w

def readAll : List FieldKind → BitReader → Except DecodeError (List Field × BitReader)
  | [], r => .ok ([], r)
  | kind :: kinds, r => do
      let (field, r) ← kind.read r
      let (fields, r) ← readAll kinds r
      .ok (field :: fields, r)

/-! ### What a write costs -/

theorem BitWriter.bitLen_push (w : BitWriter) (value width : ℕ) :
    (w.push value width).bitLen = w.bitLen + width := by
  induction width generalizing w with
  | zero => rfl
  | succ width ih =>
      rw [BitWriter.push, ih]
      simp only [BitWriter.bitLen, BitWriter.pushBit]
      omega

theorem bitLen_writeDod (w : BitWriter) (dod : ℤ) :
    (writeDod w dod).2.bitLen = w.bitLen + (dodBits dod).getD 0 := by
  rw [writeDod, dodBits]
  rcases dodStep dod with _ | _ | ⟨pre, prefixLen, width⟩
  · rfl
  · exact w.bitLen_push 0 1
  · simp only [BitWriter.bitLen_push, Option.map_some, Option.getD_some]
    omega

theorem bitLen_writeValue (w : BitWriter) (value : ℕ) :
    (writeValue w value).bitLen = w.bitLen + valueBits value := by
  rw [writeValue, valueBits]
  rcases valueStep value with _ | step
  · exact w.bitLen_push 0 1
  · simp only [BitWriter.bitLen_push, prefixLen]
    split_ifs with hlast hmore hmore
    · omega
    · rw [BitWriter.bitLen_push]
      omega
    · rw [BitWriter.bitLen_push, BitWriter.bitLen_push]
      omega
    · omega

/-- A varint takes as many groups in a bit stream as it takes bytes in a byte list. -/
theorem bitLen_writeBitVarintGroups (rounds : ℕ) {value : ℕ}
    (h : value < 2 ^ (7 * (rounds + 1))) (w : BitWriter) :
    (writeBitVarintGroups (rounds + 1) w value).bitLen =
      w.bitLen + 8 * (writeVarintGroups rounds [] value).length := by
  induction rounds generalizing value w with
  | zero =>
      have hsmall : ¬value ≥ 0x80 := by
        norm_num at h
        omega
      simp only [writeBitVarintGroups, if_neg hsmall, BitWriter.bitLen_push, writeVarintGroups]
      rfl
  | succ rounds ih =>
      rw [writeBitVarintGroups, writeVarintGroups]
      by_cases hmore : value ≥ 0x80
      · have hrest : value >>> 7 < 2 ^ (7 * (rounds + 1)) := by
          rw [Nat.shiftRight_eq_div_pow, Nat.div_lt_iff_lt_mul (by positivity), ← pow_add]
          exact h
        simp only [if_pos hmore]
        rw [ih hrest, writeVarintGroups_append rounds _ ([] ++ [_]), List.length_append,
          BitWriter.bitLen_push, BitWriter.bitLen_push, List.nil_append, List.length_singleton]
        omega
      · simp only [if_neg hmore, BitWriter.bitLen_push, List.nil_append, List.length_singleton]

theorem bitLen_writeBitVarint {value : ℕ} (h : value < 2 ^ 64) (w : BitWriter) :
    (writeBitVarint w value).bitLen = w.bitLen + 8 * varintLen value := by
  have hroom : value < 2 ^ (7 * (9 + 1)) := h.trans (by norm_num)
  rw [writeBitVarint, bitLen_writeBitVarintGroups 9 hroom, ← length_varintBytes h]
  rfl

namespace Field

/-- Any writer gets exactly the bits the field costs. -/
theorem bitLen_write {field : Field} (h : field.Codable) (w : BitWriter) :
    (field.write w).bitLen = w.bitLen + field.bits := by
  cases field with
  | dod d => exact bitLen_writeDod w d
  | value v => exact bitLen_writeValue w v
  | bitVarint v => exact bitLen_writeBitVarint h w
  | raw v width => exact w.bitLen_push v width

theorem bitLen_writeAll {fields : List Field}
    (h : ∀ field ∈ fields, field.Codable) (w : BitWriter) :
    (writeAll w fields).bitLen = w.bitLen + (fields.map bits).sum := by
  induction fields generalizing w with
  | nil => rfl
  | cons field fields ih =>
      rw [List.map_cons, List.sum_cons, ← Nat.add_assoc,
        ← bitLen_write (h field List.mem_cons_self)]
      exact ih (fun f hf => h f (List.mem_cons_of_mem field hf)) _

/-! ### Reading back what was written -/

theorem write_writes {field : Field} (h : field.Codable) : Writes field.write field.code := by
  cases field with
  | dod d =>
      obtain ⟨bits, hbits⟩ := Option.isSome_iff_exists.mp h
      exact writeDod_writes (dodStep_of_dodBits hbits)
  | value v => exact writeValue_writes h
  | bitVarint v => exact writeBitVarint_writes v
  | raw v width => exact BitWriter.push_writes v width

theorem writeAll_writes {fields : List Field} (h : ∀ field ∈ fields, field.Codable) :
    Writes (writeAll · fields) (fields.flatMap code) := by
  induction fields with
  | nil =>
      intro w bits hw
      simpa [writeAll] using hw
  | cons field fields ih =>
      rw [List.flatMap_cons]
      exact (write_writes (h field List.mem_cons_self)).comp
        (ih fun f hf => h f (List.mem_cons_of_mem field hf))

/-- A field reads back from a reader within its bytes. -/
theorem read_code {field : Field} (h : field.Codable) {r : BitReader} {rest : List Bool}
    (hpos : r.pos ≤ 8 * r.bytes.length) (hr : r.ahead = field.code ++ rest) :
    field.kind.read r = .ok (field.stored, r.advance field.code.length) := by
  cases field with
  | dod d =>
      obtain ⟨bits, hbits⟩ := Option.isSome_iff_exists.mp h
      simp only [kind, FieldKind.read, readDod_reads (dodStep_of_dodBits hbits) r rest hr,
        except_ok_bind]
      rfl
  | value v =>
      simp only [kind, FieldKind.read, readValue_reads h r rest hr, except_ok_bind]
      rfl
  | bitVarint v =>
      simp only [kind, FieldKind.read, readBitVarint_reads h r rest hr, except_ok_bind]
      rfl
  | raw v width =>
      rcases Nat.eq_zero_or_pos width with hzero | hwidth
      · subst hzero
        have hin : ¬r.pos + 0 > r.bytes.length * 8 := by omega
        simp only [kind, FieldKind.read, BitReader.read, if_neg hin, except_ok_bind]
        simp [stored, code, BitReader.advance, Nat.mod_one]
      · simp only [kind, FieldKind.read, BitReader.read_toBits width v hwidth h.2 r rest hr,
          except_ok_bind]
        rfl

theorem readAll_code {fields : List Field} (h : ∀ field ∈ fields, field.Codable) {r : BitReader}
    {rest : List Bool} (hpos : r.pos ≤ 8 * r.bytes.length)
    (hr : r.ahead = fields.flatMap code ++ rest) :
    readAll (fields.map kind) r =
      .ok (fields.map stored, r.advance (fields.flatMap code).length) := by
  induction fields generalizing r with
  | nil => rfl
  | cons field fields ih =>
      rw [List.flatMap_cons, List.append_assoc] at hr
      have hlength := congrArg List.length hr
      rw [BitReader.ahead, List.length_drop, length_byteBits, List.length_append] at hlength
      have hnext : (r.advance field.code.length).pos ≤
          8 * (r.advance field.code.length).bytes.length := by
        simp only [BitReader.advance]
        omega
      rw [List.map_cons, readAll, read_code (h field List.mem_cons_self) hpos hr, except_ok_bind]
      dsimp only
      rw [ih (fun f hf => h f (List.mem_cons_of_mem field hf)) hnext (BitReader.ahead_advance hr),
        except_ok_bind, BitReader.advance_advance, List.flatMap_cons, List.length_append]
      rfl

end Field

/-- Fields of any codes written one after another read back in order, the reader ending where the
writer did; each costs the bits it says, a delta of deltas without a code writes nothing, and zigzag
and the varints of a byte list invert. -/
theorem bit_codes_delimit {fields : List Field} (h : ∀ field ∈ fields, field.Codable) :
    (∃ r, readAll (fields.map Field.kind) (.new (writeAll {} fields).asBytes) =
        .ok (fields.map Field.stored, r) ∧
      r.pos = (writeAll {} fields).bitLen ∧ r.bytesRead = (writeAll {} fields).asBytes.length ∧
      (writeAll {} fields).bitLen = (fields.map Field.bits).sum) ∧
    (∀ field ∈ fields, ∀ w : BitWriter, (field.write w).bitLen = w.bitLen + field.bits) ∧
    (∀ dod w, dodBits dod = none → writeDod w dod = (false, w)) ∧
    (∀ v, IsI64 v → unzigzag (zigzag v) = v) ∧
    (∀ u < 2 ^ 64, IsI64 (unzigzag u) ∧ zigzag (unzigzag u) = u) ∧
    ∀ v < 2 ^ 64, ∀ out rest, ∃ bytes, writeVarint out v = out ++ bytes ∧
      bytes.length = varintLen v ∧
      readVarint (writeVarint out v ++ rest) out.length = .ok (v, out.length + varintLen v) := by
  refine ⟨?_, fun field hfield w => Field.bitLen_write (h field hfield) w, ?_,
    fun v hv => unzigzag_zigzag hv, fun u hu => ⟨isI64_unzigzag u, zigzag_unzigzag hu⟩, ?_⟩
  · have hwritten := Field.writeAll_writes h {} [] BitWriter.holds_nil
    rw [List.nil_append] at hwritten
    refine ⟨_, Field.readAll_code h (Nat.zero_le _)
      (hwritten.stream ▸ BitReader.ahead_new _), ?_, ?_, ?_⟩
    · rw [BitReader.advance, BitReader.new, Nat.zero_add]
      exact hwritten.bits_eq.symm
    · rw [BitReader.advance, BitReader.new, BitReader.bytesRead, Nat.zero_add]
      exact hwritten.length_bytes.symm
    · rw [Field.bitLen_writeAll h]
      exact Nat.zero_add _
  · intro dod w hnone
    refine writeDod_none w ?_
    rwa [dodBits, Option.map_eq_none_iff] at hnone
  · intro v hv out rest
    refine ⟨varintBytes v, writeVarint_eq out v, length_varintBytes hv, ?_⟩
    have hbytes : (writeVarint out v ++ rest).drop out.length = varintBytes v ++ rest := by
      rw [writeVarint_eq, List.append_assoc, List.drop_left]
    rw [(readVarint_varintBytes hv hbytes).1, length_varintBytes hv]

theorem bit_codes_delimit_fields :
    (∃ r, readAll [.dod, .raw 5, .bitVarint, .value]
        (.new (writeAll {} [.dod (-70), .raw 9 5, .bitVarint 300, .value (2 ^ 64 - 1)]).asBytes) =
          .ok ([.dod (-70), .raw 9 5, .bitVarint 300, .value (2 ^ 64 - 1)], r) ∧
          r.bytesRead = 14) := by
  have hcodable : ∀ field ∈ [Field.dod (-70), .raw 9 5, .bitVarint 300, .value (2 ^ 64 - 1)],
      field.Codable := by
    simp [Field.Codable, show (dodBits (-70)).isSome = true by decide]
  obtain ⟨r, hread, hpos, -, hbits⟩ := (bit_codes_delimit hcodable).1
  refine ⟨r, hread, ?_⟩
  rw [BitReader.bytesRead, hpos, hbits]
  decide

end MonitoringAgent.HubStore

import MonitoringAgent.Library.StreamCode
import MonitoringAgent.Model.Codec.Raw
import MonitoringAgent.Verification.Codec.Bits

/-! # Raw chunks round trip

A chunk is the points pushed into it: its bytes decode to exactly those points, and the
decoded points pushed again give the same chunk. -/

namespace MonitoringAgent.HubStore

open List MonitoringAgent.Library

/-- A point of a series: a `u64` time and an `i64` value. -/
def RawPoint.Valid (p : RawPoint) : Prop := p.ts < 2 ^ 64 ∧ IsI64 p.value

/-- The chunk is `points`, pushed one after another into an empty chunk. -/
structure RawChunk.Contents (c : RawChunk) (points : List RawPoint) : Prop where
  built : pushAll RawChunk.push (RawChunk.new c.encoding) points = .ok c
  valid : ∀ p ∈ points, p.Valid

/-! ### Pushing item after item -/

section PushAll

variable {C Item : Type} {push : C → Item → Except PushRefused Unit × C}

theorem pushAll_concat {c c' : C} {items : List Item} {item : Item}
    (h : pushAll push c items = .ok c') (hok : (push c' item).1 = .ok ()) :
    pushAll push c (items ++ [item]) = .ok (push c' item).2 := by
  induction items generalizing c with
  | nil =>
      obtain rfl : c = c' := by simpa [pushAll] using h
      cases hpush : push c item with
      | mk result next =>
          rw [hpush] at hok
          obtain rfl : result = .ok () := hok
          simp only [List.nil_append, pushAll, hpush]
  | cons q items ih =>
      rw [List.cons_append, pushAll]
      rw [pushAll] at h
      split at h
      · exact ih h
      · cases h

theorem pushAll_prefix {c c' : C} (items : List Item) {item : Item}
    (h : pushAll push c (items ++ [item]) = .ok c') :
    ∃ c'', pushAll push c items = .ok c'' ∧ (push c'' item).1 = .ok () ∧
      (push c'' item).2 = c' := by
  induction items generalizing c with
  | nil =>
      simp only [List.nil_append, pushAll] at h ⊢
      split at h
      next hpush => exact ⟨c, rfl, by rw [hpush], by rw [hpush]; simpa [pushAll] using h⟩
      next => cases h
  | cons q items ih =>
      rw [List.cons_append, pushAll] at h
      split at h
      next hpush =>
        obtain ⟨c'', hall, hrest⟩ := ih h
        exact ⟨c'', by rw [pushAll, hpush]; exact hall, hrest⟩
      next => cases h

end PushAll

/-! ### What the codes of later points depend on -/

/-- The last point and the last steps. -/
structure RawCursor where
  last : RawPoint
  tsStep : ℤ
  valueStep : ℤ

namespace RawCursor

def next (cur : RawCursor) (p : RawPoint) : RawCursor :=
  ⟨p, (p.ts : ℤ) - cur.last.ts, wrapI64 (p.value - cur.last.value)⟩

def dod (cur : RawCursor) (p : RawPoint) : ℤ := (p.ts : ℤ) - cur.last.ts - cur.tsStep

def stepCode (encoding : Encoding) (cur : RawCursor) (p : RawPoint) : ℕ :=
  RawChunk.stepCode encoding cur.valueStep (wrapI64 (p.value - cur.last.value))

def code (encoding : Encoding) (cur : RawCursor) (p : RawPoint) : List Bool :=
  dodCode (cur.dod p) ++ valueCode (cur.stepCode encoding p)

/-- The point is after the last one, by a step the time code holds. -/
structure Codable (cur : RawCursor) (p : RawPoint) : Prop where
  after : cur.last.ts < p.ts
  step_lt : p.ts - cur.last.ts < 2 ^ 63
  step : (dodStep (cur.dod p)).isSome
  valid : p.Valid

end RawCursor

theorem stepCode_lt (encoding : Encoding) (previous step : ℤ) :
    RawChunk.stepCode encoding previous step < 2 ^ 64 := by
  cases encoding <;> exact zigzag_lt _

/-! ### Layout of a chunk -/

/-- A chunk of at least one point: its ends, its steps and the bits of its later points. -/
structure RawChunk.Layout (c : RawChunk) (first : RawPoint) (later : List RawPoint) : Prop where
  ends : c.ends = some (first, (later.foldl RawCursor.next ⟨first, 0, 0⟩).last)
  tsStep : c.tsStep = (later.foldl RawCursor.next ⟨first, 0, 0⟩).tsStep
  valueStep : c.valueStep = (later.foldl RawCursor.next ⟨first, 0, 0⟩).valueStep
  count : c.count = later.length + 1
  count_le : later.length + 1 ≤ maxRawPoints
  bits : c.bits.Holds (emit RawCursor.next (RawCursor.code c.encoding) ⟨first, 0, 0⟩ later)
  codable : AllFrom RawCursor.next RawCursor.Codable ⟨first, 0, 0⟩ later
  size : c.encode.length ≤ maxRawChunkBytes

/-- A refused point leaves the chunk as it was. -/
theorem RawChunk.push_refused {c : RawChunk} {p : RawPoint} {e : PushRefused}
    (h : (c.push p).1 = .error e) : (c.push p).2 = c := by
  revert h
  fun_cases RawChunk.push c p <;> simp_all

theorem RawChunk.push_empty {c : RawChunk} (p : RawPoint) (h : c.ends = none) :
    c.push p = (.ok (), { c with ends := some (p, p), count := 1 }) := by
  simp [RawChunk.push, h]

/-- What an accepted point after a first one was checked for, and what it writes. -/
theorem RawChunk.push_cases {c : RawChunk} {p first last : RawPoint}
    (hends : c.ends = some (first, last)) (h : (c.push p).1 = .ok ()) :
    last.ts < p.ts ∧ c.count < maxRawPoints ∧ p.ts - last.ts < 2 ^ 63 ∧
      ∃ tsBits, dodBits ((p.ts : ℤ) - last.ts - c.tsStep) = some tsBits ∧
        headerLen (c.count + 1) first + (c.bits.bitLen + (tsBits + valueBits (stepCode c.encoding
          c.valueStep (wrapI64 (p.value - last.value)))) + 7) / 8 ≤ maxRawChunkBytes ∧
        (c.push p).2 = { c with
          bits := writeValue (writeDod c.bits ((p.ts : ℤ) - last.ts - c.tsStep)).2
            (stepCode c.encoding c.valueStep (wrapI64 (p.value - last.value)))
          ends := some (first, p), tsStep := (p.ts : ℤ) - last.ts
          valueStep := wrapI64 (p.value - last.value), count := c.count + 1 } := by
  revert h
  fun_cases RawChunk.push c p with
  | case1 hnone => simp [hnone] at hends
  | case2 f l hsome => intro h; simp at h
  | case3 f l hsome => intro h; simp at h
  | case4 f l hsome => intro h; simp at h
  | case5 f l hsome => intro h; simp at h
  | case6 f l hsome => intro h; simp at h
  | case7 f l hsome hafter hcount hstep tsStep dod tsBits hbits valueStep code bits hsize =>
      intro _
      obtain ⟨rfl, rfl⟩ : f = first ∧ l = last := by simpa [hsome] using hends
      have hcast : ((p.ts - l.ts : ℕ) : ℤ) = (p.ts : ℤ) - l.ts := by omega
      refine ⟨by omega, by omega, by omega, tsBits, ?_, by
        simpa [bits, code, valueStep] using hsize, ?_⟩
      · simpa [dod, tsStep, hcast] using hbits
      · simp [dod, tsStep, hcast, valueStep, code]

theorem BitWriter.Holds.length_bytes {w : BitWriter} {bits : List Bool} (h : w.Holds bits) :
    w.bytes.length = (bits.length + 7) / 8 := by
  have := h.le_bytes
  have := h.bytes_lt
  omega

theorem varintLen_le (value : ℕ) : varintLen value ≤ 10 := by
  rw [varintLen]
  omega

theorem RawChunk.encode_some {c : RawChunk} {first last : RawPoint}
    (h : c.ends = some (first, last)) :
    c.encode = rawFormatV1 :: (varintBytes c.count ++ varintBytes first.ts ++
      varintBytes (zigzag first.value) ++ c.bits.bytes) := by
  simp [RawChunk.encode, h, writeVarint_eq, BitWriter.asBytes]

theorem RawChunk.length_encode {c : RawChunk} {first last : RawPoint}
    (h : c.ends = some (first, last)) (hcount : c.count < 2 ^ 64) (hts : first.ts < 2 ^ 64) :
    c.encode.length = headerLen c.count first + c.bits.bytes.length := by
  rw [RawChunk.encode_some h, headerLen]
  simp [length_varintBytes hcount, length_varintBytes hts, length_varintBytes (zigzag_lt _)]
  omega

private theorem rawLayout_first {c : RawChunk} {p : RawPoint} (hc : c = RawChunk.new c.encoding)
    (hp : p.Valid) : (c.push p).2.Layout p [] := by
  have hends : c.ends = none := by rw [hc]; rfl
  rw [RawChunk.push_empty p hends]
  refine ⟨rfl, ?_, ?_, rfl, by decide, ?_, trivial, ?_⟩
  · rw [hc]; rfl
  · rw [hc]; rfl
  · rw [hc]; exact BitWriter.holds_nil
  · rw [RawChunk.length_encode rfl (by norm_num) hp.1, RawChunk.headerLen]
    have h0 : c.bits.bytes = [] := by rw [hc]; rfl
    have h1 := varintLen_le 1
    have h2 := varintLen_le p.ts
    have h3 := varintLen_le (zigzag p.value)
    simp [h0, maxRawChunkBytes]
    omega

private theorem rawLayout_push {c : RawChunk} {first p : RawPoint} {later : List RawPoint}
    (hl : c.Layout first later) (hfirst : first.Valid) (hp : p.Valid)
    (hok : (c.push p).1 = .ok ()) : (c.push p).2.Layout first (later ++ [p]) := by
  obtain ⟨hends, hts, hvalue, hcount, -, hbits, hcodable, -⟩ := hl
  generalize hcur : later.foldl RawCursor.next ⟨first, 0, 0⟩ = cur at *
  obtain ⟨hafter, hroom, hstep, tsBits, hdod, hsize, hnext⟩ := RawChunk.push_cases hends hok
  have hfold : (later ++ [p]).foldl RawCursor.next ⟨first, 0, 0⟩ = cur.next p := by
    simp [List.foldl_append, hcur]
  have hsome : (dodStep (cur.dod p)).isSome := by
    rw [RawCursor.dod, ← hts]
    cases hstep : dodStep ((p.ts : ℤ) - cur.last.ts - c.tsStep) with
    | none => simp [dodBits, hstep] at hdod
    | some _ => rfl
  have hcode : c.encoding = (c.push p).2.encoding := by rw [hnext]
  have hwritten : (c.push p).2.bits.Holds
      (emit RawCursor.next (RawCursor.code c.encoding) ⟨first, 0, 0⟩ later ++
        cur.code c.encoding p) := by
    rw [hnext, RawCursor.code, RawCursor.dod, ← hts, ← List.append_assoc,
      RawCursor.stepCode, ← hvalue]
    refine writeValue_writes (stepCode_lt _ _ _) _ _ (writeDod_writes ?_ _ _ hbits)
    simpa [RawCursor.dod, hts] using hsome
  refine ⟨by rw [hnext, hfold]; rfl, by rw [hnext, hfold]; rfl, by rw [hnext, hfold]; rfl,
    by rw [hnext]; simp [hcount], by simp; omega, ?_, ?_, ?_⟩
  · rw [← hcode, emit_concat, hcur]
    exact hwritten
  · rw [allFrom_concat, hcur]
    exact ⟨hcodable, hafter, hstep, hsome, hp⟩
  · have hlen : (cur.code c.encoding p).length = tsBits + valueBits (RawChunk.stepCode c.encoding
        c.valueStep (wrapI64 (p.value - cur.last.value))) := by
      rw [RawCursor.code, List.length_append, RawCursor.stepCode, ← hvalue,
        length_valueCode (stepCode_lt _ _ _), RawCursor.dod, ← hts, length_dodCode hdod]
    have hprev : c.bits.bitLen = (emit RawCursor.next (RawCursor.code c.encoding) ⟨first, 0, 0⟩
        later).length := hbits.bits_eq
    have hends' : (c.push p).2.ends = some (first, p) := by rw [hnext]
    have hcount' : (c.push p).2.count = c.count + 1 := by rw [hnext]
    have hbound : c.count < 240 := hroom
    rw [RawChunk.length_encode hends' (by rw [hcount']; omega) hfirst.1, hcount',
      hwritten.length_bytes, List.length_append, hlen, ← hprev]
    exact hsize

@[simp] theorem RawChunk.push_encoding (c : RawChunk) (p : RawPoint) :
    (c.push p).2.encoding = c.encoding := by
  fun_cases RawChunk.push c p <;> rfl

theorem RawChunk.contents_new (encoding : Encoding) : (RawChunk.new encoding).Contents [] :=
  ⟨rfl, by simp⟩

theorem RawChunk.Contents.eq_new {c : RawChunk} (h : c.Contents []) :
    c = RawChunk.new c.encoding := by
  have := h.built
  simp only [pushAll, Except.ok.injEq] at this
  exact this.symm

/-- Pushing an accepted point adds it to the contents. -/
theorem RawChunk.Contents.push {c : RawChunk} {points : List RawPoint} {p : RawPoint}
    (h : c.Contents points) (hp : p.Valid) (hok : (c.push p).1 = .ok ()) :
    (c.push p).2.Contents (points ++ [p]) := by
  refine ⟨?_, ?_⟩
  · rw [RawChunk.push_encoding]
    exact pushAll_concat h.built hok
  · intro q hq
    rcases List.mem_append.mp hq with hq | hq
    · exact h.valid q hq
    · rw [List.mem_singleton.mp hq]
      exact hp

theorem RawChunk.Contents.layout {c : RawChunk} {first : RawPoint} {later : List RawPoint}
    (h : c.Contents (first :: later)) : c.Layout first later := by
  induction later using List.reverseRecOn generalizing c with
  | nil =>
      obtain ⟨c0, hc0, -, hc⟩ := pushAll_prefix [] h.built
      obtain rfl : RawChunk.new c.encoding = c0 := by simpa [pushAll] using hc0
      rw [← hc]
      exact rawLayout_first rfl (h.valid first (by simp))
  | append_singleton later p ih =>
      obtain ⟨c0, hc0, hok, hc⟩ := pushAll_prefix (first :: later) h.built
      have henc : c0.encoding = c.encoding := by rw [← hc, RawChunk.push_encoding]
      have h0 : c0.Contents (first :: later) :=
        ⟨by rw [henc]; exact hc0, fun q hq => h.valid q (by
          rw [← List.cons_append]; exact List.mem_append_left _ hq)⟩
      rw [← hc]
      exact rawLayout_push (ih h0) (h.valid first (by simp)) (h.valid p (by simp)) hok

/-! ### Decoding -/

theorem checkedAddI64_eq {a b : ℤ} (h : IsI64 (a + b)) : checkedAddI64 a b = .ok (a + b) :=
  if_pos h

theorem checkedAddU64_eq {a b : ℕ} (h : a + b < 2 ^ 64) : checkedAddU64 a b = .ok (a + b) :=
  if_pos h

theorem positiveStep_eq {step : ℤ} (h : 0 < step) : positiveStep step = .ok step.toNat :=
  if_pos h

/-- The value step read back from its code. -/
theorem codeStep_stepCode (encoding : Encoding) (previous : ℤ) {step : ℤ} (h : IsI64 step) :
    RawChunk.codeStep encoding previous (RawChunk.stepCode encoding previous step) = step := by
  cases encoding with
  | delta => exact unzigzag_zigzag h
  | deltaOfDelta =>
      simp only [RawChunk.stepCode, RawChunk.codeStep]
      rw [unzigzag_zigzag (isI64_wrapI64 _), wrapI64_add_wrapI64_sub h]

/-- The points read from in front of any bits are the points written. -/
theorem decodeRawPoints_reads (encoding : Encoding) (cur : RawCursor) (later : List RawPoint)
    (h : AllFrom RawCursor.next RawCursor.Codable cur later) :
    Reads (decodeRawPoints encoding later.length cur.last cur.tsStep cur.valueStep)
      (emit RawCursor.next (RawCursor.code encoding) cur later) later := by
  induction later generalizing cur with
  | nil => intro r rest _; rfl
  | cons p later ih =>
      intro r rest hr
      obtain ⟨⟨hafter, hstep, hdod, hvalid⟩, hlater⟩ := h
      simp only [emit, RawCursor.code, List.append_assoc] at hr
      obtain ⟨hreadDod, hr1⟩ := (readDod_reads hdod).step hr
      obtain ⟨hreadValue, hr2⟩ := (readValue_reads (stepCode_lt encoding _ _)).step hr1
      have hrest := ih (cur.next p) hlater _ _ hr2
      have hts : cur.tsStep + cur.dod p = (p.ts : ℤ) - cur.last.ts := by
        rw [RawCursor.dod]; ring
      have hi64 : IsI64 (cur.tsStep + cur.dod p) := by
        rw [hts]
        constructor <;> omega
      have hnat : ((p.ts : ℤ) - cur.last.ts).toNat = p.ts - cur.last.ts := by omega
      have hsum : cur.last.ts + (p.ts - cur.last.ts) = p.ts := by omega
      have hvalue : wrapI64 (cur.last.value + wrapI64 (p.value - cur.last.value)) = p.value :=
        wrapI64_add_wrapI64_sub hvalid.2
      simp only [List.length_cons, decodeRawPoints, hreadDod, except_ok_bind, checkedAddI64_eq hi64,
        hts, positiveStep_eq (show (0 : ℤ) < p.ts - cur.last.ts by omega), hnat,
        checkedAddU64_eq (show cur.last.ts + (p.ts - cur.last.ts) < 2 ^ 64 by
          rw [hsum]; exact hvalid.1), hsum, hreadValue,
        codeStep_stepCode encoding cur.valueStep (isI64_wrapI64 _), hvalue]
      simp only [RawCursor.next] at hrest
      rw [hrest]
      simp [emit, RawCursor.code, RawCursor.stepCode, RawCursor.next,
        BitReader.advance, Nat.add_assoc]

theorem decodeRawHeader_encode {c : RawChunk} {first last : RawPoint}
    (hends : c.ends = some (first, last)) (hpos : 0 < c.count) (hcount : c.count ≤ maxRawPoints)
    (hfirst : first.Valid) :
    ∃ pos, decodeRawHeader c.encode = .ok (c.count, first, pos) ∧
      c.encode.drop pos = c.bits.bytes ∧ pos + c.bits.bytes.length = c.encode.length := by
  have hbound : c.count ≤ 240 := hcount
  have henc := RawChunk.encode_some hends
  have hd : c.encode.drop 1 = varintBytes c.count ++ (varintBytes first.ts ++
      (varintBytes (zigzag first.value) ++ c.bits.bytes)) := by
    rw [henc]; simp
  obtain ⟨h1, hd1⟩ := readVarint_varintBytes (by omega) hd
  obtain ⟨h2, hd2⟩ := readVarint_varintBytes hfirst.1 hd1
  obtain ⟨h3, hd3⟩ := readVarint_varintBytes (zigzag_lt _) hd2
  refine ⟨_, ?_, hd3, ?_⟩
  · have hhead : c.encode.head? = some rawFormatV1 := by rw [henc]; rfl
    simp only [decodeRawHeader, hhead, ne_eq, not_true_eq_false, if_false, h1, except_ok_bind,
      if_neg (show ¬ c.count = 0 by omega), if_neg (show ¬ c.count > maxRawPoints by omega), h2, h3,
      unzigzag_zigzag hfirst.2]
  · rw [henc]
    simp
    omega

/-- What a chunk encodes decodes to its contents. -/
theorem RawChunk.Contents.decode {c : RawChunk} {points : List RawPoint} (h : c.Contents points)
    (hne : points ≠ []) : decodeRaw c.encode c.encoding = .ok points := by
  obtain ⟨first, later, rfl⟩ := List.exists_cons_of_ne_nil hne
  have hl := h.layout
  obtain ⟨pos, hheader, hdrop, hlen⟩ := decodeRawHeader_encode hl.ends
    (by rw [hl.count]; omega) (by rw [hl.count]; exact hl.count_le) (h.valid first (by simp))
  have hread := decodeRawPoints_reads c.encoding ⟨first, 0, 0⟩ later hl.codable
    (.new c.bits.bytes) _ (by rw [BitReader.ahead_new]; exact hl.bits.stream)
  have hcount : c.count - 1 = later.length := by rw [hl.count]; rfl
  have hend : (BitReader.advance (.new c.bits.bytes)
      (emit RawCursor.next (RawCursor.code c.encoding)
      ⟨first, 0, 0⟩ later).length).bytesRead = c.bits.bytes.length := by
    rw [hl.bits.length_bytes]
    simp [BitReader.advance, BitReader.new, BitReader.bytesRead]
  simp only [decodeRaw, hheader, except_ok_bind, hdrop, hcount, hread, hend, hlen, ne_eq,
    not_true_eq_false, if_false]

theorem RawChunk.Contents.points_eq {c : RawChunk} {points : List RawPoint}
    (h : c.Contents points) : c.points = points := by
  by_cases hne : points = []
  · subst hne
    rw [h.eq_new]
    cases c.encoding <;> decide
  · rw [RawChunk.points, h.decode hne]

theorem RawChunk.Contents.isEmpty_iff {c : RawChunk} {points : List RawPoint}
    (h : c.Contents points) : c.isEmpty = true ↔ points = [] := by
  cases points with
  | nil => rw [h.eq_new]; simp [RawChunk.isEmpty, RawChunk.new]
  | cons first later => simp [RawChunk.isEmpty, h.layout.count]

/-- Reopening a chunk's bytes gives the chunk back. -/
theorem RawChunk.Contents.reopen {c : RawChunk} {points : List RawPoint} (h : c.Contents points)
    (hne : points ≠ []) : RawChunk.reopen c.encode c.encoding = .ok c := by
  rw [RawChunk.reopen, h.decode hne]
  exact h.built

theorem RawChunk.Contents.push_empty {c : RawChunk} (h : c.Contents []) (p : RawPoint) :
    (c.push p).1 = .ok () := by
  rw [RawChunk.push_empty p (by rw [h.eq_new]; rfl)]

theorem RawChunk.Contents.length_encode_le {c : RawChunk} {points : List RawPoint}
    (h : c.Contents points) (hne : points ≠ []) : c.encode.length ≤ maxRawChunkBytes := by
  obtain ⟨first, later, rfl⟩ := List.exists_cons_of_ne_nil hne
  exact h.layout.size

end MonitoringAgent.HubStore

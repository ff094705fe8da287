import MonitoringAgent.Library.Except
import MonitoringAgent.Library.Lexical
import MonitoringAgent.Model.Series

/-! # Series keys and records read back

Keys and records are exactly their bytes, and the keys of one system's generation are the ones that
start with its prefix. -/

namespace MonitoringAgent.HubStore.Series

open MonitoringAgent.Library

/-! ### The pieces -/

theorem splitAtChecked_append (a b : List UInt8) :
    splitAtChecked a.length (a ++ b) = .ok (a, b) := by
  rw [splitAtChecked, if_pos (by simp), List.take_left, List.drop_left]

theorem splitAtChecked_ok {n : ℕ} {bytes a b : List UInt8}
    (h : splitAtChecked n bytes = .ok (a, b)) : bytes = a ++ b ∧ a.length = n := by
  rw [splitAtChecked] at h
  split_ifs at h with hn
  obtain ⟨rfl, rfl⟩ := Prod.mk.inj (Except.ok.inj h)
  exact ⟨(List.take_append_drop n bytes).symm, List.length_take_of_le hn⟩

theorem orMalformed_ok {α : Type} {x : Option α} {a : α} (h : orMalformed x = .ok a) :
    x = some a := by
  cases x with
  | none => cases h
  | some b => rw [Except.ok.inj h]

theorem toOption_ok {ε α : Type} {x : Except ε α} {a : α} (h : x.toOption = some a) :
    x = .ok a := by
  cases x with
  | error e => cases h
  | ok b => rw [Option.some.inj h]

theorem SystemKey.tryFrom_bytes (key : SystemKey) : SystemKey.tryFrom key.bytes = .ok key := by
  rw [SystemKey.tryFrom, dif_pos key.length.1, dif_pos key.length.2]

theorem SystemKey.tryFrom_ok {bytes : List UInt8} {key : SystemKey}
    (h : SystemKey.tryFrom bytes = .ok key) : key.bytes = bytes := by
  rw [SystemKey.tryFrom] at h
  split_ifs at h
  rw [← Except.ok.inj h]

theorem MetricName.tryFrom_text (name : MetricName) : MetricName.tryFrom name.text = .ok name := by
  rw [MetricName.tryFrom, dif_pos name.length.1, dif_pos name.length.2, dif_pos name.printable]

theorem MetricName.tryFrom_ok {text : String} {name : MetricName}
    (h : MetricName.tryFrom text = .ok name) : name.text = text := by
  rw [MetricName.tryFrom] at h
  split_ifs at h
  rw [← Except.ok.inj h]

theorem SystemKey.toNat_length (key : SystemKey) :
    (UInt8.ofNat key.bytes.length).toNat = key.bytes.length := by
  have hmax : key.bytes.length ≤ 255 := key.length.2
  rw [UInt8.toNat_ofNat', Nat.mod_eq_of_lt (by omega)]

theorem generation_lt (g : Generation) : g.toNat < 256 ^ 8 := g.toNat_lt.trans_le (by norm_num)

/-! ### Keys -/

namespace Key

theorem toBytes_eq (k : Key) :
    k.toBytes = UInt8.ofNat k.system.bytes.length ::
      (k.system.bytes ++ (beBytes 8 k.generation.toNat ++ utf8 k.metric.text)) := by
  rw [toBytes, systemPrefix, List.cons_append, List.append_assoc]

theorem fromBytes_toBytes (k : Key) : fromBytes k.toBytes = .ok k := by
  have hgeneration := splitAtChecked_append (beBytes 8 k.generation.toNat) (utf8 k.metric.text)
  rw [length_beBytes] at hgeneration
  simp only [toBytes_eq, fromBytes, k.system.toNat_length, splitAtChecked_append, except_ok_bind,
    hgeneration, fromUtf8_utf8, orMalformed, SystemKey.tryFrom_bytes,
    MetricName.tryFrom_text, Except.toOption]
  rw [ofBeBytes_beBytes, Nat.mod_eq_of_lt (generation_lt k.generation), UInt64.ofNat_toNat]

/-- Bytes that are a key are the key's bytes. -/
theorem toBytes_of_fromBytes {bytes : List UInt8} {k : Key} (h : fromBytes bytes = .ok k) :
    k.toBytes = bytes := by
  cases bytes with
  | nil => cases h
  | cons len rest =>
      simp only [fromBytes, except_bind_eq_ok] at h
      obtain ⟨⟨system, rest'⟩, hsystem, ⟨generation, metric⟩, hgeneration, text, htext, key, hkey,
        name, hname, hk⟩ := h
      obtain ⟨rfl, hlen⟩ := splitAtChecked_ok hsystem
      obtain ⟨hrest, hwidth⟩ := splitAtChecked_ok hgeneration
      dsimp only at hrest
      subst hrest
      obtain rfl := Except.ok.inj hk
      have hbytes := SystemKey.tryFrom_ok (toOption_ok (orMalformed_ok hkey))
      have hname := MetricName.tryFrom_ok (toOption_ok (orMalformed_ok hname))
      have hutf8 := fromUtf8_eq_some.mp (orMalformed_ok htext)
      have hround : beBytes 8 (UInt64.ofNat (ofBeBytes generation)).toNat = generation := by
        have hlt : ofBeBytes generation < 2 ^ 64 := by
          have hlt := ofBeBytes_lt generation
          rw [hwidth] at hlt
          exact hlt.trans_le (by norm_num)
        have hsame := beBytes_ofBeBytes generation
        rw [hwidth] at hsame
        rwa [UInt64.toNat_ofNat', Nat.mod_eq_of_lt hlt]
      rw [toBytes_eq]
      dsimp only
      rw [hbytes, hname, hutf8, hround, hlen, UInt8.ofNat_toNat]

/-- A key starts with a prefix exactly when the prefix is its own system's and generation's. -/
theorem systemPrefix_isPrefix {k : Key} {system : SystemKey} {generation : Generation} :
    systemPrefix system generation <+: k.toBytes ↔ k.system = system ∧
    k.generation = generation := by
  constructor
  · intro h
    obtain ⟨rest, hrest⟩ := h
    rw [systemPrefix, toBytes_eq, List.cons_append, List.append_assoc] at hrest
    obtain ⟨hlen, hrest⟩ := List.cons.inj hrest
    have hlength : system.bytes.length = k.system.bytes.length := by
      rw [← system.toNat_length, hlen, k.system.toNat_length]
    obtain ⟨hsystem, hrest⟩ := List.append_inj hrest hlength
    obtain ⟨hgeneration, -⟩ := List.append_inj hrest (by rw [length_beBytes, length_beBytes])
    constructor
    · cases hk : k.system with
      | mk bytes length =>
          cases system with
          | mk bytes' length' =>
              rw [hk] at hsystem
              exact SystemKey.mk.injEq .. ▸ hsystem.symm
    · exact UInt64.toNat_inj.mp
        ((beBytes_inj (generation_lt generation) (generation_lt k.generation)).mp hgeneration).symm
  · rintro ⟨rfl, rfl⟩
    exact List.prefix_append _ _

end Key

/-! ### Records -/

theorem readSpan_putSpan {tier : Tier} {span : Option SpanStart} (rest : List UInt8)
    (h : ∀ start, span = some start → start % tier.spanSecs = 0 ∧ start < 2 ^ 64) :
    readSpan (putSpan span ++ rest) tier = .ok (span, rest) := by
  cases span with
  | none => rfl
  | some start =>
      obtain ⟨hgrid, hlt⟩ := h start rfl
      have hsplit := splitAtChecked_append (beBytes 8 start) rest
      rw [length_beBytes] at hsplit
      have hvalue : ofBeBytes (beBytes 8 start) = start := by
        rw [ofBeBytes_beBytes, Nat.mod_eq_of_lt (hlt.trans_le (by norm_num))]
      simp only [putSpan, List.cons_append, readSpan, if_neg (show (1 : UInt8) ≠ 0 by decide),
        if_true, hsplit, except_ok_bind, hvalue, SpanStart.new, if_pos hgrid, orMalformed]

theorem putSpan_of_readSpan {bytes rest : List UInt8} {tier : Tier} {span : Option SpanStart}
    (h : readSpan bytes tier = .ok (span, rest)) : bytes = putSpan span ++ rest := by
  cases bytes with
  | nil => cases h
  | cons presence bytes =>
      simp only [readSpan] at h
      split_ifs at h with hnone hsome
      · obtain ⟨rfl, rfl⟩ := Prod.mk.inj (Except.ok.inj h)
        rw [hnone]
        rfl
      · simp only [except_bind_eq_ok] at h
        obtain ⟨⟨start, rest'⟩, hsplit, span', hspan, h⟩ := h
        obtain ⟨rfl, hwidth⟩ := splitAtChecked_ok hsplit
        obtain ⟨rfl, rfl⟩ := Prod.mk.inj (Except.ok.inj h)
        have hspan := orMalformed_ok hspan
        dsimp only at hspan
        rw [SpanStart.new] at hspan
        split_ifs at hspan with hgrid
        obtain rfl := Option.some.inj hspan
        have hsame := beBytes_ofBeBytes start
        rw [hwidth] at hsame
        rw [putSpan, hsame, hsome]
        rfl

theorem kindCode (kind : ValueKind) :
    ValueKind.fromCode (UInt8.ofNat kind.code).toNat = some kind := by
  cases kind <;> decide

theorem kindCode_of_fromCode {code : UInt8} {kind : ValueKind}
    (h : ValueKind.fromCode code.toNat = some kind) : UInt8.ofNat kind.code = code := by
  have hcode := List.find?_some h
  rw [decide_eq_true_eq] at hcode
  rw [hcode, UInt8.ofNat_toNat]

namespace Record

theorem length_key_lt (k : Key) : k.toBytes.length < 256 ^ 2 := by
  have hsystem : k.system.bytes.length ≤ 255 := k.system.length.2
  have hmetric : k.metric.text.utf8ByteSize ≤ 261 := k.metric.length.2
  rw [Key.toBytes_eq]
  simp only [List.length_cons, List.length_append, length_beBytes, length_utf8]
  omega

theorem toBytes_eq (r : Record) :
    r.toBytes = recordV1 :: UInt8.ofNat r.kind.code ::
      (putSpan (r.lastSpans .raw) ++
        (putSpan (r.lastSpans .minute) ++ (putSpan (r.lastSpans .hour) ++
        (beBytes 2 r.key.toBytes.length ++ r.key.toBytes)))) := by
  simp only [toBytes, Tier.all, List.flatMap_cons, List.flatMap_nil,
    List.append_nil, List.append_assoc]

theorem fromBytes_toBytes {r : Record}
    (h : ∀ tier start, r.lastSpans tier = some start → start % tier.spanSecs = 0 ∧ start < 2 ^ 64) :
    fromBytes r.toBytes = .ok r := by
  have hsplit := splitAtChecked_append (beBytes 2 r.key.toBytes.length) r.key.toBytes
  rw [length_beBytes] at hsplit
  have hlength : ofBeBytes (beBytes 2 r.key.toBytes.length) = r.key.toBytes.length := by
    rw [ofBeBytes_beBytes, Nat.mod_eq_of_lt (length_key_lt r.key)]
  simp only [toBytes_eq, fromBytes, ne_eq, not_true_eq_false, if_false, kindCode, orMalformed,
    except_ok_bind, readSpan_putSpan _ (h _), hsplit, hlength, Key.fromBytes_toBytes]
  congr 2
  funext tier
  cases tier <;> rfl

/-- Bytes that are a record are the record's bytes. -/
theorem toBytes_of_fromBytes {bytes : List UInt8} {r : Record} (h : fromBytes bytes = .ok r) :
    r.toBytes = bytes := by
  rcases bytes with _ | ⟨version, _ | ⟨code, rest⟩⟩
  · cases h
  · simp only [fromBytes] at h
    split_ifs at h
  · simp only [fromBytes] at h
    split_ifs at h with hversion
    simp only [except_bind_eq_ok] at h
    obtain ⟨kind, hkind, ⟨raw, rest₁⟩, hraw, ⟨minute, rest₂⟩, hminute, ⟨hour, rest₃⟩, hhour,
      ⟨len, keyBytes⟩, hlen, h⟩ := h
    dsimp only at hminute hhour hlen h
    split_ifs at h with hlength
    simp only [except_bind_eq_ok] at h
    obtain ⟨key, hkey, h⟩ := h
    obtain rfl := Except.ok.inj h
    obtain ⟨rfl, hwidth⟩ := splitAtChecked_ok hlen
    have hbytes : beBytes 2 keyBytes.length = len := by
      have hsame := beBytes_ofBeBytes len
      rwa [hwidth, ← not_ne_iff.mp hlength] at hsame
    rw [toBytes_eq]
    dsimp only
    rw [Key.toBytes_of_fromBytes hkey, hbytes, putSpan_of_readSpan hraw,
      putSpan_of_readSpan hminute, putSpan_of_readSpan hhour,
      kindCode_of_fromCode (orMalformed_ok hkind), not_ne_iff.mp hversion]

end Record

/-- Keys and records are exactly their bytes; a key starts with a system's and generation's prefix
only when it is theirs, so in byte order their keys are together. -/
theorem keys_and_records_faithful :
    (∀ k : Key, Key.fromBytes k.toBytes = .ok k) ∧
    (∀ bytes k, Key.fromBytes bytes = .ok k → k.toBytes = bytes) ∧
    (∀ (k : Key) system generation, Key.systemPrefix system generation <+: k.toBytes ↔
      k.system = system ∧ k.generation = generation) ∧
    (∀ first k last : Key, first.system = last.system → first.generation = last.generation →
      first.toBytes.map UInt8.toNat ≤ k.toBytes.map UInt8.toNat →
      k.toBytes.map UInt8.toNat ≤ last.toBytes.map UInt8.toNat →
      k.system = first.system ∧ k.generation = first.generation) ∧
    (∀ r : Record, (∀ tier start, r.lastSpans tier = some start →
      start % tier.spanSecs = 0 ∧ start < 2 ^ 64) → Record.fromBytes r.toBytes = .ok r) ∧
    ∀ bytes r, Record.fromBytes bytes = .ok r → r.toBytes = bytes := by
  refine ⟨Key.fromBytes_toBytes, fun bytes k => Key.toBytes_of_fromBytes, fun k system generation =>
    Key.systemPrefix_isPrefix, ?_, fun r => Record.fromBytes_toBytes, fun bytes r =>
      Record.toBytes_of_fromBytes⟩
  intro first k last hsystem hgeneration hle hge
  have hfirst : Key.systemPrefix first.system first.generation <+: first.toBytes :=
    Key.systemPrefix_isPrefix.mpr ⟨rfl, rfl⟩
  have hlast : Key.systemPrefix first.system first.generation <+: last.toBytes :=
    Key.systemPrefix_isPrefix.mpr ⟨hsystem.symm, hgeneration.symm⟩
  have hbetween := isPrefix_of_between (hfirst.map UInt8.toNat) (hlast.map UInt8.toNat) hle hge
  refine Key.systemPrefix_isPrefix.mp ?_
  obtain ⟨rest, hrest⟩ := hbetween
  obtain ⟨before, after, hk, hbefore, -⟩ := List.map_eq_append_iff.mp hrest.symm
  have hsame : before = Key.systemPrefix first.system first.generation :=
    List.map_injective_iff.mpr (fun _ _ h => UInt8.toNat_inj.mp h) hbefore
  exact ⟨after, by rw [hk, hsame]⟩

end MonitoringAgent.HubStore.Series

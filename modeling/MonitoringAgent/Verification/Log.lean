import MonitoringAgent.Model.Log
import MonitoringAgent.Verification.Codec.Bits

/-! # The points log's entries read back -/

namespace MonitoringAgent.HubStore

open MonitoringAgent.Library

/-- A logged point whose fields fit the code's own types. -/
structure LoggedPoint.Valid (p : LoggedPoint) : Prop where
  id : p.id < 2 ^ 32
  ts : p.ts < 2 ^ 64
  value : IsI64 p.value

/-- One point's bytes after the earliest timestamp `base`. -/
def pointBytes (base : ℕ) (p : LoggedPoint) : List UInt8 :=
  varintBytes p.id ++ varintBytes (p.ts - base) ++ varintBytes (zigzag p.value)

theorem logBase_le {points : List LoggedPoint} {p : LoggedPoint} (hp : p ∈ points) :
    logBase points ≤ p.ts := by
  have hmem : p.ts ∈ points.map LoggedPoint.ts := List.mem_map_of_mem hp
  obtain ⟨least, hleast⟩ := Option.isSome_iff_exists.mp
    (List.isSome_min?_of_mem hmem)
  rw [logBase, hleast, Option.getD_some]
  exact (List.min?_eq_some_iff.mp hleast).2 _ hmem

theorem encodeLogEntry_eq (points : List LoggedPoint) :
    encodeLogEntry points = logV1 :: (varintBytes points.length ++ (varintBytes (logBase points) ++
      points.flatMap (pointBytes (logBase points)))) := by
  have hpoint : ∀ (base : ℕ) (out : List UInt8) (p : LoggedPoint),
      writeVarint (writeVarint (writeVarint out p.id) (p.ts - base)) (zigzag p.value) =
        out ++ pointBytes base p := by
    intro base out p
    simp [writeVarint_eq, pointBytes]
  simp only [encodeLogEntry, hpoint]
  simp [writeVarint_eq, List.flatMap]

theorem nextVarint_varintBytes {value pos : ℕ} {bytes rest : List UInt8} (h : value < 2 ^ 64)
    (hd : bytes.drop pos = varintBytes value ++ rest) :
    nextVarint bytes pos = .ok (value, pos + (varintBytes value).length) ∧
      bytes.drop (pos + (varintBytes value).length) = rest := by
  obtain ⟨hread, hrest⟩ := readVarint_varintBytes h hd
  exact ⟨by rw [nextVarint, hread], hrest⟩

theorem decodeLogPoints_pointBytes {bytes rest : List UInt8} {base pos : ℕ}
    {points : List LoggedPoint} (hvalid : ∀ p ∈ points, p.Valid) (hbase : ∀ p ∈ points, base ≤ p.ts)
    (hd : bytes.drop pos = points.flatMap (pointBytes base) ++ rest) :
    decodeLogPoints bytes base points.length pos =
      .ok (points, pos + (points.flatMap (pointBytes base)).length) := by
  induction points generalizing pos with
  | nil => rfl
  | cons p points ih =>
      have hp := hvalid p (by simp)
      have hle := hbase p (by simp)
      have hts := hp.ts
      simp only [List.flatMap_cons, pointBytes, List.append_assoc] at hd
      obtain ⟨h1, hd1⟩ := nextVarint_varintBytes (lt_trans hp.id (by norm_num)) hd
      obtain ⟨h2, hd2⟩ := nextVarint_varintBytes (by omega) hd1
      obtain ⟨h3, hd3⟩ := nextVarint_varintBytes (zigzag_lt _) hd2
      have h4 := ih (fun q hq => hvalid q (by simp [hq])) (fun q hq => hbase q (by simp [hq])) hd3
      have hid : ¬ p.id ≥ 2 ^ 32 := not_le.mpr hp.id
      have hsum : base + (p.ts - base) = p.ts := by omega
      have hfit : ¬ p.ts ≥ 2 ^ 64 := not_le.mpr hts
      simp only [List.length_cons, decodeLogPoints, h1, except_ok_bind, if_neg hid, h2, hsum,
        if_neg hfit, h3, h4, unzigzag_zigzag hp.value]
      simp [pointBytes, Nat.add_assoc]

/-- An entry read back gives its points, in order. -/
theorem decodeLogEntry_encode {points : List LoggedPoint} (hvalid : ∀ p ∈ points, p.Valid)
    (hlen : points.length < 2 ^ 64) : decodeLogEntry (encodeLogEntry points) = .ok points := by
  have hbase : logBase points < 2 ^ 64 := by
    cases points with
    | nil => decide
    | cons p points => exact lt_of_le_of_lt (logBase_le List.mem_cons_self) (hvalid p (by simp)).ts
  rw [decodeLogEntry, encodeLogEntry_eq]
  generalize hbytes : logV1 :: (varintBytes points.length ++ (varintBytes (logBase points) ++
    points.flatMap (pointBytes (logBase points)))) = bytes
  have hhead : bytes.head? = some logV1 := by rw [← hbytes]; rfl
  have hd : bytes.drop 1 = varintBytes points.length ++ (varintBytes (logBase points) ++
      points.flatMap (pointBytes (logBase points))) := by
    rw [← hbytes]
    rfl
  obtain ⟨h1, hd1⟩ := nextVarint_varintBytes hlen hd
  obtain ⟨h2, hd2⟩ := nextVarint_varintBytes hbase hd1
  have h3 := decodeLogPoints_pointBytes hvalid (fun p hp => logBase_le hp)
    (hd2.trans (List.append_nil _).symm)
  have hend : 1 + (varintBytes points.length).length + (varintBytes (logBase points)).length +
      (points.flatMap (pointBytes (logBase points))).length = bytes.length := by
    rw [← hbytes]
    simp only [List.length_cons, List.length_append]
    omega
  rw [hend] at h3
  simp [hhead, h1, except_ok_bind, h2, h3]

end MonitoringAgent.HubStore

import MonitoringAgent.Model.CheckedLog
import MonitoringAgent.Verification.Codec.Checked
import MonitoringAgent.Verification.Log

/-! # Whatever is read of a log entry is written again

A point takes a byte for each of its varints, so the bytes bound the turns of the loop, whatever
count is declared. -/

namespace MonitoringAgent.HubStore

open MonitoringAgent.Library

/-! ### What is read -/

theorem nextVarint_ok {bytes : List UInt8} {pos v pos' : ℕ}
    (h : nextVarint bytes pos = .ok (v, pos')) : v < 2 ^ 64 ∧ pos < pos' ∧ pos' ≤ bytes.length := by
  rw [nextVarint] at h
  split at h
  · next read hread =>
      obtain rfl := Except.ok.inj h
      obtain ⟨hlt, hpos, hlength⟩ := readVarint_ok hread
      have hlen : 0 < varintLen v := by
        rw [varintLen]
        omega
      exact ⟨hlt, by omega, hlength⟩
  · cases h

/-- A turn of the loop, as the plain decoder takes it. -/
def logPoint (bytes : List UInt8) (base pos : ℕ) : Except BadLogEntry (LoggedPoint × ℕ) := do
  let (id, pos) ← nextVarint bytes pos
  if id ≥ 2 ^ 32 then .error .badLogEntry
  let (after, pos) ← nextVarint bytes pos
  if base + after ≥ 2 ^ 64 then .error .badLogEntry
  let (code, pos) ← nextVarint bytes pos
  .ok (⟨id, base + after, unzigzag code⟩, pos)

theorem decodeLogPoints_succ (bytes : List UInt8) (base left pos : ℕ) :
    decodeLogPoints bytes base (left + 1) pos =
      logPoint bytes base pos >>= fun (p, pos) => (decodeLogPoints bytes base left pos).map
        fun (points, pos) =>
        (p :: points, pos) := by
  rw [decodeLogPoints, logPoint]
  cases nextVarint bytes pos with
  | error e => rfl
  | ok read =>
      obtain ⟨id, pos⟩ := read
      simp only [except_ok_bind]
      split_ifs with hid
      · rfl
      cases nextVarint bytes pos with
      | error e => rfl
      | ok read =>
          obtain ⟨after, pos⟩ := read
          simp only [except_ok_bind]
          split_ifs with hafter
          · rfl
          cases nextVarint bytes pos with
          | error e => rfl
          | ok read =>
              obtain ⟨code, pos⟩ := read
              cases decodeLogPoints bytes base left pos <;> rfl

/-- A point read fits its fields and takes a byte at least for each. -/
theorem logPoint_ok {bytes : List UInt8} {base pos pos' : ℕ} {p : LoggedPoint}
    (h : logPoint bytes base pos = .ok (p, pos')) :
    p.Valid ∧ pos + 3 ≤ pos' ∧ pos' ≤ bytes.length := by
  rw [logPoint, except_bind_eq_ok] at h
  obtain ⟨⟨id, pos₁⟩, hid, h⟩ := h
  dsimp only at h
  split_ifs at h with hwide
  · cases h
  rw [except_bind_eq_ok] at h
  obtain ⟨⟨after, pos₂⟩, hafter, h⟩ := h
  dsimp only at h
  split_ifs at h with hlate
  · cases h
  rw [except_bind_eq_ok] at h
  obtain ⟨⟨code, pos₃⟩, hcode, h⟩ := h
  obtain ⟨rfl, rfl⟩ := Prod.mk.inj (Except.ok.inj h)
  obtain ⟨-, hlt, -⟩ := nextVarint_ok hid
  obtain ⟨-, hlt', -⟩ := nextVarint_ok hafter
  obtain ⟨-, hlt'', hle⟩ := nextVarint_ok hcode
  exact ⟨⟨not_le.mp hwide, not_le.mp hlate, isI64_unzigzag code⟩, by omega, hle⟩

/-- The points read are as many as there were left, and fit their fields. -/
theorem decodeLogPoints_ok {bytes : List UInt8} {base left pos pos' : ℕ} {points : List LoggedPoint}
    (h : decodeLogPoints bytes base left pos = .ok (points, pos')) :
    points.length = left ∧ ∀ p ∈ points, p.Valid := by
  induction left generalizing pos points with
  | zero =>
      rw [decodeLogPoints] at h
      obtain ⟨rfl, -⟩ := Prod.mk.inj (Except.ok.inj h)
      exact ⟨rfl, fun p hp => absurd hp List.not_mem_nil⟩
  | succ left ih =>
      rw [decodeLogPoints_succ, except_bind_eq_ok] at h
      obtain ⟨⟨p, pos₁⟩, hpoint, h⟩ := h
      dsimp only at h
      cases hrest : decodeLogPoints bytes base left pos₁ with
      | error e =>
          rw [hrest] at h
          cases h
      | ok read =>
          obtain ⟨later, pos₂⟩ := read
          rw [hrest] at h
          obtain ⟨rfl, rfl⟩ := Prod.mk.inj (Except.ok.inj h)
          obtain ⟨hlength, hvalid⟩ := ih hrest
          exact ⟨by rw [List.length_cons, hlength],
            List.forall_mem_cons.mpr ⟨(logPoint_ok hpoint).1, hvalid⟩⟩

/-- An entry is read to its end: as many points as it declares, each of which fits. -/
theorem decodeLogEntry_ok {bytes : List UInt8} {points : List LoggedPoint}
    (h : decodeLogEntry bytes = .ok points) :
    (∀ p ∈ points, p.Valid) ∧ points.length < 2 ^ 64 ∧ ∃ base pos pos',
      bytes.head? = some logV1 ∧ nextVarint bytes 1 = .ok (points.length, pos) ∧
        nextVarint bytes pos = .ok (base, pos') ∧
          decodeLogPoints bytes base points.length pos' = .ok (points, bytes.length) := by
  rw [decodeLogEntry] at h
  split_ifs at h with hversion
  · cases h
  rw [except_bind_eq_ok] at h
  obtain ⟨⟨count, pos⟩, hcount, h⟩ := h
  rw [except_bind_eq_ok] at h
  obtain ⟨⟨base, pos'⟩, hbase, h⟩ := h
  rw [except_bind_eq_ok] at h
  obtain ⟨⟨read, last⟩, hpoints, h⟩ := h
  dsimp only at hbase hpoints h
  split_ifs at h with hend
  · cases h
  obtain rfl := Except.ok.inj h
  obtain ⟨hlength, hvalid⟩ := decodeLogPoints_ok hpoints
  subst hlength
  obtain rfl := not_not.mp hend
  exact ⟨hvalid, (nextVarint_ok hcount).1, base, pos, pos', not_not.mp hversion,
    hcount, hbase, hpoints⟩

/-! ### With every step checked -/

namespace Checked

theorem nextVarint_calm {bytes : List UInt8} (hbytes : bytes.length < 2 ^ 64) (pos : ℕ) :
    Calm (nextVarint bytes pos) (HubStore.nextVarint bytes pos) := by
  have hcalm := readVarint_calm hbytes pos
  rw [Calm] at hcalm
  rw [nextVarint, HubStore.nextVarint, hcalm]
  cases HubStore.readVarint bytes pos <;> rfl

theorem decodeLogPoint_calm {bytes : List UInt8} (hbytes : bytes.length < 2 ^ 64) (base pos : ℕ) :
    Calm (decodeLogPoint bytes base pos) (logPoint bytes base pos) := by
  refine (nextVarint_calm hbytes pos).bind fun (id, pos) _ => ?_
  dsimp only
  split_ifs with hwide
  · exact calm_refused _
  refine (nextVarint_calm hbytes pos).bind fun (after, pos) _ => ?_
  dsimp only
  split_ifs with hlate
  · exact calm_refused _
  exact (nextVarint_calm hbytes pos).bind fun (code, pos) _ => calm_ok _

/-- Turns for the bytes left suffice, and the loop reads what the plain one does. -/
theorem decodeLogPoints_eq {bytes : List UInt8} (hbytes : bytes.length < 2 ^ 64) (base left : ℕ)
    {turns pos : ℕ} (points : List LoggedPoint) (hturns : bytes.length < turns + pos)
    (hpos : pos ≤ bytes.length) :
    decodeLogPoints bytes base turns left points pos =
      some (((HubStore.decodeLogPoints bytes base left pos).map
        fun (later, pos) => (points ++ later, pos)).mapError
        .refused) := by
  induction left generalizing turns points pos with
  | zero =>
      rw [HubStore.decodeLogPoints]
      cases turns <;> simp [decodeLogPoints, Except.map, Except.mapError]
  | succ left ih =>
      obtain ⟨turns, rfl⟩ := Nat.exists_eq_succ_of_ne_zero (show turns ≠ 0 by omega)
      have hpoint := decodeLogPoint_calm hbytes base pos
      rw [Calm] at hpoint
      rw [decodeLogPoints, hpoint, decodeLogPoints_succ]
      cases hread : logPoint bytes base pos with
      | error e => rfl
      | ok read =>
          obtain ⟨p, pos'⟩ := read
          obtain ⟨-, hlt, hle⟩ := logPoint_ok hread
          have hrest := ih (points ++ [p]) (show bytes.length < turns + pos' by omega) hle
          dsimp only [Except.mapError]
          rw [hrest, except_ok_bind]
          cases HubStore.decodeLogPoints bytes base left pos' with
          | error e => rfl
          | ok read => simp [Except.map, Except.mapError]

theorem decodeLogEntry_eq {bytes : List UInt8} (hbytes : bytes.length < 2 ^ 64) :
    decodeLogEntry bytes.length bytes =
      some ((HubStore.decodeLogEntry bytes).mapError .refused) := by
  rw [decodeLogEntry, HubStore.decodeLogEntry]
  split_ifs with hversion
  · rfl
  have hcount := nextVarint_calm hbytes 1
  rw [Calm] at hcount
  rw [hcount]
  cases hread : HubStore.nextVarint bytes 1 with
  | error e => rfl
  | ok read =>
      obtain ⟨count, pos⟩ := read
      have hbase := nextVarint_calm hbytes pos
      rw [Calm] at hbase
      dsimp only [Except.mapError]
      rw [except_ok_bind, except_ok_bind]
      dsimp only
      rw [hbase]
      cases hread' : HubStore.nextVarint bytes pos with
      | error e => rfl
      | ok read =>
          obtain ⟨base, pos'⟩ := read
          obtain ⟨-, hlt, -⟩ := nextVarint_ok hread
          obtain ⟨-, hlt', hle⟩ := nextVarint_ok hread'
          have hpoints := decodeLogPoints_eq hbytes base count []
            (show bytes.length < bytes.length + pos' by omega) hle
          dsimp only [Except.mapError]
          rw [except_ok_bind, except_ok_bind]
          dsimp only
          rw [hpoints]
          cases HubStore.decodeLogPoints bytes base count pos' with
          | error e => rfl
          | ok read =>
              obtain ⟨points, last⟩ := read
              simp only [Except.map, Except.mapError, List.nil_append,
                Option.map_some, except_ok_bind]
              by_cases hend : last ≠ bytes.length
              · rw [if_pos hend, if_pos hend]
                rfl
              · rw [if_neg hend, if_neg hend]

end Checked

/-- Every commit's points read back from their entry. Of any bytes, the entry is read without an
overflow in as many turns as there are bytes, to the last of them, and what is read is written and
read again. -/
theorem log_entry_round_trip :
    (∀ points : List LoggedPoint, (∀ p ∈ points, p.Valid) → points.length < 2 ^ 64 →
      decodeLogEntry (encodeLogEntry points) = .ok points) ∧
    ∀ bytes : List UInt8, bytes.length < 2 ^ 64 →
      Checked.decodeLogEntry bytes.length bytes = some ((decodeLogEntry bytes).mapError .refused) ∧
        ∀ points, decodeLogEntry bytes = .ok points →
          decodeLogEntry (encodeLogEntry points) = .ok points ∧
            ∃ base pos pos', bytes.head? = some logV1 ∧ nextVarint bytes 1 = .ok
              (points.length, pos) ∧
              nextVarint bytes pos = .ok (base, pos') ∧
                decodeLogPoints bytes base points.length pos' = .ok (points, bytes.length) := by
  refine ⟨fun points hvalid hlength => decodeLogEntry_encode hvalid hlength, fun bytes hbytes => ?_⟩
  refine ⟨Checked.decodeLogEntry_eq hbytes, fun points hread => ?_⟩
  obtain ⟨hvalid, hlength, hconsumed⟩ := decodeLogEntry_ok hread
  exact ⟨decodeLogEntry_encode hvalid hlength, hconsumed⟩

/-- A count that is longer than it need be is read, and written shorter. -/
theorem log_entry_round_trip_padded :
    decodeLogEntry [1, 0x81, 0x00, 5, 7, 0, 6] = .ok [⟨7, 5, 3⟩] ∧
      decodeLogEntry (encodeLogEntry [⟨7, 5, 3⟩]) = .ok [⟨7, 5, 3⟩] ∧
      encodeLogEntry [⟨7, 5, 3⟩] = [1, 1, 5, 7, 0, 6] := by
  have hread : decodeLogEntry [1, 0x81, 0x00, 5, 7, 0, 6] = .ok [⟨7, 5, 3⟩] := by decide
  exact ⟨hread, ((log_entry_round_trip.2 [1, 0x81, 0x00, 5, 7, 0, 6] (by decide)).2 _ hread).1, by
    decide⟩

/-- A count past the bytes ends at the first point that is missing. -/
example : Checked.decodeLogEntry 4 [1, 0xff, 0x01, 0] = some (.error (.refused .badLogEntry)) :=
  by decide

end MonitoringAgent.HubStore

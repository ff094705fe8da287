import MonitoringAgent.Model.Store.Records
import MonitoringAgent.Verification.Retention.Changes
import MonitoringAgent.Verification.Series.Names

/-! # One series under the names of every layer

The tables, the retention policies and the pass name a series and its system by plain bytes. These
are the bytes of the checked names, so all of them speak of the same series. -/

namespace MonitoringAgent.HubStore.Series

open MonitoringAgent.Library

/-- The key as the tables hold it. -/
def Key.stored (k : Key) : SeriesKey := ⟨k.system.bytes, k.generation.toNat, utf8 k.metric.text⟩

/-- The record as the tables hold it. -/
def Record.stored (r : Record) : SeriesRecord := ⟨r.key.stored, r.kind, r.lastSpans⟩

/-- The system as the policies name it. -/
def SystemKey.named (system : SystemKey) : HubStore.SystemKey := ⟨system.bytes⟩

/-- `series` read off its rows' bytes: none for a record that doesn't decode. -/
def readRecords (rows : Table SeriesId (List UInt8)) : Records :=
  rows.mapValues fun _ bytes => (Record.fromBytes bytes).toOption.map Record.stored

theorem SystemKey.bytes_inj {a b : SystemKey} : a.bytes = b.bytes ↔ a = b := by
  constructor
  · intro h
    have hsame := SystemKey.tryFrom_bytes a
    rw [h, SystemKey.tryFrom_bytes b] at hsame
    exact (Except.ok.inj hsame).symm
  · exact congrArg SystemKey.bytes

theorem MetricName.text_inj {a b : MetricName} (h : a.text = b.text) : a = b := by
  have hsame := MetricName.tryFrom_text a
  rw [h, MetricName.tryFrom_text b] at hsame
  exact (Except.ok.inj hsame).symm

/-- The tables keep two series apart exactly when their keys are different bytes. -/
theorem Key.stored_inj {k k' : Key} : k.stored = k'.stored ↔ k.toBytes = k'.toBytes := by
  constructor
  · intro h
    obtain ⟨system, generation, metric⟩ := k
    obtain ⟨system', generation', metric'⟩ := k'
    obtain ⟨hsystem, hgeneration, hmetric⟩ := SeriesKey.mk.inj h
    obtain rfl := SystemKey.bytes_inj.mp hsystem
    obtain rfl := UInt64.toNat_inj.mp hgeneration
    obtain rfl := MetricName.text_inj (utf8_injective hmetric)
    rfl
  · intro h
    have hsame := Key.fromBytes_toBytes k
    rw [h, Key.fromBytes_toBytes k'] at hsame
    rw [Except.ok.inj hsame]

/-- The owner the pass reads off a key is the one whose prefix the key's bytes start with. -/
theorem Key.owner_stored {k : Key} {system : SystemKey} {generation : Generation} :
    k.stored.owner = ⟨system.bytes, generation.toNat⟩ ↔
    systemPrefix system generation <+: k.toBytes := by
  rw [Key.systemPrefix_isPrefix, Key.stored, SeriesKey.owner, Owner.mk.injEq, SystemKey.bytes_inj,
    UInt64.toNat_inj]

/-- A series the head doesn't name is its recorded key's owner's. -/
theorem readOwner_readRecords {rows : Table SeriesId (List UInt8)} {id : SeriesId} {r : Record}
    {system : SystemKey} {generation : Generation} (hrow : rows.get? id = some r.toBytes)
    (hgrid : ∀ tier start, r.lastSpans tier = some start →
      start % tier.spanSecs = 0 ∧ start < 2 ^ 64) :
    readOwner .empty (readRecords rows) id = .ok (some ⟨system.bytes, generation.toNat⟩) ↔
      Key.systemPrefix system generation <+: r.key.toBytes := by
  have hrecord : (readRecords rows).get? id = some (some r.stored) := by
    rw [readRecords, Table.get?_mapValues, hrow, Option.map_some, Record.fromBytes_toBytes hgrid]
    rfl
  have howner : readOwner .empty (readRecords rows) id = .ok (some r.key.stored.owner) := by
    simp only [readOwner, recordedKey, hrecord]
    rfl
  rw [howner, Except.ok.injEq, Option.some.injEq, Key.owner_stored]

/-- A system's override rules the periods of its own series and of no other's. -/
theorem effective_put (p : Policies) (system : SystemKey) (o : Override) (k : Key) (tier : Tier) :
    (p.put system.named o).effective k.stored.owner.system tier =
      if k.system = system then (o.tier tier).enforced (p.global.period tier)
      else p.effective k.stored.owner.system tier := by
  rw [Policies.effective_eq, Policies.effective_eq]
  split_ifs with hsystem
  · subst hsystem
    exact congrArg (TierOverride.enforced · _) (Policies.held_put_self p k.system.named o tier)
  · have hne : k.system.named ≠ system.named := fun h =>
      hsystem (SystemKey.bytes_inj.mp (HubStore.SystemKey.mk.inj h))
    have hheld := Policies.held_put_of_ne p o hne
    exact congrArg (fun held : Override => (held.tier tier).enforced (p.global.period tier)) hheld

end MonitoringAgent.HubStore.Series

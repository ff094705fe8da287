import MonitoringAgent.Library.Table
import MonitoringAgent.Model.Log
import MonitoringAgent.Model.Tail

/-! # The store's tables in `hub.redb`

What a committed transaction leaves in the file. A series' record and key are kept as the
values they encode; tails, chunks and log entries are kept as bytes. -/

namespace MonitoringAgent.HubStore

open MonitoringAgent.Library

/-- What a series is: whose, which registration, and which metric. -/
structure SeriesKey where
  system : List UInt8
  generation : ℕ
  metric : List UInt8
  deriving Repr

/-- A key's fields in comparison order. -/
def SeriesKey.fields (key : SeriesKey) : List ℕ ×ₗ ℕ ×ₗ List ℕ :=
  toLex (key.system.map UInt8.toNat, toLex (key.generation, key.metric.map UInt8.toNat))

theorem map_toNat_injective : Function.Injective (List.map UInt8.toNat) :=
  List.map_injective_iff.mpr fun _ _ h => UInt8.toNat_inj.mp h

theorem SeriesKey.fields_injective : Function.Injective SeriesKey.fields := by
  rintro ⟨system, generation, metric⟩ ⟨system', generation', metric'⟩ h
  simp only [SeriesKey.fields, EmbeddingLike.apply_eq_iff_eq, Prod.mk.injEq] at h
  rw [map_toNat_injective h.1, h.2.1, map_toNat_injective h.2.2]

instance : LinearOrder SeriesKey := LinearOrder.lift' SeriesKey.fields SeriesKey.fields_injective

/-- Per tier, the last span holding a chunk of a series. -/
abbrev LastSpans := Tier → Option SpanStart

/-- A series' persisted record. -/
structure SeriesRecord where
  key : SeriesKey
  kind : ValueKind
  lastSpans : LastSpans

/-- The key of a chunk of a span not yet handed off. -/
structure ChunkKey where
  tier : Tier
  span : SpanStart
  id : SeriesId
  seq : ℕ
  deriving Repr

/-- A chunk key's fields in comparison order. -/
def ChunkKey.fields (key : ChunkKey) : ℕ ×ₗ ℕ ×ₗ ℕ ×ₗ ℕ :=
  toLex (key.tier.code, toLex (key.span, toLex (key.id, key.seq)))

theorem Tier.code_injective : Function.Injective Tier.code := by
  intro a b h
  cases a <;> cases b <;> simp_all [Tier.code]

theorem ChunkKey.fields_injective : Function.Injective ChunkKey.fields := by
  rintro ⟨tier, span, id, seq⟩ ⟨tier', span', id', seq'⟩ h
  simp only [ChunkKey.fields, EmbeddingLike.apply_eq_iff_eq, Prod.mk.injEq] at h
  rw [Tier.code_injective h.1, h.2.1, h.2.2.1, h.2.2.2]

instance : LinearOrder ChunkKey := LinearOrder.lift' ChunkKey.fields ChunkKey.fields_injective

/-- A span of a tier. -/
structure SpanKey where
  tier : Tier
  span : SpanStart
  deriving Repr

/-- A span key's fields in comparison order. -/
def SpanKey.fields (key : SpanKey) : ℕ ×ₗ ℕ := toLex (key.tier.code, key.span)

theorem SpanKey.fields_injective : Function.Injective SpanKey.fields := by
  rintro ⟨tier, span⟩ ⟨tier', span'⟩ h
  simp only [SpanKey.fields, EmbeddingLike.apply_eq_iff_eq, Prod.mk.injEq] at h
  rw [Tier.code_injective h.1, h.2]

instance : LinearOrder SpanKey := LinearOrder.lift' SpanKey.fields SpanKey.fields_injective

/-- The span a chunk's key names. -/
def ChunkKey.spanKey (key : ChunkKey) : SpanKey := ⟨key.tier, key.span⟩

/-- One block file: its tier, its span and its rewrite number. -/
structure BlockName where
  tier : Tier
  span : SpanStart
  rewrite : ℕ
  deriving Repr

def BlockName.spanKey (name : BlockName) : SpanKey := ⟨name.tier, name.span⟩

/-- A block name's fields in comparison order. -/
def BlockName.fields (name : BlockName) : ℕ ×ₗ ℕ ×ₗ ℕ :=
  toLex (name.tier.code, toLex (name.span, name.rewrite))

theorem BlockName.fields_injective : Function.Injective BlockName.fields := by
  rintro ⟨tier, span, rewrite⟩ ⟨tier', span', rewrite'⟩ h
  simp only [BlockName.fields, EmbeddingLike.apply_eq_iff_eq, Prod.mk.injEq] at h
  rw [Tier.code_injective h.1, h.2.1, h.2.2]

instance : LinearOrder BlockName := LinearOrder.lift' BlockName.fields BlockName.fields_injective

instance : LawfulBEq BlockName := inferInstance

/-- The file a span's row names, and how many chunks it holds. -/
structure BlockRecord where
  rewrite : ℕ
  chunkCount : ℕ
  deriving DecidableEq, Repr

/-- An entry of one of the hub's catalog tables: the table's name and the entry's key. -/
structure CatalogKey where
  table : List UInt8
  key : List UInt8
  deriving Repr

/-- A catalog key's fields in comparison order. -/
def CatalogKey.fields (key : CatalogKey) : List ℕ ×ₗ List ℕ :=
  toLex (key.table.map UInt8.toNat, key.key.map UInt8.toNat)

theorem CatalogKey.fields_injective : Function.Injective CatalogKey.fields := by
  rintro ⟨table, key⟩ ⟨table', key'⟩ h
  simp only [CatalogKey.fields, EmbeddingLike.apply_eq_iff_eq, Prod.mk.injEq] at h
  rw [map_toNat_injective h.1, map_toNat_injective h.2]

instance : LinearOrder CatalogKey := LinearOrder.lift' CatalogKey.fields CatalogKey.fields_injective

/-- The persisted clocks and counters. -/
structure Meta where
  /-- Hub time as last committed. -/
  clock : ℕ
  /-- The next `SeriesId` to give. -/
  nextId : ℕ
  /-- The next commit sequence. -/
  commitSeq : ℕ
  /-- The retention clock as the last pass persisted it. -/
  retentionClock : ℕ
  deriving DecidableEq, Repr

/-- The store's tables. -/
structure Tables where
  series : Table SeriesId SeriesRecord
  seriesKey : Table SeriesKey SeriesId
  pointsLog : Table ℕ (List UInt8)
  tails : Table SeriesId (List UInt8)
  chunks : Table ChunkKey (List UInt8)
  /-- A span's row: its chunks are in that block file. -/
  blocks : Table SpanKey BlockRecord
  /-- Each generation's chunk bytes in a span's block file. -/
  blockGenerations : Table (ℕ ×ₗ SpanKey) ℕ
  /-- Block files no row names any more, not yet unlinked. -/
  pendingUnlinks : Table BlockName Unit
  /-- The hub's catalog tables: bytes to the store. -/
  catalog : Table CatalogKey (List UInt8)
  «meta» : Meta

/-- The tables of a new file: its retention clock starts at the system's. -/
def Tables.new (systemNow : ℕ) : Tables where
  series := .empty
  seriesKey := .empty
  pointsLog := .empty
  tails := .empty
  chunks := .empty
  blocks := .empty
  blockGenerations := .empty
  pendingUnlinks := .empty
  catalog := .empty
  «meta» := ⟨0, 0, 0, systemNow⟩

end MonitoringAgent.HubStore

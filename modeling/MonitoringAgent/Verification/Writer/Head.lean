import MonitoringAgent.Library.Except
import MonitoringAgent.Library.Keyed
import MonitoringAgent.Model.Ingest
import MonitoringAgent.Verification.Series.History

/-! # The invariant of the head

Every series in the head against the points accepted for it, the chunks it has stored and the
chunks it sealed since the last commit. -/

namespace MonitoringAgent.HubStore

open MonitoringAgent.Library

/-- One series of the head: `sealed` chunks came out of `accepted` points, all of its kind. -/
structure EntryInv (s : SeriesState) (sealed : List Sealed) (accepted : List RawPoint) (clock : ℕ) :
    Prop where
  series : SeriesInv s.kind s sealed accepted clock
  domain : ∀ p ∈ accepted, s.kind.InDomain p.value

/-- The head after `accepted` points of each series and the `stored` chunks of each id, each
series swept up to its time of `clocks`. -/
structure HeadInv (c : Core) (clocks : SeriesId → ℕ) (stored : SeriesId → List Sealed)
    (accepted : SeriesKey → List RawPoint) : Prop where
  index : ∀ id key, c.index.get? id = some key ↔ ∃ e, c.head.get? key = some e ∧ e.id = id
  entry : ∀ key e, c.head.get? key = some e →
    EntryInv e.state (stored e.id ++ select c.sealed e.id) (accepted key) (clocks e.id)
  times : ∀ key, ∀ p ∈ accepted key, p.ts ≤ c.clock
  absent : ∀ key, c.head.get? key = none → accepted key = []
  touched : ∀ id chunk, (id, chunk) ∈ c.sealed → id ∈ c.touched
  sealed : ∀ id chunk, (id, chunk) ∈ c.sealed → ∃ key, c.index.get? id = some key
  idLt : ∀ id key, c.index.get? id = some key → id < c.nextId
  fresh : ∀ id, c.nextId ≤ id → stored id = []
  nextId : c.nextId < 2 ^ 32

/-! ### One series -/

@[simp] theorem SeriesState.append_kind (s : SeriesState) (ts : ℕ) (value : Scaled) :
    (s.append ts value).2.kind = s.kind := by
  rw [SeriesState.append]
  split_ifs
  · rfl
  · rfl

namespace EntryInv

variable {s : SeriesState} {sealed : List Sealed} {accepted : List RawPoint} {clock : ℕ}

theorem new (kind : ValueKind) (clock : ℕ) : EntryInv (.new kind) [] [] clock :=
  ⟨(SeriesInv.new kind).mono (Nat.zero_le _), by simp⟩

theorem mono (h : EntryInv s sealed accepted clock) {later : ℕ} (hle : clock ≤ later) :
    EntryInv s sealed accepted later :=
  ⟨h.series.mono hle, h.domain⟩

/-- A point of the series' kind, after its last one. -/
theorem append (h : EntryInv s sealed accepted clock) {ts : ℕ} {value : ℤ} {scaled : Scaled}
    (hscaled : s.kind.checkScaled value = some scaled) (hafter : s.lastTs.any (ts ≤ ·) = false)
    (hclock : clock ≤ ts) (hbound : ts + 3600 < 2 ^ 64) :
    ∃ emitted, s.append ts scaled = (.ok emitted, (s.append ts scaled).2) ∧
      EntryInv (s.append ts scaled).2 (sealed ++ emitted) (accepted ++ [⟨ts, value⟩]) clock := by
  obtain ⟨hdomain, rfl⟩ := ValueKind.checkScaled_eq_some hscaled
  obtain ⟨emitted, hok, hseries⟩ := h.series.append scaled hafter hclock hbound
  refine ⟨emitted, by rw [← hok], ?_⟩
  have hkind := hseries.kind_eq
  refine ⟨hkind.symm ▸ hseries, ?_⟩
  intro p hp
  rw [hkind]
  rcases List.mem_append.mp hp with hp | hp
  · exact h.domain p hp
  · rw [List.mem_singleton.mp hp]
    exact hdomain

/-- The sweep of one series: buckets closed, then chunks of closed spans sealed. -/
theorem sweep (h : EntryInv s sealed accepted clock) :
    EntryInv ((s.sweep clock).2.sealClosed clock).2
      (sealed ++ ((s.sweep clock).1 ++ ((s.sweep clock).2.sealClosed clock).1)) accepted clock := by
  have hseries := (h.series.sweep clock).sealClosed clock
  rw [max_self, List.append_assoc] at hseries
  have hkind := hseries.kind_eq
  exact ⟨hkind.symm ▸ hseries, hkind.symm ▸ h.domain⟩

end EntryInv

/-! ### Keeping sealed chunks -/

namespace Core

variable (c : Core) (entry : HeadEntry) (chunks : List Sealed)

theorem keepSealed_core :
    (c.keepSealed entry chunks).1 =
      { c with
        sealed := c.sealed ++ chunks.map fun chunk => (entry.id, chunk)
        touched := if chunks = [] then c.touched else insert entry.id c.touched } := by
  induction chunks generalizing c entry with
  | nil => simp [keepSealed]
  | cons chunk chunks ih =>
      rw [keepSealed]
      simp only [ih, keepChunk, List.map_cons, List.append_assoc, List.singleton_append]
      split_ifs <;> simp_all

theorem keepSealed_entry :
    (c.keepSealed entry chunks).2 =
      { entry with
        lastSpans := chunks.foldl
          (fun spans chunk => spans.raise chunk.tier chunk.span) entry.lastSpans
        pending := entry.pending ++ chunks } := by
  induction chunks generalizing c entry with
  | nil => simp [keepSealed]
  | cons chunk chunks ih =>
      rw [keepSealed]
      simp [ih, keepChunk]

/-- The entry `putEntry` leaves in the head. -/
def kept (entry : HeadEntry) (chunks : List Sealed) : HeadEntry :=
  { entry with
    lastSpans := chunks.foldl (fun spans chunk => spans.raise chunk.tier chunk.span) entry.lastSpans
    pending := entry.pending ++ chunks }

@[simp] theorem kept_id : (kept entry chunks).id = entry.id := rfl

@[simp] theorem kept_state : (kept entry chunks).state = entry.state := rfl

@[simp] theorem kept_dirty : (kept entry chunks).dirty = entry.dirty := rfl

variable (key : SeriesKey)

theorem putEntry_eq :
    c.putEntry key entry chunks =
      { c with
        head := c.head.insert key (kept entry chunks)
        sealed := c.sealed ++ chunks.map fun chunk => (entry.id, chunk)
        touched := if chunks = [] then c.touched else insert entry.id c.touched } := by
  simp only [putEntry, keepSealed_core, keepSealed_entry, kept]

@[simp] theorem putEntry_index : (c.putEntry key entry chunks).index = c.index := by
  rw [putEntry_eq]

@[simp] theorem putEntry_points : (c.putEntry key entry chunks).points = c.points := by
  rw [putEntry_eq]

@[simp] theorem putEntry_newSeries : (c.putEntry key entry chunks).newSeries = c.newSeries := by
  rw [putEntry_eq]

@[simp] theorem putEntry_clock : (c.putEntry key entry chunks).clock = c.clock := by
  rw [putEntry_eq]

@[simp] theorem putEntry_nextId : (c.putEntry key entry chunks).nextId = c.nextId := by
  rw [putEntry_eq]

theorem putEntry_head (k : SeriesKey) :
    (c.putEntry key entry chunks).head.get? k =
      if key = k then some (kept entry chunks) else c.head.get? k := by
  rw [putEntry_eq, Table.get?_insert]

theorem subset_putEntry_touched : c.touched ⊆ (c.putEntry key entry chunks).touched := by
  rw [putEntry_eq]
  split_ifs
  · exact Finset.Subset.refl _
  · exact Finset.subset_insert _ _

end Core

/-! ### Appends, point by point -/

namespace Core

variable {c c' : Core} {txn : Tables} {P : Core → Prop}

/-- What bringing the series into the head and changing its entry keep, a point keeps. -/
theorem appendPoint_inv {key : SeriesKey} {kind : ValueKind} {value : ℤ} {«at» : ℕ}
    {answer : Except Rejected Unit} (hactivate : ∀ c₁ active, c.head.get? key = none →
      c.activate txn key kind = .ok (active, c₁) → P c₁)
    (hentry : ∀ c₁ entry scaled, P c₁ → c₁.head.get? key = some entry →
      P (c₁.appendEntry key entry kind value scaled «at»).2)
    (hc : P c) (happend : c.appendPoint txn key kind value «at» = .ok (answer, c')) : P c' := by
  rw [appendPoint] at happend
  split at happend
  · cases happend
    exact hc
  next scaled _ =>
    extract_lets put at happend
    have hput : ∀ active c₁, P c₁ → put (active, c₁) = .ok (answer, c') → P c' := by
      intro active c₁ hc₁ hput
      dsimp only [put] at hput
      split at hput
      · cases hput
        exact hc₁
      · split at hput
        · cases hput
        next entry hget =>
          obtain rfl := congrArg Prod.snd (Except.ok.inj hput)
          exact hentry c₁ entry scaled hc₁ hget
    split_ifs at happend with hcontains
    · exact hput (.ok ()) c hc happend
    · obtain ⟨⟨active, c₁⟩, hactive, happend⟩ := except_bind_eq_ok.mp happend
      exact hput active c₁ (hactivate c₁ active
        (by simpa [Table.contains] using hcontains) hactive) happend

/-- What every point keeps, an append keeps. -/
theorem appendEach_inv {system : List UInt8} {generation «at» : ℕ} {points : List IncomingPoint}
    {answers : List (Except Rejected Unit)}
    (hpoint : ∀ (c₁ c₂ : Core) (p : IncomingPoint) (answer : Except Rejected Unit), P c₁ →
      c₁.appendPoint txn ⟨system, generation, p.metric⟩ p.kind p.value «at» =
        .ok (answer, c₂) → P c₂)
    (hc : P c) (happend : c.appendEach txn system generation «at» points = .ok (answers, c')) :
    P c' := by
  induction points generalizing c answers with
  | nil =>
      cases happend
      exact hc
  | cons p points ih =>
      rw [appendEach] at happend
      obtain ⟨⟨answer, c₁⟩, hfirst, happend⟩ := except_bind_eq_ok.mp happend
      obtain ⟨⟨answers', c₂⟩, hrest, happend⟩ := except_bind_eq_ok.mp happend
      cases happend
      exact ih (hpoint c c₁ p answer hc hfirst) hrest

end Core

/-! ### Changing one entry -/

namespace HeadInv

variable {c : Core} {clocks : SeriesId → ℕ} {stored : SeriesId → List Sealed}
  {accepted : SeriesKey → List RawPoint} {key : SeriesKey} {e : HeadEntry}

theorem index_of_get (h : HeadInv c clocks stored accepted) (hget : c.head.get? key = some e) :
    c.index.get? e.id = some key :=
  (h.index e.id key).mpr ⟨e, hget, rfl⟩

theorem key_unique (h : HeadInv c clocks stored accepted) {other : SeriesKey} {e' : HeadEntry}
    (hget : c.head.get? key = some e) (hother : c.head.get? other = some e') (hid : e.id = e'.id) :
    key = other := by
  have h1 := h.index_of_get hget
  rw [hid, h.index_of_get hother] at h1
  exact (Option.some.inj h1).symm

/-- A series changed in place, what it sealed kept, leaves the rest of the head alone. -/
theorem putEntry (h : HeadInv c clocks stored accepted) (hget : c.head.get? key = some e)
    {state : SeriesState} (dirty : Bool) {chunks : List Sealed} {points : List RawPoint}
    (hentry : EntryInv state (stored e.id ++ select c.sealed e.id ++ chunks) points (clocks e.id))
    (htimes : ∀ p ∈ points, p.ts ≤ c.clock) :
    HeadInv (c.putEntry key { e with state, dirty } chunks) clocks stored
      (Function.update accepted key points) := by
  rw [Core.putEntry_eq]
  refine ⟨?_, ?_, ?_, ?_, ?_, ?_, h.idLt, h.fresh, h.nextId⟩
  · intro id k
    rw [h.index id k]
    simp only [Table.get?_insert]
    split_ifs with hk
    · subst hk
      simp [hget, Core.kept]
    · rfl
  · intro k e'' hk
    simp only [Table.get?_insert] at hk
    simp only [select_append, select_map_pair]
    split_ifs at hk with heq
    · subst heq
      obtain rfl := Option.some.inj hk
      simp only [Core.kept, if_true, Function.update_self]
      rw [← List.append_assoc]
      exact hentry
    · have hne : e.id ≠ e''.id := fun hid => heq (h.key_unique hget hk hid)
      rw [if_neg hne, List.append_nil, Function.update_of_ne (Ne.symm heq)]
      exact h.entry k e'' hk
  · intro k p hp
    by_cases hk : k = key
    · subst hk
      exact htimes p (by simpa using hp)
    · rw [Function.update_of_ne hk] at hp
      exact h.times k p hp
  · intro k hk
    simp only [Table.get?_insert] at hk
    split_ifs at hk with heq
    rw [Function.update_of_ne (Ne.symm heq)]
    exact h.absent k hk
  · intro id chunk hmem
    rcases List.mem_append.mp hmem with hmem | hmem
    · have := h.touched id chunk hmem
      split_ifs
      · exact this
      · exact Finset.mem_insert_of_mem this
    · obtain ⟨x, hx, heq⟩ := List.mem_map.mp hmem
      rw [if_neg (List.ne_nil_of_mem hx), ← (Prod.mk.inj heq).1]
      exact Finset.mem_insert_self _ _
  · intro id chunk hmem
    rcases List.mem_append.mp hmem with hmem | hmem
    · exact h.sealed id chunk hmem
    · obtain ⟨x, -, heq⟩ := List.mem_map.mp hmem
      have hindex := h.index_of_get hget
      rw [(Prod.mk.inj heq).1] at hindex
      exact ⟨key, hindex⟩

theorem mono (h : HeadInv c clocks stored accepted) {now : ℕ} (hnow : c.clock ≤ now)
    {later : SeriesId → ℕ} (hlater : ∀ id key, c.index.get? id = some key → clocks id ≤ later id) :
    HeadInv { c with clock := now } later stored accepted :=
  ⟨h.index, fun key e hget => (h.entry key e hget).mono (hlater e.id key (h.index_of_get hget)),
    fun key p hp => (h.times key p hp).trans hnow, h.absent, h.touched, h.sealed, h.idLt, h.fresh,
    h.nextId⟩

theorem select_absent (h : HeadInv c clocks stored accepted) {id : SeriesId}
    (hid : c.index.get? id = none) : select c.sealed id = [] := by
  rw [List.eq_nil_iff_forall_not_mem]
  intro chunk hmem
  obtain ⟨key, hkey⟩ := h.sealed id chunk (mem_select.mp hmem)
  rw [hid] at hkey
  cases hkey

theorem index_fresh (h : HeadInv c clocks stored accepted) {id : SeriesId} (hid : c.nextId ≤ id) :
    c.index.get? id = none := by
  rw [Option.eq_none_iff_forall_not_mem]
  exact fun key hkey => absurd (h.idLt id key hkey) (not_lt.mpr hid)

/-- A series the head does not hold yet, brought in under an id it does not hold. -/
theorem addEntry (h : HeadInv c clocks stored accepted) (e : HeadEntry) (points : List RawPoint)
    (newSeries touched : Finset SeriesId) (hkey : c.head.get? key = none)
    (hid : c.index.get? e.id = none) {nextId : ℕ} (hnext : c.nextId ≤ nextId) (hlt : e.id < nextId)
    (hcap : nextId < 2 ^ 32) (htouched : c.touched ⊆ touched)
    (hentry : EntryInv e.state (stored e.id) points (clocks e.id))
    (htimes : ∀ p ∈ points, p.ts ≤ c.clock) :
    HeadInv ({ c with nextId, newSeries, touched }.addEntry key e) clocks stored
      (Function.update accepted key points) := by
  refine ⟨?_, ?_, ?_, ?_, ?_, ?_, ?_, ?_, hcap⟩
  · intro id k
    simp only [Core.addEntry, Table.get?_insert]
    by_cases hk : key = k
    · subst hk
      simp only [if_true, Option.some.injEq, exists_eq_left']
      split_ifs with heq
      · simp [heq]
      · simp only [heq, iff_false]
        intro hindex
        obtain ⟨e', he', -⟩ := (h.index id key).mp hindex
        rw [hkey] at he'
        cases he'
    · rw [if_neg hk, ← h.index id k]
      split_ifs with heq
      · subst heq
        simp [hid, hk]
      · rfl
  · intro k e' hk
    simp only [Core.addEntry, Table.get?_insert] at hk ⊢
    split_ifs at hk with heq
    · subst heq
      obtain rfl := Option.some.inj hk
      rw [h.select_absent hid, List.append_nil, Function.update_self]
      exact hentry
    · rw [Function.update_of_ne (Ne.symm heq)]
      exact h.entry k e' hk
  · intro k p hp
    by_cases hk : k = key
    · subst hk
      exact htimes p (by simpa using hp)
    · rw [Function.update_of_ne hk] at hp
      exact h.times k p hp
  · intro k hk
    simp only [Core.addEntry, Table.get?_insert] at hk
    split_ifs at hk with heq
    rw [Function.update_of_ne (Ne.symm heq)]
    exact h.absent k hk
  · exact fun id chunk hmem => htouched (h.touched id chunk hmem)
  · intro id chunk hmem
    obtain ⟨k, hk⟩ := h.sealed id chunk hmem
    refine ⟨k, ?_⟩
    simp only [Core.addEntry]
    rw [Table.get?_insert_of_ne, hk]
    rintro rfl
    rw [hid] at hk
    cases hk
  · intro id k hk
    simp only [Core.addEntry, Table.get?_insert] at hk ⊢
    split_ifs at hk with heq
    · exact heq ▸ hlt
    · exact (h.idLt id k hk).trans_le hnext
  · exact fun id hle => h.fresh id (hnext.trans hle)

/-- Entries may change in what the invariant does not speak of. -/
theorem congr_head (h : HeadInv c clocks stored accepted) {head : Table SeriesKey HeadEntry}
    (hhead : ∀ key, (head.get? key).map (fun e => (e.id, e.state)) =
      (c.head.get? key).map fun e => (e.id, e.state)) :
    HeadInv { c with head } clocks stored accepted := by
  have hback : ∀ key e, head.get? key = some e →
      ∃ e', c.head.get? key = some e' ∧ e'.id = e.id ∧ e'.state = e.state := by
    intro key e hget
    have heq := hhead key
    rw [hget, Option.map_some, eq_comm, Option.map_eq_some_iff] at heq
    obtain ⟨e', hget', heq⟩ := heq
    exact ⟨e', hget', (Prod.mk.inj heq).1, (Prod.mk.inj heq).2⟩
  refine ⟨?_, ?_, h.times, ?_, h.touched, h.sealed, h.idLt, h.fresh, h.nextId⟩
  · intro id key
    have hids : (head.get? key).map HeadEntry.id = (c.head.get? key).map HeadEntry.id := by
      have heq := congrArg (Option.map Prod.fst) (hhead key)
      simpa [Option.map_map, Function.comp_def] using heq
    rw [h.index id key]
    simp only [← Option.map_eq_some_iff, hids]
  · intro key e hget
    obtain ⟨e', hget', hid, hstate⟩ := hback key e hget
    have hentry := h.entry key e' hget'
    rwa [hid, hstate] at hentry
  · intro key hget
    have heq := hhead key
    rw [hget, Option.map_none, eq_comm, Option.map_eq_none_iff] at heq
    exact h.absent key heq

/-- The sealed chunks move from the buffer to the file. -/
theorem commit (h : HeadInv c clocks stored accepted) (newSeries : Finset SeriesId) :
    HeadInv { c with points := [], sealed := [], touched := ∅, newSeries } clocks
      (fun id => stored id ++ select c.sealed id) accepted := by
  refine ⟨h.index, ?_, h.times, h.absent, by simp, by simp, h.idLt, ?_, h.nextId⟩
  · intro key e hget
    rw [select_nil, List.append_nil]
    exact h.entry key e hget
  · intro id hid
    rw [h.fresh id hid, h.select_absent (h.index_fresh hid)]
    rfl

end HeadInv

end MonitoringAgent.HubStore

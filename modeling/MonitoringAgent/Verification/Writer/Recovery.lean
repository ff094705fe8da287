import MonitoringAgent.Library.Increasing
import MonitoringAgent.Model.Recovery
import MonitoringAgent.Verification.Log
import MonitoringAgent.Verification.Writer.Head

/-! # What the file holds, and what recovery makes of it

The chunks, tails and log entries of the tables against the points committed, and the head
that `loadHead` and `replay` re-derive from them. -/

namespace MonitoringAgent.HubStore

open MonitoringAgent.Library

/-- What the tables stand for. -/
structure Ledger where
  /-- The chunks of each series committed so far, in emission order. -/
  stored : SeriesId → List Sealed
  /-- The points the series' tail was written after. -/
  tailed : SeriesId → List RawPoint
  /-- The hub time the series' tail was written at. -/
  clocks : SeriesId → ℕ
  /-- The points of each series committed so far. -/
  committed : SeriesKey → List RawPoint

/-- The points an entry of the log holds. -/
def entryPoints (entry : ℕ × List UInt8) : List LoggedPoint :=
  (decodeLogEntry entry.2).toOption.getD []

/-- The points of the log, in commit order. -/
def logPoints (t : Tables) : List LoggedPoint := t.pointsLog.entries.flatMap entryPoints

/-- The points of one series among logged ones. -/
def loggedOf (points : List LoggedPoint) (id : SeriesId) : List RawPoint :=
  select (points.map fun p => (p.id, ⟨p.ts, p.value⟩)) id

/-- One series in the file: its tail holds a beginning of its points, and the log all the
others. -/
structure SeriesStored (t : Tables) (l : Ledger) (id : SeriesId)
    (record : SeriesRecord) : Prop where
  tail : ∃ state, t.tails.get? id = some state.toTail ∧ state.kind = record.kind ∧
    EntryInv state (l.stored id) (l.tailed id) (l.clocks id)
  clock : l.clocks id ≤ t.meta.clock
  split : ∃ rest, l.committed record.key = l.tailed id ++ rest ∧ ∀ p ∈ rest, l.clocks id ≤ p.ts
  points : PointsInv (l.committed record.key)
  domain : ∀ p ∈ l.committed record.key, record.kind.InDomain p.value
  times : ∀ p ∈ l.committed record.key, p.ts ≤ t.meta.clock
  logged : (loggedOf (logPoints t) id).Sublist (l.committed record.key)
  covered : ∀ p ∈ l.committed record.key, p ∈ l.tailed id ∨ p ∈ loggedOf (logPoints t) id

/-- The tables hold what the ledger says. -/
structure FileInv (t : Tables) (l : Ledger) : Prop where
  key : ∀ key id, t.seriesKey.get? key = some id ↔
    ∃ record, t.series.get? id = some record ∧ record.key = key
  tails : ∀ id bytes, t.tails.get? id = some bytes → ∃ record, t.series.get? id = some record
  series : ∀ id record, t.series.get? id = some record → SeriesStored t l id record
  absent : ∀ key, t.seriesKey.get? key = none → l.committed key = []
  log : ∀ seq bytes, t.pointsLog.get? seq = some bytes → seq < t.meta.commitSeq ∧
    ∃ points, decodeLogEntry bytes = .ok points ∧ ∀ p ∈ points, ∃ record,
      t.series.get? p.id = some record
  idLt : ∀ id record, t.series.get? id = some record → id < t.meta.nextId
  fresh : ∀ id, t.series.get? id = none → l.stored id = []
  nextId : t.meta.nextId < 2 ^ 32

/-- A head re-derived from the file. -/
structure Recovered (t : Tables) (l : Ledger) (accepted : SeriesKey → List RawPoint) (c : Core) :
    Prop where
  head : HeadInv c l.clocks l.stored accepted
  record : ∀ key e, c.head.get? key = some e →
    ∃ record, t.series.get? e.id = some record ∧ record.key = key ∧ record.kind = e.state.kind
  clean : ∀ key e, c.head.get? key = some e → e.dirty = false → accepted key = l.tailed e.id
  points : c.points = []
  newSeries : c.newSeries = ∅
  clock : c.clock = t.meta.clock
  nextId : c.nextId = t.meta.nextId

variable {t : Tables} {l : Ledger}

theorem FileInv.key_unique (h : FileInv t l) {id other : SeriesId} {record record' : SeriesRecord}
    (hrecord : t.series.get? id = some record) (hother : t.series.get? other = some record')
    (hkey : record.key = record'.key) : id = other := by
  have h1 := (h.key record.key id).mpr ⟨record, hrecord, rfl⟩
  rw [(h.key record.key other).mpr ⟨record', hother, hkey.symm⟩] at h1
  exact (Option.some.inj h1).symm

/-! ### The head from the tails -/

theorem FileInv.new_head (h : FileInv t l) :
    HeadInv (Core.new t.meta.clock t.meta.nextId) l.clocks l.stored fun _ => [] := by
  refine ⟨by simp [Core.new], by simp [Core.new], by simp, by simp, by simp [Core.new],
    by simp [Core.new], by simp [Core.new], ?_, h.nextId⟩
  intro id hid
  apply h.fresh
  rw [Option.eq_none_iff_forall_not_mem]
  exact fun record hrecord => absurd (h.idLt id record hrecord) (not_lt.mpr hid)

/-- A tail brings its series back as it was when the tail was written. -/
theorem FileInv.install (h : FileInv t l) {accepted : SeriesKey → List RawPoint} {c : Core}
    (hc : Recovered t l accepted c) {id : SeriesId} {bytes : List UInt8}
    (htail : t.tails.get? id = some bytes) (hid : c.index.get? id = none) :
    ∃ record state, t.series.get? id = some record ∧ SeriesState.fromTail bytes = .ok state ∧
      Recovered t l (Function.update accepted record.key (l.tailed id))
        (c.install id record state) := by
  obtain ⟨record, hrecord⟩ := h.tails id bytes htail
  have hstored := h.series id record hrecord
  obtain ⟨state, hbytes, hkind, hentry⟩ := hstored.tail
  obtain ⟨rest, hsplit, -⟩ := hstored.split
  obtain rfl : bytes = state.toTail := Option.some.inj (htail.symm.trans hbytes)
  refine ⟨record, state, hrecord, hentry.series.fromTail_toTail hentry.domain, ?_⟩
  have hkey : c.head.get? record.key = none := by
    rw [Option.eq_none_iff_forall_not_mem]
    intro e he
    obtain ⟨record', hrecord', hkey', -⟩ := hc.record _ e he
    have := h.key_unique hrecord' hrecord hkey'
    rw [← this, hc.head.index_of_get he] at hid
    cases hid
  refine ⟨?_, ?_, ?_, hc.points, hc.newSeries, hc.clock, hc.nextId⟩
  · refine hc.head.addEntry (.reopened id record state) (l.tailed id) c.newSeries c.touched hkey hid
      le_rfl ?_ hc.head.nextId (Finset.Subset.refl _) hentry fun p hp => ?_
    · rw [hc.nextId]
      exact h.idLt id record hrecord
    · rw [hc.clock]
      exact hstored.times p (by rw [hsplit]; exact List.mem_append_left _ hp)
  · intro key e he
    simp only [Core.install, Core.addEntry, Table.get?_insert] at he
    split_ifs at he with heq
    · obtain rfl := Option.some.inj he
      exact ⟨record, hrecord, heq, hkind.symm⟩
    · exact hc.record key e he
  · intro key e he hdirty
    simp only [Core.install, Core.addEntry, Table.get?_insert] at he
    split_ifs at he with heq
    · subst heq
      obtain rfl := Option.some.inj he
      exact Function.update_self _ _ _
    · rw [Function.update_of_ne (Ne.symm heq)]
      exact hc.clean key e he hdirty

theorem FileInv.loadTails (h : FileInv t l) {accepted : SeriesKey → List RawPoint} {c : Core}
    (hc : Recovered t l accepted c) (hclean : ∀ key e, c.head.get? key = some e → e.dirty = false)
    {tails : List (SeriesId × List UInt8)} (hsorted : tails.Pairwise fun a b => a.1 < b.1)
    (htails : ∀ e ∈ tails, t.tails.get? e.1 = some e.2 ∧ c.index.get? e.1 = none) :
    ∃ c' accepted', c.loadTails t.series tails = .ok c' ∧ Recovered t l accepted' c' ∧
      (∀ key e, c'.head.get? key = some e → e.dirty = false) ∧
      ∀ id, (∃ key, c.index.get? id = some key) ∨ id ∈ tails.map Prod.fst →
        ∃ key, c'.index.get? id = some key := by
  induction tails generalizing c accepted with
  | nil => exact ⟨c, accepted, rfl, hc, hclean, by simp⟩
  | cons tail tails ih =>
      obtain ⟨id, bytes⟩ := tail
      obtain ⟨hhead, hrest⟩ := List.pairwise_cons.mp hsorted
      obtain ⟨htail, hid⟩ := htails (id, bytes) List.mem_cons_self
      obtain ⟨record, state, hrecord, hstate, hnext⟩ := h.install hc htail hid
      have hindex : ∀ other, (c.install id record state).index.get? other =
          if id = other then some record.key else c.index.get? other := by
        intro other
        rw [Core.install, Core.addEntry, HeadEntry.reopened, Table.get?_insert]
      obtain ⟨c', accepted', hload, hc', hclean', hall⟩ := ih hnext (by
          intro key e he
          simp only [Core.install, Core.addEntry, Table.get?_insert] at he
          split_ifs at he with heq
          · rw [← Option.some.inj he, HeadEntry.reopened]
          · exact hclean key e he) hrest (by
          intro e he
          obtain ⟨hget, hnone⟩ := htails e (List.mem_cons_of_mem _ he)
          rw [hindex, if_neg (hhead e he).ne]
          exact ⟨hget, hnone⟩)
      refine ⟨c', accepted', by rw [Core.loadTails, hrecord, hstate]; exact hload, hc', hclean', ?_⟩
      intro other hother
      apply hall
      rw [hindex]
      split_ifs with heq
      · exact .inl ⟨_, rfl⟩
      · rcases hother with hother | hother
        · exact .inl hother
        · exact .inr ((List.mem_cons.mp hother).resolve_left (Ne.symm heq))

/-- Every recorded series comes back from its tail. -/
theorem FileInv.loadHead (h : FileInv t l) :
    ∃ c accepted, (Core.new t.meta.clock t.meta.nextId).loadHead t = .ok c ∧
      Recovered t l accepted c ∧
      (∀ key e, c.head.get? key = some e → accepted key = l.tailed e.id) ∧
      ∀ id record, t.series.get? id = some record → ∃ key, c.index.get? id = some key := by
  have hnew : Recovered t l (fun _ => []) (Core.new t.meta.clock t.meta.nextId) :=
    ⟨h.new_head, by simp [Core.new], by simp [Core.new], rfl, rfl, rfl, rfl⟩
  obtain ⟨c, accepted, hload, hc, hclean, hall⟩ := h.loadTails hnew (by simp [Core.new])
    t.tails.sorted (fun e he => ⟨Table.get?_eq_some_iff.mpr he, rfl⟩)
  refine ⟨c, accepted, hload, hc, fun key e he => hc.clean key e he (hclean key e he), ?_⟩
  intro id record hrecord
  obtain ⟨state, htail, -⟩ := (h.series id record hrecord).tail
  exact hall id (.inr (List.mem_map.mpr ⟨_, Table.get?_eq_some_iff.mp htail, rfl⟩))

/-! ### The log replayed -/

/-- The points of a series after its tail and logged ones, each kept only if it is later. -/
def replayed (l : Ledger) (points : List LoggedPoint) (id : SeriesId) : List RawPoint :=
  (loggedOf points id).foldl (absorb RawPoint.ts) (l.tailed id)

theorem loggedOf_append (xs ys : List LoggedPoint) (id : SeriesId) :
    loggedOf (xs ++ ys) id = loggedOf xs id ++ loggedOf ys id := by
  simp [loggedOf]

theorem loggedOf_singleton (p : LoggedPoint) (id : SeriesId) :
    loggedOf [p] id = if p.id = id then [⟨p.ts, p.value⟩] else [] := by
  simp [loggedOf, select_cons]

theorem replayed_concat (l : Ledger) (points : List LoggedPoint) (p : LoggedPoint) (id : SeriesId) :
    replayed l (points ++ [p]) id =
      if p.id = id then absorb RawPoint.ts (replayed l points id) ⟨p.ts, p.value⟩
      else replayed l points id := by
  rw [replayed, loggedOf_append, loggedOf_singleton, List.foldl_append, ← replayed]
  split_ifs
  · rfl
  · rfl

/-- A series' answer to a point is what `absorb` says. -/
theorem EntryInv.absorb {s : SeriesState} {sealed : List Sealed} {accepted : List RawPoint}
    {clock : ℕ} (h : EntryInv s sealed accepted clock) (p : RawPoint) :
    absorb RawPoint.ts accepted p = if s.lastTs.any (p.ts ≤ ·) then accepted
      else accepted ++ [p] := by
  rw [Library.absorb, h.series.lastTs, Option.any_map]

/-- The head after the tails and `points` of the log. -/
structure Replaying (t : Tables) (l : Ledger) (points : List LoggedPoint) (c : Core) : Prop where
  recovered : ∃ accepted, Recovered t l accepted c ∧
    ∀ key e, c.head.get? key = some e → accepted key = replayed l points e.id
  index : ∀ id record, t.series.get? id = some record → c.index.get? id = some record.key

theorem Replaying.replayPoint (h : FileInv t l) {points : List LoggedPoint} {c : Core}
    (hc : Replaying t l points c) (seq : ℕ) {p : LoggedPoint} {record : SeriesRecord}
    (hrecord : t.series.get? p.id = some record) (hp : ⟨p.ts, p.value⟩ ∈ l.committed record.key) :
    ∃ c', c.replayPoint t.series seq p = .ok c' ∧ Replaying t l (points ++ [p]) c' := by
  obtain ⟨accepted, hrec, haccepted⟩ := hc.recovered
  have hstored := h.series p.id record hrecord
  have hindex := hc.index p.id record hrecord
  obtain ⟨e, hget, hid⟩ := (hrec.head.index p.id record.key).mp hindex
  obtain ⟨record', hrecord', -, hkind⟩ := hrec.record _ e hget
  rw [hid, hrecord] at hrecord'
  obtain rfl := Option.some.inj hrecord'
  obtain ⟨scaled, hscaled⟩ := Option.isSome_iff_exists.mp
    (ValueKind.isSome_checkScaled.mpr (hstored.domain _ hp))
  have hcontains : c.index.contains p.id = true := Table.contains_iff.mpr ⟨_, hindex⟩
  have hentry := hrec.head.entry _ e hget
  have habsorb := hentry.absorb ⟨p.ts, p.value⟩
  rw [haccepted _ e hget, hid] at habsorb
  have hother : ∀ key' e', key' ≠ record.key → c.head.get? key' = some e' → p.id ≠ e'.id := by
    intro key' e' hne hget' heq
    exact hne (hrec.head.key_unique hget' hget (heq.symm.trans hid.symm))
  simp only [Core.replayPoint, hrecord, hcontains, if_true, hscaled, hget]
  cases hafter : e.state.lastTs.any (p.ts ≤ ·) with
  | true =>
      rw [hafter, if_pos rfl] at habsorb
      rw [SeriesInv.append_refused scaled hafter]
      refine ⟨c, rfl, ⟨accepted, hrec, ?_⟩, hc.index⟩
      intro key' e' hget'
      rw [haccepted key' e' hget', replayed_concat]
      split_ifs with heq
      · rw [← heq, habsorb]
      · rfl
  | false =>
      rw [hafter, if_neg Bool.false_ne_true] at habsorb
      have hclock : l.clocks e.id ≤ p.ts := by
        obtain ⟨rest, hsplit, hrest⟩ := hstored.split
        rw [hsplit] at hp
        rw [hid]
        rcases List.mem_append.mp hp with hp | hp
        · have hmem : (⟨p.ts, p.value⟩ : RawPoint) ∈ accepted record.key := by
            rw [haccepted _ e hget, hid]
            exact (prefix_foldl_absorb _ _ _).subset hp
          exact absurd (hentry.series.last_lt hafter _ hmem) (lt_irrefl _)
        · exact hrest _ hp
      obtain ⟨emitted, hok, hentry'⟩ := hentry.append (hkind ▸ hscaled) hafter hclock
        (hstored.points.bounded _ hp)
      rw [hok]
      have hhead := hrec.head.putEntry hget true hentry' (by
        intro q hq
        rcases List.mem_append.mp hq with hq | hq
        · exact hrec.head.times _ q hq
        · rw [List.mem_singleton.mp hq, hrec.clock]
          exact hstored.times _ hp)
      refine ⟨_, rfl, ⟨_, ⟨hhead, ?_, ?_, by simpa using hrec.points, by simpa using hrec.newSeries,
        by simpa using hrec.clock, by simpa using hrec.nextId⟩, ?_⟩, by simpa using hc.index⟩
      · intro key' e' hget'
        rw [Core.putEntry_head] at hget'
        split_ifs at hget' with heq
        · obtain rfl := Option.some.inj hget'
          exact ⟨record, by simpa [Core.kept, hid] using hrecord, heq, by
            simpa [Core.kept] using hkind⟩
        · exact hrec.record key' e' hget'
      · intro key' e' hget' hdirty
        rw [Core.putEntry_head] at hget'
        split_ifs at hget' with heq
        · rw [← Option.some.inj hget'] at hdirty
          cases hdirty
        · rw [Function.update_of_ne (Ne.symm heq)]
          exact hrec.clean key' e' hget' hdirty
      · intro key' e' hget'
        rw [Core.putEntry_head] at hget'
        rw [replayed_concat]
        split_ifs at hget' with heq
        · subst heq
          have hid' : e'.id = p.id := by
            rw [← Option.some.inj hget']
            exact hid
          rw [if_pos hid'.symm, Function.update_self, haccepted _ e hget, hid', hid, habsorb]
        · rw [if_neg (hother key' e' (Ne.symm heq) hget'), Function.update_of_ne (Ne.symm heq)]
          exact haccepted key' e' hget'

/-- A whole list of logged points. -/
theorem Replaying.replayPoints (h : FileInv t l) {before : List LoggedPoint} {c : Core}
    (hc : Replaying t l before c) (seq : ℕ) {points : List LoggedPoint}
    (hpoints : ∀ p ∈ points, ∃ record, t.series.get? p.id = some record ∧
      ⟨p.ts, p.value⟩ ∈ l.committed record.key) :
    ∃ c', points.foldlM (Core.replayPoint t.series seq) c = .ok c' ∧
      Replaying t l (before ++ points) c' := by
  induction points generalizing before c with
  | nil => exact ⟨c, rfl, by simpa using hc⟩
  | cons p points ih =>
      obtain ⟨record, hrecord, hp⟩ := hpoints p List.mem_cons_self
      obtain ⟨c', hstep, hc'⟩ := Replaying.replayPoint h hc seq hrecord hp
      obtain ⟨c'', hrun, hc''⟩ := ih hc' fun q hq => hpoints q (List.mem_cons_of_mem _ hq)
      refine ⟨c'', ?_, by simpa using hc''⟩
      rw [List.foldlM_cons, hstep]
      exact hrun

theorem Replaying.replayEntries (h : FileInv t l) {before : List LoggedPoint} {c : Core}
    (hc : Replaying t l before c) {entries : List (ℕ × List UInt8)}
    (hentries : ∀ entry ∈ entries, ∃ points, decodeLogEntry entry.2 = .ok points ∧
      ∀ p ∈ points, ∃ record, t.series.get? p.id = some record ∧
        ⟨p.ts, p.value⟩ ∈ l.committed record.key) :
    ∃ c', entries.foldlM (Core.replayEntry t.series) c = .ok c' ∧
      Replaying t l (before ++ entries.flatMap entryPoints) c' := by
  induction entries generalizing before c with
  | nil => exact ⟨c, rfl, by simpa using hc⟩
  | cons entry entries ih =>
      obtain ⟨points, hdecode, hpoints⟩ := hentries entry List.mem_cons_self
      obtain ⟨c', hstep, hc'⟩ := Replaying.replayPoints h hc entry.1 hpoints
      obtain ⟨c'', hrun, hc''⟩ := ih hc' fun q hq => hentries q (List.mem_cons_of_mem _ hq)
      refine ⟨c'', ?_, ?_⟩
      · rw [List.foldlM_cons, Core.replayEntry, hdecode]
        simp only [hstep]
        exact hrun
      · have hpoints' : entryPoints entry = points := by
          rw [entryPoints, hdecode]
          rfl
        rw [List.flatMap_cons, hpoints', ← List.append_assoc]
        exact hc''

/-- Recovery re-derives exactly what was committed. -/
theorem FileInv.recover (h : FileInv t l) :
    ∃ c, recover t = .ok c ∧ Recovered t l l.committed c ∧
      ∀ id record, t.series.get? id = some record → c.index.get? id = some record.key := by
  obtain ⟨c, accepted, hload, hc, htailed, hall⟩ := h.loadHead
  have hindex : ∀ id record, t.series.get? id = some record →
      c.index.get? id = some record.key := by
    intro id record hrecord
    obtain ⟨key, hkey⟩ := hall id record hrecord
    obtain ⟨e, he, hid⟩ := (hc.head.index id key).mp hkey
    obtain ⟨record', hrecord', hkey', -⟩ := hc.record key e he
    rw [hid, hrecord] at hrecord'
    rw [hkey, ← hkey', Option.some.inj hrecord']
  have hstart : Replaying t l [] c := ⟨⟨accepted, hc, htailed⟩, hindex⟩
  have hentries : ∀ entry ∈ t.pointsLog.entries, ∃ points, decodeLogEntry entry.2 = .ok points ∧
      ∀ p ∈ points, ∃ record, t.series.get? p.id = some record ∧
        ⟨p.ts, p.value⟩ ∈ l.committed record.key := by
    rintro ⟨seq, bytes⟩ hentry
    obtain ⟨-, points, hdecode, hpoints⟩ := h.log seq bytes (Table.get?_eq_some_iff.mpr hentry)
    refine ⟨points, hdecode, fun p hp => ?_⟩
    obtain ⟨record, hrecord⟩ := hpoints p hp
    refine ⟨record, hrecord, (h.series p.id record hrecord).logged.subset ?_⟩
    rw [loggedOf, mem_select, List.mem_map]
    refine ⟨p, List.mem_flatMap.mpr ⟨(seq, bytes), hentry, ?_⟩, rfl⟩
    rw [entryPoints, hdecode]
    exact hp
  obtain ⟨c', hreplay, hc'⟩ := Replaying.replayEntries h hstart hentries
  obtain ⟨final, hfinal, hreplayed⟩ := hc'.recovered
  -- What the tail holds already is dropped and the rest appended, so nothing but the
  -- committed points is left.
  have hcommitted : final = l.committed := by
    funext key
    cases hget : c'.head.get? key with
    | none =>
        rw [hfinal.head.absent key hget]
        symm
        apply h.absent
        rw [Option.eq_none_iff_forall_not_mem]
        intro id hid
        obtain ⟨record, hrecord, rfl⟩ := (h.key key id).mp hid
        obtain ⟨e, he, -⟩ := (hfinal.head.index id record.key).mp (hc'.index id record hrecord)
        rw [hget] at he
        cases he
    | some e =>
        obtain ⟨record, hrecord, rfl, -⟩ := hfinal.record key e hget
        have hstored := h.series e.id record hrecord
        obtain ⟨rest, hsplit, -⟩ := hstored.split
        have hinc := hstored.points.increasing
        rw [hreplayed record.key e hget, replayed, hsplit]
        have hsub := hstored.logged
        rw [hsplit] at hinc hsub
        refine foldl_absorb hinc hsub fun p hp => ?_
        refine (hstored.covered p (hsplit ▸ List.mem_append_right _ hp)).resolve_left fun hmem => ?_
        exact absurd ((List.pairwise_append.mp hinc).2.2 p hmem p hp) (lt_irrefl _)
  exact ⟨c', by rw [HubStore.recover, hload]; exact hreplay, hcommitted ▸ hfinal, hc'.index⟩

end MonitoringAgent.HubStore

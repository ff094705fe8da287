import MonitoringAgent.Library.Keyed
import MonitoringAgent.Model.Writer

/-! # The tails a commit writes

The loop of `writeTails` takes each series once: what it leaves for one series is what that
series' own round left. -/

namespace MonitoringAgent.HubStore

open MonitoringAgent.Library

/-- What the rounds of `writeTails` leave alone. -/
structure TailsFrame (c : Core) (t : Tables) (s : Core × Tables) : Prop where
  core : ∃ head, s.1 = { c with head }
  tables : ∃ series seriesKey tails, s.2 = { t with series, seriesKey, tails }
  ids : ∀ key, (s.1.head.get? key).map HeadEntry.id = (c.head.get? key).map HeadEntry.id
  noId : ∀ id, c.index.get? id = none →
    s.2.tails.get? id = t.tails.get? id ∧ s.2.series.get? id = t.series.get? id
  noKey : ∀ key, c.head.get? key = none → s.2.seriesKey.get? key = t.seriesKey.get? key

variable {c : Core} {t : Tables} {s : Core × Tables} {touched newSeries : Finset SeriesId}

/-- One round takes the tail of one series that has something to write, or changes nothing. -/
theorem Writer.writeTail_cases (touched newSeries : Finset SeriesId)
    (s : Core × Tables) (id : SeriesId) :
    Writer.writeTail touched newSeries s id = s ∧
        (∀ key e, s.1.index.get? id = some key → s.1.head.get? key = some e →
          ¬(e.dirty = true ∨ id ∈ touched)) ∨
      ∃ key e, s.1.index.get? id = some key ∧ s.1.head.get? key = some e ∧
        (e.dirty = true ∨ id ∈ touched) ∧
        Writer.writeTail touched newSeries s id =
          ({ s.1 with head := s.1.head.insert key { e with dirty := false } },
            { s.2 with
              tails := s.2.tails.insert id e.state.toTail
              series := s.2.series.insert id ⟨key, e.state.kind, e.lastSpans⟩
              seriesKey := if id ∈ newSeries then s.2.seriesKey.insert key id
                  else s.2.seriesKey }) := by
  rw [Writer.writeTail]
  cases hindex : s.1.index.get? id with
  | none => exact .inl ⟨rfl, by simp⟩
  | some key =>
      cases hhead : s.1.head.get? key with
      | none =>
          refine .inl ⟨by simp [Writer.takeTail, hhead], ?_⟩
          rintro key' e' hkey hget
          rw [← Option.some.inj hkey, hhead] at hget
          cases hget
      | some e =>
          by_cases hwrite : e.dirty = true ∨ id ∈ touched
          · refine .inr ⟨key, e, rfl, hhead, hwrite, ?_⟩
            simp [Writer.takeTail, hhead, Option.filter, hwrite]
          · refine .inl ⟨?_, ?_⟩
            · simp [Writer.takeTail, hhead, Option.filter, hwrite]
            · rintro key' e' hkey hget
              rw [← Option.some.inj hkey, hhead] at hget
              exact Option.some.inj hget ▸ hwrite

theorem TailsFrame.writeTail (h : TailsFrame c t s) (touched newSeries : Finset SeriesId)
    (id : SeriesId) : TailsFrame c t (Writer.writeTail touched newSeries s id) := by
  obtain ⟨heq, -⟩ | ⟨key, e, hindex, hget, -, heq⟩ := Writer.writeTail_cases touched newSeries s id
  · rw [heq]
    exact h
  obtain ⟨head, hcore⟩ := h.core
  obtain ⟨series, seriesKey, tails, htables⟩ := h.tables
  have hindex' : c.index.get? id = some key := by
    rw [hcore] at hindex
    exact hindex
  have hkey : c.head.get? key ≠ none := by
    intro hnone
    have := h.ids key
    rw [hget, hnone] at this
    cases this
  rw [heq]
  refine ⟨⟨_, by rw [hcore]⟩, ⟨_, _, _, by rw [htables]⟩, ?_, ?_, ?_⟩
  · intro k
    rw [Table.get?_insert, ← h.ids k]
    split_ifs with hk
    · subst hk
      rw [hget]
      rfl
    · rfl
  · intro other hother
    have hne : id ≠ other := by
      rintro rfl
      rw [hindex'] at hother
      cases hother
    simp only [Table.get?_insert, if_neg hne]
    exact h.noId other hother
  · intro k hk
    have hne : key ≠ k := fun heq => hkey (heq ▸ hk)
    rw [← h.noKey k hk]
    split_ifs
    · exact Table.get?_insert_of_ne _ _ hne
    · rfl

theorem TailsFrame.foldl (h : TailsFrame c t s) (touched newSeries : Finset SeriesId)
    (ids : List SeriesId) : TailsFrame c t (ids.foldl (Writer.writeTail touched newSeries) s) := by
  induction ids generalizing s with
  | nil => exact h
  | cons id ids ih => exact ih (h.writeTail touched newSeries id)

namespace Writer

/-- A series' entry, tail, record and key in the head and the tables. -/
def seriesView (key : SeriesKey) (id : SeriesId) (s : Core × Tables) :
    Option HeadEntry × Option (List UInt8) × Option SeriesRecord × Option SeriesId :=
  (s.1.head.get? key, s.2.tails.get? id, s.2.series.get? id, s.2.seriesKey.get? key)

/-- What the loop leaves for one series: a tail and a record written now if it has something
to write and its id is listed, and what it had before otherwise. -/
theorem foldl_writeTail (c : Core) (t : Tables) (touched newSeries : Finset SeriesId)
    {key : SeriesKey} {e : HeadEntry} {ids : List SeriesId}
    (hindex : ∀ id key, c.index.get? id = some key ↔ ∃ e, c.head.get? key = some e ∧ e.id = id)
    (hget : c.head.get? key = some e) (hnodup : ids.Nodup) :
    seriesView key e.id (ids.foldl (writeTail touched newSeries) (c, t)) =
      if e.id ∈ ids ∧ (e.dirty = true ∨ e.id ∈ touched) then
        (some { e with dirty := false }, some e.state.toTail,
          some ⟨key, e.state.kind, e.lastSpans⟩,
          if e.id ∈ newSeries then some e.id else t.seriesKey.get? key)
      else (some e, t.tails.get? e.id, t.series.get? e.id, t.seriesKey.get? key) := by
  have hframe : TailsFrame c t (c, t) :=
    ⟨⟨_, rfl⟩, ⟨_, _, _, rfl⟩, fun _ => rfl, fun _ _ => ⟨rfl, rfl⟩, fun _ _ => rfl⟩
  have hkey : c.index.get? e.id = some key := (hindex e.id key).mpr ⟨e, hget, rfl⟩
  have hkeys : ∀ s, TailsFrame c t s → ∀ k key' e', s.1.index.get? k = some key' →
      s.1.head.get? key' = some e' → e'.id = k := by
    intro s hs k key' e' hk hget'
    obtain ⟨head, hcore⟩ := hs.core
    rw [hcore] at hk
    obtain ⟨e₀, he₀, rfl⟩ := (hindex k key').mp hk
    have hid := hs.ids key'
    rw [hget', he₀] at hid
    exact Option.some.inj hid
  have hother : ∀ s k, TailsFrame c t s → k ≠ e.id →
      seriesView key e.id (writeTail touched newSeries s k) = seriesView key e.id s := by
    intro s k hs hk
    obtain ⟨heq, -⟩ | ⟨key', e', hindex', hget', -, heq⟩ := writeTail_cases touched newSeries s k
    · rw [heq]
    · have hne : key' ≠ key := by
        rintro rfl
        have hid := hs.ids key'
        rw [hget', hget] at hid
        exact hk ((hkeys s hs k key' e' hindex' hget').symm.trans (Option.some.inj hid))
      rw [heq]
      simp only [seriesView, Table.get?_insert, if_neg hne, if_neg hk]
      split_ifs
      · rw [Table.get?_insert_of_ne _ _ hne]
      · rfl
  have hself : ∀ s, TailsFrame c t s →
      seriesView key e.id s = (some e, t.tails.get? e.id, t.series.get? e.id,
        t.seriesKey.get? key) →
      seriesView key e.id (writeTail touched newSeries s e.id) =
        if e.dirty = true ∨ e.id ∈ touched then
          (some { e with dirty := false }, some e.state.toTail,
            some ⟨key, e.state.kind, e.lastSpans⟩,
            if e.id ∈ newSeries then some e.id else t.seriesKey.get? key)
        else (some e, t.tails.get? e.id, t.series.get? e.id, t.seriesKey.get? key) := by
    intro s hs hview
    simp only [seriesView, Prod.mk.injEq] at hview
    obtain ⟨hhead, htail, hseries, hseriesKey⟩ := hview
    obtain ⟨head, hcore⟩ := hs.core
    have hindex' : s.1.index.get? e.id = some key := by rw [hcore]; exact hkey
    obtain ⟨heq, hskip⟩ | ⟨key', e', hindex'', hget', hwrite, heq⟩ :=
      writeTail_cases touched newSeries s e.id
    · rw [if_neg (hskip key e hindex' hhead), heq, seriesView, hhead, htail, hseries, hseriesKey]
    · obtain rfl : key = key' := Option.some.inj (hindex'.symm.trans hindex'')
      obtain rfl : e = e' := Option.some.inj (hhead.symm.trans hget')
      rw [if_pos hwrite, heq]
      simp only [seriesView, Table.get?_insert_self, Prod.mk.injEq, true_and]
      split_ifs
      · exact Table.get?_insert_self _ _ _
      · exact hseriesKey
  rw [foldl_view (fun s k hs => hs.writeTail touched newSeries k) hother hself hnodup hframe
    (by rw [seriesView, hget])]
  split_ifs <;> simp_all

/-! ### Pending copies dropped -/

/-- What `clearPending` leaves alone. -/
structure PendingFrame (c s : Core) : Prop where
  core : ∃ head, s = { c with head }
  ids : ∀ key, (s.head.get? key).map HeadEntry.id = (c.head.get? key).map HeadEntry.id

theorem clearPending_cases (c : Core) (id : SeriesId) :
    clearPending c id = c ∧ (∀ key, c.index.get? id = some key → c.head.get? key = none) ∨
      ∃ key e, c.index.get? id = some key ∧ c.head.get? key = some e ∧
        clearPending c id = { c with head := c.head.insert key { e with pending := [] } } := by
  rw [clearPending]
  cases hindex : c.index.get? id with
  | none => exact .inl ⟨rfl, by simp⟩
  | some key =>
      cases hhead : c.head.get? key with
      | none => exact .inl ⟨by simp [hhead], fun key' hkey => Option.some.inj hkey ▸ hhead⟩
      | some e => exact .inr ⟨key, e, rfl, hhead, by simp [hhead]⟩

theorem PendingFrame.clearPending {c s : Core} (h : PendingFrame c s) (id : SeriesId) :
    PendingFrame c (clearPending s id) := by
  obtain ⟨heq, -⟩ | ⟨key, e, -, hget, heq⟩ := clearPending_cases s id
  · rw [heq]
    exact h
  obtain ⟨head, hcore⟩ := h.core
  rw [heq]
  refine ⟨⟨_, by rw [hcore]⟩, fun k => ?_⟩
  rw [Table.get?_insert, ← h.ids k]
  split_ifs with hk
  · subst hk
    rw [hget]
    rfl
  · rfl

/-- The pending copies of the series whose chunks committed go; nothing else changes. -/
theorem foldl_clearPending (c : Core) {ids : List SeriesId}
    (hindex : ∀ id key, c.index.get? id = some key ↔ ∃ e, c.head.get? key = some e ∧ e.id = id)
    (hnodup : ids.Nodup) :
    ∃ head, ids.foldl clearPending c = { c with head } ∧ ∀ key, head.get? key =
      (c.head.get? key).map fun e => if e.id ∈ ids then { e with pending := [] } else e := by
  have hfold : ∀ (ids : List SeriesId) (s : Core), PendingFrame c s →
      PendingFrame c (ids.foldl clearPending s) := by
    intro ids
    induction ids with
    | nil => exact fun s hs => hs
    | cons id ids ih => exact fun s hs => ih _ (hs.clearPending id)
  have hstart : PendingFrame c c := ⟨⟨_, rfl⟩, fun _ => rfl⟩
  obtain ⟨head, hcore⟩ := (hfold ids c hstart).core
  refine ⟨head, hcore, fun key => ?_⟩
  have hkeys : ∀ s, PendingFrame c s → ∀ k key' e', s.index.get? k = some key' →
      s.head.get? key' = some e' → e'.id = k := by
    intro s hs k key' e' hk hget'
    obtain ⟨head, hcore⟩ := hs.core
    rw [hcore] at hk
    obtain ⟨e₀, he₀, rfl⟩ := (hindex k key').mp hk
    have hid := hs.ids key'
    rw [hget', he₀] at hid
    exact Option.some.inj hid
  have hview : head.get? key = (ids.foldl clearPending c).head.get? key := by rw [hcore]
  rw [hview]
  cases hget : c.head.get? key with
  | none =>
      have hids := (hfold ids c hstart).ids key
      rw [hget, Option.map_none, Option.map_eq_none_iff] at hids
      rw [hids]
      rfl
  | some e =>
      have hother : ∀ s k, PendingFrame c s → k ≠ e.id →
          (clearPending s k).head.get? key = s.head.get? key := by
        intro s k hs hk
        obtain ⟨heq, -⟩ | ⟨key', e', hindex', hget', heq⟩ := clearPending_cases s k
        · rw [heq]
        · rw [heq]
          refine Table.get?_insert_of_ne _ _ ?_
          rintro rfl
          have hid := hs.ids key'
          rw [hget', hget] at hid
          exact hk ((hkeys s hs k key' e' hindex' hget').symm.trans (Option.some.inj hid))
      have hself : ∀ s, PendingFrame c s → s.head.get? key = some e →
          (clearPending s e.id).head.get? key = some { e with pending := [] } := by
        intro s hs hhead
        obtain ⟨head, hcore⟩ := hs.core
        have hkey : s.index.get? e.id = some key := by
          rw [hcore]
          exact (hindex e.id key).mpr ⟨e, hget, rfl⟩
        obtain ⟨-, hnone⟩ | ⟨key', e', hindex', hget', heq⟩ := clearPending_cases s e.id
        · rw [hnone key hkey] at hhead
          cases hhead
        · obtain rfl : key = key' := Option.some.inj (hkey.symm.trans hindex')
          obtain rfl : e = e' := Option.some.inj (hhead.symm.trans hget')
          rw [heq]
          exact Table.get?_insert_self _ _ _
      rw [foldl_view (fun s k hs => hs.clearPending k) hother hself hnodup hstart hget,
        Option.map_some]
      split_ifs
      · rfl
      · rfl

end Writer

end MonitoringAgent.HubStore

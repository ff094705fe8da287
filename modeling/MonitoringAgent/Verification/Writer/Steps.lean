import MonitoringAgent.Verification.Writer.Commit

/-! # The writer's invariant across appends, sweeps and opens -/

namespace MonitoringAgent.HubStore

open MonitoringAgent.Library

/-! ### One series changed in place -/

theorem loggedOf_map (points : List RawPoint) (id other : SeriesId) :
    loggedOf (points.map fun p => ⟨id, p.ts, p.value⟩) other =
      if id = other then points else [] := by
  rw [loggedOf, List.map_map]
  exact select_map_pair id other points

theorem ValueKind.InDomain.isI64 {kind : ValueKind} {value : ℤ} (h : kind.InDomain value) :
    IsI64 value := by
  obtain ⟨hlow, hhigh⟩ := h
  have hmax : kind.maxScaled < 2 ^ 63 := by cases kind <;> decide
  exact ⟨by omega, by omega⟩

namespace WriterInv

variable {w : Writer} {l : Ledger} {accepted : SeriesKey → List RawPoint} {key : SeriesKey}
  {e : HeadEntry}

/-- A series of the head takes `points` and seals `chunks`: it is dirty if it took any. -/
theorem putEntry (h : WriterInv w l accepted) (hget : w.core.head.get? key = some e)
    {state : SeriesState} {dirty : Bool} {chunks : List Sealed} {points : List RawPoint}
    (hkind : state.kind = e.state.kind) (hdirty : dirty = true ∨ dirty = e.dirty ∧ points = [])
    (hentry : EntryInv state (l.stored e.id ++ select w.core.sealed e.id ++ chunks)
      (accepted key ++ points) w.core.clock)
    (hpoints : ∀ p ∈ points, w.db.meta.clock ≤ p.ts ∧ p.ts ≤ w.core.clock ∧ p.ts < 2 ^ 64 ∧
      IsI64 p.value) :
    WriterInv
      { w with core := { w.core.putEntry key { e with state, dirty } chunks with
          points := w.core.points ++ points.map fun p => ⟨e.id, p.ts, p.value⟩ } }
      l (Function.update accepted key (accepted key ++ points)) := by
  have hhead := h.head.putEntry hget dirty hentry (by
    intro q hq
    rcases List.mem_append.mp hq with hq | hq
    · exact h.head.times key q hq
    · exact (hpoints q hq).2.1)
  have hback : ∀ k e', (w.core.putEntry key { e with state, dirty } chunks).head.get? k = some e' →
      k = key ∧ e' = Core.kept { e with state, dirty } chunks ∨
        k ≠ key ∧ w.core.head.get? k = some e' := by
    intro k e' hk
    rw [Core.putEntry_head] at hk
    split_ifs at hk with heq
    · exact .inl ⟨heq.symm, (Option.some.inj hk).symm⟩
    · exact .inr ⟨Ne.symm heq, hk⟩
  have hindex := h.head.index_of_get hget
  refine ⟨⟨hhead.index, ?_, ?_, hhead.absent, hhead.touched, hhead.sealed,
    hhead.idLt, hhead.fresh, hhead.nextId⟩, h.file, h.txn, ?_, ?_, ?_, ?_, ?_, ?_, ?_, ?_, h.seq,
    h.bound, h.flushed⟩
  · simpa using hhead.entry
  · simpa using hhead.times
  · intro id record hrecord
    obtain ⟨e', hget', hid, hkind'⟩ := h.recorded id record hrecord
    simp only [Core.putEntry_head]
    split_ifs with heq
    · rw [← heq, hget] at hget'
      obtain rfl := Option.some.inj hget'
      exact ⟨_, rfl, hid, hkind.trans hkind'⟩
    · exact ⟨e', hget', hid, hkind'⟩
  · intro k e' hk hnone
    obtain ⟨hnew, htouched⟩ : e'.id ∈ w.core.newSeries ∧ e'.id ∈ w.core.touched := by
      rcases hback k e' hk with ⟨-, rfl⟩ | ⟨-, hk⟩
      · exact h.unrecorded key e hget hnone
      · exact h.unrecorded k e' hk hnone
    refine ⟨by simpa using hnew, ?_⟩
    exact Core.subset_putEntry_touched w.core { e with state, dirty } chunks key htouched
  · intro id hid
    exact h.newSeries id (by simpa using hid)
  · intro k e' hk hclean
    rcases hback k e' hk with ⟨rfl, rfl⟩ | ⟨hne, hk⟩
    · rcases hdirty with rfl | ⟨rfl, rfl⟩
      · cases hclean
      · rw [Function.update_self, List.append_nil]
        exact h.clean k e hget hclean
    · rw [Function.update_of_ne hne]
      exact h.clean k e' hk hclean
  · intro k e' hk
    simp only [loggedOf_append, loggedOf_map]
    rcases hback k e' hk with ⟨rfl, rfl⟩ | ⟨hne, hk⟩
    · rw [Function.update_self, h.buffered k e hget, Core.kept_id, if_pos rfl, List.append_assoc]
    · have hid : e.id ≠ e'.id := fun hid => hne (h.head.key_unique hk hget hid.symm)
      rw [Function.update_of_ne hne, h.buffered k e' hk, if_neg hid, List.append_nil]
  · intro p hp
    simp only [Core.putEntry_index] at hp ⊢
    rcases List.mem_append.mp hp with hp | hp
    · exact h.points p hp
    · obtain ⟨q, hq, rfl⟩ := List.mem_map.mp hp
      obtain ⟨hlow, -, hhigh, hvalue⟩ := hpoints q hq
      exact ⟨⟨key, hindex⟩, hlow, (h.head.idLt _ _ hindex).trans h.head.nextId, hhigh, hvalue⟩
  · simpa using h.clock
  · simpa using h.nextId

/-! ### Appends -/

/-- A point goes into a series of the head, or is refused and nothing changes. -/
theorem appendEntry (h : WriterInv w l accepted) (hget : w.core.head.get? key = some e)
    {kind : ValueKind} {value : ℤ} {scaled : Scaled}
    (hscaled : kind.checkScaled value = some scaled) (hbound : w.core.clock + 3600 < 2 ^ 64) :
    (∃ refusal, w.core.appendEntry key e kind value scaled w.core.clock =
      (.error refusal, w.core)) ∨
      ∃ c, w.core.appendEntry key e kind value scaled w.core.clock = (.ok (), c) ∧
        WriterInv { w with core := c } l
          (Function.update accepted key (accepted key ++ [⟨w.core.clock, value⟩])) ∧
        c.clock = w.core.clock ∧ c.points.length = w.core.points.length + 1 := by
  rw [Core.appendEntry]
  split_ifs with hkind
  · exact .inl ⟨_, rfl⟩
  rw [ne_eq, not_not] at hkind
  cases hafter : e.state.lastTs.any (w.core.clock ≤ ·) with
  | true =>
      rw [SeriesInv.append_refused scaled hafter]
      exact .inl ⟨_, rfl⟩
  | false =>
      obtain ⟨emitted, hok, hentry⟩ :=
        (h.head.entry key e hget).append (hkind ▸ hscaled) hafter le_rfl hbound
      rw [hok]
      refine .inr ⟨_, rfl, ?_, by simp, by simp⟩
      have hput := h.putEntry hget (SeriesState.append_kind _ _ _) (.inl rfl) hentry (by
        intro p hp
        rw [List.mem_singleton.mp hp]
        exact ⟨h.clock, le_rfl, lt_of_le_of_lt (Nat.le_add_right _ _) hbound,
          (ValueKind.checkScaled_eq_some hscaled).1.isI64⟩)
      simpa using hput

/-- A series the head does not hold is not in the file either. -/
theorem seriesKey_none (h : WriterInv w l accepted) (hget : w.core.head.get? key = none) :
    w.db.seriesKey.get? key = none := by
  rw [Option.eq_none_iff_forall_not_mem]
  intro id hid
  obtain ⟨record, hrecord, rfl⟩ := (h.file.key key id).mp hid
  obtain ⟨e, he, -⟩ := h.recorded id record hrecord
  rw [hget] at he
  cases he

/-- A new series enters the head with no point. -/
theorem addEntry (h : WriterInv w l accepted) (hget : w.core.head.get? key = none)
    (kind : ValueKind) (hcap : w.core.nextId + 1 < 2 ^ 32) :
    WriterInv
      { w with core :=
          { w.core with
            nextId := w.core.nextId + 1
            newSeries := insert w.core.nextId w.core.newSeries
            touched := insert w.core.nextId w.core.touched }.addEntry key
                (.fresh w.core.nextId kind) }
      l accepted := by
  have hfresh := h.head.index_fresh (le_refl w.core.nextId)
  have hstored := h.head.fresh w.core.nextId le_rfl
  have haccepted := h.head.absent key hget
  have hhead := h.head.addEntry (.fresh w.core.nextId kind) []
    (insert w.core.nextId w.core.newSeries)
    (insert w.core.nextId w.core.touched) hget hfresh (Nat.le_succ _) (Nat.lt_succ_self _) hcap
    (Finset.subset_insert _ _) (by rw [HeadEntry.fresh, hstored]; exact .new kind _) (by simp)
  rw [← haccepted, Function.update_eq_self] at hhead
  have hback : ∀ k e', (w.core.head.insert key (.fresh w.core.nextId kind)).get? k = some e' →
      k = key ∧ e' = .fresh w.core.nextId kind ∨ k ≠ key ∧ w.core.head.get? k = some e' := by
    intro k e' hk
    rw [Table.get?_insert] at hk
    split_ifs at hk with heq
    · exact .inl ⟨heq.symm, (Option.some.inj hk).symm⟩
    · exact .inr ⟨Ne.symm heq, hk⟩
  refine ⟨hhead, h.file, h.txn, ?_, ?_, ?_, ?_, ?_, ?_, h.clock, h.nextId.trans (Nat.le_succ _),
    h.seq, h.bound, h.flushed⟩
  · intro id record hrecord
    obtain ⟨e', hget', hid, hkind⟩ := h.recorded id record hrecord
    have hne : key ≠ record.key := by
      rintro rfl
      rw [hget] at hget'
      cases hget'
    exact ⟨e', by simp only [Core.addEntry]; rw [Table.get?_insert_of_ne _ _ hne, hget'], hid,
      hkind⟩
  · intro k e' hk hnone
    rcases hback k e' hk with ⟨-, rfl⟩ | ⟨-, hk⟩
    · exact ⟨Finset.mem_insert_self _ _, Finset.mem_insert_self _ _⟩
    · obtain ⟨hnew, htouched⟩ := h.unrecorded k e' hk hnone
      exact ⟨Finset.mem_insert_of_mem hnew, Finset.mem_insert_of_mem htouched⟩
  · intro id hid
    rcases Finset.mem_insert.mp hid with rfl | hid
    · exact (h.unindexed hfresh).1
    · exact h.newSeries id hid
  · intro k e' hk hclean
    rcases hback k e' hk with ⟨-, rfl⟩ | ⟨-, hk⟩
    · cases hclean
    · exact h.clean k e' hk hclean
  · intro k e' hk
    rcases hback k e' hk with ⟨rfl, rfl⟩ | ⟨-, hk⟩
    · rw [haccepted, h.file.absent k (h.seriesKey_none hget), List.nil_append, eq_comm,
        List.eq_nil_iff_forall_not_mem]
      intro q hq
      obtain ⟨p, hp, hid, -⟩ := mem_loggedOf.mp hq
      obtain ⟨⟨k', hk'⟩, -⟩ := h.points p hp
      rw [hid, HeadEntry.fresh, hfresh] at hk'
      cases hk'
    · exact h.buffered k e' hk
  · intro p hp
    obtain ⟨⟨k, hk⟩, hrest⟩ := h.points p hp
    refine ⟨⟨k, ?_⟩, hrest⟩
    have hne : w.core.nextId ≠ p.id := by
      rintro heq
      rw [← heq, hfresh] at hk
      cases hk
    simp only [Core.addEntry, HeadEntry.fresh]
    rw [Table.get?_insert_of_ne _ _ hne, hk]

/-- A series the head does not hold is given an id, until none is left to give. -/
theorem activate (h : WriterInv w l accepted) (hget : w.core.head.get? key = none)
    (kind : ValueKind) :
    w.core.activate w.openTxn key kind = .ok (.error .seriesCapReached, w.core) ∨
      ∃ c e, w.core.activate w.openTxn key kind = .ok (.ok (), c) ∧ c.head.get? key = some e ∧
        WriterInv { w with core := c } l accepted ∧ c.clock = w.core.clock ∧
        c.points = w.core.points := by
  have hinterned : interned w.openTxn key = none := by
    have hkey := h.seriesKey_none hget
    rw [← h.txn.seriesKey] at hkey
    simp [interned, hkey]
  rw [Core.activate, hinterned]
  split_ifs with hcap
  · exact .inr ⟨_, _, rfl, Table.get?_insert_self _ _ _, h.addEntry hget kind hcap, rfl, rfl⟩
  · exact .inl rfl

/-- What a point adds to the accepted ones of its series. -/
def accept (accepted : SeriesKey → List RawPoint) (key : SeriesKey) (p : RawPoint) :
    Except Rejected Unit → SeriesKey → List RawPoint
  | .ok () => Function.update accepted key (accepted key ++ [p])
  | .error _ => accepted

theorem appendPoint (h : WriterInv w l accepted) (key : SeriesKey) (kind : ValueKind) (value : ℤ)
    (hbound : w.core.clock + 3600 < 2 ^ 64) :
    ∃ answer c, w.core.appendPoint w.openTxn key kind value w.core.clock = .ok (answer, c) ∧
      WriterInv { w with core := c } l (accept accepted key ⟨w.core.clock, value⟩ answer) ∧
      c.clock = w.core.clock ∧ c.points.length ≤ w.core.points.length + 1 := by
  rw [Core.appendPoint]
  cases hscaled : kind.checkScaled value with
  | none => exact ⟨_, _, rfl, h, rfl, Nat.le_succ _⟩
  | some scaled =>
      have happend : ∀ (c : Core) (e : HeadEntry), c.head.get? key = some e →
          WriterInv { w with core := c } l accepted → c.clock = w.core.clock →
          c.points = w.core.points →
          ∃ answer c', c.appendEntry key e kind value scaled w.core.clock = (answer, c') ∧
            WriterInv { w with core := c' } l (accept accepted key ⟨w.core.clock, value⟩ answer) ∧
            c'.clock = w.core.clock ∧ c'.points.length ≤ w.core.points.length + 1 := by
        intro c e hget hc hclock hpoints
        obtain ⟨refusal, heq⟩ | ⟨c', heq, hc', hclock', hlen⟩ :=
          hc.appendEntry hget hscaled (by rw [hclock]; exact hbound)
        · simp only [hclock] at heq
          exact ⟨_, c, heq, hc, hclock, by rw [hpoints]; exact Nat.le_succ _⟩
        · simp only [hclock] at heq hc' hclock'
          exact ⟨_, c', heq, hc', hclock', by rw [hlen, hpoints]⟩
      cases hget : w.core.head.get? key with
      | some e =>
          obtain ⟨answer, c, heq, hc⟩ := happend w.core e hget h rfl rfl
          refine ⟨answer, c, ?_, hc⟩
          simp [Table.contains, hget, heq]
      | none =>
          obtain heq | ⟨c, e, heq, hget', hc, hclock, hpoints⟩ := h.activate hget kind
          · refine ⟨.error .seriesCapReached, w.core, ?_, h, rfl, Nat.le_succ _⟩
            simp [Table.contains, hget, heq]
          · obtain ⟨answer, c', heq', hc'⟩ := happend c e hget' hc hclock hpoints
            refine ⟨answer, c', ?_, hc'⟩
            simp [Table.contains, hget, heq, hget', heq']

end WriterInv

/-- The points of an append that were accepted, under their series. -/
def acceptedOf (system : List UInt8) (generation : ℕ) («at» : ℕ)
    (answered : List (IncomingPoint × Except Rejected Unit)) : List (SeriesKey × RawPoint) :=
  answered.filterMap fun (p, answer) =>
    match answer with
    | .ok () => some (⟨system, generation, p.metric⟩, ⟨«at», p.value⟩)
    | .error _ => none

theorem acceptedOf_cons (system : List UInt8) (generation : ℕ) («at» : ℕ)
    (a : IncomingPoint × Except Rejected Unit)
    (answered : List (IncomingPoint × Except Rejected Unit)) :
    acceptedOf system generation «at» (a :: answered) =
      acceptedOf system generation «at» [a] ++ acceptedOf system generation «at» answered :=
  List.filterMap_append (l := [a])

theorem select_concat (xs : List (SeriesKey × RawPoint)) (key : SeriesKey) (p : RawPoint) :
    select (xs ++ [(key, p)]) = Function.update (select xs) key (select xs key ++ [p]) := by
  funext k
  by_cases hk : k = key
  · subst hk
    simp [select_cons]
  · rw [select_append, select_cons, if_neg (Ne.symm hk), Function.update_of_ne hk]
    exact List.append_nil _

namespace WriterInv

variable {w : Writer} {l : Ledger} {accepted : SeriesKey → List RawPoint}

/-- Every point of an append is accepted or refused, one after another. -/
theorem appendEach {accepted : List (SeriesKey × RawPoint)} (h : WriterInv w l (select accepted))
    (system : List UInt8) (generation : ℕ) (points : List IncomingPoint)
    (hbound : w.core.clock + 3600 < 2 ^ 64) :
    ∃ answers c, w.core.appendEach w.openTxn system generation w.core.clock points =
      .ok (answers, c) ∧
      WriterInv { w with core := c } l
        (select (accepted ++ acceptedOf system generation w.core.clock (points.zip answers))) ∧
      c.clock = w.core.clock ∧ c.points.length ≤ w.core.points.length + points.length := by
  induction points generalizing w accepted with
  | nil => exact ⟨[], w.core, rfl, by simpa [acceptedOf] using h, rfl, le_rfl⟩
  | cons p points ih =>
      obtain ⟨answer, c, heq, hc, hclock, hlen⟩ :=
        h.appendPoint ⟨system, generation, p.metric⟩ p.kind p.value hbound
      have haccept : accept (select accepted) ⟨system, generation, p.metric⟩ ⟨w.core.clock, p.value⟩
          answer = select (accepted ++ acceptedOf system generation w.core.clock
            [(p, answer)]) := by
        cases answer with
        | ok _ => exact (select_concat _ _ _).symm
        | error _ => simp [accept, acceptedOf]
      rw [haccept] at hc
      obtain ⟨answers, c', heq', hc', hclock', hlen'⟩ := ih hc (by simpa [hclock] using hbound)
      simp only [hclock] at heq' hc' hclock' hlen'
      refine ⟨answer :: answers, c', ?_, ?_, hclock', ?_⟩
      · have hopen : ({ w with core := c } : Writer).openTxn = w.openTxn := rfl
        rw [hopen] at heq'
        simp only [Core.appendEach, heq, except_ok_bind, heq']
      · rw [List.zip_cons_cons, acceptedOf_cons, ← List.append_assoc]
        exact hc'
      · simp only [List.length_cons]
        omega

theorem hubNow (h : WriterInv w l accepted) (systemNow : ℕ) :
    WriterInv { w with core := (w.core.hubNow systemNow).2 } l accepted :=
  ⟨h.head.mono (le_max_left _ _) fun _ _ _ => le_max_left _ _, h.file, h.txn, h.recorded,
    h.unrecorded, h.newSeries, h.clean, h.buffered, h.points, h.clock.trans (le_max_left _ _),
    h.nextId, h.seq, h.bound, h.flushed⟩

/-- The interval's transaction begins as the file is. -/
theorem begin (h : WriterInv w l accepted) :
    WriterInv { w with txn := some w.openTxn } l accepted :=
  ⟨h.head, h.file, h.txn, h.recorded, h.unrecorded, h.newSeries, h.clean, h.buffered, h.points,
    h.clock, h.nextId, h.seq, h.bound, h.flushed⟩

/-- An append never fails: its points go into the head and the buffer, or are refused. -/
theorem append {accepted : List (SeriesKey × RawPoint)} (h : WriterInv w l (select accepted))
    (system : List UInt8) (generation : ℕ) (points : List IncomingPoint) (systemNow : ℕ)
    (hbound : max w.core.clock systemNow + 3600 < 2 ^ 64) :
    ∃ answers c,
      (w.core.hubNow systemNow).2.appendEach w.openTxn system generation
        (max w.core.clock systemNow)
        points = .ok (answers, c) ∧
      w.append system generation points systemNow =
        .ok (.of (max w.core.clock systemNow) (points.zip answers),
          { w with core := c, txn := some w.openTxn }) ∧
      WriterInv { w with core := c, txn := some w.openTxn } l
        (select (accepted ++
          acceptedOf system generation (max w.core.clock systemNow) (points.zip answers))) ∧
      c.clock = max w.core.clock systemNow ∧
      c.points.length ≤ w.core.points.length + points.length := by
  obtain ⟨answers, c, heq, hc, hclock, hlen⟩ :=
    (h.begin.hubNow systemNow).appendEach system generation points hbound
  have heach : (w.core.hubNow systemNow).2.appendEach w.openTxn system generation
      (max w.core.clock systemNow) points = .ok (answers, c) := heq
  refine ⟨answers, c, heach, ?_, hc, hclock, hlen⟩
  simp only [Core.hubNow] at heach
  simp only [Writer.append, Core.appendPoints, Core.hubNow, heach, except_ok_bind]

end WriterInv

/-! ### Sweeps and opens -/

namespace Core

variable (now : ℕ) (c : Core) (key : SeriesKey)

theorem sweepEntry_frame :
    (sweepEntry now c key).clock = c.clock ∧ (sweepEntry now c key).points = c.points ∧
      (sweepEntry now c key).index = c.index := by
  rw [sweepEntry]
  split
  · exact ⟨rfl, rfl, rfl⟩
  · simp

theorem sweep_frame :
    (c.sweep now).clock = c.clock ∧ (c.sweep now).points = c.points ∧
    (c.sweep now).index = c.index := by
  rw [sweep]
  generalize c.head.keys = keys
  induction keys generalizing c with
  | nil => exact ⟨rfl, rfl, rfl⟩
  | cons key keys ih =>
      obtain ⟨hclock, hpoints, hindex⟩ := sweepEntry_frame now c key
      obtain ⟨hclock', hpoints', hindex'⟩ := ih (sweepEntry now c key)
      exact ⟨hclock'.trans hclock, hpoints'.trans hpoints, hindex'.trans hindex⟩

end Core

namespace WriterInv

variable {w : Writer} {l : Ledger} {accepted : SeriesKey → List RawPoint}

theorem sweepEntry (h : WriterInv w l accepted) (key : SeriesKey) :
    WriterInv { w with core := Core.sweepEntry w.core.clock w.core key } l accepted := by
  rw [Core.sweepEntry]
  split
  · exact h
  next e hget =>
    have hentry := (h.head.entry key e hget).sweep
    rw [← List.append_nil (accepted key)] at hentry
    have hdirty : e.dirty = true ∨ e.dirty = e.dirty ∧ ([] : List RawPoint) = [] := .inr ⟨rfl, rfl⟩
    have hkind : ((e.state.sweep w.core.clock).2.sealClosed w.core.clock).2.kind =
      e.state.kind := rfl
    have hput := h.putEntry hget hkind hdirty hentry (by simp)
    rw [List.append_nil, Function.update_eq_self, List.map_nil, List.append_nil] at hput
    rw [Core.putEntry_eq] at hput
    change WriterInv { w with core := w.core.putEntry key _ _ } l accepted
    rw [Core.putEntry_eq]
    exact hput

/-- A sweep changes no accepted point. -/
theorem sweepKeys (h : WriterInv w l accepted) (keys : List SeriesKey) :
    WriterInv { w with core := keys.foldl (Core.sweepEntry w.core.clock) w.core } l accepted := by
  induction keys generalizing w with
  | nil => exact h
  | cons key keys ih =>
      have hrest := ih (h.sweepEntry key)
      simp only [Core.sweepEntry_frame] at hrest
      exact hrest

theorem sweep (h : WriterInv w l accepted) (systemNow : ℕ) :
    WriterInv (w.sweep systemNow) l accepted :=
  (h.hubNow systemNow).sweepKeys _

end WriterInv

/-- The store opened from its file holds every committed point, and nothing else. -/
theorem FileInv.open {t : Tables} {l : Ledger} (h : FileInv t l) (systemNow : ℕ) :
    ∃ w, Writer.open t systemNow = .ok w ∧ WriterInv w l l.committed ∧ w.db = t ∧ w.txn = none ∧
      w.core.clock = max t.meta.clock systemNow ∧ w.core.points = [] := by
  obtain ⟨c, hrecover, hc, hindex⟩ := h.recover
  have hhead : HeadInv c (fun _ => c.clock) l.stored l.committed := by
    refine hc.head.mono le_rfl fun id key hid => ?_
    obtain ⟨e, hget, rfl⟩ := (hc.head.index id key).mp hid
    obtain ⟨record, hrecord, -⟩ := hc.record key e hget
    rw [hc.clock]
    exact (h.series e.id record hrecord).clock
  have hstart : WriterInv (Writer.new c t t.meta.commitSeq) l l.committed := by
    refine ⟨hhead, h, ⟨rfl, rfl, rfl, rfl, rfl⟩, ?_, ?_, ?_, ?_, ?_, ?_, hc.clock.ge, hc.nextId.ge,
      rfl, ⟨Nat.zero_le _, le_rfl⟩, ?_⟩
    · intro id record hrecord
      obtain ⟨e, hget, rfl⟩ := (hc.head.index id record.key).mp (hindex id record hrecord)
      obtain ⟨record', hrecord', -, hkind⟩ := hc.record record.key e hget
      exact ⟨e, hget, rfl, by rw [← hkind, Option.some.inj (hrecord'.symm.trans hrecord)]⟩
    · intro key e hget hnone
      obtain ⟨record, hrecord, -⟩ := hc.record key e hget
      exact absurd (hrecord.symm.trans hnone) (Option.some_ne_none _)
    · intro id hid
      rw [show (Writer.new c t t.meta.commitSeq).core.newSeries = ∅ from hc.newSeries] at hid
      exact absurd hid (Finset.notMem_empty id)
    · intro key e hget hclean
      obtain ⟨record, hrecord, -⟩ := hc.record key e hget
      exact ⟨hrecord ▸ Option.some_ne_none _, (hc.clean key e hget hclean).symm⟩
    · intro key e hget
      rw [show (Writer.new c t t.meta.commitSeq).core.points = [] from hc.points]
      exact (List.append_nil _).symm
    · intro p hp
      rw [show (Writer.new c t t.meta.commitSeq).core.points = [] from hc.points] at hp
      exact absurd hp List.not_mem_nil
    · intro seq bytes hbytes p hp hpassed
      obtain ⟨-, points, hdecode, hpoints⟩ := h.log seq bytes hbytes
      rw [entryPoints, hdecode] at hp
      obtain ⟨record, hrecord⟩ := hpoints p hp
      rcases hpassed with hlt | ⟨-, hqueue⟩
      · exact absurd hlt (Nat.not_lt_zero _)
      · refine absurd ?_ hqueue
        rw [Writer.new, Rotation.start, List.drop_zero, List.mem_mergeSort, Table.mem_keys]
        exact ⟨_, hindex p.id record hrecord⟩
  have hsweep := hstart.sweep systemNow
  obtain ⟨hclock, hpoints, hindex'⟩ := Core.sweep_frame (max c.clock systemNow)
    (c.hubNow systemNow).2
  have hopen : Writer.open t systemNow =
      .ok ((Writer.new c t t.meta.commitSeq).sweep systemNow) := by
    rw [Writer.open, hrecover, except_ok_bind]
    simp only [Writer.new, Writer.sweep, Core.hubNow] at hindex' ⊢
    rw [hindex']
  exact ⟨_, hopen, hsweep, rfl, rfl, hclock.trans (by rw [← hc.clock]; rfl),
    hpoints.trans hc.points⟩

end MonitoringAgent.HubStore

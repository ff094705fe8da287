import MonitoringAgent.Model.Store.Scan

/-! # A bounded or seeking scan misses nothing

The pass scans `chunks` a batch per commit, whatever the commits between do to it; the open seeks
from span to span. Both find what one scan of the whole table would. -/

namespace MonitoringAgent.HubStore

open MonitoringAgent.Library

/-! ### One batch -/

namespace StoredChunks

variable {chunks : StoredChunks} {start : StoredChunkKey} {limit : ℕ}

theorem visit_fst (hword : limit < 2 ^ 64) :
    (chunks.visit start limit).1 = (scanStep limit chunks start).1 := by
  have hmin : min limit (min (limit + 1) (2 ^ 64 - 1)) = limit := by omega
  rw [visit, List.splitAt_eq, min_comm (List.length _) limit, ← List.take_eq_take_min,
    List.take_take, hmin, scanStep]

theorem visit_snd (hword : limit < 2 ^ 64)
    (hsize : limit + 1 = 2 ^ 64 → chunks.entries.length < 2 ^ 64) :
    (chunks.visit start limit).2.head? = (scanStep limit chunks start).2 := by
  rw [visit, List.splitAt_eq, min_comm (List.length _) limit, ← List.drop_eq_drop_min,
    List.drop_take, scanStep]
  by_cases hlast : limit + 1 < 2 ^ 64
  · have hone : min (limit + 1) (2 ^ 64 - 1) - limit = 1 := by omega
    rw [hone]
    cases (chunks.keysFrom start).drop limit with
    | nil => rfl
    | cons next rest => rfl
  · have hlength : (chunks.keysFrom start).length < 2 ^ 64 := by
      refine (List.length_filter_le _ _).trans_lt ?_
      rw [Table.keys, List.length_map]
      exact hsize (by omega)
    have hnil : (chunks.keysFrom start).drop limit = [] := List.drop_eq_nil_of_le (by omega)
    rw [hnil, List.take_nil]

theorem deleteDeadChunks_fst (hword : limit < 2 ^ 64)
    (hsize : limit + 1 = 2 ^ 64 → chunks.entries.length < 2 ^ 64)
    (fate : StoredChunkKey → ChunkFate) : (chunks.deleteDeadChunks start limit fate).1 =
      match (scanStep limit chunks start).2 with
      | some next => .more next
      | none => .done := by
  rw [← visit_snd hword hsize]
  rfl

theorem get?_deleteDeadChunks (fate : StoredChunkKey → ChunkFate) (key : StoredChunkKey) :
    (chunks.deleteDeadChunks start limit fate).2.get? key =
      if key ∈ (chunks.visit start limit).1 ∧ fate key = .delete then none
        else chunks.get? key := by
  have hmem : key ∈ (chunks.visit start limit).1.filter (fun key => fate key = .delete) ↔
      key ∈ (chunks.visit start limit).1 ∧ fate key = .delete := by
    rw [List.mem_filter, decide_eq_true_eq]
  rw [deleteDeadChunks, Table.get?_foldl_erase]
  exact if_congr hmem rfl rfl

end StoredChunks

/-! ### The batches of one scan -/

namespace Resumed

variable {limit : ℕ} {fate : ℕ → StoredChunkKey → ChunkFate} {chunks : ℕ → StoredChunks}

theorem scanAt_eq (hword : limit < 2 ^ 64)
    (hsize : limit + 1 = 2 ^ 64 → ∀ n, (chunks n).entries.length < 2 ^ 64) (n : ℕ) :
    scanAt limit fate chunks n = match position limit chunks .first n with
      | some next => .more next
      | none => .done := by
  induction n with
  | zero => rfl
  | succ n ih =>
      rw [scanAt, ih, position]
      cases position limit chunks .first n with
      | none => rfl
      | some start => exact StoredChunks.deleteDeadChunks_fst hword (fun hlast =>
          hsize hlast n) (fate n)

theorem scanAt_eq_done (hword : limit < 2 ^ 64)
    (hsize : limit + 1 = 2 ^ 64 → ∀ n, (chunks n).entries.length < 2 ^ 64) {n : ℕ} :
    scanAt limit fate chunks n = .done ↔ position limit chunks .first n = none := by
  rw [scanAt_eq hword hsize]
  cases position limit chunks .first n with
  | none => exact ⟨fun _ => rfl, fun _ => rfl⟩
  | some start => exact ⟨nofun, nofun⟩

theorem judged_eq (hword : limit < 2 ^ 64)
    (hsize : limit + 1 = 2 ^ 64 → ∀ n, (chunks n).entries.length < 2 ^ 64) (n : ℕ) :
    judged limit fate chunks n = visited limit chunks .first n := by
  rw [judged, visited, scanAt_eq hword hsize]
  cases position limit chunks .first n with
  | none => rfl
  | some start => exact StoredChunks.visit_fst hword

/-- A step deletes what it gives the fate to be deleted, and nothing else. -/
theorem get?_left (n : ℕ) (key : StoredChunkKey) : (left limit fate chunks n).get? key =
    if key ∈ judged limit fate chunks n ∧ fate n key = .delete then none
      else (chunks n).get? key := by
  rw [left, judged]
  cases scanAt limit fate chunks n with
  | more start => exact StoredChunks.get?_deleteDeadChunks (fate n) key
  | done => rw [if_neg fun h => List.not_mem_nil h.1]

theorem mem_keys_left {n : ℕ} {key : StoredChunkKey} (h : key ∈ (left limit fate chunks n).keys) :
    key ∈ (chunks n).keys := by
  obtain ⟨bytes, hbytes⟩ := Table.mem_keys.mp h
  rw [get?_left] at hbytes
  split_ifs at hbytes
  exact Table.mem_keys.mpr ⟨bytes, hbytes⟩

theorem mem_keys_left_of_not_judged {n : ℕ} {key : StoredChunkKey} (h : key ∈ (chunks n).keys)
    (hjudged : key ∉ judged limit fate chunks n) : key ∈ (left limit fate chunks n).keys := by
  obtain ⟨bytes, hbytes⟩ := Table.mem_keys.mp h
  refine Table.mem_keys.mpr ⟨bytes, ?_⟩
  rwa [get?_left, if_neg fun h => hjudged h.1]

theorem mem_judgedBefore {n : ℕ} {key : StoredChunkKey} :
    key ∈ judgedBefore limit fate chunks n ↔ ∃ j < n, key ∈ judged limit fate chunks j := by
  simp [judgedBefore]

/-- The scan ends: it takes no more steps than the keys it can find fill. -/
theorem scan_ends (hlimit : 0 < limit) (hword : limit < 2 ^ 64)
    (hsize : limit + 1 = 2 ^ 64 → ∀ n, (chunks n).entries.length < 2 ^ 64)
    {inserted : Finset StoredChunkKey}
    (hinserted : ∀ n, ∀ key ∈ (chunks (n + 1)).keys, key ∈ (left limit fate chunks n).keys ∨
      key ∈ inserted) :
    scanAt limit fate chunks (((chunks 0).keys.toFinset ∪ inserted).card / limit + 1) = .done := by
  have hkeys (n : ℕ) : ∀ key ∈ (chunks n).keys, key ∈ (chunks 0).keys.toFinset ∪ inserted := by
    induction n with
    | zero => exact fun key hkey => Finset.mem_union_left _ (List.mem_toFinset.mpr hkey)
    | succ n ih =>
        intro key hkey
        rcases hinserted n key hkey with hleft | hnew
        · exact ih key (mem_keys_left hleft)
        · exact Finset.mem_union_right _ hnew
  exact (scanAt_eq_done hword hsize).mpr (position_eq_none hlimit _ fun n _ _ => hkeys n)

/-- No key is given its fate twice. -/
theorem nodup_judgedBefore (hlimit : 0 < limit) (hword : limit < 2 ^ 64)
    (hsize : limit + 1 = 2 ^ 64 → ∀ n, (chunks n).entries.length < 2 ^ 64) (n : ℕ) :
    (judgedBefore limit fate chunks n).Nodup := by
  refine List.nodup_flatMap.mpr ⟨fun j _ => ?_, ?_⟩
  · rw [judged_eq hword hsize]
    exact nodup_visited
  · refine List.nodup_range.imp fun hne key hi hj => hne ?_
    rw [judged_eq hword hsize] at hi hj
    exact visited_once hlimit hi hj

/-- A key of the table that no other commit removes before the scan is done is given its fate. -/
theorem mem_judgedBefore_of_kept (hword : limit < 2 ^ 64)
    (hsize : limit + 1 = 2 ^ 64 → ∀ n, (chunks n).entries.length < 2 ^ 64) {m : ℕ}
    (hdone : scanAt limit fate chunks m = .done) {key : StoredChunkKey}
    (hkey : key ∈ (chunks 0).keys)
    (hkept : ∀ n < m, key ∈ (left limit fate chunks n).keys → key ∈ (chunks (n + 1)).keys) :
    key ∈ judgedBefore limit fate chunks m := by
  obtain _ | m := m
  · cases hdone
  have hfound : ∀ n ≤ m, (∀ j < n, key ∉ visited limit chunks .first j) →
      key ∈ (chunks n).keys := by
    intro n
    induction n with
    | zero => exact fun _ _ => hkey
    | succ n ih =>
        intro hn hbefore
        refine hkept n (by omega)
          (mem_keys_left_of_not_judged (ih (by omega) fun j hj => hbefore j (by omega)) ?_)
        rw [judged_eq hword hsize]
        exact hbefore n (by omega)
  obtain ⟨n, hn, hvisited⟩ :=
    exists_visited ((scanAt_eq_done hword hsize).mp hdone) (StoredChunkKey.first_le key) hfound
  refine mem_judgedBefore.mpr ⟨n, by omega, ?_⟩
  rwa [judged_eq hword hsize]

/-- With no other commit the scan leaves what one filter of the whole table would. -/
theorem scan_alone (hword : limit < 2 ^ 64)
    (hsize : limit + 1 = 2 ^ 64 → ∀ n, (chunks n).entries.length < 2 ^ 64)
    (hfate : ∀ n, fate n = fate 0) (halone : ∀ n, chunks (n + 1) = left limit fate chunks n) {m : ℕ}
    (hdone : scanAt limit fate chunks m = .done) :
    chunks m = (chunks 0).filter fun key _ => fate 0 key = .keep := by
  have hget (key : StoredChunkKey) (n : ℕ) : (chunks n).get? key =
      if key ∈ judgedBefore limit fate chunks n ∧ fate 0 key = .delete then none
        else (chunks 0).get? key := by
    induction n with
    | zero => rw [judgedBefore, List.range_zero, List.flatMap_nil,
        if_neg fun h => List.not_mem_nil h.1]
    | succ n ih =>
        have hbefore : key ∈ judgedBefore limit fate chunks (n + 1) ↔
            key ∈ judgedBefore limit fate chunks n ∨ key ∈ judged limit fate chunks n := by
          rw [judgedBefore, List.range_succ, List.flatMap_append, List.mem_append,
            List.flatMap_singleton]
          rfl
        rw [halone n, get?_left, ih, hfate n]
        by_cases hdelete : fate 0 key = .delete
        · by_cases hnow : key ∈ judged limit fate chunks n
          · simp [hbefore, hnow, hdelete]
          · simp [hbefore, hnow, hdelete]
        · simp [hdelete]
  refine Table.ext fun key => ?_
  rw [hget key m, Table.get?_filter]
  cases hkey : (chunks 0).get? key with
  | none => simp
  | some bytes =>
      have hjudged := mem_judgedBefore_of_kept hword hsize hdone (Table.mem_keys.mpr ⟨bytes, hkey⟩)
          fun n _ hleft =>
        (halone n).symm ▸ hleft
      cases hdead : fate 0 key with
      | keep => simp only [reduceCtorEq, and_false, if_false, decide_true,
          Option.filter_some, if_true]
      | delete => simp [hjudged]

end Resumed

/-! ### The spans found by seeking -/

namespace StoredChunkKey

variable {a b : StoredChunkKey}

/-- Up to where the seek goes on, every key is of the span found. -/
theorem spanKey_eq_of_le (hle : a ≤ b) (hlt : ∀ next, a.pastSpan = some next → b < next) :
    b.spanKey = a.spanKey := by
  change a.fields ≤ b.fields at hle
  have hspan : b.tier.val = a.tier.val ∧ b.span.val = a.span.val := by
    rw [pastSpan] at hlt
    simp only [fields, Prod.Lex.toLex_le_toLex] at hle
    split_ifs at hlt with hspan htier
    · have hlt := hlt _ rfl
      simp only [lt_iff, fields, Prod.Lex.toLex_lt_toLex, Fin.val_zero, Nat.not_lt_zero,
        and_false, or_false] at hlt
      omega
    · have hlt := hlt _ rfl
      simp only [lt_iff, fields, Prod.Lex.toLex_lt_toLex, Fin.val_zero, Nat.not_lt_zero,
        and_false, or_false] at hlt
      omega
    · omega
  rw [spanKey, spanKey, hspan.1, hspan.2]

end StoredChunkKey

namespace StoredChunks

/-- The spans of the keys, read one after another. -/
def spansOf (keys : List StoredChunkKey) (spans : Finset SpanKey) :
    Except KeyError (Finset SpanKey) :=
  keys.foldlM (fun spans key => key.spanKey.map (insert · spans)) spans

theorem spansOf_cons (key : StoredChunkKey) (keys : List StoredChunkKey) (spans : Finset SpanKey) :
    spansOf (key :: keys) spans = match key.spanKey with
      | .error e => .error e
      | .ok span => spansOf keys (insert span spans) := by
  rw [spansOf, List.foldlM_cons]
  cases key.spanKey with
  | error e => rfl
  | ok span => rfl

/-- The keys of one span add it, and it only. -/
theorem spansOf_append_same {keys rest : List StoredChunkKey} {span : SpanKey}
    {spans : Finset SpanKey} (hne : keys ≠ []) (hkeys : ∀ key ∈ keys, key.spanKey = .ok span) :
    spansOf (keys ++ rest) spans = spansOf rest (insert span spans) := by
  induction keys generalizing spans with
  | nil => exact absurd rfl hne
  | cons key keys ih =>
      rw [List.cons_append, spansOf_cons, hkeys key List.mem_cons_self]
      cases keys with
      | nil => rfl
      | cons other keys =>
          dsimp only
          rw [ih (List.cons_ne_nil _ _) fun key hkey => hkeys key (List.mem_cons_of_mem _ hkey),
            Finset.insert_idem]

/-- The seek finds the spans a read of every key would, and stops at the same error. -/
theorem spansFrom_eq (chunks : StoredChunks) (start : StoredChunkKey) (spans : Finset SpanKey) :
    chunks.spansFrom start spans = spansOf (chunks.keysFrom start) spans := by
  fun_induction spansFrom chunks start spans with
  | case1 start spans hfirst =>
      rw [List.head?_eq_none_iff.mp hfirst]
      rfl
  | case2 start spans key hfirst e hkey =>
      obtain ⟨rest, hrest⟩ := List.head?_eq_some_iff.mp hfirst
      rw [hrest, spansOf_cons, hkey]
  | case3 start spans key hfirst span hkey hnext =>
      have hsame : ∀ other ∈ chunks.keysFrom start, other.spanKey = .ok span := fun other hother =>
        hkey ▸ StoredChunkKey.spanKey_eq_of_le (Table.head?_keysFrom_le hfirst hother)
          (by rw [hnext]; nofun)
      have hne := List.ne_nil_of_mem (List.mem_of_mem_head? hfirst)
      rw [← List.append_nil (chunks.keysFrom start), spansOf_append_same hne hsame]
      rfl
  | case4 start spans key hfirst span hkey next hnext ih =>
      have hpast := StoredChunkKey.lt_pastSpan hnext
      have hstart := (Table.mem_keysFrom.mp (List.mem_of_mem_head? hfirst)).2
      have hsame : ∀ other ∈ (chunks.keysFrom start).filter (· < next),
          other.spanKey = .ok span := by
        intro other hother
        obtain ⟨hother, hlt⟩ := List.mem_filter.mp hother
        refine hkey ▸ StoredChunkKey.spanKey_eq_of_le (Table.head?_keysFrom_le hfirst hother)
          fun _ hpast => ?_
        obtain rfl := Option.some.inj (hnext.symm.trans hpast)
        exact of_decide_eq_true hlt
      have hrun : key ∈ (chunks.keysFrom start).filter (· < next) :=
        List.mem_filter.mpr ⟨List.mem_of_mem_head? hfirst, decide_eq_true hpast⟩
      rw [ih, Table.keysFrom_eq_append (t := chunks) (hstart.trans hpast.le),
        spansOf_append_same (List.ne_nil_of_mem hrun) hsame]

theorem keysFrom_first (chunks : StoredChunks) : chunks.keysFrom .first = chunks.keys :=
  List.filter_eq_self.mpr fun key _ => decide_eq_true (StoredChunkKey.first_le key)

theorem spansInRedb_eq (chunks : StoredChunks) : chunks.spansInRedb = spansOf chunks.keys ∅ := by
  rw [spansInRedb, spansFrom_eq, keysFrom_first]

/-- Keys that all name spans are read as those spans; one that names none is an error. -/
theorem spansOf_eq_ok {keys : List StoredChunkKey} {spans found : Finset SpanKey} :
    spansOf keys spans = .ok found ↔ (∀ key ∈ keys, ∃ span, key.spanKey = .ok span) ∧
      ∀ span, span ∈ found ↔ span ∈ spans ∨ ∃ key ∈ keys, key.spanKey = .ok span := by
  induction keys generalizing spans with
  | nil =>
      have hspans : spansOf [] spans = .ok found ↔ spans = found :=
        Except.ok.injEq spans found ▸ Iff.rfl
      rw [hspans, Finset.ext_iff]
      simp [iff_comm]
  | cons key keys ih =>
      rw [spansOf_cons]
      cases hkey : key.spanKey with
      | error e =>
          refine ⟨nofun, fun h => ?_⟩
          obtain ⟨span, hspan⟩ := h.1 key List.mem_cons_self
          rw [hkey] at hspan
          cases hspan
      | ok span =>
          dsimp only
          rw [ih, List.forall_mem_cons, hkey]
          refine and_congr (by simp) (forall_congr' fun other => ?_)
          rw [Finset.mem_insert, List.exists_mem_cons_iff, hkey, Except.ok.injEq,
            eq_comm (a := span), or_left_comm, or_assoc]

/-- Keys that all name spans are read to the end. -/
theorem spansOf_of_all {keys : List StoredChunkKey}
    (h : ∀ key ∈ keys, ∃ span, key.spanKey = .ok span) (spans : Finset SpanKey) :
    ∃ found, spansOf keys spans = .ok found := by
  induction keys generalizing spans with
  | nil => exact ⟨spans, rfl⟩
  | cons key keys ih =>
      obtain ⟨span, hspan⟩ := h key List.mem_cons_self
      rw [spansOf_cons, hspan]
      exact ih (fun key hkey => h key (List.mem_cons_of_mem _ hkey)) _

end StoredChunks

theorem Tier.fromCode_eq_some {code : ℕ} {tier : Tier} :
    Tier.fromCode code = some tier ↔ code = tier.code := by
  constructor
  · intro h
    rw [fromCode] at h
    have hcode := List.find?_some h
    exact (of_decide_eq_true hcode).symm
  · rintro rfl
    cases tier <;> rfl

theorem spanKey_eq_ok {key : StoredChunkKey} {span : SpanKey} : key.spanKey = .ok span ↔
    (key.tier.val = span.tier.code ∧ key.span.val = span.span) ∧
    span.span % span.tier.spanSecs = 0 := by
  rw [StoredChunkKey.spanKey, spanKey, ← Tier.fromCode_eq_some]
  cases Tier.fromCode key.tier.val with
  | none => simp
  | some tier =>
      dsimp only
      rw [SpanStart.new, Option.some.injEq]
      obtain ⟨spanTier, spanStart⟩ := span
      split_ifs with hgrid
      · rw [Except.ok.injEq, SpanKey.mk.injEq]
        exact ⟨fun h => ⟨h, h.1 ▸ h.2 ▸ hgrid⟩, fun h => h.1⟩
      · refine ⟨nofun, ?_⟩
        rintro ⟨⟨rfl, rfl⟩, hmod⟩
        exact absurd hmod hgrid

/-- A key names no span when no tier has its code, or its span is off its tier's grid. -/
theorem spanKey_eq_error {key : StoredChunkKey} : (∃ e, key.spanKey = .error e) ↔
    ∀ tier : Tier, key.tier.val = tier.code → key.span.val % tier.spanSecs ≠ 0 := by
  cases hkey : key.spanKey with
  | error e =>
      refine ⟨fun _ tier htier hgrid => ?_, fun _ => ⟨e, rfl⟩⟩
      have hok : key.spanKey = .ok ⟨tier, key.span.val⟩ := spanKey_eq_ok.mpr ⟨⟨htier, rfl⟩, hgrid⟩
      rw [hkey] at hok
      cases hok
  | ok span =>
      obtain ⟨⟨htier, hspan⟩, hgrid⟩ := spanKey_eq_ok.mp hkey
      exact ⟨nofun, fun h => absurd (hspan ▸ hgrid) (h span.tier htier)⟩

/-- The open reads the spans with chunks, or finds a key that names none. -/
theorem StoredChunks.spansInRedb_spec (chunks : StoredChunks) :
    (∀ found, chunks.spansInRedb = .ok found → ∀ span, span ∈ found ↔
      ∃ key ∈ chunks.keys, key.tier.val = span.tier.code ∧ key.span.val = span.span) ∧
    ((∃ e, chunks.spansInRedb = .error e) ↔
      ∃ key ∈ chunks.keys, ∀ tier : Tier, key.tier.val = tier.code →
        key.span.val % tier.spanSecs ≠ 0) := by
  rw [spansInRedb_eq]
  constructor
  · intro found hfound span
    obtain ⟨hall, hspans⟩ := spansOf_eq_ok.mp hfound
    rw [hspans span, or_iff_right (Finset.notMem_empty span)]
    refine exists_congr fun key => and_congr_right fun hkey =>
      ⟨fun h => (spanKey_eq_ok.mp h).1, fun h => ?_⟩
    obtain ⟨other, hother⟩ := hall key hkey
    obtain ⟨⟨htier, hspan⟩, -⟩ := spanKey_eq_ok.mp hother
    obtain ⟨spanTier, spanStart⟩ := span
    obtain rfl : other.tier = spanTier := Tier.code_injective (htier.symm.trans h.1)
    obtain rfl : other.span = spanStart := hspan.symm.trans h.2
    exact hother
  · simp only [← spanKey_eq_error]
    constructor
    · rintro ⟨e, he⟩
      by_contra hnone
      have hall : ∀ key ∈ chunks.keys, ∃ span, key.spanKey = .ok span := by
        intro key hkey
        cases hspan : key.spanKey with
        | error e => exact absurd ⟨key, hkey, e, hspan⟩ hnone
        | ok span => exact ⟨span, rfl⟩
      obtain ⟨found, hfound⟩ := spansOf_of_all hall ∅
      rw [he] at hfound
      cases hfound
    · rintro ⟨key, hkey, e, he⟩
      cases hfound : spansOf chunks.keys ∅ with
      | error e => exact ⟨e, rfl⟩
      | ok found =>
          obtain ⟨span, hspan⟩ := (spansOf_eq_ok.mp hfound).1 key hkey
          rw [he] at hspan
          cases hspan

theorem StoredChunkKey.spanKey_of_fields {key : StoredChunkKey} {typed : ChunkKey}
    (h : key.fields = typed.fields) (hgrid : typed.span % typed.tier.spanSecs = 0) :
    key.spanKey = .ok typed.spanKey := by
  simp only [fields, ChunkKey.fields, EmbeddingLike.apply_eq_iff_eq, Prod.mk.injEq] at h
  exact spanKey_eq_ok.mpr ⟨⟨h.1, h.2.1⟩, hgrid⟩

/-- Where every key names a span, the seek reads the spans the store waits to hand off. -/
theorem spansInRedb_eq_waiting {chunks : StoredChunks} {typed : List ChunkKey}
    (hkeys : chunks.keys.map StoredChunkKey.fields = typed.map ChunkKey.fields)
    (hgrid : ∀ key ∈ typed, key.span % key.tier.spanSecs = 0) :
    chunks.spansInRedb = .ok (typed.map ChunkKey.spanKey).toFinset := by
  have hstored : ∀ key ∈ chunks.keys, ∃ other, other ∈ typed ∧ key.spanKey = .ok other.spanKey := by
    intro key hkey
    obtain ⟨other, hother, hfields⟩ := List.mem_map.mp (hkeys ▸ List.mem_map_of_mem hkey)
    exact ⟨other, hother, StoredChunkKey.spanKey_of_fields hfields.symm (hgrid other hother)⟩
  rw [StoredChunks.spansInRedb_eq, StoredChunks.spansOf_eq_ok]
  refine ⟨fun key hkey => (hstored key hkey).imp' ChunkKey.spanKey fun _ h => h.2, fun span => ?_⟩
  rw [or_iff_right (Finset.notMem_empty span), List.mem_toFinset, List.mem_map]
  constructor
  · rintro ⟨other, hother, rfl⟩
    obtain ⟨key, hkey, hfields⟩ := List.mem_map.mp (hkeys ▸ List.mem_map_of_mem hother)
    exact ⟨key, hkey, StoredChunkKey.spanKey_of_fields hfields (hgrid other hother)⟩
  · rintro ⟨key, hkey, hspan⟩
    obtain ⟨other, hother, hok⟩ := hstored key hkey
    exact ⟨other, hother, Except.ok.inj (hok.symm.trans hspan)⟩

/-! ### The pass's batch -/

/-- The table as it is stored holds the typed one's entries. -/
def SameEntries (stored : StoredChunks) (typed : Table ChunkKey (List UInt8)) : Prop :=
  stored.entries.map (fun e => (e.1.fields, e.2)) = typed.entries.map fun e => (e.1.fields, e.2)

def StoredScan.next : StoredScan → Option StoredChunkKey
  | .more next => some next
  | .done => none

def Scan.next : Scan → Option ChunkKey
  | .more next => some next
  | .done => none

theorem StoredChunks.deleteDeadChunks_next (stored : StoredChunks) (start : StoredChunkKey)
    (limit : ℕ) (fate : StoredChunkKey → ChunkFate) :
    (stored.deleteDeadChunks start limit fate).1.next = (stored.visit start limit).2.head? := by
  rw [deleteDeadChunks]
  obtain ⟨batch, rest⟩ := stored.visit start limit
  cases rest <;> rfl

theorem deleteDeadChunks_next (typed : Table ChunkKey (List UInt8)) (start : ChunkKey) (limit : ℕ)
    (fate : ChunkKey → ChunkFate) :
    (HubStore.deleteDeadChunks typed start limit fate).1.next =
      ((typed.keysFrom start).drop limit).head? := by
  rw [HubStore.deleteDeadChunks, ← Table.keysFrom, List.drop_take, Nat.add_sub_cancel_left]
  cases (typed.keysFrom start).drop limit <;> rfl

/-- What is filtered alike by its image has the same image. -/
theorem map_filter_congr {α β γ : Type} {f : α → γ} {g : β → γ} {p : α → Bool} {q : β → Bool}
    (hpq : ∀ a b, f a = g b → p a = q b) {as : List α} {bs : List β} (h : as.map f = bs.map g) :
    (as.filter p).map f = (bs.filter q).map g := by
  induction as generalizing bs with
  | nil =>
      rw [List.map_nil, eq_comm, List.map_eq_nil_iff] at h
      rw [h]
      rfl
  | cons a as ih =>
      cases bs with
      | nil => cases h
      | cons b bs =>
          obtain ⟨hhead, htail⟩ := List.cons.inj h
          rw [List.filter_cons, List.filter_cons, hpq a b hhead]
          split_ifs
          · rw [List.map_cons, List.map_cons, hhead, ih htail]
          · exact ih htail

namespace SameEntries

variable {stored : StoredChunks} {typed : Table ChunkKey (List UInt8)}
    {start : StoredChunkKey} {start' : ChunkKey}

theorem keys (h : SameEntries stored typed) :
    stored.keys.map StoredChunkKey.fields = typed.keys.map ChunkKey.fields := by
  have hfst := congrArg (List.map Prod.fst) h
  rw [List.map_map, List.map_map] at hfst
  rw [Table.keys, Table.keys, List.map_map, List.map_map]
  exact hfst

theorem keysFrom (h : SameEntries stored typed) (hstart : start.fields = start'.fields) :
    (stored.keysFrom start).map StoredChunkKey.fields =
      (typed.keysFrom start').map ChunkKey.fields := by
  refine map_filter_congr (fun key key' hkey => decide_eq_decide.mpr ?_) h.keys
  change start.fields ≤ key.fields ↔ start'.fields ≤ key'.fields
  rw [hstart, hkey]

theorem foldl_erase (h : SameEntries stored typed) {gone : List StoredChunkKey}
    {gone' : List ChunkKey} (hgone : gone.map StoredChunkKey.fields = gone'.map ChunkKey.fields) :
    SameEntries (gone.foldl Table.erase stored) (gone'.foldl Table.erase typed) := by
  rw [SameEntries, Table.entries_foldl_erase, Table.entries_foldl_erase]
  refine map_filter_congr (fun e e' heq => decide_eq_decide.mpr (not_congr ?_)) h
  rw [← List.mem_map_of_injective StoredChunkKey.fields_injective, hgone, (Prod.mk.inj heq).1,
    List.mem_map_of_injective ChunkKey.fields_injective]

/-- On the same entries, with the same fates, the pass's batch stops at the same key and leaves the
same entries as the batch over the table as it is stored. -/
theorem deleteDeadChunks (h : SameEntries stored typed) (hstart : start.fields = start'.fields)
    {limit : ℕ} (hlimit : limit + 1 < 2 ^ 64) {fate : StoredChunkKey → ChunkFate}
    {fate' : ChunkKey → ChunkFate}
    (hfate : ∀ key key', StoredChunkKey.fields key = ChunkKey.fields key' → fate key = fate' key') :
    (stored.deleteDeadChunks start limit fate).1.next.map StoredChunkKey.fields =
        (HubStore.deleteDeadChunks typed start' limit fate').1.next.map ChunkKey.fields ∧
      SameEntries (stored.deleteDeadChunks start limit fate).2
        (HubStore.deleteDeadChunks typed start' limit fate').2 := by
  have hkeys := h.keysFrom hstart
  have hbatch := congrArg (List.take limit) hkeys
  have hrest := congrArg (fun keys => (List.drop limit keys).head?) hkeys
  rw [← List.map_take, ← List.map_take] at hbatch
  rw [← List.map_drop, ← List.map_drop, List.head?_map, List.head?_map] at hrest
  have hvisited : (stored.visit start limit).1 = (stored.keysFrom start).take limit :=
    StoredChunks.visit_fst (by omega)
  have hleft : (stored.visit start limit).2.head? = ((stored.keysFrom start).drop limit).head? :=
    StoredChunks.visit_snd (by omega) (by omega)
  constructor
  · rw [deleteDeadChunks_next, StoredChunks.deleteDeadChunks_next, hleft]
    exact hrest
  · have hsame : (stored.visit start limit).1.map StoredChunkKey.fields =
        (((typed.keysFrom start').take (limit + 1)).take limit).map ChunkKey.fields := by
      rw [hvisited, List.take_take, min_eq_left (Nat.le_succ limit)]
      exact hbatch
    exact h.foldl_erase (map_filter_congr (fun key key' hkey => by rw [hfate key key' hkey]) hsame)

end SameEntries

/-! ### The scans as a whole -/

open Resumed in
/-- However other commits change `chunks` between its batches, the pass's scan ends, gives every key
that stays its fate exactly once and deletes what it gives that fate and nothing else; alone it
filters the table. The open's seek reads the spans of the keys, whatever they are. -/
theorem scans_miss_nothing (limit : ℕ) (hlimit : 1 ≤ limit) (hword : limit < 2 ^ 64)
    (fate : ℕ → StoredChunkKey → ChunkFate) (chunks : ℕ → StoredChunks)
    (hsize : limit + 1 = 2 ^ 64 → ∀ n, (chunks n).entries.length < 2 ^ 64) :
    (∀ inserted : Finset StoredChunkKey,
      (∀ n, ∀ key ∈ (chunks (n + 1)).keys, key ∈ (left limit fate chunks n).keys ∨ key ∈ inserted) →
        scanAt limit fate chunks (((chunks 0).keys.toFinset ∪ inserted).card / limit + 1) = .done) ∧
    (∀ m, scanAt limit fate chunks m = .done → ∀ key ∈ (chunks 0).keys,
      (∀ n < m, key ∈ (left limit fate chunks n).keys → key ∈ (chunks (n + 1)).keys) →
        (judgedBefore limit fate chunks m).count key = 1) ∧
    (∀ n key, (left limit fate chunks n).get? key =
      if key ∈ judged limit fate chunks n ∧ fate n key = .delete then none
        else (chunks n).get? key) ∧
    ((∀ n, fate n = fate 0) → (∀ n, chunks (n + 1) = left limit fate chunks n) → ∀ m,
      scanAt limit fate chunks m = .done → chunks m = (chunks 0).filter fun key _ =>
        fate 0 key = .keep) ∧
    ∀ table : StoredChunks,
      (∀ found, table.spansInRedb = .ok found → ∀ span, span ∈ found ↔
        ∃ key ∈ table.keys, key.tier.val = span.tier.code ∧ key.span.val = span.span) ∧
      ((∃ e, table.spansInRedb = .error e) ↔
        ∃ key ∈ table.keys, ∀ tier : Tier, key.tier.val = tier.code →
          key.span.val % tier.spanSecs ≠ 0) := by
  refine ⟨fun inserted hinserted => scan_ends hlimit hword hsize hinserted,
    fun m hdone key hkey hkept => ?_, get?_left, fun hfate halone m =>
      scan_alone hword hsize hfate halone, StoredChunks.spansInRedb_spec⟩
  exact List.count_eq_one_of_mem (nodup_judgedBefore hlimit hword hsize m)
    (mem_judgedBefore_of_kept hword hsize hdone hkey hkept)

/-- A dead chunk goes while another commit adds one: three steps of one key each give the chunk that
stays its fate once, and the spans left are read. -/
theorem scans_miss_nothing_insert :
    let dead : StoredChunkKey := ⟨0, 0, 0, 0⟩
    let stays : StoredChunkKey := ⟨0, 3600, 1, 0⟩
    let added : StoredChunkKey := ⟨2, 86400, 0, 0⟩
    let fate : ℕ → StoredChunkKey → ChunkFate := fun _ key => if key = dead then .delete else .keep
    let chunks : ℕ → StoredChunks := fun
      | 0 => (Table.empty.insert dead []).insert stays []
      | _ + 1 => (Table.empty.insert stays []).insert added []
    (Resumed.judgedBefore 1 fate chunks 3).count stays = 1 ∧
      ((Resumed.left 1 fate chunks 0).get? dead = none) := by
  intro dead stays added fate chunks
  have h := scans_miss_nothing 1 le_rfl (by norm_num) fate chunks nofun
  have hstays : stays ∈ ((Table.empty.insert stays []).insert added ([] : List UInt8)).keys := by
    decide +kernel
  refine ⟨h.2.1 3 (by decide +kernel) stays (by decide +kernel) fun _ _ _ => hstays, ?_⟩
  rw [h.2.2.1 0 dead]
  decide +kernel

end MonitoringAgent.HubStore

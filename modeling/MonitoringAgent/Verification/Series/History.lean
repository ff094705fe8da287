import MonitoringAgent.Verification.Series.Tail

/-! # Histories of a series

A series taken through any sequence of its operations, with the points it accepted and the
chunks it sealed on record. -/

namespace MonitoringAgent.HubStore

open MonitoringAgent.Library

/-- An operation on a series in the head; `reopen` takes its tail and reads it back. -/
inductive SeriesOp where
  | append (ts : ℕ) (value : Scaled)
  | sweep (hubNow : ℕ)
  | sealSpan (tier : Tier) (span : SpanStart)
  | sealClosed (hubNow : ℕ)
  | reopen

/-- A series' state, the points whose append was accepted and the chunks sealed, in order. -/
structure History where
  state : SeriesState
  accepted : List RawPoint
  sealed : List Sealed

namespace History

def new (kind : ValueKind) : History := ⟨.new kind, [], []⟩

def step (h : History) : SeriesOp → Except TailError History
  | .append ts value =>
      match h.state.append ts value with
      | (.ok emitted, s) => .ok ⟨s, h.accepted ++ [⟨ts, value.get⟩], h.sealed ++ emitted⟩
      | (.error _, s) => .ok { h with state := s }
  | .sweep hubNow =>
      let (emitted, s) := h.state.sweep hubNow
      .ok { h with state := s, sealed := h.sealed ++ emitted }
  | .sealSpan tier span =>
      let (emitted, s) := h.state.sealSpan tier span
      .ok { h with state := s, sealed := h.sealed ++ emitted.toList }
  | .sealClosed hubNow =>
      let (emitted, s) := h.state.sealClosed hubNow
      .ok { h with state := s, sealed := h.sealed ++ emitted }
  | .reopen => do
      let s ← SeriesState.fromTail h.state.toTail
      .ok { h with state := s }

def run (h : History) : List SeriesOp → Except TailError History
  | [] => .ok h
  | op :: ops => do
      let h ← h.step op
      h.run ops

end History

namespace SeriesOp

/-- The latest hub time a sweep or a seal has shown, after one more operation. -/
def clockAfter (clock : ℕ) : SeriesOp → ℕ
  | .sweep hubNow | .sealClosed hubNow => max clock hubNow
  | .append _ _ | .sealSpan _ _ | .reopen => clock

/-- Hub times never run backwards, and stay far enough below the top of a `u64` that bucket
ends do not overflow. -/
def InOrder : ℕ → List SeriesOp → Prop
  | _, [] => True
  | clock, op :: ops =>
      (∀ ts value, op = .append ts value → clock ≤ ts ∧ ts + 3600 < 2 ^ 64) ∧
        InOrder (op.clockAfter clock) ops

/-- If the series is ever reopened, the values appended to it are of its own kind. -/
def InDomain (kind : ValueKind) (ops : List SeriesOp) : Prop :=
  .reopen ∈ ops → ∀ ts value, .append ts value ∈ ops → kind.InDomain value.get

end SeriesOp

/-! ### Every history keeps the invariant -/

namespace History

variable {kind : ValueKind} {h : History} {clock : ℕ}

theorem step_inv (hs : SeriesInv kind h.state h.sealed h.accepted clock) {op : SeriesOp}
    (horder : ∀ ts value, op = .append ts value → clock ≤ ts ∧ ts + 3600 < 2 ^ 64)
    (hdomain : op = .reopen → ∀ p ∈ h.accepted, kind.InDomain p.value) :
    ∃ h', h.step op = .ok h' ∧
      SeriesInv kind h'.state h'.sealed h'.accepted (op.clockAfter clock) ∧
      ∀ p ∈ h'.accepted, p ∈ h.accepted ∨ ∃ ts value, op = .append ts value ∧
        p.value = value.get := by
  cases op with
  | append ts value =>
      obtain ⟨hclock, hbound⟩ := horder ts value rfl
      cases hafter : h.state.lastTs.any (ts ≤ ·) with
      | true =>
          have hrefused := SeriesInv.append_refused value hafter
          exact ⟨h, by simp [History.step, hrefused], hs, fun p hp => Or.inl hp⟩
      | false =>
          obtain ⟨emitted, hok, hnext⟩ := hs.append value hafter hclock hbound
          refine ⟨⟨(h.state.append ts value).2, h.accepted ++ [⟨ts, value.get⟩],
            h.sealed ++ emitted⟩, ?_, hnext, ?_⟩
          · have hpair : h.state.append ts value = (.ok emitted, (h.state.append ts value).2) := by
              rw [← hok]
            rw [History.step, hpair]
          · intro p hp
            rcases List.mem_append.mp hp with hp | hp
            · exact Or.inl hp
            · exact Or.inr ⟨ts, value, rfl, by rw [List.mem_singleton.mp hp]⟩
  | sweep hubNow => exact ⟨_, rfl, hs.sweep hubNow, fun p hp => Or.inl hp⟩
  | sealSpan tier span => exact ⟨_, rfl, hs.sealSpan tier span, fun p hp => Or.inl hp⟩
  | sealClosed hubNow =>
      exact ⟨_, rfl, (hs.sealClosed hubNow).mono (le_max_left _ _), fun p hp => Or.inl hp⟩
  | reopen =>
      have htail := hs.fromTail_toTail (hdomain rfl)
      exact ⟨h, by simp [History.step, htail], hs, fun p hp => Or.inl hp⟩

theorem run_inv (hs : SeriesInv kind h.state h.sealed h.accepted clock) {ops : List SeriesOp}
    (horder : SeriesOp.InOrder clock ops)
    (hdomain : .reopen ∈ ops → (∀ p ∈ h.accepted, kind.InDomain p.value) ∧
      ∀ ts value, .append ts value ∈ ops → kind.InDomain value.get) :
    ∃ h' clock', h.run ops = .ok h' ∧ SeriesInv kind h'.state h'.sealed h'.accepted clock' := by
  induction ops generalizing h clock with
  | nil => exact ⟨h, clock, rfl, hs⟩
  | cons op ops ih =>
      obtain ⟨hop, hops⟩ := horder
      obtain ⟨h', hstep, hs', haccepted⟩ := step_inv hs hop fun heq => (hdomain (by simp [heq])).1
      obtain ⟨h'', clock'', hrun, hfinal⟩ := ih hs' hops (by
        intro hre
        obtain ⟨hbefore, hvalues⟩ := hdomain (List.mem_cons_of_mem _ hre)
        refine ⟨?_, fun ts value hmem => hvalues ts value (List.mem_cons_of_mem _ hmem)⟩
        intro p hp
        rcases haccepted p hp with hp | ⟨ts, value, rfl, hvalue⟩
        · exact hbefore p hp
        · rw [hvalue]
          exact hvalues ts value (by simp))
      exact ⟨h'', clock'', by simp [History.run, hstep, hrun], hfinal⟩

/-- Every sequence of operations in hub-time order runs, and keeps the invariant. -/
theorem exists_run (kind : ValueKind) {ops : List SeriesOp} (horder : SeriesOp.InOrder 0 ops)
    (hdomain : SeriesOp.InDomain kind ops) :
    ∃ h clock, (History.new kind).run ops = .ok h ∧
      SeriesInv kind h.state h.sealed h.accepted clock :=
  run_inv (h := History.new kind) (SeriesInv.new kind) horder fun hre =>
    ⟨by simp [History.new], hdomain hre⟩

end History

/-! ### No point lost, doubled or put in the wrong bucket -/

/-- The items of sealed chunks, decoded in emission order. -/
def decodeSealed {α : Type} (decode : List UInt8 → Except DecodeError (List α))
    (sealed : List Sealed) : Except DecodeError (List α) := do
  let chunks ← sealed.mapM fun s => decode s.bytes
  .ok chunks.flatten

theorem decodeSealed_eq {C Item Config : Type} [OpenChunk C Item] [LawfulChunk C Config]
    {cfg : Config} {sealed : List Sealed} {chunks : List (List Item)}
    (h : List.Forall₂ (ChunkOf C cfg) sealed chunks) :
    decodeSealed (LawfulChunk.decode C cfg) sealed = .ok chunks.flatten := by
  have hmap : (sealed.mapM fun s => LawfulChunk.decode C cfg s.bytes) = .ok chunks := by
    induction h with
    | nil => rfl
    | cons hs _ ih =>
        rw [List.mapM_cons, hs.decode]
        simp only [except_ok_bind, ih]
        rfl
  simp [decodeSealed, hmap]

/-- The buckets of a rollup tier still in the head: the unsealed ones, then the open one's
close. -/
def SeriesState.bucketsInHead (s : SeriesState) (tier : RollupTier) : List Bucket :=
  s.unsealedBuckets tier ++ (s.rollup tier).bucket.toList.map Accumulator.close

namespace SeriesInv

variable {kind : ValueKind} {s : SeriesState} {sealed : List Sealed} {accepted : List RawPoint}
  {clock : ℕ}

theorem decode_raw (h : SeriesInv kind s sealed accepted clock) :
    ∃ points, decodeSealed (decodeRaw · kind.encoding) (ofTier sealed .raw) = .ok points ∧
      points ++ s.unsealedPoints = accepted := by
  obtain ⟨chunks, unsealed, hchunks, hcontents, hitems, -⟩ := h.raw.split
  refine ⟨chunks.flatten, decodeSealed_eq hchunks, ?_⟩
  rw [SeriesState.unsealedPoints, RawChunk.Contents.points_eq hcontents, hitems]

theorem decode_rollup (h : SeriesInv kind s sealed accepted clock) (tier : RollupTier) :
    ∃ buckets, decodeSealed (decodeRollup · tier) (ofTier sealed tier.tier) = .ok buckets ∧
      buckets ++ s.bucketsInHead tier = rollupOf tier accepted := by
  obtain ⟨-, before, group, hsplit, hopen, hbucket⟩ := h.rollup tier
  obtain ⟨chunks, unsealed, hchunks, hcontents, hitems, -⟩ := hopen.split
  refine ⟨chunks.flatten, decodeSealed_eq hchunks, ?_⟩
  have hunsealed : s.unsealedBuckets tier = unsealed := RollupChunk.Contents.buckets_eq hcontents
  rw [SeriesState.bucketsInHead, hunsealed, ← List.append_assoc, ← hitems, hsplit]
  cases hb : (s.rollup tier).bucket with
  | none =>
      rw [hb] at hbucket
      simp [hbucket.1]
  | some a =>
      rw [hb] at hbucket
      rw [rollupOf_append hbucket.1.ne_nil hbucket.1.index hbucket.2, ← hbucket.1.close]
      simp

/-- The bucket indexes of points in time order strictly increase. -/
theorem rollupOf_increasing (tier : RollupTier) {points : List RawPoint}
    (h : points.Pairwise fun p q => p.ts < q.ts) :
    (rollupOf tier points).Pairwise fun a b => a.index < b.index := by
  have hle : (points.map (·.ts / tier.bucketSecs)).Pairwise (· ≤ ·) := by
    rw [List.pairwise_map]
    exact h.imp fun hlt => Nat.div_le_div_right hlt.le
  have hsub := (hle.sublist (List.dedup_sublist _)).and (List.nodup_dedup _)
  rw [rollupOf, List.pairwise_map]
  exact hsub.imp fun h => lt_of_le_of_ne h.1 h.2

end SeriesInv

/-- Whatever the order of its operations, a series neither loses, doubles nor misplaces a
point. Its sealed raw chunks followed by its unsealed points are the accepted points; its
buckets of each tier, sealed, unsealed and open, are the rollup of the accepted points, in
strictly increasing index order; a refused point changes nothing. -/
theorem History.points_exact (kind : ValueKind) (ops : List SeriesOp)
    (horder : SeriesOp.InOrder 0 ops) (hdomain : SeriesOp.InDomain kind ops) :
    ∃ h, (History.new kind).run ops = .ok h ∧
      (∃ points, decodeSealed (decodeRaw · kind.encoding) (ofTier h.sealed .raw) = .ok points ∧
        points ++ h.state.unsealedPoints = h.accepted) ∧
      (∀ tier : RollupTier,
        (∃ buckets, decodeSealed (decodeRollup · tier) (ofTier h.sealed tier.tier) = .ok buckets ∧
          buckets ++ h.state.bucketsInHead tier = rollupOf tier h.accepted) ∧
        (rollupOf tier h.accepted).Pairwise fun a b => a.index < b.index) ∧
      ∀ ts value refusal, (h.state.append ts value).1 = .error refusal →
        (h.state.append ts value).2 = h.state := by
  obtain ⟨h, clock, hrun, hinv⟩ := History.exists_run kind horder hdomain
  refine ⟨h, hrun, hinv.decode_raw, fun tier => ⟨hinv.decode_rollup tier,
    SeriesInv.rollupOf_increasing tier hinv.points.increasing⟩, ?_⟩
  intro ts value refusal hrefused
  rw [SeriesState.append] at hrefused ⊢
  split
  · rfl
  next hafter => simp [hafter] at hrefused

/-- Two minutes of a count, a sweep, a seal and a restart. -/
def twoMinutes : List SeriesOp :=
  [.append 10 ⟨7, .count, by decide⟩, .append 70 ⟨9, .count, by decide⟩, .sweep 4000, .reopen,
    .sealClosed 4000, .append 4000 ⟨9, .count, by decide⟩, .append 4000 ⟨3, .count, by decide⟩]

theorem twoMinutes_inOrder : SeriesOp.InOrder 0 twoMinutes := by
  simp [SeriesOp.InOrder, twoMinutes, SeriesOp.clockAfter]

theorem twoMinutes_inDomain : SeriesOp.InDomain .count twoMinutes := by
  intro _ ts value hmem
  simp only [twoMinutes, List.mem_cons, SeriesOp.append.injEq, reduceCtorEq, false_or,
    List.not_mem_nil, or_false] at hmem
  rcases hmem with ⟨-, rfl⟩ | ⟨-, rfl⟩ | ⟨-, rfl⟩ | ⟨-, rfl⟩ <;> exact ⟨by decide, by decide⟩

theorem History.points_exact_twoMinutes :
    ∃ h, (History.new .count).run twoMinutes = .ok h ∧
      ∃ points, decodeSealed (decodeRaw · .delta) (ofTier h.sealed .raw) = .ok points ∧
        points ++ h.state.unsealedPoints = h.accepted := by
  obtain ⟨h, hrun, hraw, -⟩ :=
    History.points_exact .count twoMinutes twoMinutes_inOrder twoMinutes_inDomain
  exact ⟨h, hrun, hraw⟩

/-! ### A tail reopens the same series -/

namespace History

/-- A step accepts at most the point it appends. -/
theorem step_accepted {h h' : History} {op : SeriesOp} (hstep : h.step op = .ok h') :
    ∀ p ∈ h'.accepted, p ∈ h.accepted ∨ ∃ ts value, op = .append ts value ∧
      p.value = value.get := by
  intro p hp
  cases op with
  | append ts value =>
      rw [step] at hstep
      split at hstep
      · obtain rfl := Except.ok.inj hstep
        rcases List.mem_append.mp hp with hp | hp
        · exact Or.inl hp
        · exact Or.inr ⟨ts, value, rfl, by rw [List.mem_singleton.mp hp]⟩
      · obtain rfl := Except.ok.inj hstep
        exact Or.inl hp
  | sweep hubNow =>
      obtain rfl := Except.ok.inj hstep
      exact Or.inl hp
  | sealSpan tier span =>
      obtain rfl := Except.ok.inj hstep
      exact Or.inl hp
  | sealClosed hubNow =>
      obtain rfl := Except.ok.inj hstep
      exact Or.inl hp
  | reopen =>
      rw [step] at hstep
      cases htail : SeriesState.fromTail h.state.toTail with
      | error e =>
          rw [htail] at hstep
          cases hstep
      | ok s =>
          rw [htail] at hstep
          obtain rfl := Except.ok.inj hstep
          exact Or.inl hp

/-- Every accepted point's value was appended. -/
theorem run_accepted {h h' : History} {ops : List SeriesOp} (hrun : h.run ops = .ok h') :
    ∀ p ∈ h'.accepted, p ∈ h.accepted ∨ ∃ ts value, .append ts value ∈ ops ∧
      p.value = value.get := by
  induction ops generalizing h with
  | nil =>
      obtain rfl := Except.ok.inj hrun
      exact fun p hp => Or.inl hp
  | cons op ops ih =>
      intro p hp
      rw [run] at hrun
      cases hstep : h.step op with
      | error e =>
          rw [hstep] at hrun
          cases hrun
      | ok h₁ =>
          rw [hstep] at hrun
          rcases ih hrun p hp with hp | ⟨ts, value, hmem, hvalue⟩
          · rcases step_accepted hstep p hp with hp | ⟨ts, value, rfl, hvalue⟩
            · exact Or.inl hp
            · exact Or.inr ⟨ts, value, List.mem_cons_self, hvalue⟩
          · exact Or.inr ⟨ts, value, List.mem_cons_of_mem op hmem, hvalue⟩

end History

/-- A series of values of its own kind, taken through its operations in hub-time order, has a
tail that reopens to the very same state. -/
theorem History.tail_reopens (kind : ValueKind) (ops : List SeriesOp)
    (horder : SeriesOp.InOrder 0 ops)
    (hdomain : ∀ ts value, .append ts value ∈ ops → kind.InDomain value.get) :
    ∃ h, (History.new kind).run ops = .ok h ∧
      SeriesState.fromTail h.state.toTail = .ok h.state := by
  obtain ⟨h, clock, hrun, hinv⟩ := History.exists_run kind horder fun _ => hdomain
  refine ⟨h, hrun, hinv.fromTail_toTail fun p hp => ?_⟩
  rcases run_accepted hrun p hp with hp | ⟨ts, value, hmem, hvalue⟩
  · cases hp
  · rw [hvalue]
    exact hdomain ts value hmem

theorem History.tail_reopens_twoMinutes :
    ∃ h, (History.new .count).run twoMinutes = .ok h ∧
      SeriesState.fromTail h.state.toTail = .ok h.state :=
  History.tail_reopens .count twoMinutes twoMinutes_inOrder
    (twoMinutes_inDomain (by simp [twoMinutes]))

/-! ### Sealed keys -/

/-- The key a sealed chunk is stored under, within its series. -/
def Sealed.key (s : Sealed) : Tier × SpanStart × ℕ := (s.tier, s.span, s.seq)

namespace SeriesState

/-- The seq the tier's next seal takes. -/
def nextSeq (s : SeriesState) : Tier → ℕ
  | .raw => s.raw.nextSeq
  | .minute => s.minute.open.nextSeq
  | .hour => s.hour.open.nextSeq

end SeriesState

section Keys

variable {C Item Config : Type} [OpenChunk C Item] [LawfulChunk C Config]
variable {cfg : Config} {o : Open C} {sealed : List Sealed} {items : List Item}

/-- In emission order the keys of one tier increase by span, then by seq. -/
theorem OpenInv.keys_increasing (h : OpenInv cfg o sealed items) :
    sealed.Pairwise fun a b => toLex (a.span, a.seq) < toLex (b.span, b.seq) := by
  rw [List.pairwise_iff_forall_sublist]
  intro a b hsub
  have hle : a.span ≤ b.span := List.pairwise_iff_forall_sublist.mp h.spans hsub
  rw [Prod.Lex.toLex_lt_toLex]
  rcases lt_or_eq_of_le hle with hlt | heq
  · exact Or.inl hlt
  · refine Or.inr ⟨heq, ?_⟩
    have hfilter : [a, b].Sublist (inSpan sealed b.span) := by
      have := hsub.filter (fun s => decide (s.span = b.span))
      simpa [inSpan, heq] using this
    have hseqs := hfilter.map Sealed.seq
    rw [h.seqs] at hseqs
    exact List.pairwise_iff_forall_sublist.mp (List.pairwise_lt_range) hseqs

/-- A sealed chunk decodes to items of its span, at least one. -/
theorem OpenInv.chunk_items (h : OpenInv cfg o sealed items) {s : Sealed} (hs : s ∈ sealed) :
    ∃ xs, xs ≠ [] ∧ LawfulChunk.decode C cfg s.bytes = .ok xs ∧
      ∀ x ∈ xs, itemSpan C cfg x = s.span := by
  obtain ⟨chunks, -, hchunks, -⟩ := h.split
  clear h
  induction hchunks with
  | nil => cases hs
  | @cons t xs sealed chunks ht _ ih =>
      rcases List.mem_cons.mp hs with rfl | hs
      · exact ⟨xs, ht.ne_nil, ht.decode, ht.span⟩
      · exact ih hs

end Keys

namespace SeriesInv

variable {kind : ValueKind} {s : SeriesState} {sealed : List Sealed} {accepted : List RawPoint}
  {clock : ℕ}

/-- What holds of each tier's open chunk and sealed chunks holds of all three tiers. -/
theorem forall_tier (h : SeriesInv kind s sealed accepted clock) {P : Tier → Prop}
    (hraw : OpenRest kind.encoding s.raw (ofTier sealed .raw) accepted → P .raw)
    (hrollup : ∀ (tier : RollupTier) buckets,
      OpenRest tier (s.rollup tier).open (ofTier sealed tier.tier) buckets → P tier.tier) :
    ∀ tier, P tier := by
  intro tier
  cases tier with
  | raw => exact hraw h.raw
  | minute =>
      obtain ⟨-, before, group, -, hopen, -⟩ := h.minute
      exact hrollup .minute _ hopen
  | hour =>
      obtain ⟨-, before, group, -, hopen, -⟩ := h.hour
      exact hrollup .hour _ hopen

theorem keys_increasing (h : SeriesInv kind s sealed accepted clock) (tier : Tier) :
    (ofTier sealed tier).Pairwise fun a b => toLex (a.span, a.seq) < toLex (b.span, b.seq) :=
  h.forall_tier (P := fun tier => (ofTier sealed tier).Pairwise _)
    (fun hopen => hopen.keys_increasing) (fun _ _ hopen => hopen.keys_increasing) tier

theorem keys_nodup (h : SeriesInv kind s sealed accepted clock) :
    (sealed.map Sealed.key).Nodup := by
  rw [List.nodup_iff_pairwise_ne, List.pairwise_map, List.pairwise_iff_forall_sublist]
  intro a b hsub heq
  simp only [Sealed.key, Prod.mk.injEq] at heq
  have hfilter : [a, b].Sublist (ofTier sealed a.tier) := by
    have := hsub.filter (fun s => decide (s.tier = a.tier))
    simpa [ofTier, heq.1] using this
  have := List.pairwise_iff_forall_sublist.mp (h.keys_increasing a.tier) hfilter
  simp [heq.2] at this

end SeriesInv

/-- The keys of all chunks a series ever seals are distinct. Within one tier and span the
seqs are 0, 1, 2, … and never reach the top of a `u16`; in each tier the keys are emitted in
(span, seq) order; what a chunk decodes to lies in its span. -/
theorem History.keys_exact (kind : ValueKind) (ops : List SeriesOp)
    (horder : SeriesOp.InOrder 0 ops) (hdomain : SeriesOp.InDomain kind ops) :
    ∃ h, (History.new kind).run ops = .ok h ∧
      (h.sealed.map Sealed.key).Nodup ∧
      (∀ tier span, (inSpan (ofTier h.sealed tier) span).map Sealed.seq =
        List.range (inSpan (ofTier h.sealed tier) span).length) ∧
      (∀ tier, h.state.nextSeq tier < 2 ^ 16 - 1) ∧
      (∀ tier, (ofTier h.sealed tier).Pairwise
        fun a b => toLex (a.span, a.seq) < toLex (b.span, b.seq)) ∧
      (∀ c ∈ h.sealed, c.tier = .raw → ∃ points, decodeRaw c.bytes kind.encoding = .ok points ∧
        ∀ p ∈ points, Tier.raw.spanOf p.ts = c.span) ∧
      ∀ c ∈ h.sealed, ∀ tier : RollupTier, c.tier = tier.tier →
        ∃ buckets, decodeRollup c.bytes tier = .ok buckets ∧
          ∀ b ∈ buckets, c.tier.spanOf (b.index * tier.bucketSecs) = c.span := by
  obtain ⟨h, clock, hrun, hinv⟩ := History.exists_run kind horder hdomain
  refine ⟨h, hrun, hinv.keys_nodup, ?_, ?_, hinv.keys_increasing, ?_, ?_⟩
  · intro tier
    exact hinv.forall_tier (P := fun tier => ∀ span,
      (inSpan (ofTier h.sealed tier) span).map Sealed.seq =
      List.range (inSpan (ofTier h.sealed tier) span).length)
      (fun hopen => hopen.seqs) (fun _ _ hopen => hopen.seqs) tier
  · intro tier
    refine hinv.forall_tier (P := fun tier => h.state.nextSeq tier < 2 ^ 16 - 1) ?_ ?_ tier
    · intro hopen
      exact lt_of_le_of_lt hopen.nextSeq_le (by norm_num)
    · intro tier buckets hopen
      cases tier <;> exact lt_of_le_of_lt hopen.nextSeq_le (by norm_num)
  · intro c hc htier
    obtain ⟨points, -, hdecode, hspan⟩ := hinv.raw.chunk_items (s := c)
      (List.mem_filter.mpr ⟨hc, by simpa using htier⟩)
    exact ⟨points, hdecode, fun p hp => by rw [← hspan p hp, itemSpan_point]⟩
  · intro c hc tier htier
    obtain ⟨-, before, group, -, hopen, -⟩ := hinv.rollup tier
    obtain ⟨buckets, -, hdecode, hspan⟩ := hopen.chunk_items (s := c)
      (List.mem_filter.mpr ⟨hc, by simpa using htier⟩)
    exact ⟨buckets, hdecode, fun b hb => by rw [← hspan b hb, htier]; rfl⟩

theorem History.keys_exact_twoMinutes :
    ∃ h, (History.new .count).run twoMinutes = .ok h ∧ (h.sealed.map Sealed.key).Nodup := by
  obtain ⟨h, hrun, hkeys, -⟩ :=
    History.keys_exact .count twoMinutes twoMinutes_inOrder twoMinutes_inDomain
  exact ⟨h, hrun, hkeys⟩

end MonitoringAgent.HubStore

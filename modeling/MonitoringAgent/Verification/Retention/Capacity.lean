import MonitoringAgent.Model.Retention.Capacity

/-! # What the storage cap takes

The files the cap may take are in one order, whatever order they are listed in; it takes the first
of them that bring the total down to the cap, and none more. -/

namespace MonitoringAgent.HubStore

open List

namespace CapCandidate

/-- A file the cap may take: raw or minute, and not in flight. -/
def Eligible (f : CapCandidate) : Prop :=
  (f.key.tier = .raw ∨ f.key.tier = .minute) ∧ f.condition ≠ .inFlight

instance (f : CapCandidate) : Decidable f.Eligible := inferInstanceAs (Decidable (_ ∧ _))

/-- Raw files go before minute files, and of one tier the older before the newer. -/
def Before (f g : CapCandidate) : Prop :=
  f.key.tier = .raw ∧ g.key.tier = .minute ∨ f.key.tier = g.key.tier ∧ f.key.span < g.key.span

end CapCandidate

/-- The files the cap may take, in the order it takes them. -/
structure Ranked (files ranked : List CapCandidate) : Prop where
  perm : ranked ~ files.filter (·.Eligible)
  order : ranked.Pairwise CapCandidate.Before

/-- The bytes left once the files are gone. -/
def bytesLeft (total : ℕ) (files : List CapCandidate) : ℕ :=
  total - (files.map CapCandidate.length).sum

/-! ### The order -/

theorem capRank_eq_some {f : CapCandidate} {rank : CapRank} :
    capRank f = some rank ↔
      (f.key.tier = .raw ∧ rank = .raw ∨ f.key.tier = .minute ∧ rank = .minute) ∧
      f.condition ≠ .inFlight := by
  rw [capRank]
  cases f.key.tier <;> cases f.condition <;> cases rank <;> simp

theorem map_snd_ranks (files : List CapCandidate) :
    (files.filterMap fun f => (capRank f).map fun rank => (rank, f)).map Prod.snd = files.filter
      (·.Eligible) := by
  induction files with
  | nil => rfl
  | cons f files ih =>
      cases hrank : capRank f with
      | none =>
          have hnot : ¬f.Eligible := by
            rintro ⟨htier | htier, hcondition⟩
            · rw [capRank_eq_some.mpr ⟨.inl ⟨htier, rfl⟩, hcondition⟩] at hrank
              cases hrank
            · rw [capRank_eq_some.mpr ⟨.inr ⟨htier, rfl⟩, hcondition⟩] at hrank
              cases hrank
          rw [List.filterMap_cons_none (by rw [hrank]; rfl), ih,
            List.filter_cons_of_neg (by simpa using hnot)]
      | some rank =>
          obtain ⟨htier, hcondition⟩ := capRank_eq_some.mp hrank
          have heligible : f.Eligible := ⟨htier.imp And.left And.left, hcondition⟩
          rw [List.filterMap_cons_some (by rw [hrank]; rfl), List.map_cons, ih,
            List.filter_cons_of_pos (by simpa using heligible)]

theorem rankedLe_trans (a b c : CapRank × CapCandidate) (hab : rankedLe a b = true)
    (hbc : rankedLe b c = true) : rankedLe a c = true := by
  simp only [rankedLe, Bool.or_eq_true, Bool.and_eq_true, decide_eq_true_eq] at *
  unfold SpanStart at *
  omega

theorem rankedLe_total (a b : CapRank × CapCandidate) : (rankedLe a b || rankedLe b a) = true := by
  simp only [rankedLe, Bool.or_eq_true, Bool.and_eq_true, decide_eq_true_eq]
  unfold SpanStart at *
  omega

theorem rank_of_mem {files : List CapCandidate} {p : CapRank × CapCandidate}
    (h : p ∈ files.filterMap fun f => (capRank f).map fun rank => (rank, f)) :
    capRank p.2 = some p.1 := by
  obtain ⟨f, -, hf⟩ := List.mem_filterMap.mp h
  obtain ⟨rank, hrank, rfl⟩ := Option.map_eq_some_iff.mp hf
  exact hrank

theorem before_of_rankedLe {a b : CapRank × CapCandidate} (ha : capRank a.2 = some a.1)
    (hb : capRank b.2 = some b.1) (hle : rankedLe a b = true) (hne : a.2.key ≠ b.2.key) :
    a.2.Before b.2 := by
  obtain ⟨hatier, -⟩ := capRank_eq_some.mp ha
  obtain ⟨hbtier, -⟩ := capRank_eq_some.mp hb
  simp only [rankedLe, Bool.or_eq_true, Bool.and_eq_true, decide_eq_true_eq] at hle
  have hspan : a.2.key.tier = b.2.key.tier → a.2.key.span ≤ b.2.key.span → a.2.Before b.2 := by
    intro htier hspan
    refine .inr ⟨htier, lt_of_le_of_ne hspan fun heq => hne ?_⟩
    cases hkey : a.2.key with
    | mk tier span =>
        cases hkey' : b.2.key with
        | mk tier' span' =>
            rw [hkey, hkey'] at htier heq
            exact congrArg₂ SpanKey.mk htier heq
  rcases hatier with ⟨hatier, harank⟩ | ⟨hatier, harank⟩ <;>
    rcases hbtier with ⟨hbtier, hbrank⟩ | ⟨hbtier, hbrank⟩ <;> rw [harank, hbrank] at hle
  · exact hspan (hatier.trans hbtier.symm) (hle.resolve_left (lt_irrefl _)).2
  · exact .inl ⟨hatier, hbtier⟩
  · simp [CapRank.place] at hle
  · exact hspan (hatier.trans hbtier.symm) (hle.resolve_left (lt_irrefl _)).2

variable {files : List CapCandidate}

/-- The files as the cap goes through them. -/
def inCapOrder (files : List CapCandidate) : List CapCandidate :=
  ((files.filterMap fun f => (capRank f).map fun rank => (rank, f)).mergeSort rankedLe).map Prod.snd

theorem ranked_inCapOrder (hkeys : (files.map CapCandidate.key).Nodup) :
    Ranked files (inCapOrder files) := by
  have hperm := List.mergeSort_perm (files.filterMap fun f => (capRank f).map
    fun rank => (rank, f)) rankedLe
  have hfiles := (hperm.map Prod.snd).trans (.of_eq (map_snd_ranks files))
  refine ⟨hfiles, ?_⟩
  have hdistinct : (files.filter (·.Eligible)).Pairwise fun f g => f.key ≠ g.key := by
    rw [List.nodup_iff_pairwise_ne, List.pairwise_map] at hkeys
    exact hkeys.sublist List.filter_sublist
  have hsorted := List.pairwise_mergeSort rankedLe_trans rankedLe_total
    (files.filterMap fun f => (capRank f).map fun rank => (rank, f))
  rw [inCapOrder, List.pairwise_map]
  rw [← hfiles.pairwise_iff fun {f g} hne => Ne.symm hne, List.pairwise_map] at hdistinct
  refine (hsorted.and hdistinct).imp_of_mem ?_
  intro a b ha hb hab
  exact before_of_rankedLe (rank_of_mem (hperm.mem_iff.mp ha))
    (rank_of_mem (hperm.mem_iff.mp hb)) hab.1 hab.2

theorem Ranked.eq {ranked ranked' : List CapCandidate} (h : Ranked files ranked)
    (h' : Ranked files ranked') : ranked = ranked' := by
  refine List.Perm.eq_of_pairwise ?_ h.order h'.order (h.perm.trans h'.perm.symm)
  intro f g _ _ hfg hgf
  rcases hfg with ⟨hf, hg⟩ | ⟨htier, hlt⟩ <;> rcases hgf with ⟨hg', hf'⟩ | ⟨htier', hlt'⟩
  · rw [hf] at hf'
    cases hf'
  · rw [hf, hg] at htier'
    cases htier'
  · rw [hg', hf'] at htier
    cases htier
  · exact absurd hlt' (lt_asymm hlt)

/-! ### What goes -/

theorem foldl_retireOne_met {cap left : ℕ} (h : left ≤ cap) (acc : List SpanKey)
    (ranked : List CapCandidate) : ranked.foldl (retireOne cap) (left, acc) = (left, acc) := by
  induction ranked with
  | nil => rfl
  | cons f ranked ih =>
      rw [List.foldl_cons, retireOne, if_neg (Nat.not_lt.mpr h)]
      exact ih

/-- The shortest prefix that meets the cap goes, or all of the files. -/
theorem foldl_retireOne (cap left : ℕ) (acc : List SpanKey) (ranked : List CapCandidate) :
    ∃ n ≤ ranked.length,
      ranked.foldl (retireOne cap) (left, acc) =
        (bytesLeft left (ranked.take n), acc ++ (ranked.take n).map CapCandidate.key) ∧
      (∀ k < n, cap < bytesLeft left (ranked.take k)) ∧
      (bytesLeft left (ranked.take n) ≤ cap ∨ n = ranked.length) := by
  induction ranked generalizing left acc with
  | nil => exact ⟨0, le_rfl, by simp [bytesLeft],
      fun k hk => absurd hk (Nat.not_lt_zero k), .inr rfl⟩
  | cons f ranked ih =>
      by_cases hover : left > cap
      · obtain ⟨n, hn, hfold, hbefore, hend⟩ := ih (left - f.length) (acc ++ [f.key])
        have hleft : ∀ k, bytesLeft left ((f :: ranked).take (k + 1)) =
            bytesLeft (left - f.length) (ranked.take k) := by
          intro k
          rw [List.take_succ_cons, bytesLeft, List.map_cons, List.sum_cons, bytesLeft, Nat.sub_sub]
        refine ⟨n + 1, Nat.succ_le_succ hn, ?_, ?_, ?_⟩
        · rw [List.foldl_cons, retireOne, if_pos hover, hfold, hleft, List.take_succ_cons,
            List.map_cons, List.append_assoc, List.singleton_append]
        · intro k hk
          cases k with
          | zero => simpa [bytesLeft] using hover
          | succ k =>
              rw [hleft]
              exact hbefore k (Nat.lt_of_succ_lt_succ hk)
        · rw [hleft, List.length_cons]
          exact hend.imp_right fun hn => congrArg Nat.succ hn
      · have hmet : left ≤ cap := Nat.not_lt.mp hover
        refine ⟨0, Nat.zero_le _, ?_, fun k hk => absurd hk (Nat.not_lt_zero k),
          .inl (by simpa [bytesLeft] using hmet)⟩
        rw [foldl_retireOne_met hmet]
        simp [bytesLeft]

/-- The cap takes the shortest prefix of the files it may take, raw before minute and the oldest
first, that brings the total down to it, or all of them when none does, and says exactly what is
left over; how the files are listed doesn't matter. -/
theorem cap_retires_least (total : ℕ) {files : List CapCandidate}
    (hkeys : (files.map CapCandidate.key).Nodup) :
    (∃ ranked, Ranked files ranked ∧ (∀ ranked', Ranked files ranked' → ranked' = ranked) ∧
      ∀ cap, ∃ n ≤ ranked.length,
        (capRetirements total (.bytes cap) files).retire = (ranked.take n).map CapCandidate.key ∧
        (∀ k < n, cap < bytesLeft total (ranked.take k)) ∧
        (bytesLeft total (ranked.take n) ≤ cap ∨ n = ranked.length) ∧
        (capRetirements total (.bytes cap) files).outcome =
          if bytesLeft total (ranked.take n) ≤ cap then .met
          else .unmet (bytesLeft total (ranked.take n) - cap)) ∧
    capRetirements total .unlimited files = ⟨[], .met⟩ ∧
    (∀ cap, ∀ key ∈ (capRetirements total cap files).retire, ∃ f ∈ files,
      f.key = key ∧ f.Eligible) ∧
    ∀ cap files', files ~ files' → capRetirements total cap files =
      capRetirements total cap files' := by
  have hranked := ranked_inCapOrder hkeys
  refine ⟨⟨_, hranked, fun ranked' h' => h'.eq hranked, fun cap => ?_⟩, rfl, ?_, ?_⟩
  · obtain ⟨n, hn, hfold, hbefore, hend⟩ := foldl_retireOne cap total [] (inCapOrder files)
    rw [inCapOrder] at hfold
    refine ⟨n, hn, ?_, hbefore, hend, ?_⟩
    · rw [capRetirements, hfold]
      rfl
    · rw [capRetirements, hfold]
      change (if bytesLeft total ((inCapOrder files).take n) > cap then _ else _) = _
      split_ifs with hover hmet hmet
      · omega
      · rfl
      · rfl
      · omega
  · intro cap key hkey
    cases cap with
    | unlimited => cases hkey
    | bytes cap =>
        obtain ⟨n, -, hfold, -⟩ := foldl_retireOne cap total [] (inCapOrder files)
        rw [inCapOrder] at hfold
        rw [capRetirements, hfold] at hkey
        obtain ⟨f, hf, rfl⟩ := List.mem_map.mp hkey
        have hmem := hranked.perm.mem_iff.mp (List.mem_of_mem_take hf)
        rw [List.mem_filter, decide_eq_true_eq] at hmem
        exact ⟨f, hmem.1, rfl, hmem.2⟩
  · intro cap files' hperm
    cases cap with
    | unlimited => rfl
    | bytes cap =>
        have hranked' := ranked_inCapOrder ((hperm.map CapCandidate.key).nodup hkeys)
        have heq := hranked.eq ⟨hranked'.perm.trans (hperm.filter _).symm, hranked'.order⟩
        rw [inCapOrder, inCapOrder] at heq
        rw [capRetirements, capRetirements, heq]

theorem cap_retires_least_damaged :
    ∃ n ≤ 2, (capRetirements 1250 (.bytes 1000) [⟨⟨.raw, 0⟩, 100, .inFlight⟩,
      ⟨⟨.raw, 7200⟩, 100, .sound⟩, ⟨⟨.raw, 3600⟩, 100, .damaged⟩]).retire =
        ([⟨.raw, 3600⟩, ⟨.raw, 7200⟩] : List SpanKey).take n := by
  have hkeys :
      (([⟨⟨.raw, 0⟩, 100, .inFlight⟩, ⟨⟨.raw, 7200⟩, 100, .sound⟩, ⟨⟨.raw, 3600⟩, 100, .damaged⟩] :
      List CapCandidate).map CapCandidate.key).Nodup := by decide
  obtain ⟨ranked, -, hunique, hplan⟩ := (cap_retires_least 1250 hkeys).1
  have hranked := hunique [⟨⟨.raw, 3600⟩, 100, .damaged⟩, ⟨⟨.raw, 7200⟩, 100, .sound⟩]
    ⟨by decide, by simp [CapCandidate.Before]⟩
  obtain ⟨n, hn, hretire, -⟩ := hplan 1000
  subst hranked
  exact ⟨n, hn, by rw [hretire, List.map_take]; rfl⟩

end MonitoringAgent.HubStore

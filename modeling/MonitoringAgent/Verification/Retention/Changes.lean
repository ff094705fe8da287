import MonitoringAgent.Model.Retention.Change

/-! # No history shortened early

Whatever is asked of the policies, a period gets shorter only when its pending shortening takes
effect, or when an override is put back. -/

namespace MonitoringAgent.HubStore

open MonitoringAgent.Library

/-! ### One tier -/

namespace TierOverride

theorem enforced_change_ge (o : TierOverride) (requested : TierSetting) («global» : TierPeriod)
    (delay : Duration) :
    (o.enforced «global»).period ≤
      ((o.change requested «global» delay).enforced «global»).period := by
  rw [change]
  split_ifs with hlonger
  · exact hlonger
  · exact le_rfl

theorem enforced_takeEffect (o : TierOverride) («global» : TierPeriod) :
    o.takeEffect.enforced «global» =
    match o.pending with
    | some pending => pending.next.resolve «global»
    | none => o.enforced «global» := by
  rw [takeEffect]
  cases o.pending <;> rfl

theorem followsGlobal_iff {o : TierOverride} : o.followsGlobal = true ↔ o = default := by
  obtain ⟨setting, pending⟩ := o
  cases setting <;> cases pending <;> simp [followsGlobal, default]

theorem enforced_tier {o : TierOverride} {tier : Tier} (ho : o.IsOf tier) {«global» : TierPeriod}
    (hglobal : «global».tier = tier) : (o.enforced «global»).tier = tier := by
  obtain ⟨setting, pending⟩ := o
  cases setting with
  | «global» => exact hglobal
  | fixed period => exact ho.1

end TierOverride

namespace Override

theorem followsGlobal_iff {o : Override} :
    o.followsGlobal = true ↔ ∀ tier, o.tier tier = .default := by
  rw [followsGlobal, List.all_eq_true]
  constructor
  · intro h tier
    exact TierOverride.followsGlobal_iff.mp (h tier (by cases tier <;> decide))
  · intro h tier _
    exact TierOverride.followsGlobal_iff.mpr (h tier)

end Override

/-! ### One step -/

namespace Policies

/-- A system's override, or the one that follows the global policy. -/
def held (p : Policies) (system : SystemKey) : Override := (p.overrides.get? system).getD .default

theorem effective_eq (p : Policies) (system : List UInt8) (tier : Tier) :
    p.effective system tier = ((p.held ⟨system⟩).tier tier).enforced (p.global.period tier) := by
  rw [effective, held]
  cases p.overrides.get? ⟨system⟩ <;> rfl

theorem get?_put (p : Policies) (system k : SystemKey) (o : Override) :
    (p.put system o).overrides.get? k =
    if k = system then (if o.followsGlobal = true then none else some o)
      else p.overrides.get? k := by
  rw [put]
  dsimp only
  split_ifs with hfollows hk hk
  · rw [Table.get?_erase, if_pos hk]
  · rw [Table.get?_erase, if_neg hk]
  · rw [Table.get?_insert, if_pos hk.symm]
  · rw [Table.get?_insert, if_neg fun h => hk h.symm]

theorem held_put_self (p : Policies) (system : SystemKey) (o : Override) (tier : Tier) :
    ((p.put system o).held system).tier tier = o.tier tier := by
  rw [held, get?_put, if_pos rfl]
  split_ifs with hfollows
  · exact (Override.followsGlobal_iff.mp hfollows tier).symm
  · rfl

theorem held_put_of_ne (p : Policies) {system k : SystemKey} (o : Override) (h : k ≠ system) :
    (p.put system o).held k = p.held k := by
  rw [held, get?_put, if_neg h, held]

end Policies

/-- What is asked of the policies. -/
inductive PolicyStep where
  | restore (system : SystemKey) (o : Override)
  | change (system : SystemKey) (requested : RetentionChange) (delay : Duration)
  | takeEffect (system : SystemKey) (tier : Tier)

def PolicyStep.system : PolicyStep → SystemKey
  | restore system _ | change system _ _ | takeEffect system _ => system

namespace Policies

/-- The policies after a step, and what it reports. -/
def apply (p : Policies) : PolicyStep → Policies × Option RetentionOutcome
  | .restore system o => (p.restore system o, none)
  | .change system requested delay =>
      ((p.change system requested delay).1, some (p.change system requested delay).2)
  | .takeEffect system tier => ((p.takeEffect system tier).1, some (p.takeEffect system tier).2)

/-- The policies after the steps. -/
def after («global» : RetentionPolicy) (steps : List PolicyStep) : Policies :=
  steps.foldl (fun p step => (p.apply step).1) (new «global»)

theorem get?_of_not_contains {p : Policies} {system : SystemKey}
    (h : ¬p.overrides.contains system = true) : p.overrides.get? system = none := by
  by_contra hsome
  obtain ⟨o, ho⟩ := Option.ne_none_iff_exists'.mp hsome
  exact h (Table.contains_iff.mpr ⟨o, ho⟩)

/-- A step puts an override in its system's place, or does nothing. -/
theorem apply_cases (p : Policies) (step : PolicyStep) :
    (p.apply step).1 = p ∧ p.held step.system = .default ∧
      (∃ tier, step = .takeEffect step.system tier) ∨
      ∃ o, (p.apply step).1 = p.put step.system o ∧
        (step = .restore step.system o ∨
          (∃ requested delay, step = .change step.system requested delay ∧ ∀ tier, o.tier tier =
            ((p.held step.system).tier tier).change (requested.tier tier)
            (p.global.period tier) delay) ∨
          ∃ tier, step = .takeEffect step.system tier ∧
            o.tier = Function.update (p.held step.system).tier tier
              ((p.held step.system).tier tier).takeEffect) := by
  cases step with
  | restore system o => exact .inr ⟨o, rfl, .inl rfl⟩
  | change system requested delay =>
      exact .inr ⟨_, rfl, .inr (.inl ⟨requested, delay, rfl, fun _ => rfl⟩)⟩
  | takeEffect system tier =>
      rw [apply, takeEffect]
      split_ifs with hcontains
      · exact .inr ⟨_, rfl, .inr (.inr ⟨tier, rfl, rfl⟩)⟩
      · refine .inl ⟨rfl, ?_, tier, rfl⟩
        rw [PolicyStep.system, held, get?_of_not_contains hcontains]
        rfl

theorem apply_global (p : Policies) (step : PolicyStep) : (p.apply step).1.global = p.global := by
  rcases apply_cases p step with ⟨h, -⟩ | ⟨o, h, -⟩
  · rw [h]
  · rw [h]
    rfl

/-- A step leaves every other system's override. -/
theorem held_apply_of_ne (p : Policies) {step : PolicyStep} {k : SystemKey} (h : k ≠ step.system) :
    (p.apply step).1.held k = p.held k := by
  rcases apply_cases p step with ⟨happly, -⟩ | ⟨o, happly, -⟩
  · rw [happly]
  · rw [happly, held_put_of_ne p o h]

/-- A period gets shorter only in the step that says so. -/
theorem effective_le_apply (p : Policies) {step : PolicyStep} {system : List UInt8} {tier : Tier}
    (hrestore : ∀ o, step ≠ .restore ⟨system⟩ o) (heffect : step ≠ .takeEffect ⟨system⟩ tier) :
    (p.effective system tier).period ≤ ((p.apply step).1.effective system tier).period := by
  rw [effective_eq, effective_eq, apply_global]
  by_cases hsystem : (⟨system⟩ : SystemKey) = step.system
  · rcases apply_cases p step with ⟨happly, -⟩
      | ⟨o, happly, hrestored | ⟨requested, delay, -, ho⟩ | ⟨tier', htaken, ho⟩⟩
    · rw [happly]
    · exact absurd (hsystem ▸ hrestored) (hrestore o)
    · rw [happly, hsystem, held_put_self, ho]
      exact TierOverride.enforced_change_ge _ _ _ _
    · have htier : tier ≠ tier' := by
        rintro rfl
        exact heffect (hsystem ▸ htaken)
      rw [happly, hsystem, held_put_self, ho, Function.update_of_ne htier]
  · rw [held_apply_of_ne p hsystem]

/-- Taking effect, a tier follows its pending setting. -/
theorem effective_takeEffect (p : Policies) (system : List UInt8) (tier : Tier) :
    (p.takeEffect ⟨system⟩ tier).1.effective system tier = match
      ((p.held ⟨system⟩).tier tier).pending with
      | some pending => pending.next.resolve (p.global.period tier)
      | none => p.effective system tier := by
  rw [effective_eq, effective_eq, ← TierOverride.enforced_takeEffect]
  have hglobal := apply_global p (.takeEffect ⟨system⟩ tier)
  rw [apply] at hglobal
  dsimp only at hglobal
  rw [hglobal]
  rcases apply_cases p (.takeEffect ⟨system⟩ tier) with
    ⟨happly, hdefault, -⟩ | ⟨o, happly,
      hrestored | ⟨requested, delay, hchange, -⟩ | ⟨tier', htaken, ho⟩⟩
  · rw [apply] at happly
    dsimp only at happly
    rw [PolicyStep.system] at hdefault
    rw [happly, hdefault]
    rfl
  · cases hrestored
  · cases hchange
  · cases htaken
    rw [apply, PolicyStep.system] at happly
    dsimp only at happly
    rw [PolicyStep.system] at ho
    rw [happly, held_put_self, ho, Function.update_self]

/-- What a step reports is the override before it and after it. -/
theorem outcome_apply (p : Policies) {step : PolicyStep} {outcome : RetentionOutcome}
    (h : (p.apply step).2 = some outcome) :
    outcome = ⟨p.overrideOf step.system, (p.apply step).1.overrideOf step.system⟩ := by
  cases step with
  | restore system o => cases h
  | change system requested delay => exact (Option.some.inj h).symm
  | takeEffect system tier =>
      rw [apply, takeEffect] at *
      dsimp only at h ⊢
      split_ifs at h ⊢ with hcontains
      · exact (Option.some.inj h).symm
      · have hnone := get?_of_not_contains hcontains
        rw [← Option.some.inj h, overrideOf, PolicyStep.system, hnone]

/-! ### The longest period -/

/-- The fold keeps the longest of what it saw. -/
theorem foldl_longest (periods : List TierPeriod) (first : TierPeriod) :
    let longest := periods.foldl
      (fun longest period => if longest.period < period.period then period else longest) first
    longest ∈ first :: periods ∧ ∀ period ∈ first :: periods, period.period ≤ longest.period := by
  induction periods generalizing first with
  | nil => simp
  | cons period periods ih =>
      obtain ⟨hmem, hmax⟩ := ih (if first.period < period.period then period else first)
      have hfirst := hmax _ List.mem_cons_self
      rw [List.foldl_cons]
      refine ⟨?_, fun other hother => ?_⟩
      · rcases List.mem_cons.mp hmem with heq | hmem
        · rw [heq]
          split_ifs <;> simp
        · exact List.mem_cons_of_mem _ (List.mem_cons_of_mem _ hmem)
      · rcases List.mem_cons.mp hother with rfl | hother
        · refine le_trans ?_ hfirst
          split_ifs with hlt
          · exact hlt.le
          · exact le_rfl
        · rcases List.mem_cons.mp hother with rfl | hother
          · refine le_trans ?_ hfirst
            split_ifs with hlt
            · exact le_rfl
            · exact not_lt.mp hlt
          · exact hmax other (List.mem_cons_of_mem _ hother)

/-- The longest period is the greatest of the global one and of every system's, and is of its tier.
-/
theorem longest_spec (p : Policies) (tier : Tier) : (p.longest tier).tier = tier ∧
    IsGreatest (insert (p.global.period tier).period
      (Set.range fun system => (p.effective system tier).period))
      (p.longest tier).period := by
  have hentry (entry : SystemKey × Override) : entry ∈ p.overrides.entries ↔
      p.overrides.get? entry.1 = some entry.2 := Table.get?_eq_some_iff.symm
  obtain ⟨hmem, hmax⟩ := foldl_longest
    (p.overrides.entries.map fun entry => (entry.2.tier tier).enforced (p.global.period tier))
    (p.global.period tier)
  rw [← longest] at hmem hmax
  refine ⟨?_, ?_, ?_⟩
  · rcases List.mem_cons.mp hmem with heq | hmem
    · rw [heq, p.global.own]
    · obtain ⟨entry, -, heq⟩ := List.mem_map.mp hmem
      rw [← heq]
      exact TierOverride.enforced_tier (entry.2.own tier) (p.global.own tier)
  · rcases List.mem_cons.mp hmem with heq | hmem
    · exact .inl (congrArg TierPeriod.period heq)
    · obtain ⟨entry, hin, heq⟩ := List.mem_map.mp hmem
      refine .inr ⟨entry.1.bytes, ?_⟩
      dsimp only
      rw [effective, (hentry entry).mp hin, ← heq]
  · rintro period (rfl | ⟨system, rfl⟩)
    · exact hmax _ List.mem_cons_self
    · dsimp only
      rw [effective]
      cases hget : p.overrides.get? ⟨system⟩ with
      | none => exact hmax _ List.mem_cons_self
      | some o =>
          exact hmax _ (List.mem_cons_of_mem _
            (List.mem_map.mpr ⟨(⟨system⟩, o), (hentry _).mpr hget, rfl⟩))

/-! ### Whole runs -/

/-- No override is kept that follows the global policy in every tier. -/
def NoneIdle (p : Policies) : Prop :=
  ∀ system o, p.overrideOf system = some o → ∃ tier, o.tier tier ≠ .default

theorem NoneIdle.apply {p : Policies} (h : NoneIdle p) (step : PolicyStep) :
    NoneIdle (p.apply step).1 := by
  rcases apply_cases p step with ⟨happly, -⟩ | ⟨o, happly, -⟩
  · rwa [happly]
  · rw [happly]
    intro system o' ho'
    rw [overrideOf, get?_put] at ho'
    split_ifs at ho' with hsystem hfollows
    · obtain rfl := Option.some.inj ho'
      by_contra hidle
      exact hfollows (Override.followsGlobal_iff.mpr fun tier => not_not.mp
        fun h => hidle ⟨tier, h⟩)
    · exact h system o' ho'

theorem after_spec («global» : RetentionPolicy) (steps : List PolicyStep) :
    (after «global» steps).global = «global» ∧ NoneIdle (after «global» steps) := by
  induction steps using List.reverseRecOn with
  | nil => exact ⟨rfl, fun _ _ h => by cases h⟩
  | append_singleton steps step ih =>
      rw [after, List.foldl_append, List.foldl_cons, List.foldl_nil, ← after]
      exact ⟨(apply_global _ step).trans ih.1, ih.2.apply step⟩

/-- Over any changes of any systems: an effective period gets shorter only when its pending setting
takes effect, and is then that setting, or when its override is put back; a step leaves every other
system's periods; the longest period is the greatest in force; no idle override is kept, and every
fixed period is in its tier's slot and bounds; and what a step reports is the override before it and
after it. -/
theorem periods_shorten_only_in_effect («global» : RetentionPolicy) (steps : List PolicyStep) :
    (∀ step system tier, (∀ o, step ≠ .restore ⟨system⟩ o) → step ≠ .takeEffect ⟨system⟩ tier →
      ((after «global» steps).effective system tier).period ≤
        ((after «global» (steps ++ [step])).effective system tier).period) ∧
    (∀ system tier, (after «global» (steps ++ [.takeEffect ⟨system⟩ tier])).effective system tier =
      match (((after «global» steps).held ⟨system⟩).tier tier).pending with
      | some pending => pending.next.resolve («global».period tier)
      | none => (after «global» steps).effective system tier) ∧
    (∀ step system tier, step.system ≠ ⟨system⟩ →
      (after «global» (steps ++ [step])).effective system tier =
        (after «global» steps).effective system tier) ∧
    (∀ tier, ((after «global» steps).longest tier).tier = tier ∧
      IsGreatest (insert («global».period tier).period
        (Set.range fun system => ((after «global» steps).effective system tier).period))
        ((after «global» steps).longest tier).period) ∧
    (∀ system o, (after «global» steps).overrideOf system = some o →
      (∃ tier, o.tier tier ≠ .default) ∧
      ∀ tier, ∀ setting ∈ (o.tier tier).setting :: (o.tier tier).pending.toList.map
        PendingShortening.next, ∀ period, setting = .fixed period → period.tier = tier ∧
          Duration.fromSecs tier.minRetentionSecs ≤ period.period ∧
          period.period ≤ Duration.fromSecs tier.maxRetentionSecs) ∧
    ∀ step outcome, ((after «global» steps).apply step).2 = some outcome →
      outcome.before = (after «global» steps).overrideOf step.system ∧
        outcome.after = (after «global» (steps ++ [step])).overrideOf step.system := by
  have hafter (step : PolicyStep) : after «global» (steps ++ [step]) =
      ((after «global» steps).apply step).1 := by
    rw [after, List.foldl_append, List.foldl_cons, List.foldl_nil, ← after]
  obtain ⟨hglobal, hidle⟩ := after_spec «global» steps
  refine ⟨fun step system tier hrestore heffect => ?_, fun system tier => ?_,
    fun step system tier hsystem => ?_, fun tier => ?_, fun system o ho => ⟨hidle system o ho, ?_⟩,
      fun step outcome houtcome => ?_⟩
  · rw [hafter]
    exact effective_le_apply _ hrestore heffect
  · have heffect := effective_takeEffect (after «global» steps) system tier
    rw [hglobal] at heffect
    rw [hafter]
    exact heffect
  · rw [hafter, effective_eq, effective_eq, apply_global, held_apply_of_ne _ hsystem.symm]
  · have hlongest := longest_spec (after «global» steps) tier
    rwa [hglobal] at hlongest
  · rintro tier setting hsetting period rfl
    have hown : TierSetting.IsOf (.fixed period) tier := by
      rcases List.mem_cons.mp hsetting with heq | hmem
      · rw [heq]
        exact (o.own tier).1
      · obtain ⟨pending, hpending, heq⟩ := List.mem_map.mp hmem
        rw [← heq]
        exact (o.own tier).2 pending (Option.mem_toList.mp hpending)
    have htier : period.tier = tier := hown
    exact ⟨htier, htier ▸ period.bounds⟩
  · rw [hafter, outcome_apply _ houtcome]
    exact ⟨rfl, rfl⟩

end Policies

end MonitoringAgent.HubStore

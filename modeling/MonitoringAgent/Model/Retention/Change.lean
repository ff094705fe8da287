import MonitoringAgent.Model.Retention.Policy

/-! # Changes of a system's retention

A longer period applies at once; a shorter one waits out its delay. An override that follows the
global policy in every tier is not kept. -/

namespace MonitoringAgent.HubStore

open MonitoringAgent.Library

/-- A period inside its tier's bounds; refused outside them. -/
def TierPeriod.new (tier : Tier) (period : Duration) : Except Tier TierPeriod :=
  if h : Duration.fromSecs tier.minRetentionSecs ≤ period ∧
      period ≤ Duration.fromSecs tier.maxRetentionSecs then
    .ok ⟨tier, period, h⟩
  else .error tier

/-! ### One tier -/

namespace TierOverride

/-- The tier follows the global policy with nothing pending. -/
def default : TierOverride := ⟨.global, none⟩

/-- A change at least as long as what is enforced applies at once and drops any pending entry; a
shorter one becomes the one pending entry. -/
def change (o : TierOverride) (requested : TierSetting) («global» : TierPeriod) (delay : Duration) :
    TierOverride :=
  if (o.enforced «global»).period ≤ (requested.resolve «global»).period then ⟨requested, none⟩
  else ⟨o.setting, some ⟨requested, delay⟩⟩

/-- The pending shortening applied: its delay has ended. -/
def takeEffect (o : TierOverride) : TierOverride :=
  match o.pending with
  | some pending => ⟨pending.next, none⟩
  | none => o

def followsGlobal (o : TierOverride) : Bool :=
  match o.setting, o.pending with
  | .global, none => true
  | _, _ => false

theorem isOf_default (tier : Tier) : default.IsOf tier :=
  ⟨trivial, fun _ h => absurd h (Option.not_mem_none _)⟩

theorem isOf_change {o : TierOverride} {tier : Tier} (ho : o.IsOf tier) {requested : TierSetting}
    (hrequested : requested.IsOf tier) («global» : TierPeriod) (delay : Duration) :
    (o.change requested «global» delay).IsOf tier := by
  rw [change]
  split_ifs
  · exact ⟨hrequested, fun _ h => absurd h (Option.not_mem_none _)⟩
  · refine ⟨ho.1, fun pending h => ?_⟩
    obtain rfl := Option.mem_some.mp h
    exact hrequested

theorem isOf_takeEffect {o : TierOverride} {tier : Tier} (ho : o.IsOf tier) :
    o.takeEffect.IsOf tier := by
  rw [takeEffect]
  cases hpending : o.pending with
  | none => exact ho
  | some pending => exact ⟨ho.2 pending hpending, fun _ h => absurd h (Option.not_mem_none _)⟩

end TierOverride

/-! ### An override -/

instance (setting : TierSetting) (tier : Tier) : Decidable (setting.IsOf tier) :=
  match setting with
  | .global => isTrue trivial
  | .fixed period => inferInstanceAs (Decidable (period.tier = tier))

instance (o : TierOverride) (tier : Tier) : Decidable (o.IsOf tier) :=
  inferInstanceAs (Decidable (_ ∧ ∀ pending ∈ o.pending, _))

namespace Override

def default : Override := ⟨fun _ => .default, TierOverride.isOf_default⟩

/-- An override as persisted: refused, by the slot, unless every fixed period sits in its own tier.
-/
def new (tiers : Tier → TierOverride) : Except Tier Override :=
  match h : Tier.all.find? fun tier => ¬(tiers tier).IsOf tier with
  | some tier => .error tier
  | none => .ok ⟨tiers, fun tier => by
      have hall := List.find?_eq_none.mp h tier (by cases tier <;> decide)
      simpa using hall⟩

/-- Every tier follows the global policy with nothing pending. -/
def followsGlobal (o : Override) : Bool := Tier.all.all fun tier => (o.tier tier).followsGlobal

end Override

/-- A requested override: a period for each tier named, the global policy for the others. -/
structure RetentionChange where
  tier : Tier → TierSetting
  own : ∀ t, (tier t).IsOf t

namespace RetentionChange

/-- Every tier back to the global policy. -/
def followGlobal : RetentionChange := ⟨fun _ => .global, fun _ => trivial⟩

/-- The change with `period` in its own tier. -/
def put (change : RetentionChange) (period : TierPeriod) : RetentionChange where
  tier := Function.update change.tier period.tier (.fixed period)
  own t := by
    by_cases h : t = period.tier
    · subst h
      rw [Function.update_self]
      rfl
    · rw [Function.update_of_ne h]
      exact change.own t

/-- Each period in its own tier; a tier not named follows the global policy. A tier named twice is
refused. -/
def new (periods : List TierPeriod) : Except Tier RetentionChange :=
  periods.foldlM (fun change period =>
    match change.tier period.tier with
    | .global => .ok (change.put period)
    | .fixed _ => .error period.tier) followGlobal

end RetentionChange

/-- What a change did to a system's override; none is the global policy. -/
structure RetentionOutcome where
  before : Option Override
  after : Option Override

/-! ### The policies -/

namespace Policies

def overrideOf (p : Policies) (system : SystemKey) : Option Override := p.overrides.get? system

/-- Keeps an override, or drops it when it follows the global policy. -/
def put (p : Policies) (system : SystemKey) (o : Override) : Policies :=
  { p with overrides := if o.followsGlobal then p.overrides.erase system
    else p.overrides.insert system o }

/-- Puts back an override as persisted. -/
def restore (p : Policies) (system : SystemKey) (o : Override) : Policies := p.put system o

/-- Replaces a system's override with `f` of it. -/
def update (p : Policies) (system : SystemKey) (f : Override → RetentionPolicy → Override) :
    Policies × RetentionOutcome :=
  let before := p.overrides.get? system
  let p' := p.put system (f (before.getD .default) p.global)
  (p', ⟨before, p'.overrides.get? system⟩)

/-- Applies a requested override tier by tier. -/
def change (p : Policies) (system : SystemKey) (change : RetentionChange) (delay : Duration) :
    Policies × RetentionOutcome :=
  p.update system fun o «global» =>
    ⟨fun tier => (o.tier tier).change (change.tier tier) («global».period tier) delay,
      fun tier => TierOverride.isOf_change (o.own tier) (change.own tier) _ _⟩

/-- Applies the tier's pending shortening, if any: its delay has ended. -/
def takeEffect (p : Policies) (system : SystemKey) (tier : Tier) : Policies × RetentionOutcome :=
  if p.overrides.contains system then
    p.update system fun o _ =>
      ⟨Function.update o.tier tier (o.tier tier).takeEffect, fun t => by
        by_cases h : t = tier
        · subst h
          rw [Function.update_self]
          exact TierOverride.isOf_takeEffect (o.own t)
        · rw [Function.update_of_ne h]
          exact o.own t⟩
  else (p, ⟨none, none⟩)

/-- The longest period enforced for any system in the tier. -/
def longest (p : Policies) (tier : Tier) : TierPeriod :=
  (p.overrides.entries.map fun entry => (entry.2.tier tier).enforced (p.global.period tier)).foldl
    (fun longest period => if longest.period < period.period then period else longest)
    (p.global.period tier)

end Policies

end MonitoringAgent.HubStore

import MonitoringAgent.Model.Tables

/-! # Retention: periods, the guarded clock, and which chunks are live

The periods each tier is kept for, per system or by the global policy; the retention clock,
which moves no faster than the monotonic clock allows; and the one function that decides
whether a chunk may still be read or kept. -/

namespace MonitoringAgent.HubStore

open MonitoringAgent.Library

/-! ### Periods -/

/-- A length of time, in nanoseconds. -/
abbrev Duration := ℕ

namespace Duration

def fromSecs (secs : ℕ) : Duration := secs * 10 ^ 9

def asSecs (d : Duration) : ℕ := d / 10 ^ 9

end Duration

/-- A retention period inside its tier's bounds; unconstructible otherwise. -/
structure TierPeriod where
  tier : Tier
  period : Duration
  bounds : Duration.fromSecs tier.minRetentionSecs ≤ period ∧
    period ≤ Duration.fromSecs tier.maxRetentionSecs

/-- The tier's default period: 24 h of raw points, 14 days of minutes, 30 days of hours. -/
def TierPeriod.defaultFor (tier : Tier) : TierPeriod where
  tier := tier
  period := Duration.fromSecs ((match tier with
    | .raw => 1
    | .minute => 14
    | .hour => 30) * 86400)
  bounds := by cases tier <;> decide

/-- The global policy: one period per tier. -/
structure RetentionPolicy where
  period : Tier → TierPeriod
  own : ∀ tier, (period tier).tier = tier

def RetentionPolicy.default : RetentionPolicy := ⟨TierPeriod.defaultFor, fun _ => rfl⟩

/-- What one tier of an override follows. -/
inductive TierSetting where
  /-- The global policy, resolved whenever it is read. -/
  | «global»
  | fixed (period : TierPeriod)

/-- The period the setting stands for under `global`. -/
def TierSetting.resolve (setting : TierSetting) («global» : TierPeriod) : TierPeriod :=
  match setting with
  | .global => «global»
  | .fixed period => period

/-- Whether a fixed period is of `tier`. -/
def TierSetting.IsOf (setting : TierSetting) (tier : Tier) : Prop :=
  match setting with
  | .global => True
  | .fixed period => period.tier = tier

/-- A shortening waiting out its delay before it applies. -/
structure PendingShortening where
  next : TierSetting
  delay : Duration

/-- One tier of an override: what is enforced now, and at most one pending shortening. -/
structure TierOverride where
  setting : TierSetting
  pending : Option PendingShortening

/-- The period enforced now under `global`. -/
def TierOverride.enforced (o : TierOverride) («global» : TierPeriod) : TierPeriod :=
  o.setting.resolve «global»

/-- Whether every fixed period it holds, enforced or pending, is of `tier`. -/
def TierOverride.IsOf (o : TierOverride) (tier : Tier) : Prop :=
  o.setting.IsOf tier ∧ ∀ pending ∈ o.pending, pending.next.IsOf tier

/-- A system's override: one setting per tier, every fixed period in its own tier. -/
structure Override where
  tier : Tier → TierOverride
  own : ∀ t, (tier t).IsOf t

/-- A system's name, in bytes. -/
structure SystemKey where
  bytes : List UInt8
  deriving Repr

theorem SystemKey.bytes_injective :
    Function.Injective fun key : SystemKey => key.bytes.map UInt8.toNat := by
  rintro ⟨bytes⟩ ⟨bytes'⟩ h
  exact congrArg SystemKey.mk (map_toNat_injective h)

instance : LinearOrder SystemKey := LinearOrder.lift' _ SystemKey.bytes_injective

/-- The global policy and every override. -/
structure Policies where
  «global» : RetentionPolicy
  overrides : Table SystemKey Override

namespace Policies

def new («global» : RetentionPolicy) : Policies := ⟨«global», .empty⟩

/-- The period enforced for a system's tier: its override's, else the global policy's. -/
def effective (p : Policies) (system : List UInt8) (tier : Tier) : TierPeriod :=
  match p.overrides.get? ⟨system⟩ with
  | none => p.global.period tier
  | some o => (o.tier tier).enforced (p.global.period tier)

end Policies

/-! ### Live and dead chunks -/

/-- Whose a chunk is: its series' system and generation. -/
structure Owner where
  system : List UInt8
  generation : ℕ
  deriving DecidableEq, Repr

/-- The generations deleted from the hub. -/
abbrev Tombstones := Finset Owner

/-- Why a chunk is dead. -/
inductive Death where
  /-- Its series id maps to no series or its generation to no system. -/
  | unmapped
  /-- Its generation is tombstoned. -/
  | tombstoned
  /-- Its span ended before the retention clock minus its system's period for the tier. -/
  | expired
  deriving DecidableEq, Repr

/-- Whether a chunk may still be read or kept. -/
inductive Liveness where
  | live
  | dead (why : Death)
  deriving DecidableEq, Repr

/-- Whether a span of `tier` is past `period` at `retentionNow`: every second of it is older
than the retention clock minus the period. -/
def expired (tier : Tier) (span : SpanStart) (period : TierPeriod) (retentionNow : ℕ) : Bool :=
  span.spanEnd tier ≤ retentionNow - Duration.asSecs period.period

/-- The liveness of a chunk of `tier` in `span`, owned by `owner` (none: its series id maps
to no series). -/
def chunkLiveness (tier : Tier) (span : SpanStart) (owner : Option Owner) (policies : Policies)
    (tombstones : Tombstones) (retentionNow : ℕ) : Liveness :=
  match owner with
  | none => .dead .unmapped
  | some owner =>
      if owner ∈ tombstones then .dead .tombstoned
      else if expired tier span (policies.effective owner.system tier) retentionNow
        then .dead .expired
      else .live

/-! ### The retention clock -/

/-- The time since the previous retention pass, as the monotonic clock measured it. -/
inductive Elapsed where
  /-- The first pass after the store opened: nothing to measure from. -/
  | sinceOpen
  | measured (d : Duration)

/-- The retention clock after a pass: at most twice as fast as the monotonic clock says time
passed, never past hub time or the system clock, and unchanged by the first pass after open;
additions and products saturate on `u64`. -/
def retentionNow (previous hubNow systemNow : ℕ) (since : Elapsed) : ℕ :=
  let allowed := match since with
    | .sinceOpen => 0
    | .measured d => min (Duration.asSecs d * 2) (2 ^ 64 - 1)
  min (min hubNow systemNow) (min (previous + allowed) (2 ^ 64 - 1))

end MonitoringAgent.HubStore

import Mathlib.Data.List.DropRight
import Mathlib.Tactic
import MonitoringAgent.Model.Agent.Sourcing

/-! # Reading sources never mix or flap

One group's lineage over any sequence of ticks, then the three groups of the collector's snapshots,
each by its own ticks only. -/

namespace MonitoringAgent.Agent

/-! ### One group over its ticks -/

section Group

variable {G : Type}

/-- A tick as one group sees it. -/
structure GroupTick (G : Type) where
  read : Except GroupFailure (Option G)
  kernel : G
  now : ℕ

namespace GroupTick

/-- The values the cgroup gave. -/
def measured? (t : GroupTick G) : Option G :=
  match t.read with
  | .ok value => value
  | .error _ => none

/-- Why the reading failed; an absent usage file is no failure yet. -/
def failure? (t : GroupTick G) : Option GroupFailure :=
  match t.read with
  | .ok _ => none
  | .error failure => some failure

/-- Why a group that had been read has no reading. -/
def cause (t : GroupTick G) : GroupFailure := t.failure?.getD .vanished

end GroupTick

/-- A group's history after its ticks. -/
def GroupHistory.after (ticks : List (GroupTick G)) : GroupHistory G :=
  ticks.foldl (fun history t => (sourceGroup history t.read t.kernel t.now).2.1) .untouched

/-- A group's step on the tick after `earlier`. -/
def sourcedAt (earlier : List (GroupTick G)) (t : GroupTick G) :
    Sourced G × GroupHistory G × Option Warning :=
  sourceGroup (.after earlier) t.read t.kernel t.now

/-- The last value measured from the cgroup. -/
def lastMeasured (ticks : List (GroupTick G)) : Option G :=
  (ticks.filterMap GroupTick.measured?).getLast?

/-- The current run of failures: the ticks since the last measured one. -/
def failing (ticks : List (GroupTick G)) : List (GroupTick G) :=
  ticks.rtakeWhile fun t => t.measured?.isNone

theorem after_concat (earlier : List (GroupTick G)) (t : GroupTick G) :
    GroupHistory.after (earlier ++ [t]) = (sourcedAt earlier t).2.1 := by
  rw [GroupHistory.after, List.foldl_append]
  rfl

theorem lastMeasured_concat (earlier : List (GroupTick G)) (t : GroupTick G) :
    lastMeasured (earlier ++ [t]) = t.measured?.or (lastMeasured earlier) := by
  rw [lastMeasured, List.filterMap_append]
  cases hm : t.measured? with
  | none => simp [hm, lastMeasured]
  | some value => simp [hm]

theorem failing_concat_measured (earlier : List (GroupTick G)) {t : GroupTick G} {value : G}
    (h : t.measured? = some value) : failing (earlier ++ [t]) = [] := by
  rw [failing, List.rtakeWhile_concat_neg _ _ _ (by simp [h])]

theorem failing_concat_failing (earlier : List (GroupTick G)) {t : GroupTick G}
    (h : t.measured? = none) : failing (earlier ++ [t]) = failing earlier ++ [t] := by
  rw [failing, List.rtakeWhile_concat_pos _ _ _ (by simp [h])]
  rfl

theorem mem_of_mem_failing {ticks : List (GroupTick G)} {t : GroupTick G} (h : t ∈ failing ticks) :
    t ∈ ticks :=
  (List.rtakeWhile_suffix _ ticks).subset h

/-- Where a group that was read stands in its run of failures. -/
def Carry.Stands (carry : Carry) (run : List (GroupTick G)) : Prop :=
  match run with
  | [] => carry = .reading
  | first :: rest =>
      (∃ t ∈ first :: rest, carryBound < t.now - first.now) ∧ carry = .expired ∨
        (∀ t ∈ first :: rest, t.now - first.now ≤ carryBound) ∧ carry = .since first.now

/-- A group's history, by its ticks. -/
def GroupHistory.Stands (history : GroupHistory G) (ticks : List (GroupTick G)) : Prop :=
  match lastMeasured ticks with
  | none =>
      (∀ t ∈ ticks, t.failure? = none) ∧ history = .untouched ∨
        (∃ t ∈ ticks, t.failure? ≠ none) ∧ history = .kernelFailing
  | some last => ∃ carry : Carry, history = .cgroup last carry ∧ carry.Stands (failing ticks)

/-- What a step does, by the tick and the history it meets. -/
theorem sourceGroup_measured (history : GroupHistory G) {t : GroupTick G} {value : G}
    (h : t.measured? = some value) :
    sourceGroup history t.read t.kernel t.now =
      (⟨value, .cgroup⟩, .cgroup value .reading, none) := by
  rw [GroupTick.measured?] at h
  split at h
  next value' hread =>
    rw [hread, h]
    cases history <;> rfl
  · cases h

theorem sourceGroup_cgroup (last : G) (carry : Carry) {t : GroupTick G} (h : t.measured? = none) :
    sourceGroup (.cgroup last carry) t.read t.kernel t.now = carried last carry t.cause t.now := by
  rw [GroupTick.measured?] at h
  rw [GroupTick.cause, GroupTick.failure?]
  split at h
  next value' hread =>
    rw [hread, h]
    rfl
  next failure hread =>
    rw [hread]
    rfl

theorem sourceGroup_untouched {t : GroupTick G} (h : t.measured? = none) :
    sourceGroup .untouched t.read t.kernel t.now =
      (⟨t.kernel, .kernel⟩, if t.failure? = none then .untouched else .kernelFailing,
        t.failure?.map .kernelFallback) := by
  rw [GroupTick.measured?] at h
  rw [GroupTick.failure?]
  split at h
  next value' hread =>
    rw [hread, h]
    rfl
  next failure hread =>
    rw [hread]
    rfl

theorem sourceGroup_kernelFailing {t : GroupTick G} (h : t.measured? = none) :
    sourceGroup .kernelFailing t.read t.kernel t.now =
      (⟨t.kernel, .kernel⟩, .kernelFailing, none) := by
  rw [GroupTick.measured?] at h
  split at h
  next value' hread =>
    rw [hread, h]
    rfl
  next failure hread =>
    rw [hread]
    rfl

/-- What is warned on a failing tick of a group that was read: on the first of the run, and on the
first past the bound. -/
def failingWarning (run : List (GroupTick G)) (first t : GroupTick G) : Option Warning :=
  match run with
  | [] => some (.carrying t.cause)
  | _ :: _ =>
      if carryBound < t.now - first.now ∧ ∀ x ∈ run,
        x.now - first.now ≤ carryBound then some .unavailable
      else none

/-- A failing tick of a group that was read: its last values, carried until the bound is past. -/
theorem carried_spec {carry : Carry} {run : List (GroupTick G)} (h : carry.Stands run) (last : G)
    (t : GroupTick G) (hclock : ∀ x ∈ run, x.now ≤ t.now) :
    ∃ first rest carry', run ++ [t] = first :: rest ∧ carry'.Stands (run ++ [t]) ∧
      carried last carry t.cause t.now =
        (⟨last, if t.now - first.now ≤ carryBound then .carried else .unavailable⟩,
          .cgroup last carry', failingWarning run first t) := by
  cases run with
  | nil =>
      obtain rfl : carry = .reading := h
      refine ⟨t, [], .since t.now, rfl, .inr ⟨by simp, rfl⟩, ?_⟩
      simp [carried, failingWarning]
  | cons first rest =>
      have hstart : first.now ≤ t.now := hclock first List.mem_cons_self
      rcases h with ⟨⟨x, hx, hpast⟩, rfl⟩ | ⟨hwithin, rfl⟩
      · have hlate : carryBound < t.now - first.now := by
          have hle := hclock x hx
          omega
        refine ⟨first, rest ++ [t], .expired, rfl,
          .inl ⟨⟨x, List.mem_append_left _ hx, hpast⟩, rfl⟩, ?_⟩
        have hnot : ¬ ∀ x ∈ first :: rest, x.now - first.now ≤ carryBound :=
          fun hall => absurd (hall x hx) (by omega)
        rw [carried, failingWarning, if_neg (by omega), if_neg fun hboth => hnot hboth.2]
      · by_cases hdue : t.now - first.now ≤ carryBound
        · refine ⟨first, rest ++ [t], .since first.now, rfl, .inr ⟨?_, rfl⟩, ?_⟩
          · exact List.forall_mem_append.mpr ⟨hwithin, by simpa using hdue⟩
          · rw [carried, failingWarning, if_pos hdue, if_pos hdue, if_neg (by omega)]
        · refine ⟨first, rest ++ [t], .expired, rfl, .inl ⟨⟨t, ?_, by omega⟩, rfl⟩, ?_⟩
          · exact List.mem_append_right (first :: rest) (List.mem_singleton_self t)
          · rw [carried, failingWarning, if_neg hdue, if_neg hdue, if_pos ⟨by omega, hwithin⟩]

/-- One more tick takes the history where the ticks say. -/
theorem GroupHistory.Stands.tick {earlier : List (GroupTick G)} (h : (after earlier).Stands earlier)
    (t : GroupTick G) (hclock : ∀ x ∈ earlier, x.now ≤ t.now) :
    (after (earlier ++ [t])).Stands (earlier ++ [t]) := by
  rw [after_concat, sourcedAt]
  rw [Stands] at h ⊢
  rw [lastMeasured_concat]
  cases hm : t.measured? with
  | some value =>
      rw [sourceGroup_measured _ hm]
      exact ⟨.reading, rfl, by rw [failing_concat_measured _ hm]; rfl⟩
  | none =>
      rw [Option.none_or]
      cases hlast : lastMeasured earlier with
      | none =>
          rw [hlast] at h
          rcases h with ⟨hquiet, heq⟩ | ⟨⟨x, hx, hfailed⟩, heq⟩
          · rw [heq, sourceGroup_untouched hm]
            by_cases hf : t.failure? = none
            · exact .inl ⟨List.forall_mem_append.mpr ⟨hquiet, by simpa using hf⟩, if_pos hf⟩
            · exact .inr ⟨⟨t, List.mem_append_right _ (List.mem_singleton_self t), hf⟩, if_neg hf⟩
          · rw [heq, sourceGroup_kernelFailing hm]
            exact .inr ⟨⟨x, List.mem_append_left _ hx, hfailed⟩, rfl⟩
      | some last =>
          rw [hlast] at h
          obtain ⟨carry, heq, hcarry⟩ := h
          obtain ⟨first, rest, carry', -, hcarry', hstep⟩ := carried_spec hcarry last t
            fun x hx => hclock x (mem_of_mem_failing hx)
          rw [heq, sourceGroup_cgroup last carry hm, hstep]
          exact ⟨carry', rfl, by rw [failing_concat_failing _ hm]; exact hcarry'⟩

theorem stands_after {ticks : List (GroupTick G)}
    (hclock : (ticks.map GroupTick.now).Pairwise (· ≤ ·)) :
    (GroupHistory.after ticks).Stands ticks := by
  induction ticks using List.reverseRecOn with
  | nil => exact .inl ⟨by simp, rfl⟩
  | append_singleton ticks t ih =>
      rw [List.map_append, List.pairwise_append] at hclock
      exact (ih hclock.1).tick t fun x hx =>
        hclock.2.2 _ (List.mem_map_of_mem hx) _ (List.mem_singleton_self _)

/-- What a group's reading on a tick is, by the ticks so far. -/
structure GroupSpec (earlier : List (GroupTick G)) (t : GroupTick G) (sourced : Sourced G)
    (warning : Option Warning) : Prop where
  /-- Read from the kernel until its first cgroup reading, and never again. -/
  kernel : if lastMeasured (earlier ++ [t]) = none then sourced = ⟨t.kernel, .kernel⟩
    else sourced.origin ≠ .kernel
  measured : ∀ value, t.measured? = some value ↔ sourced = ⟨value, .cgroup⟩
  /-- Failing after it: the last measured value, carried for `carryBound` since the first failing
  tick of the run. -/
  failing : ∀ last, lastMeasured earlier = some last → t.measured? = none →
    ∃ first rest, failing (earlier ++ [t]) = first :: rest ∧
      sourced = ⟨last, if t.now - first.now ≤ carryBound then .carried else .unavailable⟩
  /-- Unavailable is left only by a reading. -/
  stays : ∀ before prev, earlier = before ++ [prev] →
    (sourcedAt before prev).1.origin = .unavailable →
    t.measured? = none → sourced.origin = .unavailable
  /-- Warned on the first failure before any cgroup reading. -/
  fallback : ∀ failure, warning = some (.kernelFallback failure) ↔
    lastMeasured (earlier ++ [t]) = none ∧ t.failure? = some failure ∧
    ∀ x ∈ earlier, x.failure? = none
  /-- Warned on the first failing tick of a run. -/
  carrying : ∀ failure, warning = some (.carrying failure) ↔
    lastMeasured earlier ≠ none ∧ t.measured? = none ∧
    Agent.failing earlier = [] ∧ failure = t.cause
  /-- Warned on the first tick of a run past the bound. -/
  unavailable : warning = some .unavailable ↔ lastMeasured earlier ≠ none ∧ t.measured? = none ∧
    ∃ first rest, Agent.failing earlier = first :: rest ∧ carryBound < t.now - first.now ∧
      ∀ x ∈ Agent.failing earlier, x.now - first.now ≤ carryBound

section Spec

variable {earlier : List (GroupTick G)} {t : GroupTick G}

theorem stands_earlier (hclock : ((earlier ++ [t]).map GroupTick.now).Pairwise (· ≤ ·)) :
    (GroupHistory.after earlier).Stands earlier ∧ ∀ x ∈ earlier, x.now ≤ t.now := by
  rw [List.map_append, List.pairwise_append] at hclock
  exact ⟨stands_after hclock.1, fun x hx =>
    hclock.2.2 _ (List.mem_map_of_mem hx) _ (List.mem_singleton_self _)⟩

/-- A tick before any cgroup reading. -/
theorem sourcedAt_kernel (hclock : ((earlier ++ [t]).map GroupTick.now).Pairwise (· ≤ ·))
    (hlast : lastMeasured earlier = none) (hm : t.measured? = none) :
    (sourcedAt earlier t).1 = ⟨t.kernel, .kernel⟩ ∧
      (sourcedAt earlier t).2.2 =
        if ∀ x ∈ earlier, x.failure? = none then t.failure?.map .kernelFallback else none := by
  have hstands := (stands_earlier hclock).1
  rw [GroupHistory.Stands, hlast] at hstands
  rw [sourcedAt]
  rcases hstands with ⟨hquiet, heq⟩ | ⟨⟨x, hx, hfailed⟩, heq⟩
  · rw [heq, sourceGroup_untouched hm, if_pos hquiet]
    exact ⟨rfl, rfl⟩
  · rw [heq, sourceGroup_kernelFailing hm, if_neg fun hall => hfailed (hall x hx)]
    exact ⟨rfl, rfl⟩

/-- A failing tick after a cgroup reading. -/
theorem sourcedAt_failing (hclock : ((earlier ++ [t]).map GroupTick.now).Pairwise (· ≤ ·))
    {last : G} (hlast : lastMeasured earlier = some last) (hm : t.measured? = none) :
    ∃ first rest, failing (earlier ++ [t]) = first :: rest ∧
      (sourcedAt earlier t).1 =
        ⟨last, if t.now - first.now ≤ carryBound then .carried else .unavailable⟩ ∧
      (sourcedAt earlier t).2.2 = failingWarning (failing earlier) first t := by
  obtain ⟨hstands, hbefore⟩ := stands_earlier hclock
  rw [GroupHistory.Stands, hlast] at hstands
  obtain ⟨carry, heq, hcarry⟩ := hstands
  obtain ⟨first, rest, carry', hrun, -, hstep⟩ := carried_spec hcarry last t
    fun x hx => hbefore x (mem_of_mem_failing hx)
  rw [sourcedAt, heq, sourceGroup_cgroup last carry hm, hstep]
  exact ⟨first, rest, by rw [failing_concat_failing _ hm, hrun], rfl, rfl⟩

theorem sourcedAt_unavailable (hclock : ((earlier ++ [t]).map GroupTick.now).Pairwise (· ≤ ·)) :
    (sourcedAt earlier t).1.origin = .unavailable ↔ t.measured? = none ∧
      lastMeasured earlier ≠ none ∧
      ∃ first rest, failing (earlier ++ [t]) = first :: rest ∧ carryBound < t.now - first.now := by
  cases hm : t.measured? with
  | some value =>
      rw [sourcedAt, sourceGroup_measured _ hm]
      simp
  | none =>
      cases hlast : lastMeasured earlier with
      | none =>
          rw [(sourcedAt_kernel hclock hlast hm).1]
          simp
      | some last =>
          obtain ⟨first, rest, hrun, hsourced, -⟩ := sourcedAt_failing hclock hlast hm
          rw [hsourced, hrun]
          by_cases hdue : t.now - first.now ≤ carryBound
          · rw [if_pos hdue]
            refine iff_of_false (by simp) ?_
            rintro ⟨-, -, first', rest', heq, hlate⟩
            obtain rfl := List.head_eq_of_cons_eq heq
            omega
          · rw [if_neg hdue]
            exact iff_of_true rfl ⟨rfl, by simp, first, rest, rfl, by omega⟩

theorem sourcedAt_stays (hclock : ((earlier ++ [t]).map GroupTick.now).Pairwise (· ≤ ·))
    {before : List (GroupTick G)} {prev : GroupTick G} (hearlier : earlier = before ++ [prev])
    (hprev : (sourcedAt before prev).1.origin = .unavailable) (hm : t.measured? = none) :
    (sourcedAt earlier t).1.origin = .unavailable := by
  obtain ⟨-, hbefore⟩ := stands_earlier hclock
  have hclock' : ((before ++ [prev]).map GroupTick.now).Pairwise (· ≤ ·) := by
    rw [List.map_append, List.pairwise_append, hearlier] at hclock
    exact hclock.1
  obtain ⟨hmprev, hlast, first, rest, hrun, hlate⟩ := (sourcedAt_unavailable hclock').mp hprev
  refine (sourcedAt_unavailable hclock).mpr ⟨hm, ?_, first, rest ++ [t], ?_, ?_⟩
  · rwa [hearlier, lastMeasured_concat, hmprev, Option.none_or]
  · rw [failing_concat_failing _ hm, hearlier, hrun]
    rfl
  · have hle := hbefore prev (hearlier ▸ List.mem_append_right _ (List.mem_singleton_self prev))
    omega

/-- Every reading of a group, by the ticks so far. -/
theorem sourcedAt_spec (hclock : ((earlier ++ [t]).map GroupTick.now).Pairwise (· ≤ ·)) :
    GroupSpec earlier t (sourcedAt earlier t).1 (sourcedAt earlier t).2.2 := by
  cases hm : t.measured? with
  | some value =>
      have hstep : sourcedAt earlier t = (⟨value, .cgroup⟩, .cgroup value .reading, none) :=
        sourceGroup_measured _ hm
      rw [hstep]
      refine ⟨?_, ?_, ?_, ?_, ?_, ?_, ?_⟩
      · rw [lastMeasured_concat, hm]
        simp
      · intro value'
        rw [hm]
        simp
      · simp [hm]
      · simp [hm]
      · simp [lastMeasured_concat, hm]
      · simp [hm]
      · simp [hm]
  | none =>
      cases hlast : lastMeasured earlier with
      | none =>
          obtain ⟨hsourced, hwarning⟩ := sourcedAt_kernel hclock hlast hm
          have hnone : lastMeasured (earlier ++ [t]) = none := by
            rw [lastMeasured_concat, hm, hlast]; rfl
          refine ⟨?_, ?_, ?_, fun _ _ => sourcedAt_stays hclock, ?_, ?_, ?_⟩
          · rw [if_pos hnone, hsourced]
          · simp [hm, hsourced]
          · simp [hlast]
          · intro failure
            rw [hwarning]
            split_ifs with hquiet
            · simpa [hnone] using fun _ => hquiet
            · simp [hquiet]
          · intro failure
            rw [hwarning]
            split_ifs <;> simp [hlast]
          · rw [hwarning]
            split_ifs <;> simp [hlast]
      | some last =>
          obtain ⟨first, rest, hrun, hsourced, hwarning⟩ := sourcedAt_failing hclock hlast hm
          have hsome : lastMeasured (earlier ++ [t]) = some last := by
            rw [lastMeasured_concat, hm, hlast]; rfl
          refine ⟨?_, ?_, ?_, fun _ _ => sourcedAt_stays hclock, ?_, ?_, ?_⟩
          · rw [if_neg (by simp [hsome]), hsourced]
            split_ifs <;> simp
          · intro value
            rw [hm, hsourced]
            split_ifs <;> simp
          · intro last' hlast' _
            rw [hlast] at hlast'
            obtain rfl := Option.some.inj hlast'
            exact ⟨first, rest, hrun, hsourced⟩
          · intro failure
            rw [hwarning, hsome]
            cases failing earlier with
            | nil => simp [failingWarning]
            | cons x xs => rw [failingWarning]; split_ifs <;> simp
          · intro failure
            rw [hwarning, hlast]
            cases failing earlier with
            | nil => simp [failingWarning, hm, eq_comm]
            | cons x xs => rw [failingWarning]; split_ifs <;> simp
          · rw [hwarning, hlast]
            cases hbefore : failing earlier with
            | nil => simp [failingWarning]
            | cons x xs =>
                obtain rfl : x = first := by
                  rw [failing_concat_failing _ hm, hbefore] at hrun
                  exact List.head_eq_of_cons_eq hrun
                rw [failingWarning]
                split_ifs with hpast
                · exact iff_of_true rfl ⟨by simp, hm, x, xs, rfl, hpast⟩
                · refine iff_of_false (by simp) ?_
                  rintro ⟨-, -, first', rest', heq, hpast'⟩
                  obtain rfl := List.head_eq_of_cons_eq heq
                  exact hpast hpast'

end Spec

end Group

/-! ### Capacities -/

theorem memoryCapacity_le (host : ℕ) (limits : List (ResourceLimit ℕ)) :
    memoryCapacity host limits ≤ host ∧
      ∀ amount, .bounded amount ∈ limits → memoryCapacity host limits ≤ amount := by
  rw [memoryCapacity, tightest]
  cases hmin : (limits.filterMap ResourceLimit.amount?).min? with
  | none =>
      refine ⟨le_rfl, fun amount hmem => ?_⟩
      have hin : amount ∈ limits.filterMap ResourceLimit.amount? :=
        List.mem_filterMap.mpr ⟨_, hmem, rfl⟩
      rw [List.min?_eq_none_iff.mp hmin] at hin
      cases hin
  | some least =>
      refine ⟨min_le_right _ _, fun amount hmem => ?_⟩
      have hin : amount ∈ limits.filterMap ResourceLimit.amount? :=
        List.mem_filterMap.mpr ⟨_, hmem, rfl⟩
      exact (min_le_left _ _).trans ((List.min?_eq_some_iff.mp hmin).2 amount hin)

/-- What holds of memory values from a cgroup whose host has `host` bytes. -/
structure MemoryBounds (g : MemoryGroup) (host : ℕ) (limits : List (ResourceLimit ℕ)) : Prop where
  total : g.used + g.available = g.total
  free : g.free ≤ g.available
  available : g.available ≤ g.total
  host : g.total ≤ host
  limits : ∀ amount, .bounded amount ∈ limits → g.total ≤ amount

/-- What holds of swap values from a cgroup whose host has `host` bytes of swap. -/
structure SwapBounds (g : SwapGroup) (host : ℕ) (limits : List (ResourceLimit ℕ)) : Prop where
  total : g.used + g.free = g.total
  host : g.total ≤ host
  limits : ∀ amount, .bounded amount ∈ limits → g.total ≤ amount

theorem memoryGroup_bounds (files : MemoryFiles) (host : ℕ) :
    MemoryBounds (memoryGroup files host) host files.limits := by
  obtain ⟨hhost, hlimits⟩ := memoryCapacity_le host files.limits
  refine ⟨?_, ?_, ?_, hhost, hlimits⟩
  · simp only [memoryGroup]
    omega
  · simp only [memoryGroup]
    omega
  · simp only [memoryGroup]
    omega

theorem swapGroup_bounds (files : SwapFiles) (host : ℕ) :
    SwapBounds (swapGroup files host) host files.limits := by
  obtain ⟨hhost, hlimits⟩ := memoryCapacity_le host files.limits
  refine ⟨?_, hhost, hlimits⟩
  simp only [swapGroup]
  omega

/-! ### The three groups -/

variable {C P : Type}

/-- What one call of `chooseReadings` reads beside the history. -/
structure SourcingTick (C P : Type) where
  cgroup : Option (CgroupReadings C)
  kernel : KernelReadings C P
  prevCpu : Option CpuCounters
  now : ℕ

namespace SourcingTick

/-- The cgroup's files, all absent when there is no cgroup. -/
def files (t : SourcingTick C P) : CgroupReadings C := t.cgroup.getD ⟨.absent, .absent, .absent⟩

def cpu (f : CpuFloats C P) (t : SourcingTick C P) : GroupTick (CpuGroup C P) :=
  ⟨attempt t.files.cpu fun files => cpuGroup f files t.prevCpu t.kernel.cpu.capacity,
    t.kernel.cpu, t.now⟩

def memory (t : SourcingTick C P) : GroupTick MemoryGroup :=
  ⟨attempt t.files.memory fun files => .ok (memoryGroup files t.kernel.memory.total),
    t.kernel.memory, t.now⟩

def swap (t : SourcingTick C P) : GroupTick SwapGroup :=
  ⟨attempt t.files.swap fun files => .ok (swapGroup files t.kernel.swap.total),
    t.kernel.swap, t.now⟩

/-- The choice made on the tick, against `history`. -/
def choose (f : CpuFloats C P) (history : SourcingHistory C P) (t : SourcingTick C P) :
    Sourcing C P :=
  chooseReadings f t.cgroup t.kernel t.prevCpu history t.now

end SourcingTick

/-- The history after a sequence of ticks. -/
def SourcingHistory.after (f : CpuFloats C P) (ticks : List (SourcingTick C P)) :
    SourcingHistory C P :=
  ticks.foldl (fun history t => (t.choose f history).history) .new

/-- Each group's history is that of its own ticks. -/
theorem SourcingHistory.after_eq (f : CpuFloats C P) (ticks : List (SourcingTick C P)) :
    SourcingHistory.after f ticks =
      ⟨.after (ticks.map (·.cpu f)), .after (ticks.map (·.memory)),
        .after (ticks.map (·.swap))⟩ := by
  induction ticks using List.reverseRecOn with
  | nil => rfl
  | append_singleton ticks t ih =>
      rw [after, List.foldl_append, ← after, ih]
      simp only [List.map_append, List.map_cons, List.map_nil, after_concat]
      rfl

/-- The choice on a tick: each group by its own ticks, whatever the others read. -/
theorem choose_eq (f : CpuFloats C P) (earlier : List (SourcingTick C P)) (t : SourcingTick C P) :
    (t.choose f (.after f earlier)).readings =
        ⟨(sourcedAt (earlier.map (·.cpu f)) (t.cpu f)).1,
          (sourcedAt (earlier.map (·.memory)) t.memory).1,
          (sourcedAt (earlier.map (·.swap)) t.swap).1⟩ ∧
      (t.choose f (.after f earlier)).warnings =
        ((sourcedAt (earlier.map (·.cpu f)) (t.cpu f)).2.2.map (⟨.cpu, ·⟩)).toList ++
          ((sourcedAt (earlier.map (·.memory)) t.memory).2.2.map (⟨.memory, ·⟩)).toList ++
          ((sourcedAt (earlier.map (·.swap)) t.swap).2.2.map (⟨.swap, ·⟩)).toList := by
  rw [SourcingHistory.after_eq]
  exact ⟨rfl, rfl⟩

theorem exists_of_lastMeasured {G : Type} {ticks : List (GroupTick G)} {value : G}
    (h : lastMeasured ticks = some value) : ∃ t ∈ ticks, t.measured? = some value :=
  List.mem_filterMap.mp (List.mem_of_getLast? h)

/-- A value not from the kernel is the last measured one. -/
theorem GroupSpec.value {G : Type} {earlier : List (GroupTick G)} {t : GroupTick G}
    {sourced : Sourced G} {warning : Option Warning} (h : GroupSpec earlier t sourced warning)
    (horigin : sourced.origin ≠ .kernel) : lastMeasured (earlier ++ [t]) = some sourced.value := by
  have hkernel := h.kernel
  split_ifs at hkernel with hnone
  · rw [hkernel] at horigin
    exact absurd rfl horigin
  · rw [lastMeasured_concat] at hnone ⊢
    cases hm : t.measured? with
    | some value =>
        rw [(h.measured value).mp hm]
        rfl
    | none =>
        rw [hm, Option.none_or] at hnone
        obtain ⟨last, hlast⟩ := Option.ne_none_iff_exists'.mp hnone
        obtain ⟨first, rest, -, hsourced⟩ := h.failing last hlast hm
        rw [hlast, hsourced]
        rfl

theorem measured_attempt {α G : Type} {read : CgroupRead α} {group : α → G} {kernel value : G}
    {now : ℕ} (h : (GroupTick.mk (attempt read fun files => .ok (group files)) kernel
      now).measured? = some value) :
    ∃ files, read = .read files ∧ group files = value := by
  cases read with
  | read files => exact ⟨files, rfl, Option.some.inj h⟩
  | absent => cases h
  | failed error => cases h

/-- A memory value not from the kernel keeps the bounds of the tick it was measured on. -/
theorem memory_bounds {earlier : List (SourcingTick C P)} {t : SourcingTick C P}
    {sourced : Sourced MemoryGroup} {warning : Option Warning}
    (h : GroupSpec (earlier.map (·.memory)) t.memory sourced warning)
    (horigin : sourced.origin ≠ .kernel) : ∃ t' ∈ earlier ++ [t], ∃ files,
      t'.files.memory = .read files ∧
      MemoryBounds sourced.value t'.kernel.memory.total files.limits := by
  obtain ⟨tick, hmem, hmeasured⟩ := exists_of_lastMeasured (h.value horigin)
  have hall : (earlier.map (·.memory)) ++ [t.memory] = (earlier ++ [t]).map (·.memory) := by simp
  rw [hall] at hmem
  obtain ⟨t', ht', rfl⟩ := List.mem_map.mp hmem
  obtain ⟨files, hfiles, hvalue⟩ := measured_attempt hmeasured
  exact ⟨t', ht', files, hfiles, hvalue ▸ memoryGroup_bounds files _⟩

/-- A memory value from the cgroup keeps the bounds of its own tick. -/
theorem memory_bounds_measured {earlier : List (SourcingTick C P)} {t : SourcingTick C P}
    {sourced : Sourced MemoryGroup} {warning : Option Warning}
    (h : GroupSpec (earlier.map (·.memory)) t.memory sourced warning)
    (horigin : sourced.origin = .cgroup) :
    ∃ files, t.files.memory = .read files ∧
      MemoryBounds sourced.value t.kernel.memory.total files.limits := by
  have hmeasured := (h.measured sourced.value).mpr (by rw [← horigin])
  obtain ⟨files, hfiles, hvalue⟩ := measured_attempt hmeasured
  exact ⟨files, hfiles, hvalue ▸ memoryGroup_bounds files _⟩

theorem swap_bounds_measured {earlier : List (SourcingTick C P)} {t : SourcingTick C P}
    {sourced : Sourced SwapGroup} {warning : Option Warning}
    (h : GroupSpec (earlier.map (·.swap)) t.swap sourced warning)
    (horigin : sourced.origin = .cgroup) :
    ∃ files, t.files.swap = .read files ∧
      SwapBounds sourced.value t.kernel.swap.total files.limits := by
  have hmeasured := (h.measured sourced.value).mpr (by rw [← horigin])
  obtain ⟨files, hfiles, hvalue⟩ := measured_attempt hmeasured
  exact ⟨files, hfiles, hvalue ▸ swapGroup_bounds files _⟩

theorem swap_bounds {earlier : List (SourcingTick C P)} {t : SourcingTick C P}
    {sourced : Sourced SwapGroup} {warning : Option Warning}
    (h : GroupSpec (earlier.map (·.swap)) t.swap sourced warning)
    (horigin : sourced.origin ≠ .kernel) : ∃ t' ∈ earlier ++ [t], ∃ files,
      t'.files.swap = .read files ∧ SwapBounds sourced.value t'.kernel.swap.total files.limits := by
  obtain ⟨tick, hmem, hmeasured⟩ := exists_of_lastMeasured (h.value horigin)
  have hall : (earlier.map (·.swap)) ++ [t.swap] = (earlier ++ [t]).map (·.swap) := by simp
  rw [hall] at hmem
  obtain ⟨t', ht', rfl⟩ := List.mem_map.mp hmem
  obtain ⟨files, hfiles, hvalue⟩ := measured_attempt hmeasured
  exact ⟨t', ht', files, hfiles, hvalue ▸ swapGroup_bounds files _⟩

/-! ### The collector -/

/-- The choices of a sequence of ticks after `earlier`. -/
def sourcings (f : CpuFloats C P) (earlier : List (SourcingTick C P)) :
    List (SourcingTick C P) → List (Sourcing C P)
  | [] => []
  | t :: ticks => t.choose f (.after f earlier) :: sourcings f (earlier ++ [t]) ticks

/-- The instant a tick of the collector reads at. -/
def CollectorOp.readAt? : CollectorOp C P → Option ℕ
  | .read _ readAt => some readAt
  | .rebuild _ => none

/-- What a sampler's reading gives the choice. -/
def Sampler.tick (sampler : Sampler) (raw : RawReadings C P) (readAt : ℕ) : SourcingTick C P :=
  ⟨if sampler.monitored then raw.cgroup else none, raw.kernel, sampler.prevCpu, readAt⟩

/-- The sampler after a reading, which leaves its CPU counters. -/
def Sampler.next (sampler : Sampler) (raw : RawReadings C P) : Sampler :=
  { sampler with prevCpu := (cpuCounters raw).or sampler.prevCpu }

/-- The ticks that are published: the readings of a sampler past its priming. -/
def ticksOf (monitored : Bool) : Option Sampler → List (CollectorOp C P) → List (SourcingTick C P)
  | _, [] => []
  | _, .rebuild primed :: ops =>
      ticksOf monitored (primed.map fun (raw, primedAt) =>
        ⟨monitored, primedAt, cpuCounters raw⟩) ops
  | none, .read _ _ :: ops => ticksOf monitored none ops
  | some sampler, .read raw readAt :: ops =>
      if sampler.primedAt + priming ≤ readAt then
        sampler.tick raw readAt :: ticksOf monitored (some (sampler.next raw)) ops
      else ticksOf monitored (some (sampler.next raw)) ops

theorem ticksOf_sublist (monitored : Bool) (sampler : Option Sampler)
    (ops : List (CollectorOp C P)) :
    ((ticksOf monitored sampler ops).map SourcingTick.now).Sublist
      (ops.filterMap CollectorOp.readAt?) := by
  induction ops generalizing sampler with
  | nil => exact .slnil
  | cons op ops ih =>
      cases op with
      | rebuild primed => exact ih _
      | read raw readAt =>
          cases sampler with
          | none => exact (ih none).cons readAt
          | some sampler =>
              rw [ticksOf]
              split_ifs with hprimed
              · exact (ih _).cons_cons readAt
              · exact (ih _).cons readAt

theorem Sampler.read_eq (f : CpuFloats C P) (sampler : Sampler) (history : SourcingHistory C P)
    (raw : RawReadings C P) (readAt : ℕ) : sampler.read f history raw readAt =
      (if sampler.primedAt + priming ≤ readAt then some
        ((sampler.tick raw readAt).choose f history) else none, sampler.next raw) := by
  have hprimed : priming ≤ readAt - sampler.primedAt ↔ sampler.primedAt + priming ≤ readAt := by
    have hpos : 0 < priming := by decide
    omega
  simp only [read, hprimed]
  rfl

/-- A collector publishes the choices of its published ticks: its sampler may be lost and rebuilt,
its history is kept. -/
theorem Collector.run_sourcings (f : CpuFloats C P) (c : Collector C P)
    (ops : List (CollectorOp C P)) (earlier : List (SourcingTick C P))
    (hhistory : c.history = .after f earlier) :
    (c.run f ops).1 = sourcings f earlier (ticksOf c.monitored c.sampler ops) := by
  induction ops generalizing c earlier with
  | nil => rfl
  | cons op ops ih =>
      cases op with
      | rebuild primed =>
          exact ih { c with sampler := primed.map fun (raw,
            primedAt) => .prime raw c.monitored primedAt } earlier
            hhistory
      | read raw readAt =>
          cases hsampler : c.sampler with
          | none =>
              have hquiet : c.step f (.read raw readAt) = (none, c) := by
                rw [step, hsampler]
              have hlater := ih c earlier hhistory
              rw [hsampler] at hlater
              rw [run, hquiet, ticksOf]
              exact hlater
          | some sampler =>
              rw [run, step, hsampler, ticksOf]
              dsimp only
              rw [Sampler.read_eq]
              split_ifs with hprimed
              · have hafter : ((sampler.tick raw readAt).choose f c.history).history =
                    .after f (earlier ++ [sampler.tick raw readAt]) := by
                  rw [SourcingHistory.after, List.foldl_append, ← SourcingHistory.after, hhistory]
                  rfl
                have hlater := ih
                  { c with
                    sampler := some (sampler.next raw)
                    history := ((sampler.tick raw readAt).choose f c.history).history } _ hafter
                rw [sourcings, ← hlater, ← hhistory]
                rfl
              · exact ih { c with sampler := some (sampler.next raw) } earlier hhistory

/-- Reading sources never mix or flap. On every tick of every sequence with non-decreasing instants,
each group's reading and its warning are as its own ticks so far say, and a memory or swap value not
from the kernel keeps the bounds of the tick it was measured on, its own when it is from the cgroup;
and a collector, whatever its sampler goes through, publishes the choices of the readings past
priming. -/
theorem readings_by_lineage (f : CpuFloats C P) :
    (∀ (earlier : List (SourcingTick C P)) (t : SourcingTick C P),
      ((earlier ++ [t]).map SourcingTick.now).Pairwise (· ≤ ·) →
      ∃ cpuWarning memoryWarning swapWarning,
        (t.choose f (.after f earlier)).warnings =
          (cpuWarning.map (⟨.cpu, ·⟩)).toList ++ (memoryWarning.map (⟨.memory, ·⟩)).toList ++
            (swapWarning.map (⟨.swap, ·⟩)).toList ∧
        GroupSpec (earlier.map (·.cpu f)) (t.cpu f)
          (t.choose f (.after f earlier)).readings.cpu cpuWarning ∧
        GroupSpec (earlier.map (·.memory)) t.memory (t.choose f (.after f earlier)).readings.memory
          memoryWarning ∧
        GroupSpec (earlier.map (·.swap)) t.swap
          (t.choose f (.after f earlier)).readings.swap swapWarning ∧
        ((t.choose f (.after f earlier)).readings.memory.origin ≠ .kernel →
          ∃ t' ∈ earlier ++ [t], ∃ files, t'.files.memory = .read files ∧
            MemoryBounds (t.choose f (.after f earlier)).readings.memory.value
              t'.kernel.memory.total files.limits) ∧
        ((t.choose f (.after f earlier)).readings.swap.origin ≠ .kernel →
          ∃ t' ∈ earlier ++ [t], ∃ files, t'.files.swap = .read files ∧
            SwapBounds (t.choose f (.after f earlier)).readings.swap.value t'.kernel.swap.total
              files.limits) ∧
        ((t.choose f (.after f earlier)).readings.memory.origin = .cgroup →
          ∃ files, t.files.memory = .read files ∧
            MemoryBounds (t.choose f (.after f earlier)).readings.memory.value t.kernel.memory.total
              files.limits) ∧
        ((t.choose f (.after f earlier)).readings.swap.origin = .cgroup →
          ∃ files, t.files.swap = .read files ∧
            SwapBounds (t.choose f (.after f earlier)).readings.swap.value t.kernel.swap.total
              files.limits)) ∧
    ∀ (c : Collector C P) (ops : List (CollectorOp C P)), c.history = .new →
      ((ticksOf c.monitored c.sampler ops).map SourcingTick.now).Sublist
        (ops.filterMap CollectorOp.readAt?) ∧
        (c.run f ops).1 = sourcings f [] (ticksOf c.monitored c.sampler ops) := by
  refine ⟨fun earlier t hclock => ?_, fun c ops hnew =>
    ⟨ticksOf_sublist _ _ ops, c.run_sourcings f ops [] hnew⟩⟩
  obtain ⟨hreadings, hwarnings⟩ := choose_eq f earlier t
  have hinstants : ∀ {G : Type} (group : SourcingTick C P → GroupTick G),
      (∀ x, (group x).now = x.now) →
      ((earlier.map group ++ [group t]).map GroupTick.now).Pairwise (· ≤ ·) := by
    intro G group hnow
    have heq : (earlier.map group ++ [group t]).map GroupTick.now =
        (earlier ++ [t]).map SourcingTick.now := by
      simp [hnow]
    rw [heq]
    exact hclock
  have hcpu := sourcedAt_spec (hinstants (·.cpu f) fun _ => rfl)
  have hmemory := sourcedAt_spec (hinstants (·.memory) fun _ => rfl)
  have hswap := sourcedAt_spec (hinstants (·.swap) fun _ => rfl)
  rw [hreadings]
  exact ⟨_, _, _, hwarnings, hcpu, hmemory, hswap, memory_bounds hmemory, swap_bounds hswap,
    memory_bounds_measured hmemory, swap_bounds_measured hswap⟩

/-- CPUs and percents in whole numbers. -/
def wholeCpus : CpuFloats ℕ ℕ where
  lt a b := decide (a < b)
  share used wall cpus := some (used * 100 / (wall * cpus))

/-- A container with 100 bytes on a host of 1000, then a tick on which its cgroup is gone. -/
def containerTicks : SourcingTick ℕ ℕ × SourcingTick ℕ ℕ :=
  let kernel : KernelReadings ℕ ℕ := ⟨⟨some 1, 4⟩, ⟨1000, 400, 300, 600, none⟩, ⟨0, 0, 0, none⟩⟩
  (⟨some ⟨.absent, .read ⟨70, 20, [.bounded 100]⟩, .absent⟩, kernel, none, 0⟩,
    ⟨none, kernel, none, 10 ^ 9⟩)

theorem readings_by_lineage_containerTicks :
    (containerTicks.2.choose wholeCpus (.after wholeCpus [containerTicks.1])).readings.memory =
      ⟨⟨100, 50, 30, 50, some (.bounded 100)⟩, .carried⟩ := by
  obtain ⟨_, _, _, -, -, hmemory, -⟩ := (readings_by_lineage wholeCpus).1
    [containerTicks.1] containerTicks.2
    (by decide)
  obtain ⟨first, rest, hrun, hsourced⟩ :=
    hmemory.failing ⟨100, 50, 30, 50, some (.bounded 100)⟩ rfl rfl
  obtain rfl : first = containerTicks.2.memory := (List.head_eq_of_cons_eq hrun).symm
  rw [hsourced]
  rfl

end MonitoringAgent.Agent

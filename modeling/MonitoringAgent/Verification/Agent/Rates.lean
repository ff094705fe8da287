import MonitoringAgent.Model.Agent.Scrape

/-! # Application rates

What a report's rates are, over exact rationals: what the counters gained, by how long it took. -/

namespace MonitoringAgent.Agent

open MonitoringAgent.Library

/-! ### Exact numbers -/

/-- A rational, or nothing where floats have no finite value. -/
abbrev Exact := Option ℚ

instance : IsFinite Exact := ⟨Option.isSome⟩

/-- The operations on exact numbers. -/
def exactOps : F64Ops Exact where
  zero := some 0
  hundred := some 100
  thousand := some 1000
  sub a b := a.bind fun a => b.map (a - ·)
  mul a b := a.bind fun a => b.map (a * ·)
  div a b := a.bind fun a => b.bind fun b => if b = 0 then none else some (a / b)
  max a b := a.bind fun a => b.map (max a ·)
  lt a b := a.any fun a => b.any (a < ·)
  le a b := a.any fun a => b.any (a ≤ ·)
  ofU32 n := some n
  ofNanos nanos := some (nanos / 1000000000)

/-- The seconds from one instant to a later one. -/
def elapsed (before now : ℕ) : ℚ := ((now - before : ℕ) : ℚ) / 1000000000

theorem elapsed_pos {before now : ℕ} (h : before < now) : 0 < elapsed before now := by
  have hpos : (0 : ℚ) < ((now - before : ℕ) : ℚ) := by exact_mod_cast Nat.sub_pos_of_lt h
  rw [elapsed]
  positivity

/-! ### Reports -/

/-- The history some scrapes leave. -/
def historyAfter (scrapes : List (RawScrape Exact × ℕ)) : ScrapeHistory Exact :=
  scrapes.foldl (fun history scrape => (history.advance exactOps scrape.1 scrape.2).1) {}

/-- The report of a scrape after others. -/
def reportAfter (earlier : List (RawScrape Exact × ℕ)) (raw : RawScrape Exact) (now : ℕ) :
    ApplicationReport Exact :=
  ((historyAfter earlier).advance exactOps raw now).2

/-- A report's gauge, as a rational. -/
def gaugeOf (report : ApplicationReport Exact) (gauge : ApplicationGauge) : Option ℚ :=
  match report with
  | .unreachable _ => none
  | .reached _ _ gauges => (gauges.get gauge).join

/-- The gauges that are rates. -/
def rateGauges : List ApplicationGauge :=
  [.httpRequestsPerSecond, .httpServerErrorsPerSecond, .gcPausePercent, .httpMeanLatencyMs]

/-- A scrape's counters. -/
def countersOf (scrape : ReachedScrape Exact) : Counters Exact := Counters.of exactOps scrape.meters

def counterFields : List (Counters Exact → Option Exact) :=
  [Counters.requests, Counters.requestSeconds, Counters.serverErrors, Counters.gcPauseSeconds,
    Counters.uptimeSeconds]

/-- No counter that two scrapes have went down between them. -/
def Unreset (prev curr : ReachedScrape Exact) : Prop :=
  ∀ field ∈ counterFields, ∀ before after, field (countersOf prev) = some (some before) →
    field (countersOf curr) = some (some after) → before ≤ after

/-! ### The gauges of a report -/

theorem lookup_filterMap {κ α : Type} [DecidableEq κ] (f : κ → Option α) {keys : List κ} (key : κ) :
    (keys.filterMap fun k => (f k).map (k, ·)).lookup key = if key ∈ keys then f key else none := by
  induction keys with
  | nil => rfl
  | cons k keys ih =>
      rw [List.filterMap_cons]
      by_cases hk : key = k
      · subst hk
        cases hf : f key with
        | none =>
            rw [Option.map_none]
            simp only
            rw [ih, hf]
            simp
        | some value => simp
      · have hne : (key == k) = false := by simpa using hk
        cases hf : f k with
        | none =>
            rw [Option.map_none]
            simp only
            rw [ih]
            simp [hk]
        | some value =>
            rw [Option.map_some]
            simp only
            rw [List.lookup_cons, hne, ih]
            simp [hk]

theorem get_fromValues (f : ApplicationGauge → Option Exact) (gauge : ApplicationGauge) :
    (Gauges.fromValues (ApplicationGauge.all.map fun gauge => (gauge, f gauge))).get gauge =
      (f gauge).filter isFinite := by
  have hmem : gauge ∈ ApplicationGauge.all.reverse := by
    cases gauge with
    | _ => decide
  simp only [Gauges.fromValues, List.filterMap_map, Function.comp_def]
  rw [← List.filterMap_reverse, lookup_filterMap, if_pos hmem]

/-- A reached scrape's gauge is the one derived, where finite. -/
theorem gaugeOf_fold (history : ScrapeHistory Exact) (scrape : ReachedScrape Exact) (now : ℕ)
    (gauge : ApplicationGauge) :
    gaugeOf (history.fold exactOps scrape now).2 gauge =
      (gauge.derive exactOps scrape.meters
        (((history.baseline.filter fun baseline =>
          !baseline.counters.resetBefore exactOps (countersOf scrape)).map
            (·.ratesTo exactOps (countersOf scrape) now)).getD {})).join := by
  simp only [ScrapeHistory.fold, gaugeOf, get_fromValues, countersOf]
  generalize gauge.derive exactOps scrape.meters _ = value
  cases value with
  | none => rfl
  | some value =>
      cases value with
      | none => rfl
      | some q => rfl

/-! ### Counters -/

/-- The pairs a reset is looked for in are each counter's. -/
theorem counter_pairs (prev curr : Counters Exact) :
    [(prev.requests, curr.requests), (prev.requestSeconds, curr.requestSeconds),
      (prev.serverErrors, curr.serverErrors), (prev.gcPauseSeconds, curr.gcPauseSeconds),
      (prev.uptimeSeconds, curr.uptimeSeconds)] = counterFields.map fun field =>
        (field prev, field curr) := rfl

theorem resetBefore_iff (prev curr : ReachedScrape Exact) :
    (countersOf prev).resetBefore exactOps (countersOf curr) = false ↔ Unreset prev curr := by
  rw [Counters.resetBefore, counter_pairs, List.any_eq_false]
  constructor
  · intro h field hfield before after hbefore hafter
    have hpair := h _ (List.mem_map_of_mem hfield)
    rw [hbefore, hafter] at hpair
    simpa [exactOps] using hpair
  · intro h pair hpair
    obtain ⟨field, hfield, rfl⟩ := List.mem_map.mp hpair
    have hle := h field hfield
    generalize field (countersOf prev) = before at hle ⊢
    generalize field (countersOf curr) = after at hle ⊢
    match before, after with
    | none, _ => simp
    | some _, none => simp
    | some none, some none => simp [exactOps]
    | some none, some (some q) => simp [exactOps]
    | some (some p), some none => simp [exactOps]
    | some (some p), some (some q) => simpa [exactOps] using hle p q rfl rfl

/-! ### Rates -/

theorem ratePerSecond_exact (before after : ℚ) (prevAt now : ℕ) :
    ratePerSecond exactOps (some ⟨some before, prevAt⟩) ⟨some after, now⟩ =
      if before ≤ after ∧ prevAt < now then some (some ((after - before) / elapsed prevAt now))
        else none := by
  by_cases hdown : after < before
  · rw [if_neg (fun h => absurd h.1 (not_le_of_gt hdown))]
    simp [ratePerSecond, exactOps, hdown]
  obtain hbefore | rfl | hpassed := Nat.lt_trichotomy now prevAt
  · rw [if_neg (fun h => absurd h.2 (Nat.lt_asymm hbefore))]
    simp [ratePerSecond, exactOps, hdown, hbefore]
  · rw [if_neg (fun h => absurd h.2 (Nat.lt_irrefl now))]
    simp [ratePerSecond, exactOps, hdown, isFinite]
  · rw [if_pos ⟨le_of_not_gt hdown, hpassed⟩]
    have hnanos : now - prevAt ≠ 0 := Nat.sub_ne_zero_of_lt hpassed
    simp [ratePerSecond, exactOps, hdown, Nat.lt_asymm hpassed, hnanos, isFinite, elapsed]

/-- A rate is what a counter gained, by the time that passed. -/
theorem rate_iff (prev curr : Option Exact) (prevAt now : ℕ) (r : ℚ) :
    (curr.bind fun curr => ratePerSecond exactOps (prev.map (⟨·, prevAt⟩)) ⟨curr, now⟩) =
      some (some r) ↔
      ∃ before after, prev = some (some before) ∧ curr = some (some after) ∧
        before ≤ after ∧ prevAt < now ∧
        r * elapsed prevAt now = after - before := by
  match prev, curr with
  | _, none => simp
  | none, some _ => simp [ratePerSecond]
  | some none, some none => simp [ratePerSecond, exactOps]
  | some none, some (some _) => simp [ratePerSecond, exactOps]
  | some (some _), some none => simp [ratePerSecond, exactOps]
  | some (some before), some (some after) =>
      rw [Option.bind_some, Option.map_some, ratePerSecond_exact]
      constructor
      · intro h
        split_ifs at h with hrate
        obtain ⟨hle, hpassed⟩ := hrate
        simp only [Option.some.injEq] at h
        refine ⟨before, after, rfl, rfl, hle, hpassed, ?_⟩
        rw [← h, div_mul_cancel₀ _ (elapsed_pos hpassed).ne']
      · rintro ⟨p, q, hp, hq, hle, hpassed, hr⟩
        simp only [Option.some.injEq] at hp hq
        subst hp hq
        rw [if_pos ⟨hle, hpassed⟩, ← hr, mul_div_cancel_right₀ _ (elapsed_pos hpassed).ne']

/-! ### Baselines -/

/-- What a scrape leaves the next one is its own counters, or nothing. -/
theorem historyAfter_append (earlier : List (RawScrape Exact × ℕ))
    (raw : RawScrape Exact) (now : ℕ) :
    (historyAfter (earlier ++ [(raw, now)])).baseline =
      match raw with
      | .unreachable _ => none
      | .reached scrape => some ⟨countersOf scrape, now, scrape.ownRequests⟩ := by
  rw [historyAfter, List.foldl_append]
  cases raw with
  | unreachable failure => rfl
  | reached scrape => rfl

/-- The rates of a report, over the scrape before. -/
structure RatesOver (prev : ReachedScrape Exact) (prevAt : ℕ) (curr : ReachedScrape Exact) (now : ℕ)
    (report : ApplicationReport Exact) : Prop where
  /-- What was served, but for the agent's own requests. -/
  requests : ∀ r, gaugeOf report .httpRequestsPerSecond = some r ↔
    ∃ before after, (countersOf prev).requests = some (some before) ∧
      (countersOf curr).requests = some (some after) ∧ prevAt < now ∧
      r * elapsed prevAt now = max (after - before - prev.ownRequests.toNat) 0
  serverErrors : ∀ r, gaugeOf report .httpServerErrorsPerSecond = some r ↔
    ∃ before after, (countersOf prev).serverErrors = some (some before) ∧
      (countersOf curr).serverErrors = some (some after) ∧ prevAt < now ∧
      r * elapsed prevAt now = after - before
  /-- A pause's share of the time, in percent. -/
  gcPause : ∀ r, gaugeOf report .gcPausePercent = some r ↔
    ∃ before after, (countersOf prev).gcPauseSeconds = some (some before) ∧
      (countersOf curr).gcPauseSeconds = some (some after) ∧ prevAt < now ∧
      r * elapsed prevAt now / 100 = after - before
  meanLatency : ∀ r, gaugeOf report .httpMeanLatencyMs = some r ↔
    ∃ count count' seconds seconds', (countersOf prev).requests = some (some count) ∧
      (countersOf curr).requests = some (some count') ∧
      (countersOf prev).requestSeconds = some (some seconds) ∧
      (countersOf curr).requestSeconds = some (some seconds') ∧ count < count' ∧
      r = 1000 * (seconds' - seconds) / (count' - count)

theorem meanLatency_iff (prev curr : ReachedScrape Exact) (prevAt : ℕ) (own : UInt32) (r : ℚ) :
    (Baseline.meanLatencyMs exactOps ⟨countersOf prev, prevAt, own⟩ (countersOf curr)).join =
      some r ↔
      ∃ count count' seconds seconds', (countersOf prev).requests = some (some count) ∧
        (countersOf curr).requests = some (some count') ∧
        (countersOf prev).requestSeconds = some (some seconds) ∧
        (countersOf curr).requestSeconds = some (some seconds') ∧ count < count' ∧
        r = 1000 * (seconds' - seconds) / (count' - count) := by
  simp only [Baseline.meanLatencyMs, Option.join_eq_some_iff, Option.bind_eq_bind,
    Option.bind_eq_some_iff, Option.ite_none_right_eq_some, Option.some.injEq]
  constructor
  · rintro ⟨count', hcount', count, hcount, seconds', hseconds', seconds, hseconds, hpos, hr⟩
    match count, count', seconds, seconds' with
    | _, none, _, _ => simp [exactOps] at hpos
    | none, some _, _, _ => simp [exactOps] at hpos
    | some _, some _, _, none => simp [exactOps] at hr
    | some _, some _, none, some _ => simp [exactOps] at hr
    | some count, some count', some seconds, some seconds' =>
        simp only [exactOps, Option.bind_some, Option.map_some, Option.any_some,
          decide_eq_true_eq, sub_pos] at hpos hr
        rw [if_neg (sub_pos.mpr hpos).ne', Option.bind_some, Option.some.injEq] at hr
        refine ⟨count, count', seconds, seconds', hcount, hcount', hseconds, hseconds', hpos, ?_⟩
        rw [← hr]
        ring
  · rintro ⟨count, count', seconds, seconds', hcount, hcount', hseconds, hseconds', hpos, rfl⟩
    refine ⟨_, hcount', _, hcount, _, hseconds', _, hseconds, ?_, ?_⟩
    · simpa [exactOps] using hpos
    · simp only [exactOps, Option.bind_some, Option.map_some]
      rw [if_neg (sub_pos.mpr hpos).ne', Option.bind_some, Option.some.injEq]
      ring

/-- The agent's own requests are taken out of what was served, never below nothing. -/
theorem netRequests_iff (prev curr : Option Exact) (own : ℕ) (prevAt now : ℕ) (r : ℚ) :
    (((curr.bind fun curr => prev.map fun prev =>
        exactOps.max (exactOps.sub curr (exactOps.ofU32 own)) prev).bind fun net =>
          ratePerSecond exactOps (prev.map (⟨·, prevAt⟩)) ⟨net, now⟩)) = some (some r) ↔
      ∃ before after, prev = some (some before) ∧ curr = some (some after) ∧ prevAt < now ∧
        r * elapsed prevAt now = max (after - before - own) 0 := by
  rw [rate_iff]
  constructor
  · rintro ⟨before, net, rfl, hnet, -, hpassed, hr⟩
    simp only [Option.map_some, Option.bind_eq_some_iff] at hnet
    obtain ⟨after, rfl, hnet⟩ := hnet
    cases after with
    | none => simp [exactOps] at hnet
    | some after =>
        simp only [exactOps, Option.bind_some, Option.map_some, Option.some.injEq] at hnet
        refine ⟨before, after, rfl, rfl, hpassed, ?_⟩
        rw [hr, ← hnet, ← max_sub_sub_right, sub_self]
        congr 1
        ring
  · rintro ⟨before, after, rfl, rfl, hpassed, hr⟩
    refine ⟨before, max (after - own) before, rfl, rfl, le_max_right _ _, hpassed, ?_⟩
    rw [hr, ← max_sub_sub_right, sub_self]
    congr 1
    ring

/-- With no reset, a report has the rates over the scrape before. -/
theorem ratesOver {history : ScrapeHistory Exact} {prev curr : ReachedScrape Exact} {prevAt : ℕ}
    (hbaseline : history.baseline = some ⟨countersOf prev, prevAt, prev.ownRequests⟩)
    (hunreset : Unreset prev curr) (now : ℕ) :
    RatesOver prev prevAt curr now (history.fold exactOps curr now).2 := by
  have hkept : (countersOf prev).resetBefore exactOps (countersOf curr) = false :=
    (resetBefore_iff prev curr).mpr hunreset
  have hgauge : ∀ gauge, gaugeOf (history.fold exactOps curr now).2 gauge =
      (gauge.derive exactOps curr.meters
        (Baseline.ratesTo exactOps ⟨countersOf prev, prevAt, prev.ownRequests⟩
        (countersOf curr) now)).join := by
    intro gauge
    rw [gaugeOf_fold, hbaseline, Option.filter_some, if_pos (by rw [hkept]; rfl)]
    rfl
  constructor
  · intro r
    rw [hgauge, Option.join_eq_some_iff]
    exact netRequests_iff _ _ _ _ _ r
  · intro r
    rw [hgauge, Option.join_eq_some_iff]
    refine (rate_iff _ _ _ _ r).trans ?_
    constructor
    · rintro ⟨before, after, hbefore, hafter, -, hpassed, hr⟩
      exact ⟨before, after, hbefore, hafter, hpassed, hr⟩
    · rintro ⟨before, after, hbefore, hafter, hpassed, hr⟩
      have hle := hunreset Counters.serverErrors
        (by simp [counterFields]) before after hbefore hafter
      exact ⟨before, after, hbefore, hafter, hle, hpassed, hr⟩
  · intro r
    rw [hgauge, Option.join_eq_some_iff]
    have hpercent : ApplicationGauge.gcPausePercent.derive exactOps curr.meters
        (Baseline.ratesTo exactOps ⟨countersOf prev, prevAt, prev.ownRequests⟩
          (countersOf curr) now) =
          some (some r) ↔
        ((countersOf curr).gcPauseSeconds.bind fun curr => ratePerSecond exactOps
          ((countersOf prev).gcPauseSeconds.map (⟨·, prevAt⟩)) ⟨curr, now⟩) =
            some (some (r / 100)) := by
      simp only [ApplicationGauge.derive, Baseline.ratesTo]
      generalize ((countersOf curr).gcPauseSeconds.bind fun curr => ratePerSecond exactOps
        ((countersOf prev).gcPauseSeconds.map (⟨·, prevAt⟩)) ⟨curr, now⟩) = rate
      match rate with
      | none => simp
      | some none => simp [exactOps]
      | some (some share) => simp [exactOps, eq_div_iff]
    rw [hpercent, rate_iff]
    constructor
    · rintro ⟨before, after, hbefore, hafter, -, hpassed, hr⟩
      exact ⟨before, after, hbefore, hafter, hpassed, by rw [← hr]; ring⟩
    · rintro ⟨before, after, hbefore, hafter, hpassed, hr⟩
      have hle := hunreset Counters.gcPauseSeconds
        (by simp [counterFields]) before after hbefore hafter
      exact ⟨before, after, hbefore, hafter, hle, hpassed, by rw [← hr]; ring⟩
  · intro r
    rw [hgauge]
    exact meanLatency_iff prev curr prevAt prev.ownRequests r

/-- Without a baseline, or with a reset, a report has no rate. -/
theorem no_rates {history : ScrapeHistory Exact} {curr : ReachedScrape Exact}
    (h : ∀ baseline, history.baseline = some baseline →
      baseline.counters.resetBefore exactOps (countersOf curr) = true) (now : ℕ)
    {gauge : ApplicationGauge} (hrate : gauge ∈ rateGauges) :
    gaugeOf (history.fold exactOps curr now).2 gauge = none := by
  have hnone : (history.baseline.filter fun baseline =>
      !baseline.counters.resetBefore exactOps (countersOf curr)) = none := by
    rw [Option.filter_eq_none_iff]
    intro baseline hbaseline
    simp [h baseline hbaseline]
  rw [gaugeOf_fold, hnone, Option.map_none, Option.getD_none]
  simp only [rateGauges, List.mem_cons, List.not_mem_nil, or_false] at hrate
  obtain rfl | rfl | rfl | rfl := hrate
  · rfl
  · rfl
  · rfl
  · rfl

/-- A report with a rate is over a scrape that reached the application, with no reset since. -/
theorem rate_over {earlier : List (RawScrape Exact × ℕ)} {raw : RawScrape Exact} {now : ℕ}
    {gauge : ApplicationGauge} (hrate : gauge ∈ rateGauges) {r : ℚ}
    (h : gaugeOf (reportAfter earlier raw now) gauge = some r) :
    ∃ prev prevAt curr, earlier.getLast? = some (.reached prev, prevAt) ∧ raw = .reached curr ∧
      Unreset prev curr := by
  cases raw with
  | unreachable failure => cases h
  | reached curr =>
      have hbaseline : ∃ baseline, (historyAfter earlier).baseline = some baseline ∧
          baseline.counters.resetBefore exactOps (countersOf curr) = false := by
        by_contra hno
        push Not at hno
        rw [reportAfter, ScrapeHistory.advance, no_rates
          (fun baseline hbaseline => ?_) now hrate] at h
        · cases h
        · exact Bool.eq_true_of_not_eq_false (hno baseline hbaseline)
      obtain ⟨baseline, hsome, hkept⟩ := hbaseline
      cases earlier using List.reverseRecOn with
      | nil => cases hsome
      | append_singleton earlier last _ =>
          obtain ⟨raw, prevAt⟩ := last
          rw [historyAfter_append] at hsome
          cases raw with
          | unreachable failure => cases hsome
          | reached prev =>
              rw [← Option.some.inj hsome] at hkept
              exact ⟨prev, prevAt, curr, List.getLast?_concat .., rfl,
                (resetBefore_iff prev curr).mp hkept⟩

/-- A report over a scrape with no reset since has the rates over it. -/
theorem reportAfter_ratesOver {earlier : List (RawScrape Exact × ℕ)}
    {prev curr : ReachedScrape Exact} {prevAt : ℕ}
    (hlast : earlier.getLast? = some (.reached prev, prevAt)) (hunreset : Unreset prev curr)
    (now : ℕ) : RatesOver prev prevAt curr now (reportAfter earlier (.reached curr) now) := by
  obtain ⟨before, rfl⟩ := List.getLast?_eq_some_iff.mp hlast
  exact ratesOver (historyAfter_append before (.reached prev) prevAt) hunreset now

theorem RatesOver.nonneg {prev curr : ReachedScrape Exact} {prevAt now : ℕ}
    {report : ApplicationReport Exact} (h : RatesOver prev prevAt curr now report)
    (hunreset : Unreset prev curr) {gauge : ApplicationGauge} (hrate : gauge ∈ rateGauges) {r : ℚ}
    (hr : gaugeOf report gauge = some r) : 0 ≤ r ∧ (gauge ≠ .httpMeanLatencyMs → prevAt < now) := by
  have hsign : prevAt < now → 0 ≤ r * elapsed prevAt now → 0 ≤ r :=
    fun hpassed hprod => nonneg_of_mul_nonneg_left hprod (elapsed_pos hpassed)
  simp only [rateGauges, List.mem_cons, List.not_mem_nil, or_false] at hrate
  obtain rfl | rfl | rfl | rfl := hrate
  · obtain ⟨before, after, -, -, hpassed, hgain⟩ := (h.requests r).mp hr
    exact ⟨hsign hpassed (hgain ▸ le_max_right _ _), fun _ => hpassed⟩
  · obtain ⟨before, after, hbefore, hafter, hpassed, hgain⟩ := (h.serverErrors r).mp hr
    have hle := hunreset Counters.serverErrors (by simp [counterFields]) before after hbefore hafter
    exact ⟨hsign hpassed (hgain ▸ sub_nonneg.mpr hle), fun _ => hpassed⟩
  · obtain ⟨before, after, hbefore, hafter, hpassed, hgain⟩ := (h.gcPause r).mp hr
    have hle := hunreset Counters.gcPauseSeconds
      (by simp [counterFields]) before after hbefore hafter
    refine ⟨hsign hpassed ?_, fun _ => hpassed⟩
    linarith
  · obtain ⟨count, count', seconds, seconds', -, -, hseconds, hseconds', hserved, rfl⟩ :=
      (h.meanLatency r).mp hr
    have hle := hunreset Counters.requestSeconds
      (by simp [counterFields]) seconds seconds' hseconds hseconds'
    refine ⟨?_, fun hne => absurd rfl hne⟩
    exact div_nonneg (by linarith) (by linarith)

/-! ### Stretches -/

/-- Scrapes that each reached the application, at strictly increasing times and with no reset. -/
def Unbroken (stretch : List (ReachedScrape Exact × ℕ)) : Prop :=
  stretch.IsChain fun earlier later => earlier.2 < later.2 ∧ Unreset earlier.1 later.1

/-- A gauge's rates over a stretch, each by the time it is over, of the reports after `earlier`. -/
def gained (gauge : ApplicationGauge) :
    List (RawScrape Exact × ℕ) → List (ReachedScrape Exact × ℕ) → ℚ
  | earlier, (prev, prevAt) :: (curr, now) :: rest =>
      (gaugeOf (reportAfter (earlier ++ [(.reached prev, prevAt)])
          (.reached curr) now) gauge).getD 0 *
          elapsed prevAt now +
        gained gauge (earlier ++ [(.reached prev, prevAt)]) ((curr, now) :: rest)
  | _, _ => 0

/-- A counter's value at a scrape that has it. -/
def counterAt (field : Counters Exact → Option Exact) (scrape : ReachedScrape Exact × ℕ) : ℚ :=
  (field (countersOf scrape.1)).join.getD 0

/-- Rates that are each what a counter gained, scaled, gain what the counter does. -/
theorem gained_eq {gauge : ApplicationGauge} {field : Counters Exact → Option Exact} {scale : ℚ}
    (hgauge : ∀ prev prevAt curr now report before after, RatesOver prev prevAt curr now report →
      field (countersOf prev) = some (some before) → field (countersOf curr) = some (some after) →
      prevAt < now → ∃ r, gaugeOf report gauge = some r ∧
        r * elapsed prevAt now = scale * (after - before))
    (earlier : List (RawScrape Exact × ℕ)) (first : ReachedScrape Exact × ℕ)
    {rest : List (ReachedScrape Exact × ℕ)} (hunbroken : Unbroken (first :: rest))
    (hpresent : ∀ scrape ∈ first :: rest, ∃ q, field (countersOf scrape.1) = some (some q)) :
    gained gauge earlier (first :: rest) =
      scale * (counterAt field ((first :: rest).getLast (List.cons_ne_nil _ _)) -
        counterAt field first) := by
  induction rest generalizing earlier first with
  | nil => simp [gained]
  | cons second rest ih =>
      obtain ⟨prev, prevAt⟩ := first
      obtain ⟨curr, now⟩ := second
      rw [Unbroken, List.isChain_cons_cons] at hunbroken
      obtain ⟨⟨hpassed, hunreset⟩, hrest⟩ := hunbroken
      obtain ⟨before, hbefore⟩ := hpresent _ List.mem_cons_self
      obtain ⟨after, hafter⟩ := hpresent _ (List.mem_cons_of_mem _ List.mem_cons_self)
      have hlast : (earlier ++ [(RawScrape.reached prev, prevAt)]).getLast? =
          some (.reached prev, prevAt) :=
        List.getLast?_concat
      have hover := reportAfter_ratesOver hlast hunreset now
      obtain ⟨r, hr, hgain⟩ := hgauge _ _ _ _ _ before after hover hbefore hafter hpassed
      have hlater := ih (earlier ++ [(.reached prev, prevAt)]) (curr, now) hrest
        fun scrape hscrape => hpresent scrape (List.mem_cons_of_mem _ hscrape)
      rw [gained, hr, Option.getD_some, hgain, hlater, List.getLast_cons_cons]
      simp only [counterAt, hbefore, hafter, Option.join_some, Option.getD_some]
      ring

/-- Application rates lose and invent nothing: a report has a rate only over a scrape before it that
reached the application, with no counter gone down and, but for the mean latency, with time passed;
no rate is negative; each is what its counters gained by how long it took; and over an unbroken
stretch the rates of the server errors and of the pauses add up to what their counters gained. -/
theorem rates_lose_and_invent_nothing :
    (∀ earlier raw now, ∀ gauge ∈ rateGauges, ∀ r,
      gaugeOf (reportAfter earlier raw now) gauge = some r →
      0 ≤ r ∧ ∃ prev prevAt curr, earlier.getLast? = some (.reached prev, prevAt) ∧
        raw = .reached curr ∧
        Unreset prev curr ∧ (gauge ≠ .httpMeanLatencyMs → prevAt < now)) ∧
    (∀ earlier prev prevAt curr now, earlier.getLast? = some (.reached prev, prevAt) →
      Unreset prev curr →
      RatesOver prev prevAt curr now (reportAfter earlier (.reached curr) now)) ∧
    (∀ earlier first rest, Unbroken (first :: rest) →
      (∀ scrape ∈ first :: rest, ∃ q, (countersOf scrape.1).serverErrors = some (some q)) →
      gained .httpServerErrorsPerSecond earlier (first :: rest) =
        counterAt Counters.serverErrors ((first :: rest).getLast (List.cons_ne_nil _ _)) -
          counterAt Counters.serverErrors first) ∧
    (∀ earlier first rest, Unbroken (first :: rest) →
      (∀ scrape ∈ first :: rest, ∃ q, (countersOf scrape.1).gcPauseSeconds = some (some q)) →
      gained .gcPausePercent earlier (first :: rest) / 100 =
        counterAt Counters.gcPauseSeconds ((first :: rest).getLast (List.cons_ne_nil _ _)) -
          counterAt Counters.gcPauseSeconds first) ∧
    ∀ scrape : ReachedScrape Exact, scrape.meters.httpServerErrors = .notPublished →
      (countersOf scrape).requests.isSome → (countersOf scrape).serverErrors = some (some 0) := by
  refine ⟨?_, fun earlier prev prevAt curr now hlast hunreset =>
    reportAfter_ratesOver hlast hunreset now, ?_, ?_, ?_⟩
  · intro earlier raw now gauge hrate r hr
    obtain ⟨prev, prevAt, curr, hlast, rfl, hunreset⟩ := rate_over hrate hr
    obtain ⟨hnonneg, hpassed⟩ := (reportAfter_ratesOver hlast hunreset now).nonneg hunreset hrate hr
    exact ⟨hnonneg, prev, prevAt, curr, hlast, rfl, hunreset, hpassed⟩
  · intro earlier first rest hunbroken hpresent
    refine (gained_eq (fun prev prevAt curr now report before after hover hbefore
      hafter hpassed => ?_) earlier first hunbroken hpresent).trans (one_mul _)
    have hpos := (elapsed_pos hpassed).ne'
    refine ⟨(after - before) / elapsed prevAt now, (hover.serverErrors _).mpr ?_, ?_⟩
    · exact ⟨before, after, hbefore, hafter, hpassed, div_mul_cancel₀ _ hpos⟩
    · rw [div_mul_cancel₀ _ hpos, one_mul]
  · intro earlier first rest hunbroken hpresent
    rw [gained_eq (fun prev prevAt curr now report before after hover hbefore hafter hpassed => ?_)
      earlier first hunbroken hpresent, mul_div_cancel_left₀]
    · exact (by norm_num : (100 : ℚ) ≠ 0)
    · have hpos := (elapsed_pos hpassed).ne'
      refine ⟨100 * (after - before) / elapsed prevAt now, (hover.gcPause _).mpr ?_, ?_⟩
      · refine ⟨before, after, hbefore, hafter, hpassed, ?_⟩
        rw [div_mul_cancel₀ _ hpos]
        ring
      · exact div_mul_cancel₀ _ hpos
  · intro scrape hmeter hrequests
    simp only [countersOf, Counters.of] at hrequests ⊢
    rw [hmeter]
    simp only [hrequests, if_true]
    rfl

end MonitoringAgent.Agent

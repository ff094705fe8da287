import MonitoringAgent.Model.Wire.Link
import MonitoringAgent.Verification.Agent.Push
import MonitoringAgent.Verification.Hub.Budget
import MonitoringAgent.Verification.Hub.Database

/-! # An honest agent is never throttled

A snapshot every 2 s at the most, and two rounds at once and one every 10 s at the most: together
they stay behind the decode budget, and the rounds behind their pace. `tick` and `round` are when
the agent has made up for the snapshots and for the rounds it has sent. -/

namespace MonitoringAgent.Wire

open MonitoringAgent.Agent (PublishedSnapshot seconds)
open MonitoringAgent.Agent.Push

variable {System Round : Type} {now tick round : ℕ} {intake : Hub.Intake}

/-! ### The hub's end -/

/-- The message was dropped or answered as too soon. -/
def throttled : Hub.IngestOutcome → Bool
  | .outOfBudget | .round .tooSoon => true
  | _ => false

/-- The decode budget and the pace are full again by the time the agent has made up for what it
sent, a second of the one being a message, and 8 s of the other a round. -/
structure Ahead (now tick round : ℕ) (intake : Hub.Intake) : Prop where
  budget_refill : intake.budget.refill = Hub.decodeRefill
  budget_tokens : intake.budget.tokens ≤ intake.budget.refill.capacity
  pace_refill : intake.pace.refill = Hub.pace
  pace_tokens : intake.pace.tokens ≤ intake.pace.refill.capacity
  budget : 10 * (intake.budget.fullAt - now) ≤ 5 * (tick - now) + (round - now)
  pace : 10 * (intake.pace.fullAt - now) ≤ 8 * (round - now)

theorem ahead_new (systemId : Hub.SystemId) (lease : Option ℕ) (now tick round : ℕ) :
    Ahead now tick round (.new systemId lease now) where
  budget_refill := rfl
  budget_tokens := le_rfl
  pace_refill := rfl
  pace_tokens := le_rfl
  budget := by
    rw [Hub.Intake.new, Hub.TokenBucket.fullAt_full, Nat.sub_self]
    exact Nat.zero_le _
  pace := by
    rw [Hub.Intake.new, Hub.TokenBucket.fullAt_full, Nat.sub_self]
    exact Nat.zero_le _

theorem Ahead.later (h : Ahead now tick round intake) {now' : ℕ} (hle : now ≤ now') :
    Ahead now' tick round intake := by
  have hbudget := h.budget
  have hpace := h.pace
  exact { h with budget := by omega, pace := by omega }

theorem Ahead.mono (h : Ahead now tick round intake) {tick' round' : ℕ} (htick : tick ≤ tick')
    (hround : round ≤ round') : Ahead now tick' round' intake := by
  have hbudget := h.budget
  have hpace := h.pace
  exact { h with budget := by omega, pace := by omega }

theorem Ahead.spendDecodeBudget (h : Ahead now tick round intake)
    (hdue : 5 * (tick - now) + (round - now) ≤ seconds 20) :
    ∃ spent, intake.spendDecodeBudget now = some spent ∧
      spent.toConnectionState = intake.toConnectionState ∧
      spent.budget.refill = Hub.decodeRefill ∧ spent.budget.tokens ≤ spent.budget.refill.capacity ∧
      10 * (spent.budget.fullAt - now) ≤ 5 * (tick - now) + (round - now) + seconds 10 := by
  have hbudget := h.budget
  have hin : intake.budget.fullAt ≤ now + intake.budget.refill.period *
      (intake.budget.refill.capacity - 1) := by
    rw [h.budget_refill, show Hub.decodeRefill.period * (Hub.decodeRefill.capacity - 1) =
      seconds 2 from rfl]
    simp only [seconds] at hdue ⊢
    omega
  obtain ⟨budget, htake, hrefill, htokens, hfull⟩ :=
    Hub.TokenBucket.take_spec h.budget_tokens (by rw [h.budget_refill]; decide) hin
  refine ⟨{ intake with budget }, ?_, rfl, hrefill.trans h.budget_refill, hrefill ▸ htokens, ?_⟩
  · rw [Hub.Intake.spendDecodeBudget, htake]
    rfl
  · dsimp only
    rw [hfull, h.budget_refill, show Hub.decodeRefill.period = seconds 1 from rfl]
    simp only [seconds]
    omega

/-- A round whose token there is is not answered as too soon. -/
theorem storeRound_not_tooSoon (app : Hub.AppState) (systemId : Hub.SystemId)
    (round : Hub.ScrapeRound) {pace spent : Hub.TokenBucket} {arrival : Hub.AppState.Arrival}
    (htake : pace.take arrival.now = some spent) :
    (app.storeRound systemId round pace arrival).1 = .stored spent ∨
      ((∀ other, (app.storeRound systemId round pace arrival).1 ≠ .stored other) ∧
        (app.storeRound systemId round pace arrival).1 ≠ .tooSoon) := by
  simp only [Hub.AppState.storeRound, Hub.AppState.store, Hub.Database.storeRound,
    Hub.admitRound, htake]
  by_cases hsystem : app.db.systemExists systemId
  · simp only [hsystem, if_true]
    split_ifs with hrecent
    · exact .inr (by simp)
    · exact .inl rfl
  · simp only [hsystem]
    exact .inr (by simp)

theorem ingestRound_cases (round : Hub.ScrapeRound) {moment : Hub.Moment} {spent : Hub.TokenBucket}
    (htake : intake.pace.take moment.arrival.now = some spent) :
    (intake.ingestRound round moment).1 ≠ .tooSoon ∧
      ((intake.ingestRound round moment).2.2 = intake ∨
        (intake.ingestRound round moment).2.2 = { intake with pace := spent }) := by
  have hcases := storeRound_not_tooSoon moment.app intake.systemId round htake
  rw [Hub.Intake.ingestRound]
  generalize moment.app.storeRound intake.systemId round intake.pace moment.arrival = did at hcases
  obtain ⟨outcome, app⟩ := did
  cases outcome with
  | stored other =>
      rcases hcases with hstored | ⟨hnone, -⟩
      · obtain rfl := Hub.Database.RoundStored.stored.inj hstored
        exact ⟨by simp, .inr rfl⟩
      · exact absurd rfl (hnone other)
  | tooSoon =>
      rcases hcases with hstored | ⟨-, hsoon⟩
      · exact absurd hstored (by simp)
      · exact absurd rfl hsoon
  | duplicate | systemGone => exact ⟨by simp, .inl rfl⟩

/-- A message the agent's schedule allows is not throttled, and the hub stays ahead of the schedule
after it. A snapshot is made up for in 2 s, a round in 10 s. -/
theorem Ahead.ingest (h : Ahead now tick round intake) {frame : Hub.Frame} {moment : Hub.Moment}
    (hnow : moment.arrival.now = now) (hdue : 5 * (tick - now) + (round - now) ≤ seconds 20)
    {tick' round' : ℕ} (hround : round ≤ round')
    (hspent : 5 * (tick - now) + (round - now) + seconds 10 ≤ 5 * (tick' - now) + (round' - now))
    (hpaced : ∀ r, frame = .round r → round ≤ now + seconds 10 ∧
      max round now + seconds 10 ≤ round') :
    throttled (intake.ingest frame moment).1 = false ∧
    Ahead now tick' round' (intake.ingest frame moment).2.2 := by
  obtain ⟨spent, hspend, hsame, hrefill, htokens, hfull⟩ := h.spendDecodeBudget hdue
  have hpace := h.pace
  have hpacerefill : spent.pace.refill = Hub.pace := hsame ▸ h.pace_refill
  have hpacetokens : spent.pace.tokens ≤ spent.pace.refill.capacity := hsame ▸ h.pace_tokens
  have hpacefull : 10 * (spent.pace.fullAt - now) ≤ 8 * (round - now) := hsame ▸ hpace
  have hunpaced : Ahead now tick' round' spent :=
    ⟨hrefill, htokens, hpacerefill, hpacetokens, hfull.trans hspent, by omega⟩
  rw [Hub.Intake.ingest, hnow, hspend]
  cases frame with
  | snapshot frame => exact ⟨rfl, hunpaced⟩
  | refused => exact ⟨rfl, hunpaced⟩
  | round r =>
      obtain ⟨hearly, hafter⟩ := hpaced r rfl
      have hin : spent.pace.fullAt ≤ now + spent.pace.refill.period *
          (spent.pace.refill.capacity - 1) := by
        rw [hpacerefill, show Hub.pace.period * (Hub.pace.capacity - 1) = seconds 8 from rfl]
        simp only [seconds] at hearly ⊢
        omega
      obtain ⟨pace, htake, hkept, hleft, hnext⟩ :=
        Hub.TokenBucket.take_spec hpacetokens (by rw [hpacerefill]; decide) hin
      rw [← hnow] at htake
      obtain ⟨hsoon, hstate⟩ := ingestRound_cases r htake
      have hoften : 10 * (pace.fullAt - now) ≤ 8 * (round' - now) := by
        rw [hnext, hpacerefill, show Hub.pace.period = seconds 8 from rfl]
        simp only [seconds] at hafter ⊢
        omega
      have hahead : Ahead now tick' round' (spent.ingestRound r moment).2.2 := by
        rcases hstate with hstate | hstate
        · rw [hstate]
          exact hunpaced
        · rw [hstate]
          exact { hunpaced with pace_refill := hkept.trans hpacerefill, pace_tokens
              := hkept ▸ hleft, pace := hoften }
      refine ⟨?_, hahead⟩
      change throttled (.round (spent.ingestRound r moment).1) = false
      generalize (spent.ingestRound r moment).1 = outcome at hsoon ⊢
      cases outcome with
      | tooSoon => exact absurd rfl hsoon
      | _ => rfl

/-! ### The link -/

/-- What the hub's end is ahead of, by what the client awaits. A session's first messages are the
round that is re-sent and the first snapshot. -/
def phaseAhead (now tick round : ℕ) (intake : Hub.Intake) : Phase → Prop
  | .pumping _ _ => Ahead now tick round intake
  | .connecting | .authenticating | .answering | .resending => Ahead now 0 0 intake
  | .waiting | .closing | .sleeping _ | .stopped => True

theorem phaseAhead_pumping {nextTick nextPing : ℕ} :
    phaseAhead now tick round intake (.pumping nextTick nextPing) =
      Ahead now tick round intake := rfl

/-- The snapshots sent are made up for by the next push tick. -/
def tickDue (now tick : ℕ) : Phase → Prop
  | .pumping nextTick _ => tick ≤ nextTick ∧ tick ≤ now + seconds 2
  | _ => True

/-- Where the link stands: an unsent round was published when the earlier ones were made up for, and
the next one comes when the scrape loop wakes. -/
structure Conforms (l : Link System Round) (tick round : ℕ) : Prop where
  round_le_wake : round ≤ max l.scrapeWake l.client.clock + seconds 10
  round_le_now : round ≤ l.client.clock + seconds 20
  unsent : ∀ seen, l.client.roundSeen = some seen → seen ≠ l.client.roundVersion →
    round ≤ max l.scrapeWake l.client.clock ∧ round ≤ l.client.clock + seconds 10
  tick_due : tickDue l.client.clock tick l.client.phase
  ahead : ∀ intake, l.intake = some intake →
    phaseAhead l.client.clock tick round intake l.client.phase

theorem conforms_new (snapshot : PublishedSnapshot System) (applications : Bool) (start : ℕ) :
    Conforms ({ client := .new snapshot applications start } : Link System Round) 0 0 where
  round_le_wake := Nat.zero_le _
  round_le_now := Nat.zero_le _
  unsent _ _ _ := ⟨Nat.zero_le _, Nat.zero_le _⟩
  tick_due := trivial
  ahead _ h := absurd h (by simp)

theorem phaseAhead_later {now' : ℕ} {phase : Phase} (h : phaseAhead now tick round intake phase)
    (hle : now ≤ now') : phaseAhead now' tick round intake phase := by
  cases phase with
  | pumping | connecting | authenticating | answering | resending => exact Ahead.later h hle
  | _ => trivial

theorem tickDue_later {now' : ℕ} {phase : Phase} (h : tickDue now tick phase) (hle : now ≤ now') :
    tickDue now' tick phase := by
  cases phase with
  | pumping nextTick nextPing => exact ⟨h.1, h.2.trans (Nat.add_le_add_right hle _)⟩
  | _ => trivial

theorem Conforms.later {l : Link System Round} (h : Conforms l tick round)
    (hle : l.client.clock ≤ now) :
    Conforms { l with client := { l.client with clock := now } } tick round where
  round_le_wake := h.round_le_wake.trans (Nat.add_le_add_right (max_le_max le_rfl hle) _)
  round_le_now := h.round_le_now.trans (Nat.add_le_add_right hle _)
  unsent seen hseen hnew := by
    obtain ⟨hwake, hearly⟩ := h.unsent seen hseen hnew
    exact ⟨hwake.trans (max_le_max le_rfl hle), hearly.trans (Nat.add_le_add_right hle _)⟩
  tick_due := tickDue_later h.tick_due hle
  ahead intake hintake := phaseAhead_later (h.ahead intake hintake) hle

/-- The hub reads no message in it, and the connection stays. -/
def quiet (config : LinkConfig System Round) : Action System Round → Bool
  | .connects _ => false
  | .sends message _ => (config.frame message).isNone
  | .marksSent _ | .returns _ => true

theorem reads_quiet {config : LinkConfig System Round} {moment : Option Hub.Moment}
    {end_ : Option Hub.Intake} {actions : List (Action System Round)}
    (h : ∀ action ∈ actions, quiet config action) :
    Link.reads config moment end_ actions = ([], end_) := by
  induction actions with
  | nil => simp [Link.reads]
  | cons action actions ih =>
      have hrest := ih fun other hother => h other (List.mem_cons_of_mem _ hother)
      have hfirst := h action List.mem_cons_self
      cases action with
      | connects url => exact absurd hfirst (by simp [quiet])
      | sends message alive =>
          have hnone : config.frame message = none := Option.isNone_iff_eq_none.mp hfirst
          cases end_ with
          | none => simp only [Link.reads, hrest]
          | some intake => simp only [Link.reads, hnone, hrest]
      | marksSent seq => cases end_ <;> simp only [Link.reads, hrest]
      | returns result => cases end_ <;> simp only [Link.reads, hrest]

/-- The hub stays ahead of a message it reads or loses. -/
theorem reads_message {config : LinkConfig System Round} {moment : Option Hub.Moment}
    {end_ : Option Hub.Intake} {message : Sent System Round} {frame : Hub.Frame}
    {actions : List (Action System Round)} (alive : Bool)
    (hframe : config.frame message = some frame) (hquiet : ∀ action ∈ actions, quiet config action)
    (hahead : ∀ intake, end_ = some intake → Ahead now tick round intake)
    (hingest : ∀ intake found, end_ = some intake → moment = some found →
      throttled (intake.ingest frame found).1 = false ∧
      Ahead now tick round (intake.ingest frame found).2.2) :
    (∀ outcome ∈ (Link.reads config moment end_ (.sends message alive :: actions)).1,
      throttled outcome = false) ∧
      ∀ intake, (Link.reads config moment end_ (.sends message alive :: actions)).2 = some intake →
        Ahead now tick round intake := by
  cases end_ with
  | none =>
      simp only [Link.reads, reads_quiet hquiet]
      exact ⟨by simp, by simp⟩
  | some intake =>
      cases moment with
      | none =>
          simp only [Link.reads, reads_quiet hquiet]
          exact ⟨by simp, hahead⟩
      | some found =>
          simp only [Link.reads, hframe, reads_quiet hquiet]
          obtain ⟨hnot, hafter⟩ := hingest intake found rfl rfl
          refine ⟨?_, ?_⟩
          · intro outcome houtcome
            rw [List.mem_singleton.mp houtcome]
            exact hnot
          · intro after heq
            obtain rfl := Option.some.inj heq
            exact hafter

theorem quiet_ends (config : LinkConfig System Round) (alive : Bool) :
    ∀ action ∈ (Client.ends alive : List (Action System Round)), quiet config action := by
  cases alive with
  | true => simp [Client.ends]
  | false => simp [Client.ends, quiet]

/-- What an event leaves the link with: nothing throttled, and the hub still ahead. -/
def Unthrottled (config : LinkConfig System Round) (l : Link System Round)
    (moment : Option Hub.Moment) (actions : List (Action System Round)) (c' : Client System Round)
    (wake : ℕ) : Prop :=
  (∀ outcome ∈ (Link.reads config moment l.intake actions).1, throttled outcome = false) ∧
    ∃ tick round, Conforms ⟨c', wake, (Link.reads config moment l.intake actions).2⟩ tick round

variable {config : LinkConfig System Round} {l : Link System Round} {moment : Option Hub.Moment}
variable {actions : List (Action System Round)} {c' : Client System Round}

/-- An event that sends the hub nothing. -/
theorem Conforms.quietly (h : Conforms l tick round) (tick' : ℕ)
    (hquiet : ∀ action ∈ actions, quiet config action) (hclock : c'.clock = l.client.clock)
    (hrounds : ∀ seen, c'.roundSeen = some seen → seen ≠ c'.roundVersion →
      l.client.roundSeen = some seen ∧ l.client.roundVersion = c'.roundVersion)
    (htick : tickDue l.client.clock tick l.client.phase → tickDue l.client.clock tick' c'.phase)
    (hphase : ∀ intake, phaseAhead l.client.clock tick round intake l.client.phase →
      phaseAhead l.client.clock tick' round intake c'.phase) :
    Unthrottled config l moment actions c' l.scrapeWake := by
  rw [Unthrottled, reads_quiet hquiet]
  refine ⟨by simp, tick', round, ?_⟩
  refine ⟨?_, ?_, ?_, ?_, ?_⟩
  · rw [hclock]
    exact h.round_le_wake
  · rw [hclock]
    exact h.round_le_now
  · intro seen hseen hnew
    obtain ⟨hseen, hversion⟩ := hrounds seen hseen hnew
    rw [hclock]
    exact h.unsent seen hseen (hversion ▸ hnew)
  · rw [hclock]
    exact htick h.tick_due
  · intro intake hintake
    rw [hclock]
    exact hphase intake (h.ahead intake hintake)

/-- A message to the hub, after which the agent makes up for what it sent by `tick'` and `round'`.
-/
theorem Conforms.sends (tick' round' : ℕ)
    (hwake : round' ≤ max l.scrapeWake l.client.clock + seconds 10)
    (hnow : round' ≤ l.client.clock + seconds 20) {message : Sent System Round} {frame : Hub.Frame}
    (alive : Bool)
    (hframe : config.frame message = some frame) (hquiet : ∀ action ∈ actions, quiet config action)
    (hahead : ∀ intake, l.intake = some intake → Ahead l.client.clock tick' round' intake)
    (hingest : ∀ intake found, l.intake = some intake → moment = some found →
      throttled (intake.ingest frame found).1 = false ∧
        Ahead l.client.clock tick' round' (intake.ingest frame found).2.2)
    (hclock : c'.clock = l.client.clock)
    (hsent : ∀ seen, c'.roundSeen = some seen → seen ≠ c'.roundVersion →
      round' ≤ max l.scrapeWake l.client.clock ∧ round' ≤ l.client.clock + seconds 10)
    (htick : tickDue l.client.clock tick' c'.phase)
    (hphase : ∀ intake, Ahead l.client.clock tick' round' intake →
      phaseAhead l.client.clock tick' round' intake c'.phase) :
    Unthrottled config l moment (.sends message alive :: actions) c' l.scrapeWake := by
  obtain ⟨hnot, hafter⟩ := reads_message alive hframe hquiet hahead hingest
  refine ⟨hnot, tick', round', ?_⟩
  refine ⟨?_, ?_, ?_, ?_, ?_⟩
  · rw [hclock]
    exact hwake
  · rw [hclock]
    exact hnow
  · rw [hclock]
    exact hsent
  · rw [hclock]
    exact htick
  · intro intake hintake
    rw [hclock]
    exact hphase intake (hafter intake hintake)

/-- A session's first message is the round that is re-sent. -/
theorem Conforms.resends (h : Conforms l tick round) (hphase : l.client.phase = .resending)
    (hmoment : ∀ found, moment = some found → found.arrival.now = l.client.clock)
    {alive sent : Bool} (hsends : Client.SendsRound l.client.round alive actions sent) :
    Unthrottled config l moment (actions ++ Client.ends sent)
      { l.client with
        roundSeen := some l.client.roundVersion
        phase := if sent then .pumping l.client.clock l.client.clock
            else .waiting } l.scrapeWake := by
  have hfresh : ∀ intake, l.intake = some intake → Ahead l.client.clock 0 0 intake := by
    intro intake hintake
    have hahead := h.ahead intake hintake
    rw [hphase] at hahead
    exact hahead
  have hwake := h.round_le_wake
  have hlate := h.round_le_now
  generalize l.client.round = current at hsends
  cases hsends with
  | nothing _ alive =>
      refine h.quietly 0 (quiet_ends config true) rfl (fun seen hseen hnew => ?_)
        (fun _ => ⟨Nat.zero_le _, Nat.zero_le _⟩) fun intake hahead => ?_
      · exact absurd (Option.some.inj hseen).symm hnew
      · rw [hphase] at hahead
        exact hahead.mono (Nat.zero_le _) (Nat.zero_le _)
  | sent r =>
      have hlater : max round (l.client.clock + seconds 10) ≤
          max l.scrapeWake l.client.clock + seconds 10 := by
        simp only [seconds] at hwake ⊢
        omega
      refine Conforms.sends 0 (max round (l.client.clock + seconds 10)) hlater ?_ alive rfl
        (quiet_ends config alive) ?_ ?_ rfl ?_ ?_ ?_
      · simp only [seconds] at hlate ⊢
        omega
      · intro intake hintake
        exact (hfresh intake hintake).mono le_rfl (Nat.zero_le _)
      · intro intake found hintake hfound
        refine (hfresh intake hintake).ingest (hmoment found hfound) ?_ (Nat.zero_le _) ?_ ?_
        · simp only [seconds]
          omega
        · simp only [seconds]
          omega
        · intro _ _
          simp only [seconds]
          omega
      · intro seen hseen hnew
        exact absurd (Option.some.inj hseen).symm hnew
      · cases alive with
        | true => exact ⟨Nat.zero_le _, Nat.zero_le _⟩
        | false => trivial
      · intro intake hahead
        cases alive with
        | true => exact hahead
        | false => trivial

/-- A round published since the last one sent. -/
theorem Conforms.publishes (h : Conforms l tick round) {nextTick nextPing seen : ℕ}
    (hphase : l.client.phase = .pumping nextTick nextPing) (hseen : l.client.roundSeen = some seen)
    (hnew : seen ≠ l.client.roundVersion)
    (hmoment : ∀ found, moment = some found → found.arrival.now = l.client.clock)
    {alive sent : Bool} (hsends : Client.SendsRound l.client.round alive actions sent) :
    Unthrottled config l moment (actions ++ Client.ends sent)
      { l.client with
        roundSeen := some l.client.roundVersion
        phase := if sent then .pumping nextTick nextPing else .waiting } l.scrapeWake := by
  have hahead : ∀ intake, l.intake = some intake → Ahead l.client.clock tick round intake := by
    intro intake hintake
    have hahead := h.ahead intake hintake
    rw [hphase] at hahead
    exact hahead
  have htick := h.tick_due
  rw [hphase] at htick
  obtain ⟨hwake, hearly⟩ := h.unsent seen hseen hnew
  generalize l.client.round = current at hsends
  cases hsends with
  | nothing _ alive =>
      refine h.quietly tick (quiet_ends config true) rfl
        (fun seen hseen hnew => ?_) (fun _ => htick)
        fun intake hahead => ?_
      · exact absurd (Option.some.inj hseen).symm hnew
      · rw [hphase] at hahead
        exact hahead
  | sent r =>
      refine Conforms.sends tick (max round l.client.clock + seconds 10) ?_ ?_ alive rfl
        (quiet_ends config alive) ?_ ?_ rfl ?_ ?_ ?_
      · exact Nat.add_le_add_right (max_le hwake (le_max_right _ _)) _
      · simp only [seconds] at hearly ⊢
        omega
      · intro intake hintake
        exact (hahead intake hintake).mono le_rfl ((le_max_left _ _).trans (Nat.le_add_right _ _))
      · intro intake found hintake hfound
        obtain ⟨-, htick⟩ := htick
        refine (hahead intake hintake).ingest (hmoment found hfound) ?_ ?_ ?_ ?_
        · simp only [seconds] at hearly htick ⊢
          omega
        · exact (le_max_left _ _).trans (Nat.le_add_right _ _)
        · simp only [seconds]
          omega
        · intro _ _
          exact ⟨hearly, le_rfl⟩
      · intro seen hseen hnew
        exact absurd (Option.some.inj hseen).symm hnew
      · cases alive with
        | true => exact htick
        | false => trivial
      · intro intake hahead
        cases alive with
        | true => exact hahead
        | false => trivial

theorem two_le_tickEvery (config : Config System Round) : seconds 2 ≤ config.tickEvery :=
  Nat.mul_le_mul_right _ (le_max_right _ _)

/-- A snapshot, sent on a push tick that is on time. -/
theorem Conforms.ticks (h : Conforms l tick round) {nextTick nextPing : ℕ}
    (hphase : l.client.phase = .pumping nextTick nextPing) (htime : l.client.clock = nextTick)
    (hmoment : ∀ found, moment = some found → found.arrival.now = l.client.clock)
    (systemId : String) (snapshot : PublishedSnapshot System) (alive : Bool)
    (hquiet : ∀ action ∈ actions, quiet config action) (hclock : c'.clock = l.client.clock)
    (hseen : c'.roundSeen = l.client.roundSeen) (hversion : c'.roundVersion = l.client.roundVersion)
    (hnext : c'.phase = .pumping (nextTick + config.push.tickEvery) nextPing ∨
      c'.phase = .waiting) :
    Unthrottled config l moment (.sends (.snapshot systemId snapshot) alive :: actions)
      c' l.scrapeWake := by
  have hahead : ∀ intake, l.intake = some intake → Ahead l.client.clock tick round intake := by
    intro intake hintake
    have hahead := h.ahead intake hintake
    rw [hphase] at hahead
    exact hahead
  have htick := h.tick_due
  rw [hphase] at htick
  have hpast : tick ≤ l.client.clock := htick.1.trans htime.ge
  have hlate := h.round_le_now
  have hevery := two_le_tickEvery config.push
  refine Conforms.sends (l.client.clock + seconds 2) round h.round_le_wake hlate alive rfl hquiet
    ?_ ?_ hclock ?_ ?_ ?_
  · intro intake hintake
    exact (hahead intake hintake).mono (hpast.trans (Nat.le_add_right _ _)) le_rfl
  · intro intake found hintake hfound
    refine (hahead intake hintake).ingest (hmoment found hfound) ?_ le_rfl ?_ ?_
    · simp only [seconds] at hlate ⊢
      omega
    · simp only [seconds]
      omega
    · intro r hr
      cases hframe : config.decodeSnapshot snapshot <;> simp [hframe] at hr
  · intro seen hsome hnew
    rw [hseen] at hsome
    rw [hversion] at hnew
    exact h.unsent seen hsome hnew
  · rcases hnext with hnext | hnext
    · rw [hnext]
      exact ⟨htime ▸ Nat.add_le_add_left hevery _, le_rfl⟩
    · rw [hnext]
      trivial
  · intro intake hahead
    rcases hnext with hnext | hnext
    · rw [hnext]
      exact hahead
    · rw [hnext]
      trivial

theorem ten_le_asDuration (interval : Agent.ScrapeInterval) : seconds 10 ≤ interval.asDuration :=
  Nat.mul_le_mul_right _ interval.inRange.1

/-- One event of the agent's, on time: nothing is throttled, and the hub stays ahead. -/
theorem Conforms.takes {event : Event System Round} {wake : ℕ} (h : Conforms l tick round)
    (htime : Link.onTime l.client l.client.clock event)
    (hscrape : Link.scrape config l.scrapeWake l.client.clock event = some wake)
    (hmoment : ∀ found, moment = some found → found.arrival.now = l.client.clock)
    (htakes : Client.Takes config.push l.client event actions c') :
    Unthrottled config l moment actions c' wake := by
  have hwake : (∀ r, event ≠ .roundPublished r) → wake = l.scrapeWake := by
    intro hnot
    cases event with
    | roundPublished r => exact absurd rfl (hnot r)
    | _ => exact (Option.some.inj hscrape).symm
  cases htakes with
  | roundPublished r =>
      obtain ⟨hawake, hnext⟩ := Option.ite_none_right_eq_some.mp hscrape
      obtain rfl := Option.some.inj hnext
      have hten := ten_le_asDuration config.interval
      have hround := h.round_le_wake
      rw [max_eq_right hawake] at hround
      rw [Unthrottled, reads_quiet (by simp)]
      refine ⟨by simp, tick, round, ?_⟩
      refine ⟨?_, h.round_le_now, ?_, h.tick_due, h.ahead⟩
      · dsimp only
        omega
      · intro _ _ _
        dsimp only
        omega
  | snapshotPublished | collectorEnded | scrapeLoopEnded =>
      rw [hwake (by simp)]
      exact h.quietly tick (by simp) rfl (fun _ hseen _ => ⟨hseen, rfl⟩) id fun _ => id
  | connects hphase =>
      rw [hwake (by simp), Unthrottled]
      have hreads : Link.reads config moment l.intake [.connects (pushUrl config.push.hubUrl)] =
          ([], none) := by
        cases l.intake <;> simp [Link.reads]
      rw [hreads]
      refine ⟨by simp, tick, round, ?_⟩
      exact ⟨h.round_le_wake, h.round_le_now, h.unsent, trivial,
        fun _ hintake => absurd hintake (by simp)⟩
  | stops hphase | closed hphase | slept _ hphase | unconnected hphase | refused hphase
      | tickStale _ _ hphase =>
      rw [hwake (by simp)]
      exact h.quietly tick (by simp [quiet]) rfl (fun _ hseen _ => ⟨hseen, rfl⟩)
        (fun _ => trivial) fun _ _ => trivial
  | authUnsent hphase =>
      rw [hwake (by simp)]
      exact h.quietly tick (by simp [quiet, LinkConfig.frame]) rfl
        (fun _ hseen _ => ⟨hseen, rfl⟩) (fun _ => trivial)
        fun _ _ => trivial
  | connected hphase | authSent hphase | passed hphase =>
      rw [hwake (by simp)]
      refine h.quietly tick (by simp [quiet, LinkConfig.frame]) rfl (fun _ hseen _ => ⟨hseen, rfl⟩)
        (fun _ => trivial) fun _ hahead => ?_
      rw [hphase] at hahead
      exact hahead
  | roundless hphase =>
      rw [hwake (by simp)]
      refine h.quietly 0 (by simp) rfl (fun _ hseen _ => absurd hseen (by simp))
        (fun _ => ⟨Nat.zero_le _, Nat.zero_le _⟩) fun _ hahead => ?_
      rw [hphase] at hahead
      exact hahead.mono (Nat.zero_le _) (Nat.zero_le _)
  | resent hphase alive sent sends hsends =>
      rw [hwake (by simp)]
      exact h.resends hphase hmoment hsends
  | roundChanged nextTick nextPing seen hphase hseen hnew alive sent sends hsends =>
      rw [hwake (by simp)]
      exact h.publishes hphase hseen hnew hmoment hsends
  | roundsGivenUp nextTick nextPing hphase =>
      rw [hwake (by simp)]
      exact h.quietly tick (by simp) rfl (fun _ hseen _ => absurd hseen (by simp)) id fun _ => id
  | ticked nextTick nextPing hphase =>
      rw [hwake (by simp)]
      rw [Link.onTime, hphase, decide_eq_true_eq] at htime
      exact h.ticks hphase htime hmoment _ _ true (by simp [quiet]) rfl rfl rfl (.inl rfl)
  | tickLost nextTick nextPing hphase =>
      rw [hwake (by simp)]
      rw [Link.onTime, hphase, decide_eq_true_eq] at htime
      exact h.ticks hphase htime hmoment _ _ false (by simp [quiet]) rfl rfl rfl (.inr rfl)
  | tickSkipped nextTick nextPing hphase | tickUnchanged nextTick nextPing hphase =>
      rw [hwake (by simp)]
      refine h.quietly tick (by simp [quiet]) rfl (fun _ hseen _ => ⟨hseen, rfl⟩)
        (fun htick => ?_) fun _ hahead => ?_
      · rw [hphase] at htick
        exact ⟨htick.1.trans (Nat.le_add_right _ _), htick.2⟩
      · rw [hphase, phaseAhead_pumping] at hahead
        exact hahead
  | pinged nextTick nextPing hphase alive =>
      rw [hwake (by simp)]
      refine h.quietly tick ?_ rfl (fun _ hseen _ => ⟨hseen, rfl⟩)
        (fun htick => ?_) fun _ hahead => ?_
      · exact List.forall_mem_cons.mpr ⟨rfl, quiet_ends config alive⟩
      · rw [hphase] at htick
        cases alive with
        | true => exact htick
        | false => trivial
      · rw [hphase] at hahead
        cases alive with
        | true => exact hahead
        | false => trivial
  | received nextTick nextPing hphase incoming =>
      rw [hwake (by simp)]
      generalize (!hubHungUp incoming) = alive
      refine h.quietly tick (quiet_ends config alive) rfl
        (fun _ hseen _ => ⟨hseen, rfl⟩) (fun htick => ?_)
        fun _ hahead => ?_
      · rw [hphase] at htick
        cases alive with
        | true => exact htick
        | false => trivial
      · rw [hphase] at hahead
        cases alive with
        | true => exact hahead
        | false => trivial

/-! ### Runs -/

/-- What holds of the link after a log of it. -/
structure Honest (log : LinkLog System Round) (l : Link System Round) : Prop where
  unthrottled : ∀ outcome ∈ log.ingested, throttled outcome = false
  inOrder : InOrder log.steps l.client
  conforms : ∃ tick round, Conforms l tick round

theorem inOrder_later {steps : List (Step System Round)} {c : Client System Round}
    (h : InOrder steps c) (now : ℕ) : InOrder steps { c with clock := now } :=
  ⟨h.marks_lt, h.sent_le, h.marks_le_last, h.last_le, h.sent_le_published⟩

theorem Honest.step {past log : LinkLog System Round} {l l' : Link System Round}
    {event : LinkEvent System Round} (h : Honest past l)
    (hstep : l.step config now event = some (log, l')) :
    Honest ⟨past.steps ++ log.steps, past.ingested ++ log.ingested⟩ l' := by
  obtain ⟨tick, round, hconforms⟩ := h.conforms
  cases event with
  | accepted lease =>
      obtain ⟨⟨hclock, -⟩, hnext⟩ := Option.ite_none_right_eq_some.mp hstep
      obtain ⟨rfl, rfl⟩ := Prod.mk.inj (Option.some.inj hnext)
      have hlater := hconforms.later hclock
      rw [List.append_nil, List.append_nil]
      refine ⟨h.unthrottled, inOrder_later h.inOrder now, tick, round, ?_⟩
      refine ⟨hlater.round_le_wake, hlater.round_le_now, hlater.unsent, hlater.tick_due, ?_⟩
      intro intake hintake
      obtain rfl := Option.some.inj hintake
      cases hphase : l.client.phase with
      | waiting | closing | sleeping | stopped => trivial
      | _ => exact ahead_new config.systemId lease now _ _
  | agent event moment =>
      simp only [Link.step] at hstep
      obtain ⟨htime, hstep⟩ := Option.ite_none_right_eq_some.mp hstep
      cases hscrape : Link.scrape config l.scrapeWake now event with
      | none => simp [hscrape] at hstep
      | some wake =>
          cases hdid : l.client.step config.push now event with
          | none => simp [hscrape, hdid] at hstep
          | some did =>
              simp only [hscrape, hdid] at hstep
              obtain ⟨rfl, rfl⟩ := Prod.mk.inj (Option.some.inj hstep)
              obtain ⟨hclock, -, -, htakes⟩ := Client.takes_of_step hdid
              have hread : ∀ found, (moment.map fun found =>
                  { found with arrival := { found.arrival with now } }) =
                  some found → found.arrival.now = now := by
                intro found hfound
                obtain ⟨before, -, rfl⟩ := Option.map_eq_some_iff.mp hfound
                rfl
              have hon : Link.onTime { l.client with clock := now } now event := by
                cases event with
                | _ => exact htime
              obtain ⟨hnot, hnext⟩ := (hconforms.later hclock).takes hon hscrape hread htakes
              refine ⟨?_, (inOrder_later h.inOrder now).concat htakes.snapshotStep, hnext⟩
              intro outcome houtcome
              rcases List.mem_append.mp houtcome with hpast | hnew
              · exact h.unthrottled outcome hpast
              · exact hnot outcome hnew

theorem Honest.run {past log : LinkLog System Round} {l l' : Link System Round}
    {events : List (ℕ × LinkEvent System Round)} (h : Honest past l)
    (hrun : l.run config events = some (log, l')) :
    Honest ⟨past.steps ++ log.steps, past.ingested ++ log.ingested⟩ l' := by
  induction events generalizing past log l with
  | nil =>
      obtain ⟨rfl, rfl⟩ := Prod.mk.inj (Option.some.inj hrun)
      rwa [List.append_nil, List.append_nil]
  | cons timed events ih =>
      obtain ⟨now, event⟩ := timed
      rw [Link.run] at hrun
      cases hdid : l.step config now event with
      | none => simp [hdid] at hrun
      | some did =>
          rw [hdid] at hrun
          obtain ⟨⟨rest, last⟩, hrest, heq⟩ := Option.map_eq_some_iff.mp hrun
          obtain ⟨rfl, rfl⟩ := Prod.mk.inj heq
          have hlast := ih (h.step hdid) hrest
          simpa only [List.append_assoc] using hlast

/-- However the agent's tasks and its connections run, the hub drops none of the messages it reads
and answers no round as too soon; and each snapshot is marked sent at most once, in the order of
publication. -/
theorem honest_agent_never_throttled {snapshot : PublishedSnapshot System} {applications : Bool}
    {start : ℕ} {events : List (ℕ × LinkEvent System Round)} {log : LinkLog System Round}
    {l : Link System Round}
    (hrun : ({ client := .new snapshot applications start } : Link System Round).run config events =
      some (log, l)) :
    (∀ outcome ∈ log.ingested, outcome ≠ .outOfBudget ∧ outcome ≠ .round .tooSoon) ∧
      (marks log.steps).Pairwise (· < ·) ∧ (snapshotsSent log.steps).Pairwise (· ≤ ·) := by
  have hnew : Honest (⟨[], []⟩ : LinkLog System Round)
      { client := .new snapshot applications start } :=
    ⟨fun _ h => absurd h List.not_mem_nil, inOrder_new snapshot applications start, 0, 0,
      conforms_new snapshot applications start⟩
  have hhonest := hnew.run hrun
  refine ⟨fun outcome houtcome => ?_, hhonest.inOrder.marks_lt, hhonest.inOrder.sent_le⟩
  have hnot := hhonest.unthrottled outcome houtcome
  constructor
  · rintro rfl
    exact absurd hnot (by decide)
  · rintro rfl
    exact absurd hnot (by decide)

/-- A hub that knows the agent's system. -/
def exampleMoment : Hub.Moment := ⟨(Hub.AppState.new.registerIfNew "web-1").2, ⟨0, 0⟩, {}⟩

def exampleLink : LinkConfig Unit ℕ where
  push := ⟨"ws://hub", "token", "web-1", 2, fun _ => some ⟨"auth_ok", ""⟩,
    fun _ => true, fun _ => true⟩
  interval := ⟨10, by decide⟩
  systemId := "web-1"
  decodeSnapshot _ := some ⟨⟨[("cpu", 0#32)], Hub.Snapshot.notNaN_cpu⟩,
    ⟨100, Hub.SnapshotTime.inRange_hundred⟩, none, ⟨"host", "", "", "", 1, none⟩⟩
  decodeRound seq := some ⟨⟨"run", seq⟩, seq, []⟩

/-- The densest burst: a round is re-sent, a snapshot follows, and the next round comes. -/
def exampleBurst : List (ℕ × LinkEvent Unit ℕ) :=
  [(0, .agent (.roundPublished 1) none), (seconds 10, .agent .waited none),
    (seconds 10, .agent (.connected (.ok ())) none), (seconds 10, .agent (.authSent (.ok ())) none),
    (seconds 10, .accepted none),
    (seconds 10, .agent (.answered (some (.ok (.text "auth_ok")))) none),
    (seconds 10, .agent (.resent true) (some exampleMoment)),
    (seconds 10, .agent (.ticked true) (some exampleMoment)),
    (seconds 10, .agent (.roundPublished 2) none),
    (seconds 10, .agent (.roundChanged true) (some exampleMoment))]

theorem burst_never_throttled :
    ∃ log l, ({ client := .new ⟨(), 0, 0, 0⟩ true 0 } : Link Unit ℕ).run exampleLink exampleBurst =
      some (log, l) ∧
      log.ingested.length = 3 ∧ (∀ outcome ∈ log.ingested, outcome ≠ .outOfBudget ∧
        outcome ≠ .round .tooSoon) ∧
      (marks log.steps).Pairwise (· < ·) ∧ (snapshotsSent log.steps).Pairwise (· ≤ ·) := by
  obtain ⟨⟨log, l⟩, hrun, hlength⟩ : ∃ did,
      ({ client := .new ⟨(), 0, 0, 0⟩ true 0 } : Link Unit ℕ).run exampleLink exampleBurst =
        some did ∧
        did.1.ingested.length = 3 := ⟨_, rfl, rfl⟩
  exact ⟨log, l, hrun, hlength, honest_agent_never_throttled hrun⟩

end MonitoringAgent.Wire

import MonitoringAgent.Verification.Agent.Push

/-! # Telemetry and the hub's acceptance

What the client does with the hub's answer to its auth message. The answer is read as a refusal only
when it is a text message of the hub's; anything else passes as an acceptance. -/

namespace MonitoringAgent.Agent.Push

open MonitoringAgent.Library

variable {System Round : Type}

/-- Whether the answer is a text message of type `auth_ok`. -/
def accepts (parse : String → Option HubMessage) : Incoming → Bool
  | some (.ok (.text resp)) => (parse resp).any (·.msgType = "auth_ok")
  | _ => false

/-- Whether the answer is a text message of the hub's. -/
def isHubMessage (parse : String → Option HubMessage) : Incoming → Bool
  | some (.ok (.text resp)) => (parse resp).isSome
  | _ => false

def Action.isConnects : Action System Round → Bool
  | .connects _ => true
  | _ => false

/-- Whether it sends an application or a snapshot frame, or marks a snapshot as sent. -/
def Action.isTelemetry : Action System Round → Bool
  | .sends message _ => message.isTelemetry
  | .marksSent _ => true
  | _ => false

/-- Whether the hub accepts the connection with it. -/
def Event.accepts (parse : String → Option HubMessage) : Event System Round → Bool
  | .answered answer => Push.accepts parse answer
  | _ => false

/-- Whether a connection attempt starts with it. -/
def Step.connects (step : Step System Round) : Bool := step.actions.any Action.isConnects

/-- The hub accepted the connection the log ends in. -/
def Accepted (parse : String → Option HubMessage) (log : List (Step System Round)) : Prop :=
  ∃ before answer after, log = before ++ answer :: after ∧ answer.event.accepts parse ∧
    ∀ step ∈ after, ¬step.connects

/-- Telemetry is sent only on an accepted connection. -/
structure SendsOnlyAccepted (parse : String → Option HubMessage)
    (log : List (Step System Round)) : Prop where
  telemetry : Throughout (fun past step => step.actions.any Action.isTelemetry →
    Accepted parse past) log
  /-- Any other answer is returned as an error, at once. -/
  refused : ∀ step ∈ log, ∀ answer, step.event = .answered answer → ¬accepts parse answer →
    ∃ e, step.actions = [.returns (.error (.connection e))]
  /-- Two attempts without an acceptance between them are the retry delay apart. -/
  spaced : ∀ first between second, first :: between ++ [second] <:+: log →
    first.connects → second.connects →
    (∀ step ∈ between, ¬step.event.accepts parse) → first.now + retryDelay ≤ second.now

/-! ### What one event means for the session -/

theorem accepts_of_authenticate {parse : String → Option HubMessage} {answer : Incoming}
    (hmessage : isHubMessage parse answer) (h : authenticate parse answer = .ok ()) :
    accepts parse answer := by
  rcases answer with _ | _ | (text | _ | _ | _ | _)
  case some.ok.text =>
    obtain ⟨msg, hmsg⟩ := Option.isSome_iff_exists.mp hmessage
    simp only [authenticate, hmsg] at h
    split_ifs at h with hok
    simpa [accepts, hmsg] using hok
  all_goals exact absurd hmessage (by simp [isHubMessage])

theorem isHubMessage_of_authenticate {parse : String → Option HubMessage} {answer : Incoming}
    {e : String} (h : authenticate parse answer = .error e) : isHubMessage parse answer := by
  rcases answer with _ | _ | (text | _ | _ | _ | _)
  case some.ok.text =>
    cases hmsg : parse text with
    | none => simp [authenticate, hmsg] at h
    | some msg => simp [isHubMessage, hmsg]
  all_goals exact absurd h (by simp [authenticate])

theorem isHubMessage_of_accepts {parse : String → Option HubMessage} {answer : Incoming}
    (h : accepts parse answer) : isHubMessage parse answer := by
  rcases answer with _ | _ | (text | _ | _ | _ | _)
  case some.ok.text =>
    cases hmsg : parse text with
    | none => simp [accepts, hmsg] at h
    | some msg => simp [isHubMessage, hmsg]
  all_goals exact absurd h (by simp [accepts])

/-- The hub's answer has passed, and the connection is not over. -/
def Phase.inSession : Phase → Prop
  | .resending | .pumping _ _ | .closing => True
  | _ => False

/-- What holds of the time of an attempt without an acceptance since. -/
def Phase.Pending (clock time : ℕ) : Phase → Prop
  | .waiting => time + retryDelay ≤ clock
  | .sleeping wake => time + retryDelay ≤ wake
  | .connecting | .authenticating | .answering => time ≤ clock
  | .resending | .pumping _ _ | .closing => False
  | .stopped => True

theorem Phase.Pending.mono {phase : Phase} {clock clock' time : ℕ} (h : phase.Pending clock time)
    (hle : clock ≤ clock') : phase.Pending clock' time := by
  cases phase with
  | waiting | connecting | authenticating | answering => exact le_trans h hle
  | _ => exact h

namespace Client

variable {config : Config System Round} {c c' : Client System Round} {event : Event System Round}
variable {actions : List (Action System Round)}

theorem any_ends {p : Action System Round → Bool}
    (hp : p (.returns (.ok ())) = false) (alive : Bool) : (ends alive).any p = false := by
  cases alive with
  | true => rfl
  | false => simp [ends, hp]

theorem SendsRound.any_connects {round : Option Round} {alive sent : Bool}
    (h : SendsRound round alive actions sent) : actions.any Action.isConnects = false := by
  cases h with
  | nothing => rfl
  | sent => rfl

/-- Telemetry is sent in a session only. -/
theorem Takes.inSession_of_telemetry (h : Takes config c event actions c')
    (htelemetry : actions.any Action.isTelemetry) : c.phase.inSession := by
  cases h with
  | resent hphase | roundless hphase | closed hphase => simp [hphase, Phase.inSession]
  | ticked _ _ hphase | tickLost _ _ hphase | tickSkipped _ _ hphase | tickUnchanged _ _ hphase
  | tickStale _ _ hphase | pinged _ _ hphase | roundChanged _ _ _ hphase | roundsGivenUp _ _ hphase
  | received _ _ hphase => simp [hphase, Phase.inSession]
  | _ => simp [Action.isTelemetry, Sent.isTelemetry] at htelemetry

/-- An attempt starts where a snapshot is waited for. -/
theorem Takes.connects_cases (h : Takes config c event actions c')
    (hconnects : actions.any Action.isConnects) :
    c.phase = .waiting ∧ c'.phase = .connecting ∧ c'.clock = c.clock := by
  cases h with
  | connects hphase => exact ⟨hphase, rfl, rfl⟩
  | resent hphase alive sent sends hsends | roundChanged _ _ _ _ _ _ alive sent sends hsends =>
      rw [List.any_append, hsends.any_connects, any_ends rfl] at hconnects
      simp at hconnects
  | pinged _ _ _ alive =>
      rw [List.any_cons, any_ends rfl] at hconnects
      simp [Action.isConnects] at hconnects
  | received =>
      rw [any_ends rfl] at hconnects
      simp at hconnects
  | _ => simp [Action.isConnects] at hconnects

/-- A session goes on, or the hub's acceptance begins it. -/
theorem Takes.inSession_cases (h : Takes config c event actions c')
    (hanswers : ∀ answer, event = .answered answer → isHubMessage config.parse answer)
    (hsession : c'.phase.inSession) : c.phase.inSession ∨ event.accepts config.parse := by
  cases h with
  | passed hphase answer hanswer =>
      exact .inr (accepts_of_authenticate (hanswers answer rfl) hanswer)
  | snapshotPublished | collectorEnded | roundPublished | scrapeLoopEnded => exact .inl hsession
  | resent hphase | roundless hphase | closed hphase => simp [hphase, Phase.inSession]
  | ticked _ _ hphase | tickLost _ _ hphase | tickSkipped _ _ hphase | tickUnchanged _ _ hphase
  | tickStale _ _ hphase | pinged _ _ hphase | roundChanged _ _ _ hphase | roundsGivenUp _ _ hphase
  | received _ _ hphase => simp [hphase, Phase.inSession]
  | _ => exact absurd hsession (by simp [Phase.inSession])

/-- Without an acceptance, an attempt before stays as long ago as the client waits for. -/
theorem Takes.pending (h : Takes config c event actions c')
    (hanswers : ∀ answer, event = .answered answer → isHubMessage config.parse answer)
    (hno : ¬event.accepts config.parse) {time : ℕ} (hpending : c.phase.Pending c.clock time) :
    c'.phase.Pending c'.clock time := by
  cases h with
  | passed hphase answer hanswer =>
      exact absurd (accepts_of_authenticate (hanswers answer rfl) hanswer) hno
  | snapshotPublished | collectorEnded | roundPublished | scrapeLoopEnded
      | roundsGivenUp => exact hpending
  | stops => trivial
  | connects hphase =>
      rw [hphase] at hpending
      exact (Nat.le_add_right time retryDelay).trans hpending
  | connected hphase | authSent hphase =>
      rw [hphase] at hpending
      exact hpending
  | unconnected hphase | authUnsent hphase | refused hphase =>
      rw [hphase] at hpending
      exact Nat.add_le_add_right hpending retryDelay
  | slept wake hphase hwake =>
      rw [hphase] at hpending
      exact hpending.trans hwake
  | resent hphase | roundless hphase | closed hphase =>
      rw [hphase] at hpending
      exact hpending.elim
  | ticked _ _ hphase | tickLost _ _ hphase | tickSkipped _ _ hphase | tickUnchanged _ _ hphase
  | tickStale _ _ hphase | pinged _ _ hphase | roundChanged _ _ _ hphase | received _ _ hphase =>
      rw [hphase] at hpending
      exact hpending.elim

/-- An answer that is a text message of the hub's is returned as an error, unless it accepts. -/
theorem Takes.refused_cases {answer : Incoming} (h : Takes config c (.answered answer) actions c') :
    (actions = [] ∧ authenticate config.parse answer = .ok ()) ∨
      ∃ e, actions = [.returns (.error (.connection e))] ∧
        authenticate config.parse answer = .error e := by
  cases h with
  | passed _ _ hanswer => exact .inl ⟨rfl, hanswer⟩
  | refused _ _ e hanswer => exact .inr ⟨e, rfl, hanswer⟩

end Client

/-! ### Runs -/

/-- The log of a client whose answers are all text messages of the hub's. -/
structure Session (parse : String → Option HubMessage) (log : List (Step System Round))
    (c : Client System Round) : Prop where
  sends : SendsOnlyAccepted parse log
  accepted : c.phase.inSession → Accepted parse log
  pending : ∀ before first between, log = before ++ first :: between → first.connects →
    (∀ step ∈ between, ¬step.event.accepts parse) → c.phase.Pending c.clock first.now

theorem sendsOnlyAccepted_nil (parse : String → Option HubMessage) :
    SendsOnlyAccepted parse ([] : List (Step System Round)) where
  telemetry := throughout_nil
  refused _ h := absurd h List.not_mem_nil
  spaced first between second h := absurd (List.infix_nil.mp h) (by simp)

theorem session_new (parse : String → Option HubMessage) (snapshot : PublishedSnapshot System)
    (applications : Bool) (start : ℕ) :
    Session parse [] (Client.new snapshot applications start : Client System Round) where
  sends := sendsOnlyAccepted_nil parse
  accepted h := h.elim
  pending before first between h := absurd h (by simp)

theorem Session.step {config : Config System Round} {log : List (Step System Round)}
    {c : Client System Round} {now : ℕ} {event : Event System Round}
    {did : Step System Round × Client System Round} (hsession : Session config.parse log c)
    (hanswers : ∀ answer, event = .answered answer → isHubMessage config.parse answer)
    (hstep : c.step config now event = some did) : Session config.parse (log ++ [did.1]) did.2 := by
  obtain ⟨step, c'⟩ := did
  obtain ⟨hclock, rfl, rfl, htakes⟩ := Client.takes_of_step hstep
  have hwaited : ∀ before first between, log = before ++ first :: between → first.connects →
      (∀ step ∈ between, ¬step.event.accepts config.parse) → c.phase.Pending step.now first.now :=
    fun before first between hlog hconnects hno =>
      (hsession.pending before first between hlog hconnects hno).mono hclock
  refine ⟨⟨?_, ?_, ?_⟩, ?_, ?_⟩
  · exact throughout_concat.mpr
      ⟨hsession.sends.telemetry, fun htelemetry => hsession.accepted
        (htakes.inSession_of_telemetry htelemetry)⟩
  · intro entry hentry answer hanswer hno
    rcases List.mem_append.mp hentry with hentry | hentry
    · exact hsession.sends.refused entry hentry answer hanswer hno
    · obtain rfl := List.mem_singleton.mp hentry
      rw [hanswer] at htakes
      rcases htakes.refused_cases with ⟨-, hpassed⟩ | ⟨e, hreturns, -⟩
      · exact absurd (accepts_of_authenticate (hanswers answer hanswer) hpassed) hno
      · exact ⟨e, hreturns⟩
  · intro first between second hinfix hfirst hsecond hno
    rcases List.infix_concat_iff.mp hinfix with hsuffix | hinfix
    · obtain ⟨before, hlog⟩ := hsuffix
      rw [← List.append_assoc] at hlog
      obtain ⟨hpast, hlast⟩ := List.append_inj' hlog rfl
      obtain rfl := List.head_eq_of_cons_eq hlast
      have hpending := hwaited before first between hpast.symm hfirst hno
      rw [(htakes.connects_cases hsecond).1] at hpending
      exact hpending
    · exact hsession.sends.spaced first between second hinfix hfirst hsecond hno
  · intro hin
    rcases htakes.inSession_cases hanswers hin with hwas | haccepts
    · obtain ⟨before, answer, after, rfl, hanswer, hnone⟩ := hsession.accepted hwas
      refine ⟨before, answer, after ++ [step], by simp, hanswer, ?_⟩
      intro entry hentry hconnects
      rcases List.mem_append.mp hentry with hentry | hentry
      · exact hnone entry hentry hconnects
      · obtain rfl := List.mem_singleton.mp hentry
        rw [(htakes.connects_cases hconnects).2.1] at hin
        exact hin
    · exact ⟨log, step, [], rfl, haccepts, by simp⟩
  · intro before first between hlog hfirst hno
    rcases eq_concat_cases hlog with ⟨-, rfl, -⟩ | ⟨rest, rfl, hpast⟩
    · obtain ⟨-, hphase, htime⟩ := htakes.connects_cases hfirst
      rw [hphase, htime]
      exact le_rfl
    · have hlast : ¬step.event.accepts config.parse := hno step (by simp)
      have hpending := hwaited before first rest hpast hfirst fun entry hentry =>
        hno entry (by simp [hentry])
      exact htakes.pending hanswers hlast hpending

/-- Each entry of a log is what its event did. -/
theorem takes_of_mem {config : Config System Round} {c c' : Client System Round}
    {events : List (ℕ × Event System Round)} {log : List (Step System Round)}
    (hrun : c.run config events = some (log, c')) :
    ∀ timed ∈ events, ∃ step ∈ log, ∃ c c', step.event = timed.2 ∧
      Client.Takes config c step.event step.actions c' := by
  induction events generalizing c log with
  | nil => simp
  | cons timed events ih =>
      rw [Client.run] at hrun
      cases hdid : c.step config timed.1 timed.2 with
      | none => simp [hdid] at hrun
      | some did =>
          rw [hdid] at hrun
          obtain ⟨⟨rest, last⟩, hrest, heq⟩ := Option.map_eq_some_iff.mp hrun
          obtain ⟨rfl, rfl⟩ := Prod.mk.inj heq
          intro entry hentry
          rcases List.mem_cons.mp hentry with rfl | hentry
          · obtain ⟨-, -, hevent, htakes⟩ := Client.takes_of_step hdid
            rw [← hevent] at htakes
            exact ⟨did.1, List.mem_cons_self, _, _, hevent, htakes⟩
          · obtain ⟨step, hstep, htakes⟩ := ih hrest entry hentry
            exact ⟨step, List.mem_cons_of_mem _ hstep, htakes⟩

/-- The client sends telemetry only on accepted connections exactly when every answer it gets to its
auth message is a text message of the hub's. -/
theorem sends_only_accepted_iff {config : Config System Round} {snapshot : PublishedSnapshot System}
    {applications : Bool} {start : ℕ} {events : List (ℕ × Event System Round)}
    {log : List (Step System Round)} {c : Client System Round}
    (hrun : (Client.new snapshot applications start).run config events = some (log, c)) :
    SendsOnlyAccepted config.parse log ↔
      ∀ now answer, (now, .answered answer) ∈ events → isHubMessage config.parse answer := by
  constructor
  · intro hsends now answer hanswer
    obtain ⟨step, hstep, before, after, hevent, htakes⟩ := takes_of_mem hrun _ hanswer
    by_contra hno
    obtain ⟨e, hreturns⟩ :=
      hsends.refused step hstep answer hevent fun haccepts => hno (isHubMessage_of_accepts haccepts)
    rw [hevent, hreturns] at htakes
    rcases htakes.refused_cases with ⟨hnil, -⟩ | ⟨e, -, hrefused⟩
    · exact absurd hnil (by simp)
    · exact hno (isHubMessage_of_authenticate hrefused)
  · intro hanswers
    have hkept : Session config.parse ([] ++ _) _ := Client.run_keeps
      (fun {past c now event did} hmem hsession hstep =>
        hsession.step (fun answer hanswer => hanswers now answer (hanswer ▸ hmem)) hstep)
      (session_new config.parse snapshot applications start) hrun
    exact hkept.sends

/-- A client of a hub that reads `auth_ok`. -/
def exampleConfig : Config Unit Unit where
  hubUrl := "ws://hub/"
  token := "token"
  systemId := "web-1"
  pushIntervalSecs := 2
  parse text := if text = "\x7b\"type\":\"auth_ok\"\x7d" then some ⟨"auth_ok", ""⟩ else none
  encodesSnapshot _ := true
  encodesRound _ := true

/-- A connection whose first message after the auth message is `answer`, and a second attempt. -/
def answeredWith (answer : Incoming) : List (ℕ × Event Unit Unit) :=
  [(0, .waited), (0, .connected (.ok ())), (0, .authSent (.ok ())), (0, .answered answer),
    (0, .resent true), (0, .ticked true), (0, .received none), (0, .waited)]

/-- A ping before the hub's answer passes as an acceptance: a snapshot is sent and marked, and once
the peer is gone the client connects again at once. -/
theorem ping_taken_as_acceptance :
    ∃ log c, (Client.new ⟨(), 0, 0, 0⟩ false 0).run exampleConfig
      (answeredWith (some (.ok (.ping [])))) = some (log, c) ∧
      (∀ step ∈ log, ¬step.event.accepts exampleConfig.parse) ∧
      (∃ step ∈ log, step.actions = [.sends (.snapshot "web-1" ⟨(), 0, 0, 0⟩) true, .marksSent 0]) ∧
      (log.filter Step.connects).map Step.now = [0, 0] ∧
      ¬SendsOnlyAccepted exampleConfig.parse log := by
  refine ⟨_, _, rfl, by decide, by decide, by decide, fun hsends => ?_⟩
  obtain ⟨e, hreturns⟩ := hsends.refused ⟨0, .answered (some (.ok (.ping []))), []⟩
    (by simp) _ rfl (by decide)
  exact absurd hreturns (by simp)

/-- The hub's acceptance, and a session that sends its snapshot. -/
theorem sends_only_accepted_auth_ok :
    ∃ log c, (Client.new ⟨(), 0, 0, 0⟩ false 0).run exampleConfig
        (answeredWith (some (.ok (.text "\x7b\"type\":\"auth_ok\"\x7d")))) = some (log, c) ∧
      SendsOnlyAccepted exampleConfig.parse log := by
  obtain ⟨⟨log, c⟩, hrun⟩ := Option.isSome_iff_exists.mp
    (show ((Client.new ⟨(), 0, 0, 0⟩ false 0).run exampleConfig
      (answeredWith (some (.ok (.text "\x7b\"type\":\"auth_ok\"\x7d"))))).isSome by decide)
  refine ⟨log, c, hrun, (sends_only_accepted_iff hrun).mpr ?_⟩
  intro now answer hanswer
  simp only [answeredWith, List.mem_cons, Prod.mk.injEq, reduceCtorEq, Event.answered.injEq,
    and_false, false_or, or_false, List.not_mem_nil] at hanswer
  rw [hanswer.2]
  decide

end MonitoringAgent.Agent.Push

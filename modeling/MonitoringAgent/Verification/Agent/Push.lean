import MonitoringAgent.Library.Trace
import MonitoringAgent.Model.Agent.Push

/-! # What one event of the push client does

Each event with what it may do and the state it leaves. From it, each snapshot is marked sent at
most once, and in the order of publication. -/

namespace MonitoringAgent.Agent.Push

open MonitoringAgent.Library

variable {System Round : Type}

namespace Client

/-- The end of a session that goes on only when `alive`. -/
def ends (alive : Bool) : List (Action System Round) := if alive then [] else [.returns (.ok ())]

theorem goOn_eq (c : Client System Round) (alive : Bool) :
    c.goOn alive = (ends alive, { c with phase := if alive then c.phase else .waiting }) := by
  cases alive with
  | true => rfl
  | false => rfl

/-- A round is sent, or there is none that can be. -/
inductive SendsRound : Option Round → Bool → List (Action System Round) → Bool → Prop where
  | nothing (round : Option Round) (alive : Bool) : SendsRound round alive [] true
  | sent (round : Round) (alive : Bool) : SendsRound (some round) alive
      [.sends (.round round) alive] alive

theorem sendRound_sends (config : Config System Round) (round : Option Round) (alive : Bool) :
    SendsRound round alive (sendRound config round alive).1 (sendRound config round alive).2 := by
  cases round with
  | none => exact .nothing none alive
  | some round =>
      rw [sendRound]
      split_ifs
      · exact .sent round alive
      · exact .nothing (some round) alive

theorem currentRound_cases (c : Client System Round) :
    c.currentRound = (c.round, { c with roundSeen := some c.roundVersion }) ∨
      c.currentRound = (none, { c with roundSeen := none }) := by
  rw [currentRound]
  cases hseen : c.roundSeen with
  | none =>
      have hsame : c = { c with roundSeen := none } := by rw [← hseen]
      exact .inr (congrArg (Prod.mk none) hsame)
  | some seen =>
      dsimp only
      split_ifs
      · exact .inl rfl
      · exact .inr rfl

/-- What an event at the clock's time does. The next state is the one before it, but for what is
named. -/
inductive Takes (config : Config System Round) (c : Client System Round) :
    Event System Round → List (Action System Round) → Client System Round → Prop where
  | snapshotPublished (system : System) (collectedAt : UInt64) (readAt : ℕ) :
      Takes config c (.snapshotPublished system collectedAt readAt) []
        { c with snapshot := ⟨system, collectedAt, readAt, c.snapshot.seq + 1⟩ }
  | collectorEnded : Takes config c .collectorEnded [] { c with collecting := false }
  | roundPublished (round : Round) :
      Takes config c (.roundPublished round) []
        { c with round := some round, roundVersion := c.roundVersion + 1 }
  | scrapeLoopEnded : Takes config c .scrapeLoopEnded [] { c with scraping := false }
  | connects (hphase : c.phase = .waiting) :
      Takes config c .waited [.connects (pushUrl config.hubUrl)] { c with phase := .connecting }
  | stops (hphase : c.phase = .waiting) :
      Takes config c .waited [.returns (.error .collectorEnded)] { c with phase := .stopped }
  | connected (hphase : c.phase = .connecting) :
      Takes config c (.connected (.ok ())) [] { c with phase := .authenticating }
  | unconnected (hphase : c.phase = .connecting) (e : String) :
      Takes config c (.connected (.error e)) [.returns (.error (.connection e))]
        { c with phase := .sleeping (c.clock + retryDelay) }
  | authSent (hphase : c.phase = .authenticating) :
      Takes config c (.authSent (.ok ())) [.sends (.auth config.systemId config.token) true]
        { c with phase := .answering }
  | authUnsent (hphase : c.phase = .authenticating) (e : String) :
      Takes config c (.authSent (.error e))
        [.sends (.auth config.systemId config.token) false, .returns (.error (.connection e))]
        { c with phase := .sleeping (c.clock + retryDelay) }
  | passed (hphase : c.phase = .answering) (answer : Incoming)
      (hanswer : authenticate config.parse answer = .ok ()) :
      Takes config c (.answered answer) [] { c with phase := .resending }
  | refused (hphase : c.phase = .answering) (answer : Incoming) (e : String)
      (hanswer : authenticate config.parse answer = .error e) :
      Takes config c (.answered answer) [.returns (.error (.connection e))]
        { c with phase := .sleeping (c.clock + retryDelay) }
  | resent (hphase : c.phase = .resending) (alive sent : Bool) (sends : List (Action System Round))
      (hsends : SendsRound c.round alive sends sent) :
      Takes config c (.resent alive) (sends ++ ends sent)
        { c with
          roundSeen := some c.roundVersion
          phase := if sent then .pumping c.clock c.clock else .waiting }
  | roundless (hphase : c.phase = .resending) (alive : Bool) :
      Takes config c (.resent alive) []
        { c with roundSeen := none, phase := .pumping c.clock c.clock }
  | ticked (nextTick nextPing : ℕ) (hphase : c.phase = .pumping nextTick nextPing)
      (hdue : nextTick ≤ c.clock) (hnew : c.lastSent ≠ some c.snapshot.seq)
      (hencodes : config.encodesSnapshot c.snapshot = true) :
      Takes config c (.ticked true)
        [.sends (.snapshot config.systemId c.snapshot) true, .marksSent c.snapshot.seq]
        { c with
          lastSent := some c.snapshot.seq
          phase := .pumping (nextTick + config.tickEvery) nextPing }
  | tickLost (nextTick nextPing : ℕ) (hphase : c.phase = .pumping nextTick nextPing)
      (hdue : nextTick ≤ c.clock) (hnew : c.lastSent ≠ some c.snapshot.seq)
      (hencodes : config.encodesSnapshot c.snapshot = true) :
      Takes config c (.ticked false)
        [.sends (.snapshot config.systemId c.snapshot) false, .returns (.ok ())]
        { c with phase := .waiting }
  | tickSkipped (nextTick nextPing : ℕ) (hphase : c.phase = .pumping nextTick nextPing)
      (hdue : nextTick ≤ c.clock) (hnew : c.lastSent ≠ some c.snapshot.seq) (alive : Bool) :
      Takes config c (.ticked alive) [.marksSent c.snapshot.seq]
        { c with
          lastSent := some c.snapshot.seq
          phase := .pumping (nextTick + config.tickEvery) nextPing }
  | tickUnchanged (nextTick nextPing : ℕ) (hphase : c.phase = .pumping nextTick nextPing)
      (hdue : nextTick ≤ c.clock) (alive : Bool) :
      Takes config c (.ticked alive) []
        { c with phase := .pumping (nextTick + config.tickEvery) nextPing }
  | tickStale (nextTick nextPing : ℕ) (hphase : c.phase = .pumping nextTick nextPing)
      (hdue : nextTick ≤ c.clock) (alive : Bool) :
      Takes config c (.ticked alive) [] { c with phase := .closing }
  | pinged (nextTick nextPing : ℕ) (hphase : c.phase = .pumping nextTick nextPing) (alive : Bool) :
      Takes config c (.pinged alive) (.sends .ping alive :: ends alive)
        { c with phase := if alive then .pumping nextTick (nextPing + pingEvery) else .waiting }
  | roundChanged (nextTick nextPing seen : ℕ) (hphase : c.phase = .pumping nextTick nextPing)
      (hseen : c.roundSeen = some seen) (hchanged : seen ≠ c.roundVersion) (alive sent : Bool)
      (sends : List (Action System Round)) (hsends : SendsRound c.round alive sends sent) :
      Takes config c (.roundChanged alive) (sends ++ ends sent)
        { c with
          roundSeen := some c.roundVersion
          phase := if sent then .pumping nextTick nextPing else .waiting }
  | roundsGivenUp (nextTick nextPing : ℕ) (hphase : c.phase = .pumping nextTick nextPing)
      (alive : Bool) : Takes config c (.roundChanged alive) [] { c with roundSeen := none }
  | received (nextTick nextPing : ℕ) (hphase : c.phase = .pumping nextTick nextPing)
      (incoming : Incoming) : Takes config c (.received incoming) (ends !hubHungUp incoming)
        { c with phase := if !hubHungUp incoming then .pumping nextTick nextPing else .waiting }
  | closed (hphase : c.phase = .closing) :
      Takes config c .closed [.returns (.ok ())] { c with phase := .waiting }
  | slept (wake : ℕ) (hphase : c.phase = .sleeping wake) (hwake : wake ≤ c.clock) :
      Takes config c .slept [] { c with phase := .waiting }

/-- A push tick that is due. -/
theorem takes_tick {config : Config System Round} {c : Client System Round} {nextTick nextPing : ℕ}
    (hphase : c.phase = .pumping nextTick nextPing) (hdue : nextTick ≤ c.clock) (alive : Bool) :
    Takes config c (.ticked alive)
      ({ c with phase := .pumping (nextTick + config.tickEvery) nextPing }.tick config alive).1
      ({ c with phase := .pumping (nextTick + config.tickEvery) nextPing }.tick
        config alive).2 := by
  simp only [tick, due]
  split_ifs with hfresh hsame
  · exact .tickUnchanged nextTick nextPing hphase hdue alive
  · simp only [sendSnapshot, goOn_eq]
    cases hencodes : config.encodesSnapshot c.snapshot with
    | false => exact .tickSkipped nextTick nextPing hphase hdue hsame alive
    | true =>
        cases alive with
        | true => exact .ticked nextTick nextPing hphase hdue hsame hencodes
        | false => exact .tickLost nextTick nextPing hphase hdue hsame hencodes
  · exact .tickStale nextTick nextPing hphase hdue alive

theorem takes_pump {config : Config System Round} {c : Client System Round} {nextTick nextPing : ℕ}
    {event : Event System Round} {did : List (Action System Round) × Client System Round}
    (hphase : c.phase = .pumping nextTick nextPing)
    (h : c.pump config nextTick nextPing event = some did) : Takes config c event did.1 did.2 := by
  cases event with
  | ticked alive =>
      simp only [pump] at h
      split_ifs at h with hdue
      obtain rfl := Option.some.inj h
      exact takes_tick hphase hdue alive
  | pinged alive =>
      simp only [pump, goOn_eq, Option.ite_none_right_eq_some] at h
      obtain rfl := Option.some.inj h.2
      exact .pinged nextTick nextPing hphase alive
  | roundChanged alive =>
      obtain ⟨⟨round, next⟩, hnext, rfl⟩ := Option.map_eq_some_iff.mp h
      rw [nextRound] at hnext
      cases hseen : c.roundSeen with
      | none => simp [hseen] at hnext
      | some seen =>
          simp only [hseen] at hnext
          split_ifs at hnext with hchanged
          · obtain ⟨rfl, rfl⟩ := Prod.mk.inj (Option.some.inj hnext)
            simp only [goOn_eq, hphase]
            exact .roundChanged nextTick nextPing seen hphase hseen hchanged alive _ _
              (sendRound_sends config c.round alive)
          · obtain ⟨rfl, rfl⟩ := Prod.mk.inj (Option.some.inj hnext)
            exact .roundsGivenUp nextTick nextPing hphase alive
  | received incoming =>
      simp only [pump, goOn_eq, hphase] at h
      obtain rfl := Option.some.inj h
      exact .received nextTick nextPing hphase incoming
  | _ => simp [pump] at h

/-- Every event that can happen is one of those. -/
theorem takes_of_take {config : Config System Round} {c : Client System Round}
    {event : Event System Round} {did : List (Action System Round) × Client System Round}
    (h : c.take config event = some did) : Takes config c event did.1 did.2 := by
  cases event with
  | snapshotPublished system collectedAt readAt =>
      simp only [take] at h
      split_ifs at h
      obtain rfl := Option.some.inj h
      exact .snapshotPublished system collectedAt readAt
  | collectorEnded =>
      obtain rfl := Option.some.inj h
      exact .collectorEnded
  | roundPublished round =>
      simp only [take] at h
      split_ifs at h
      obtain rfl := Option.some.inj h
      exact .roundPublished round
  | scrapeLoopEnded =>
      obtain rfl := Option.some.inj h
      exact .scrapeLoopEnded
  | waited =>
      simp only [take] at h
      cases hphase : c.phase with
      | waiting =>
          simp only [hphase] at h
          split_ifs at h with hfresh hcollecting
          · obtain rfl := Option.some.inj h
            exact .connects hphase
          · obtain rfl := Option.some.inj h
            exact .stops hphase
      | pumping nextTick nextPing => simp [hphase, pump] at h
      | _ => simp [hphase] at h
  | connected result =>
      simp only [take] at h
      cases hphase : c.phase with
      | connecting =>
          cases result with
          | ok =>
              simp only [hphase] at h
              obtain rfl := Option.some.inj h
              exact .connected hphase
          | error e =>
              simp only [hphase] at h
              obtain rfl := Option.some.inj h
              exact .unconnected hphase e
      | pumping nextTick nextPing => simp [hphase, pump] at h
      | _ => simp [hphase] at h
  | authSent result =>
      simp only [take] at h
      cases hphase : c.phase with
      | authenticating =>
          cases result with
          | ok =>
              simp only [hphase] at h
              obtain rfl := Option.some.inj h
              exact .authSent hphase
          | error e =>
              simp only [hphase] at h
              obtain rfl := Option.some.inj h
              exact .authUnsent hphase e
      | pumping nextTick nextPing => simp [hphase, pump] at h
      | _ => simp [hphase] at h
  | answered answer =>
      simp only [take] at h
      cases hphase : c.phase with
      | answering =>
          simp only [hphase] at h
          cases hanswer : authenticate config.parse answer with
          | ok =>
              simp only [hanswer] at h
              obtain rfl := Option.some.inj h
              exact .passed hphase answer hanswer
          | error e =>
              simp only [hanswer] at h
              obtain rfl := Option.some.inj h
              exact .refused hphase answer e hanswer
      | pumping nextTick nextPing => simp [hphase, pump] at h
      | _ => simp [hphase] at h
  | resent alive =>
      simp only [take] at h
      cases hphase : c.phase with
      | resending =>
          rcases c.currentRound_cases with hround | hround
          · simp only [hphase, hround, goOn_eq] at h
            obtain rfl := Option.some.inj h
            exact .resent hphase alive _ _ (sendRound_sends config c.round alive)
          · simp only [hphase, hround, goOn_eq] at h
            obtain rfl := Option.some.inj h
            exact .roundless hphase alive
      | pumping nextTick nextPing => simp [hphase, pump] at h
      | _ => simp [hphase] at h
  | closed =>
      simp only [take] at h
      cases hphase : c.phase with
      | closing =>
          simp only [hphase] at h
          obtain rfl := Option.some.inj h
          exact .closed hphase
      | pumping nextTick nextPing => simp [hphase, pump] at h
      | _ => simp [hphase] at h
  | slept =>
      simp only [take] at h
      cases hphase : c.phase with
      | sleeping wake =>
          simp only [hphase] at h
          split_ifs at h with hwake
          obtain rfl := Option.some.inj h
          exact .slept wake hphase hwake
      | pumping nextTick nextPing => simp [hphase, pump] at h
      | _ => simp [hphase] at h
  | _ =>
      simp only [take] at h
      cases hphase : c.phase with
      | pumping nextTick nextPing =>
          simp only [hphase] at h
          exact takes_pump hphase h
      | _ => simp [hphase] at h

/-- An event of a run, at a time the clock has not passed. -/
theorem takes_of_step {config : Config System Round} {c : Client System Round} {now : ℕ}
    {event : Event System Round} {did : Step System Round × Client System Round}
    (h : c.step config now event = some did) :
    c.clock ≤ now ∧ did.1.now = now ∧ did.1.event = event ∧
      Takes config { c with clock := now } event did.1.actions did.2 := by
  obtain ⟨hclock, h⟩ := Option.ite_none_right_eq_some.mp h
  obtain ⟨⟨actions, next⟩, htake, rfl⟩ := Option.map_eq_some_iff.mp h
  exact ⟨hclock, rfl, rfl, takes_of_take htake⟩

/-- What every event keeps, a run keeps. -/
theorem run_keeps {config : Config System Round}
    {Keeps : List (Step System Round) → Client System Round → Prop}
    {events : List (ℕ × Event System Round)}
    (hstep : ∀ {past c now event did}, (now, event) ∈ events → Keeps past c →
      c.step config now event = some did → Keeps (past ++ [did.1]) did.2)
    {past steps : List (Step System Round)} {c c' : Client System Round} (hc : Keeps past c)
    (hrun : c.run config events = some (steps, c')) : Keeps (past ++ steps) c' := by
  induction events generalizing past c steps with
  | nil =>
      obtain ⟨rfl, rfl⟩ := Prod.mk.inj (Option.some.inj hrun)
      rwa [List.append_nil]
  | cons timed events ih =>
      obtain ⟨now, event⟩ := timed
      rw [run] at hrun
      cases hdid : c.step config now event with
      | none => simp [hdid] at hrun
      | some did =>
          rw [hdid] at hrun
          obtain ⟨⟨rest, last⟩, hrest, heq⟩ := Option.map_eq_some_iff.mp hrun
          obtain ⟨rfl, rfl⟩ := Prod.mk.inj heq
          have hfirst := hstep List.mem_cons_self hc hdid
          have hlast := ih (fun hmem => hstep (List.mem_cons_of_mem _ hmem)) hfirst hrest
          rwa [List.append_assoc, List.singleton_append] at hlast

end Client

/-! ### Each snapshot once -/

def Action.marked : Action System Round → Option ℕ
  | .marksSent seq => some seq
  | _ => none

/-- The snapshot that is sent, whether or not the connection takes it. -/
def Action.snapshotSent : Action System Round → Option ℕ
  | .sends (.snapshot _ snapshot) _ => some snapshot.seq
  | _ => none

/-- The snapshots marked sent, in order. -/
def marks (log : List (Step System Round)) : List ℕ :=
  log.flatMap fun step => step.actions.filterMap Action.marked

/-- The snapshots sent, in order. -/
def snapshotsSent (log : List (Step System Round)) : List ℕ :=
  log.flatMap fun step => step.actions.filterMap Action.snapshotSent

theorem marks_concat (log : List (Step System Round)) (step : Step System Round) :
    marks (log ++ [step]) = marks log ++ step.actions.filterMap Action.marked := by
  simp [marks]

theorem snapshotsSent_concat (log : List (Step System Round)) (step : Step System Round) :
    snapshotsSent (log ++ [step]) = snapshotsSent log ++
      step.actions.filterMap Action.snapshotSent := by
  simp [snapshotsSent]

/-- What one event does about snapshots: it publishes the next one, or sends the published one, or
marks it. -/
inductive SnapshotStep (c c' : Client System Round)
    (actions : List (Action System Round)) : Prop where
  | idle (hmarks : actions.filterMap Action.marked = [])
      (hsent : actions.filterMap Action.snapshotSent = [])
      (hlast : c'.lastSent = c.lastSent) (hseq : c.snapshot.seq ≤ c'.snapshot.seq)
  | lost (hmarks : actions.filterMap Action.marked = [])
      (hsent : actions.filterMap Action.snapshotSent = [c.snapshot.seq])
      (hlast : c'.lastSent = c.lastSent) (hseq : c'.snapshot = c.snapshot)
  | marked (hnew : c.lastSent ≠ some c.snapshot.seq)
      (hmarks : actions.filterMap Action.marked = [c.snapshot.seq])
      (hsent : actions.filterMap Action.snapshotSent = [c.snapshot.seq] ∨
        actions.filterMap Action.snapshotSent = [])
      (hlast : c'.lastSent = some c.snapshot.seq) (hseq : c'.snapshot = c.snapshot)

namespace Client

theorem filterMap_ends {p : Action System Round → Option ℕ}
    (hp : p (.returns (.ok ())) = none) (alive : Bool) : (ends alive).filterMap p = [] := by
  cases alive with
  | true => rfl
  | false => simp [ends, hp]

theorem SendsRound.filterMap_eq_nil {p : Action System Round → Option ℕ}
    (hp : ∀ round alive, p (.sends (.round round) alive) = none) {round : Option Round}
    {alive sent : Bool} {sends : List (Action System Round)}
    (h : SendsRound round alive sends sent) : sends.filterMap p = [] := by
  cases h with
  | nothing => rfl
  | sent round => simp [hp]

theorem Takes.snapshotStep {config : Config System Round} {c c' : Client System Round}
    {event : Event System Round} {actions : List (Action System Round)}
    (h : Takes config c event actions c') : SnapshotStep c c' actions := by
  cases h with
  | snapshotPublished => exact .idle rfl rfl rfl (Nat.le_succ _)
  | resent _ alive sent sends hsends | roundChanged _ _ _ _ _ _ alive sent sends hsends =>
      refine .idle ?_ ?_ rfl le_rfl
      · rw [List.filterMap_append, hsends.filterMap_eq_nil fun _ _ => rfl,
          filterMap_ends rfl, List.append_nil]
      · rw [List.filterMap_append, hsends.filterMap_eq_nil fun _ _ => rfl,
          filterMap_ends rfl, List.append_nil]
  | pinged _ _ _ alive =>
      exact .idle (filterMap_ends rfl alive) (filterMap_ends rfl alive) rfl le_rfl
  | received => exact .idle (filterMap_ends rfl _) (filterMap_ends rfl _) rfl le_rfl
  | ticked _ _ _ _ hnew => exact .marked hnew rfl (.inl rfl) rfl rfl
  | tickSkipped _ _ _ _ hnew => exact .marked hnew rfl (.inr rfl) rfl rfl
  | tickLost => exact .lost rfl rfl rfl rfl
  | _ => exact .idle rfl rfl rfl le_rfl

end Client

/-- Snapshots are marked sent once each and sent in the order of their publication. -/
structure InOrder (log : List (Step System Round)) (c : Client System Round) : Prop where
  marks_lt : (marks log).Pairwise (· < ·)
  sent_le : (snapshotsSent log).Pairwise (· ≤ ·)
  marks_le_last : ∀ seq ∈ marks log, ∃ last, c.lastSent = some last ∧ seq ≤ last
  last_le : ∀ last, c.lastSent = some last → last ≤ c.snapshot.seq
  sent_le_published : ∀ seq ∈ snapshotsSent log, seq ≤ c.snapshot.seq

theorem pairwise_concat {α : Type*} {r : α → α → Prop} {l : List α} {x : α} (hl : l.Pairwise r)
    (hx : ∀ y ∈ l, r y x) : (l ++ [x]).Pairwise r := by
  refine List.pairwise_append.mpr ⟨hl, List.pairwise_singleton r x, fun y hy z hz => ?_⟩
  rw [List.mem_singleton.mp hz]
  exact hx y hy

theorem InOrder.concat {log : List (Step System Round)} {step : Step System Round}
    {c c' : Client System Round} (h : InOrder log c) (hstep : SnapshotStep c c' step.actions) :
    InOrder (log ++ [step]) c' := by
  cases hstep with
  | idle hmarks hsent hlast hseq =>
      refine ⟨?_, ?_, ?_, ?_, ?_⟩
      all_goals simp only [marks_concat, snapshotsSent_concat, hmarks, hsent,
        hlast, List.append_nil]
      · exact h.marks_lt
      · exact h.sent_le
      · exact h.marks_le_last
      · exact fun last hlast => (h.last_le last hlast).trans hseq
      · exact fun seq hseq' => (h.sent_le_published seq hseq').trans hseq
  | lost hmarks hsent hlast hseq =>
      refine ⟨?_, ?_, ?_, ?_, ?_⟩
      all_goals simp only [marks_concat, snapshotsSent_concat, hmarks, hsent, hlast,
        hseq, List.append_nil]
      · exact h.marks_lt
      · exact pairwise_concat h.sent_le h.sent_le_published
      · exact h.marks_le_last
      · exact h.last_le
      · intro seq hmem
        rcases List.mem_append.mp hmem with hmem | hmem
        · exact h.sent_le_published seq hmem
        · exact (List.mem_singleton.mp hmem).le
  | marked hnew hmarks hsent hlast hseq =>
      have hbefore : ∀ seq ∈ marks log, seq < c.snapshot.seq := by
        intro seq hmem
        obtain ⟨last, hlast, hle⟩ := h.marks_le_last seq hmem
        have hne : last ≠ c.snapshot.seq := fun heq => hnew (heq ▸ hlast)
        exact lt_of_le_of_lt hle (lt_of_le_of_ne (h.last_le last hlast) hne)
      refine ⟨?_, ?_, ?_, ?_, ?_⟩
      all_goals simp only [marks_concat, snapshotsSent_concat, hmarks, hlast, hseq]
      · exact pairwise_concat h.marks_lt hbefore
      · rcases hsent with hsent | hsent
        · rw [hsent]
          exact pairwise_concat h.sent_le h.sent_le_published
        · rw [hsent, List.append_nil]
          exact h.sent_le
      · intro seq hmem
        refine ⟨c.snapshot.seq, rfl, ?_⟩
        rcases List.mem_append.mp hmem with hmem | hmem
        · exact (hbefore seq hmem).le
        · exact (List.mem_singleton.mp hmem).le
      · intro last hlast
        exact (Option.some.inj hlast).ge
      · intro seq hmem
        rcases List.mem_append.mp hmem with hmem | hmem
        · exact h.sent_le_published seq hmem
        · rcases hsent with hsent | hsent
          · rw [hsent] at hmem
            exact (List.mem_singleton.mp hmem).le
          · rw [hsent] at hmem
            exact absurd hmem List.not_mem_nil

theorem inOrder_new (snapshot : PublishedSnapshot System) (applications : Bool) (start : ℕ) :
    InOrder [] (Client.new snapshot applications start : Client System Round) where
  marks_lt := List.Pairwise.nil
  sent_le := List.Pairwise.nil
  marks_le_last _ h := absurd h List.not_mem_nil
  last_le _ h := absurd h (by simp [Client.new])
  sent_le_published _ h := absurd h List.not_mem_nil

end MonitoringAgent.Agent.Push

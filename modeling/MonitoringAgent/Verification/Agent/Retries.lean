import MonitoringAgent.Verification.Agent.Outbox

/-! # Retries

When the delivery task tries again. The select is entered anew after each message, with a sleep of
its own, so a message that comes while a retry waits puts the retry off. -/

namespace MonitoringAgent.Agent

open MonitoringAgent.Library

namespace Delivery

variable {M : Type}

/-- When the attempt after this one should begin: once the wait is over, or with the next message
when nothing waits. -/
def Attempt.due (a : Attempt M) : ℕ :=
  if a.left.outbox.front.isSome then
    a.ended + a.left.wait
  else
    match a.left.arrivals with
    | [] => a.ended
    | (handed, _) :: _ => a.ended.max handed

/-- No message comes while the next attempt waits. -/
def Attempt.Undisturbed (a : Attempt M) : Prop :=
  a.left.outbox.front.isSome → ∀ arrival ∈ a.left.arrivals, arrival.1 ≤ a.ended ∨
    a.ended + a.left.wait < arrival.1

/-- The failures in a row that some attempts end with, after `failed` of them. -/
def failures (failed : ℕ) (attempts : List (Attempt M)) : ℕ :=
  attempts.foldl (fun failed a => if a.result = .temporary then failed + 1 else 0) failed

/-- No send is left to make: no result is given for one, or nothing waits and nothing is to come. -/
def Over (d : Delivery M) : Prop := d.attempts = [] ∨ d.outbox.front = none ∧ d.arrivals = []

/-- Every attempt after the first begins when it should, attempts follow while a send is left to
make, and the `k`-th failure in a row waits 30 s · 2^(k-1), up to `max`. -/
structure RetriedOnTime (max turns : ℕ) (d : Delivery M) : Prop where
  onTime : (deliver max turns d).IsChain fun a next => next.began = a.due
  /-- A turn is an arrival received or a result used, so with one for each the run isn't cut short.
  -/
  goesOn : d.arrivals.length + d.attempts.length ≤ turns →
    (deliver max turns d = [] → d.Over) ∧ ∀ a ∈ (deliver max turns d).getLast?, a.left.Over
  backedOff : ∀ earlier a later, deliver max turns d = earlier ++ a :: later →
    a.result = .temporary → a.left.wait = min (firstRetry * 2 ^ failures 0 earlier) max

/-! ### Turns -/

/-- What a turn does, by what the select takes. -/
inductive Turned (max : ℕ) (d : Delivery M) : Turn M → Prop
  | received {handed : ℕ} {message : M} {rest : List (ℕ × M)}
      (harrivals : d.arrivals = (handed, message) :: rest)
      (hfirst : d.outbox.front.isSome → handed ≤ d.began + d.wait) :
      Turned max d (.received (d.receive (d.began.max handed) message rest))
  | attempted {a : Attempt M} (hattempt : d.attempt max = some a)
      (hfirst : ∀ first ∈ d.arrivals.head?, d.began + d.wait < first.1) :
      Turned max d (.attempted a)

theorem turned {d : Delivery M} {max : ℕ} {t : Turn M} (h : d.turn max = some t) :
    Turned max d t := by
  cases harrivals : d.arrivals with
  | nil =>
      simp only [turn, harrivals, Option.map_eq_some_iff] at h
      obtain ⟨a, ha, rfl⟩ := h
      exact .attempted ha (by simp [harrivals])
  | cons first rest =>
      obtain ⟨handed, message⟩ := first
      simp only [turn, harrivals] at h
      split_ifs at h with hsleep
      · rw [Option.map_eq_some_iff] at h
        obtain ⟨a, ha, rfl⟩ := h
        exact .attempted ha (by simpa [harrivals] using hsleep.2)
      · rw [← Option.some.inj h]
        refine .received harrivals fun hfront => ?_
        rw [not_and] at hsleep
        exact Nat.le_of_not_lt (hsleep hfront)

theorem logDropped_outbox (o : Outbox M) (warnedAt : Option ℕ) (now : ℕ) :
    (logDropped o warnedAt now).2.2.queue = o.queue ∧
    (logDropped o warnedAt now).2.2.backoff = o.backoff := by
  obtain hquiet | ⟨hlogged, -⟩ := logDropped_spec o warnedAt now
  · rw [hquiet]
    exact ⟨rfl, rfl⟩
  · rw [hlogged]
    exact ⟨rfl, rfl⟩

/-- After a message is received there is one to send. -/
theorem receive_front (d : Delivery M) (now : ℕ) (message : M) (rest : List (ℕ × M)) :
    (d.receive now message rest).outbox.front.isSome := by
  have hqueue : (d.receive now message rest).outbox.queue = (d.outbox.push message).queue :=
    (logDropped_outbox _ _ _).1
  rw [Outbox.front, hqueue]
  simp [Outbox.push, pushBounded]

/-- With nothing left to send, the next message is sent as it comes. -/
theorem wait_of_empty {d : Delivery M} {max : ℕ} {a : Attempt M} (h : d.attempt max = some a)
    (hempty : a.left.outbox.front = none) : a.left.wait = 0 := by
  have hattempted := attempted h
  have hqueue : a.left.outbox.queue = (d.outbox.after a.result max).2.queue := by
    rw [show a.left.outbox = a.left.outboxed.outbox from rfl, hattempted.left_log]
    exact (logDropped_outbox _ _ _).1
  rw [hattempted.left_wait]
  cases hresult : a.result with
  | sent => rfl
  | permanent => rfl
  | temporary =>
      have hfront := hattempted.front_eq
      rw [Outbox.front, hqueue, hresult] at hempty
      rw [Outbox.front] at hfront
      exact absurd (hempty.symm.trans hfront) (by simp)

/-! ### The next attempt -/

variable {max : ℕ}

/-- With a message waiting, the next attempt begins no sooner than its wait is over, and then
exactly if no other message comes in between. -/
theorem began_iff {turns : ℕ} {d : Delivery M} (hfront : d.outbox.front.isSome)
    (hsorted : d.arrivals.Pairwise fun earlier later => earlier.1 ≤ later.1) {next : Attempt M}
    {rest : List (Attempt M)} (h : deliver max turns d = next :: rest) :
    d.began + d.wait ≤ next.began ∧ (next.began = d.began + d.wait ↔
      ∀ arrival ∈ d.arrivals, arrival.1 ≤ d.began ∨ d.began + d.wait < arrival.1) := by
  induction turns generalizing d with
  | zero => cases h
  | succ turns ih =>
      rw [deliver] at h
      cases hturn : d.turn max with
      | none => simp [hturn] at h
      | some t =>
          rw [hturn] at h
          cases turned hturn with
          | @received handed message later harrivals hfirst =>
              have hle := hfirst hfront
              rw [harrivals, List.pairwise_cons] at hsorted
              obtain ⟨hlate, hnext⟩ := ih
                (receive_front d (d.began.max handed) message later) hsorted.2 h
              have hbegan : (d.receive (d.began.max handed) message later).began =
                d.began.max handed := rfl
              have hwait : (d.receive (d.began.max handed) message later).wait = d.wait := rfl
              have hrest : (d.receive (d.began.max handed) message later).arrivals = later := rfl
              rw [hbegan, hwait] at hlate hnext
              rw [hrest] at hnext
              rw [harrivals, List.forall_mem_cons]
              obtain hsoon | hduring := le_or_gt handed d.began
              · have hmax : d.began.max handed = d.began := Nat.max_eq_left hsoon
                rw [hmax] at hlate hnext
                refine ⟨hlate, hnext.trans ?_⟩
                simp only [hsoon, true_or, true_and]
              · have hmax : d.began.max handed = handed := Nat.max_eq_right hduring.le
                rw [hmax] at hlate
                refine ⟨by omega, ?_⟩
                constructor
                · intro heq
                  omega
                · rintro ⟨hbefore | hafter, -⟩
                  · omega
                  · omega
          | @attempted a hattempt hfirst =>
              obtain ⟨rfl, -⟩ := List.cons.inj h
              have hbegan := (attempted hattempt).began_eq
              refine ⟨hbegan.ge, ?_⟩
              simp only [hbegan, true_iff]
              intro arrival hmem
              right
              cases harrivals : d.arrivals with
              | nil =>
                  rw [harrivals] at hmem
                  cases hmem
              | cons first later =>
                  rw [harrivals] at hmem hsorted hfirst
                  have hlate := hfirst first rfl
                  obtain rfl | hlater := List.mem_cons.mp hmem
                  · exact hlate
                  · exact hlate.trans_le ((List.pairwise_cons.mp hsorted).1 arrival hlater)

/-- With nothing to send and nothing to wait for, the next message is sent as it comes. -/
theorem began_of_empty {turns : ℕ} {d : Delivery M} (hempty : d.outbox.front = none)
    (hwait : d.wait = 0) (hsorted : d.arrivals.Pairwise fun earlier later => earlier.1 ≤ later.1)
    {next : Attempt M} {rest : List (Attempt M)} (h : deliver max turns d = next :: rest) :
    ∃ first later, d.arrivals = first :: later ∧ next.began = d.began.max first.1 := by
  cases turns with
  | zero => cases h
  | succ turns =>
      rw [deliver] at h
      cases hturn : d.turn max with
      | none => simp [hturn] at h
      | some t =>
          rw [hturn] at h
          cases turned hturn with
          | @received handed message later harrivals _ =>
              rw [harrivals, List.pairwise_cons] at hsorted
              have hnext :=
                (began_iff (receive_front d (d.began.max handed) message later) hsorted.2 h).2
              refine ⟨(handed, message), later, harrivals, ?_⟩
              have hwaits : (d.receive (d.began.max handed) message later).wait = 0 := hwait
              rw [hwaits, Nat.add_zero] at hnext
              exact hnext.mpr fun arrival _ => le_or_gt _ _
          | attempted hattempt _ =>
              have hfront := (attempted hattempt).front_eq
              rw [hempty] at hfront
              cases hfront

/-- The attempt after one begins when it should exactly if no message comes while it waits. -/
theorem due_iff {turns : ℕ} {d : Delivery M} {a next : Attempt M}
    (hattempt : d.attempt max = some a) (hsorted : d.arrivals.Pairwise
      fun earlier later => earlier.1 ≤ later.1) {rest : List (Attempt M)}
    (h : deliver max turns a.left = next :: rest) : next.began = a.due ↔ a.Undisturbed := by
  have hattempted := attempted hattempt
  rw [← hattempted.left_arrivals] at hsorted
  rw [Attempt.due, Attempt.Undisturbed]
  split_ifs with hfront
  · rw [← hattempted.left_began]
    simp only [hfront, forall_const]
    exact (began_iff hfront hsorted h).2
  · have hempty := Option.not_isSome_iff_eq_none.mp hfront
    obtain ⟨first, later, harrivals, hbegan⟩ := began_of_empty hempty
      (wait_of_empty hattempt hempty) hsorted h
    rw [hbegan, harrivals, hattempted.left_began]
    exact iff_of_true rfl fun hsome => absurd hsome hfront

/-! ### Every attempt -/

theorem isChain_iff {turns : ℕ} {d : Delivery M}
    (hsorted : d.arrivals.Pairwise fun earlier later => earlier.1 ≤ later.1) :
    (deliver max turns d).IsChain (fun a next => next.began = a.due) ↔
      (deliver max turns d).IsChain fun a _ => a.Undisturbed := by
  induction turns generalizing d with
  | zero => exact iff_of_true List.isChain_nil List.isChain_nil
  | succ turns ih =>
      rw [deliver]
      cases hturn : d.turn max with
      | none => exact iff_of_true List.isChain_nil List.isChain_nil
      | some t =>
          cases turned hturn with
          | received harrivals _ =>
              rw [harrivals, List.pairwise_cons] at hsorted
              exact ih hsorted.2
          | @attempted a hattempt _ =>
              simp only
              rw [List.isChain_cons, List.isChain_cons]
              have hleft := ih ((attempted hattempt).left_arrivals ▸ hsorted)
              refine and_congr (forall₂_congr fun next hnext => ?_) hleft
              obtain ⟨rest, hrest⟩ := List.head?_eq_some_iff.mp hnext
              exact due_iff hattempt hsorted hrest

/-- The backoff after so many failures in a row. -/
def backoffAfter (max failed : ℕ) : Option ℕ :=
  if failed = 0 then none else some (min (firstRetry * 2 ^ (failed - 1)) max)

/-- An attempt's failure doubles the backoff, and anything else ends it. -/
theorem attempt_backoff {d : Delivery M} {failed : ℕ}
    (hbackoff : d.outbox.backoff = backoffAfter max failed) {a : Attempt M}
    (hattempt : d.attempt max = some a) :
    a.left.outbox.backoff = backoffAfter max (if a.result = .temporary then failed + 1 else 0) ∧
      (a.result = .temporary → a.left.wait = min (firstRetry * 2 ^ failed) max) := by
  have hattempted := attempted hattempt
  have hleft : a.left.outbox.backoff = (d.outbox.after a.result max).2.backoff := by
    rw [show a.left.outbox = a.left.outboxed.outbox from rfl, hattempted.left_log]
    exact (logDropped_outbox _ _ _).2
  rw [hleft, hattempted.left_wait]
  cases hresult : a.result with
  | sent => exact ⟨rfl, fun h => by cases h⟩
  | permanent => exact ⟨rfl, fun h => by cases h⟩
  | temporary =>
      have hnext : min ((d.outbox.backoff.map (· * 2)).getD firstRetry) max =
          min (firstRetry * 2 ^ failed) max := by
        rw [hbackoff, backoffAfter]
        cases failed with
        | zero => simp
        | succ failed =>
            simp only [Nat.succ_ne_zero, if_false, Option.map_some,
              Option.getD_some, Nat.add_sub_cancel]
            rw [Nat.pow_succ, ← Nat.mul_assoc]
            omega
      simp only [Outbox.after, hnext, if_true, backoffAfter, Nat.succ_ne_zero,
        if_false, Nat.add_sub_cancel]
      exact ⟨trivial, fun _ => trivial⟩

theorem waits_eq {turns failed : ℕ} {d : Delivery M}
    (hbackoff : d.outbox.backoff = backoffAfter max failed) {earlier : List (Attempt M)}
    {a : Attempt M} {later : List (Attempt M)} (h : deliver max turns d = earlier ++ a :: later)
    (hresult : a.result = .temporary) :
    a.left.wait = min (firstRetry * 2 ^ failures failed earlier) max := by
  induction turns generalizing d failed earlier with
  | zero => simp [deliver] at h
  | succ turns ih =>
      rw [deliver] at h
      cases hturn : d.turn max with
      | none => simp [hturn] at h
      | some t =>
          rw [hturn] at h
          cases turned hturn with
          | received _ _ =>
              refine ih ?_ h
              rw [← hbackoff]
              exact (logDropped_outbox _ _ _).2
          | @attempted first hattempt _ =>
              obtain ⟨hleft, hwait⟩ := attempt_backoff hbackoff hattempt
              cases earlier with
              | nil =>
                  obtain ⟨rfl, -⟩ := List.cons.inj h
                  exact hwait hresult
              | cons first' earlier =>
                  obtain ⟨rfl, hrest⟩ := List.cons.inj h
                  exact ih hleft hrest

/-! ### Going on -/

/-- With nothing to do, a turn finds no send left to make. -/
theorem over_of_turn {d : Delivery M} (h : d.turn max = none) : d.Over := by
  have hattempt : d.attempt max = none → d.attempts = [] ∨ d.outbox.front = none := by
    intro hnone
    cases hfront : d.outbox.front with
    | none => exact .inr rfl
    | some message =>
        cases hattempts : d.attempts with
        | nil => exact .inl rfl
        | cons next attempts => simp [attempt, hfront, hattempts] at hnone
  cases harrivals : d.arrivals with
  | nil =>
      simp only [turn, harrivals, Option.map_eq_none_iff] at h
      exact (hattempt h).imp_right fun hfront => ⟨hfront, harrivals⟩
  | cons first rest =>
      simp only [turn, harrivals] at h
      split_ifs at h with hsleep
      rw [Option.map_eq_none_iff] at h
      refine .inl ((hattempt h).resolve_right fun hfront => ?_)
      simp [hfront] at hsleep

theorem over_of_nil {turns : ℕ} {d : Delivery M}
    (hturns : d.arrivals.length + d.attempts.length ≤ turns) (h : deliver max turns d = []) :
    d.Over := by
  induction turns generalizing d with
  | zero => exact .inl (List.length_eq_zero_iff.mp (by omega))
  | succ turns ih =>
      rw [deliver] at h
      cases hturn : d.turn max with
      | none => exact over_of_turn hturn
      | some t =>
          rw [hturn] at h
          cases turned hturn with
          | @received handed message rest harrivals _ =>
              rw [harrivals, List.length_cons] at hturns
              have hleft : (d.receive (d.began.max handed) message rest).Over := by
                refine ih ?_ h
                change rest.length + d.attempts.length ≤ turns
                omega
              refine .inl (hleft.resolve_right fun hempty => ?_)
              have hfront := receive_front d (d.began.max handed) message rest
              rw [hempty.1] at hfront
              cases hfront
          | attempted _ _ => cases h

/-- After the last attempt of a run that isn't cut short, no send is left to make. -/
theorem over_of_last {turns : ℕ} {d : Delivery M}
    (hturns : d.arrivals.length + d.attempts.length ≤ turns) {a : Attempt M}
    (h : (deliver max turns d).getLast? = some a) : a.left.Over := by
  induction turns generalizing d with
  | zero => cases h
  | succ turns ih =>
      rw [deliver] at h
      cases hturn : d.turn max with
      | none => simp [hturn] at h
      | some t =>
          rw [hturn] at h
          cases turned hturn with
          | @received handed message rest harrivals _ =>
              rw [harrivals, List.length_cons] at hturns
              refine ih ?_ h
              change rest.length + d.attempts.length ≤ turns
              omega
          | @attempted first hattempt _ =>
              have hattempted := attempted hattempt
              have hleft : first.left.arrivals.length + first.left.attempts.length ≤ turns := by
                rw [hattempted.left_arrivals]
                have hattempts := hattempted.left_attempts
                omega
              cases hrest : deliver max turns first.left with
              | nil =>
                  simp only [hrest, List.getLast?_singleton, Option.some.injEq] at h
                  rw [← h]
                  exact over_of_nil hleft hrest
              | cons next rest =>
                  simp only [hrest, List.getLast?_cons_cons] at h
                  exact ih hleft (hrest ▸ h)

/-- Whatever messages come and however the sends go, attempts follow one another while a send is
left to make, with the right backoff, and every one begins when it should exactly if no message
comes while one waits to be tried again. -/
theorem retried_on_time_iff (max start turns : ℕ) {arrivals : List (ℕ × M)}
    (attempts : List (ℕ × SendResult))
    (hsorted : arrivals.Pairwise fun earlier later => earlier.1 ≤ later.1) :
    RetriedOnTime max turns { began := start, arrivals, attempts } ↔
      (deliver max turns { began := start, arrivals, attempts }).IsChain
        fun a _ => a.Undisturbed := by
  constructor
  · exact fun h => (isChain_iff hsorted).mp h.onTime
  · intro h
    refine ⟨(isChain_iff hsorted).mpr h, fun hturns => ?_, fun earlier a later heq hresult => ?_⟩
    · exact ⟨over_of_nil hturns, fun a ha => over_of_last hturns ha⟩
    · exact waits_eq rfl heq hresult

/-- A report the relay fails twice, with none coming in between. -/
def failedTwice : Delivery String :=
  { began := 0, arrivals := [(0, "report")], attempts :=
    [(0, .temporary), (seconds 1, .temporary), (0, .sent)] }

/-- It is tried 30 s after the first failure and 60 s after the second one, a second later, ended.
-/
theorem retried_on_time_twice :
    RetriedOnTime (seconds 300) 4 failedTwice ∧
      (deliver (seconds 300) 4 failedTwice).map (fun a => (a.message, a.began, a.result)) =
        [("report", 0, .temporary), ("report", seconds 30, .temporary),
          ("report", seconds 91, .sent)] := by
  have hundisturbed : ∀ a : Attempt String, a.left.arrivals = [] → a.Undisturbed := by
    intro a harrivals _ arrival hmem
    rw [harrivals] at hmem
    cases hmem
  refine ⟨(retried_on_time_iff _ _ _ _ (List.pairwise_singleton _ _)).mpr ?_, by decide +kernel⟩
  exact List.isChain_cons_cons.mpr ⟨hundisturbed _ rfl,
    List.isChain_cons_cons.mpr ⟨hundisturbed _ rfl, List.isChain_singleton _⟩⟩

/-- A second report handed over `gap` after the first, which the relay doesn't take at once. -/
def twoReports (gap : ℕ) : Delivery String :=
  { began := 0, arrivals := [(0, "first"), (gap, "second")], attempts :=
    [(0, .temporary), (0, .sent)] }

/-- A report that comes 20 s into a 30 s wait has the report before it tried again 50 s after it
failed. -/
theorem retry_put_off :
    (deliver (seconds 300) 4 (twoReports (seconds 20))).map
        (fun a => (a.message, a.began, a.result)) =
        [("first", 0, .temporary), ("first", seconds 50, .sent)] ∧
      (deliver (seconds 300) 4 (twoReports (seconds 20))).map (·.left.wait) = [seconds 30, 0] ∧
      ¬ RetriedOnTime (seconds 300) 4 (twoReports (seconds 20)) := by
  refine ⟨by decide +kernel, by decide +kernel, fun h => ?_⟩
  have hlate : ¬ (deliver (seconds 300) 4 (twoReports (seconds 20))).IsChain
      fun a next => next.began = a.due := by
    decide +kernel
  exact hlate h.onTime

end Delivery

end MonitoringAgent.Agent

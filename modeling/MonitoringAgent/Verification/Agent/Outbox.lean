import MonitoringAgent.Model.Agent.Outbox

/-! # What becomes of a report

Over any calls of the outbox, and any moments its drops are logged at: each message is queued, sent
or dropped, in the order they came. -/

namespace MonitoringAgent.Agent

open MonitoringAgent.Library

variable {M : Type}

/-! ### Calls -/

/-- What the delivery task does with its outbox: an attempt is with the front message, if there is
one. -/
inductive OutboxCall (M : Type) where
  | push (message : M)
  | attempt (result : SendResult)
  | log (now : ℕ)

/-- What a call did: which message it dropped, which it sent, which count it logged. -/
structure OutboxEvent (M : Type) where
  pushed : Option M := none
  dropped : Option M := none
  sent : Option M := none
  warned : Option (ℕ × ℕ) := none

/-- The outbox and when its drops were last logged. -/
structure Outboxed (M : Type) where
  outbox : Outbox M := {}
  warnedAt : Option ℕ := none

/-- The message a push drops for room. -/
def evicted (o : Outbox M) : Option M := if o.queue.length = maxQueued then o.queue.head? else none

def Outboxed.call (max : ℕ) (s : Outboxed M) : OutboxCall M → OutboxEvent M × Outboxed M
  | .push message =>
      ({ pushed := some message, dropped := evicted s.outbox },
        { s with outbox := s.outbox.push message })
  | .attempt result =>
      match s.outbox.front with
      | none => ({}, s)
      | some message =>
          ({ dropped := if result = .permanent then some message else none
             sent := if result = .sent then some message else none },
            { s with outbox := (s.outbox.after result max).2 })
  | .log now =>
      let (count, warnedAt, outbox) := logDropped s.outbox s.warnedAt now
      ({ warned := count.map fun count => (now, count) }, { outbox, warnedAt })

def Outboxed.calls (max : ℕ) (s : Outboxed M) :
    List (OutboxCall M) → List (OutboxEvent M) × Outboxed M
  | [] => ([], s)
  | call :: rest =>
      let (event, s) := s.call max call
      let (events, s) := s.calls max rest
      (event :: events, s)

/-! ### The invariant -/

/-- What the events so far say of the outbox. -/
structure Accounted (events : List (OutboxEvent M)) (s : Outboxed M) : Prop where
  /-- Each message is exactly one of sent, dropped and queued. -/
  conserved : (events.filterMap (·.pushed)).Perm
    (events.filterMap (·.sent) ++ events.filterMap (·.dropped) ++ s.outbox.queue)
  /-- Messages are sent in the order they came, and before what is queued. -/
  inOrder : (events.filterMap (·.sent) ++ s.outbox.queue).Sublist (events.filterMap (·.pushed))
  bounded : s.outbox.queue.length ≤ maxQueued
  counted : ((events.filterMap (·.warned)).map (·.2)).sum + s.outbox.dropped =
    (events.filterMap (·.dropped)).length
  warnedAt_eq : s.warnedAt = ((events.filterMap (·.warned)).getLast?).map (·.1)
  hourly : (events.filterMap (·.warned)).IsChain fun earlier later =>
    earlier.1 + droppedWarningEvery ≤ later.1

theorem accounted_new : Accounted ([] : List (OutboxEvent M)) {} where
  conserved := List.Perm.refl _
  inOrder := List.Sublist.refl _
  bounded := Nat.zero_le _
  counted := rfl
  warnedAt_eq := rfl
  hourly := List.isChain_nil

/-- A push drops the oldest message of a full outbox, and no other. -/
theorem push_spec (o : Outbox M) (message : M) :
    (o.queue.length ≠ maxQueued ∧ evicted o = none ∧ (o.push message).queue = o.queue ++ [message] ∧
        (o.push message).dropped = o.dropped) ∨
      ∃ oldest rest, o.queue = oldest :: rest ∧ o.queue.length = maxQueued ∧
        evicted o = some oldest ∧
        (o.push message).queue = rest ++ [message] ∧ (o.push message).dropped = o.dropped + 1 := by
  by_cases hfull : o.queue.length = maxQueued
  · right
    cases hqueue : o.queue with
    | nil =>
        rw [hqueue] at hfull
        cases hfull
    | cons oldest rest =>
        refine ⟨oldest, rest, rfl, hqueue ▸ hfull, ?_, ?_, ?_⟩
        · rw [evicted, if_pos hfull, hqueue]
          rfl
        · simp only [Outbox.push]
          rw [pushBounded_of_eq hfull, hqueue]
          rfl
        · simp only [Outbox.push]
          rw [if_pos hfull]
  · left
    refine ⟨hfull, ?_, ?_, ?_⟩
    · rw [evicted, if_neg hfull]
    · simp only [Outbox.push]
      exact pushBounded_of_ne hfull message
    · simp only [Outbox.push]
      rw [if_neg hfull]

/-- An attempt takes away the message that was sent, unless it is tried again, and no other. -/
theorem after_spec {o : Outbox M} {message : M} {rest : List M} (hqueue : o.queue = message :: rest)
    (result : SendResult) (max : ℕ) :
    (o.after result max).2.queue = (if result = .temporary then message :: rest else rest) ∧
      (o.after result max).2.dropped = o.dropped + (if result = .permanent then 1 else 0) := by
  cases result with
  | sent => exact ⟨by rw [Outbox.after, hqueue]; rfl, rfl⟩
  | temporary => exact ⟨hqueue, rfl⟩
  | permanent => exact ⟨by rw [Outbox.after, hqueue]; rfl, rfl⟩

theorem filterMap_concat {α β : Type*} (f : α → Option β) (events : List α) (event : α) :
    (events ++ [event]).filterMap f = events.filterMap f ++ (f event).toList := by
  rw [List.filterMap_append]
  cases hf : f event with
  | none => simp [hf]
  | some b => simp [hf]

/-- An event that logs nothing leaves what was logged. -/
theorem Accounted.unlogged {events : List (OutboxEvent M)} {event : OutboxEvent M}
    {s s' : Outboxed M} (h : Accounted events s) (hwarned : event.warned = none)
    (hsame : s'.warnedAt = s.warnedAt)
    (hconserved : (events.filterMap (·.pushed) ++ event.pushed.toList).Perm
      (events.filterMap (·.sent) ++ event.sent.toList ++
        (events.filterMap (·.dropped) ++ event.dropped.toList) ++ s'.outbox.queue))
    (hinOrder : (events.filterMap (·.sent) ++ event.sent.toList ++ s'.outbox.queue).Sublist
      (events.filterMap (·.pushed) ++ event.pushed.toList))
    (hbounded : s'.outbox.queue.length ≤ maxQueued)
    (hdropped : s'.outbox.dropped = s.outbox.dropped + event.dropped.toList.length) :
    Accounted (events ++ [event]) s' := by
  constructor
  · rw [filterMap_concat, filterMap_concat, filterMap_concat]
    exact hconserved
  · rw [filterMap_concat, filterMap_concat]
    exact hinOrder
  · exact hbounded
  · have hcounted := h.counted
    rw [filterMap_concat, filterMap_concat, hwarned, Option.toList_none, List.append_nil,
      List.length_append, hdropped]
    omega
  · rw [filterMap_concat, hwarned, Option.toList_none, List.append_nil, hsame]
    exact h.warnedAt_eq
  · rw [filterMap_concat, hwarned, Option.toList_none, List.append_nil]
    exact h.hourly

theorem Accounted.push {events : List (OutboxEvent M)} {s : Outboxed M} (h : Accounted events s)
    (max : ℕ) (message : M) :
    Accounted (events ++ [(s.call max (.push message)).1]) (s.call max (.push message)).2 := by
  have hle := h.bounded
  obtain ⟨hroom, hnone, hqueue, hdropped⟩
      | ⟨oldest, rest, hbefore, hfull, holdest, hqueue, hdropped⟩ :=
    push_spec s.outbox message
  · apply h.unlogged
    · rfl
    · rfl
    · simp only [Outboxed.call, hnone, hqueue, Option.toList_none,
        Option.toList_some, List.append_nil]
      rw [← List.append_assoc]
      exact h.conserved.append_right [message]
    · simp only [Outboxed.call, hqueue, Option.toList_none, Option.toList_some, List.append_nil]
      rw [← List.append_assoc]
      exact h.inOrder.append_right [message]
    · simp only [Outboxed.call, hqueue, List.length_append, List.length_singleton]
      omega
    · simp only [Outboxed.call, hnone]
      exact hdropped
  · have hconserved := h.conserved
    have hinOrder := h.inOrder
    rw [hbefore] at hconserved hinOrder hfull
    apply h.unlogged
    · rfl
    · rfl
    · simp only [Outboxed.call, holdest, hqueue, Option.toList_none,
        Option.toList_some, List.append_nil]
      have hmore := hconserved.append_right [message]
      simp only [List.append_assoc, List.cons_append, List.nil_append] at hmore ⊢
      exact hmore
    · simp only [Outboxed.call, hqueue, Option.toList_none, Option.toList_some, List.append_nil]
      rw [← List.append_assoc]
      refine List.Sublist.append_right (List.Sublist.trans ?_ hinOrder) [message]
      exact List.Sublist.append_left (List.sublist_cons_self oldest rest) _
    · rw [List.length_cons] at hfull
      simp only [Outboxed.call, hqueue, List.length_append, List.length_singleton]
      omega
    · simp only [Outboxed.call, holdest]
      exact hdropped

theorem Accounted.attempt {events : List (OutboxEvent M)} {s : Outboxed M} (h : Accounted events s)
    (max : ℕ) (result : SendResult) :
    Accounted (events ++ [(s.call max (.attempt result)).1]) (s.call max (.attempt result)).2 := by
  cases hqueue : s.outbox.queue with
  | nil =>
      have hfront : s.outbox.front = none := by rw [Outbox.front, hqueue, List.head?_nil]
      simp only [Outboxed.call, hfront]
      apply h.unlogged
      · rfl
      · rfl
      · simpa using h.conserved
      · simpa using h.inOrder
      · exact h.bounded
      · rfl
  | cons message rest =>
      have hfront : s.outbox.front = some message := by rw [Outbox.front, hqueue, List.head?_cons]
      obtain ⟨hafter, hdropped⟩ := after_spec hqueue result max
      have hconserved := h.conserved
      have hinOrder := h.inOrder
      have hbounded := h.bounded
      rw [hqueue] at hconserved hinOrder hbounded
      simp only [Outboxed.call, hfront]
      apply h.unlogged
      · rfl
      · rfl
      · rw [hafter]
        cases result with
        | temporary => simpa using hconserved
        | permanent => simpa using hconserved
        | sent =>
            have hmoved : (events.filterMap (·.sent) ++ events.filterMap
                (·.dropped) ++ message :: rest).Perm
                (events.filterMap (·.sent) ++ [message] ++ events.filterMap
                  (·.dropped) ++ rest) := by
              simp only [List.append_assoc, List.cons_append, List.nil_append]
              exact List.Perm.append_left _ List.perm_middle
            simpa using hconserved.trans hmoved
      · rw [hafter]
        cases result with
        | temporary => simpa using hinOrder
        | permanent =>
            have hless :=
              (List.Sublist.append_left (List.sublist_cons_self message rest) _).trans hinOrder
            simpa using hless
        | sent => simpa using hinOrder
      · rw [hafter]
        split_ifs
        · exact hbounded
        · exact Nat.le_of_succ_le hbounded
      · rw [hdropped]
        cases result with
        | temporary => rfl
        | permanent => rfl
        | sent => rfl

/-- The log counts what was dropped since it last did, unless that is less than an hour ago. -/
theorem logDropped_spec (o : Outbox M) (warnedAt : Option ℕ) (now : ℕ) :
    logDropped o warnedAt now = (none, warnedAt, o) ∨
      (logDropped o warnedAt now = (some o.dropped, some now, { o with dropped := 0 }) ∧
        ∀ last, warnedAt = some last → droppedWarningEvery ≤ now - last) := by
  rw [logDropped]
  simp only
  split_ifs with hquiet
  · exact .inl rfl
  · refine .inr ⟨rfl, ?_⟩
    rintro last rfl
    rw [not_or] at hquiet
    simpa using hquiet.1

theorem Accounted.log {events : List (OutboxEvent M)} {s : Outboxed M} (h : Accounted events s)
    (max : ℕ) (now : ℕ) : Accounted (events ++ [(s.call max (.log now)).1])
    (s.call max (.log now)).2 := by
  obtain hquiet | ⟨hlogged, hhour⟩ := logDropped_spec s.outbox s.warnedAt now
  · simp only [Outboxed.call, hquiet]
    apply h.unlogged
    · rfl
    · rfl
    · simpa using h.conserved
    · simpa using h.inOrder
    · exact h.bounded
    · rfl
  · simp only [Outboxed.call, hlogged]
    constructor
    · simpa [filterMap_concat] using h.conserved
    · simpa [filterMap_concat] using h.inOrder
    · exact h.bounded
    · have hcounted := h.counted
      simp only [filterMap_concat, Option.map_some, Option.toList_some, Option.toList_none,
        List.append_nil, List.map_append, List.map_cons, List.map_nil, List.sum_append,
        List.sum_cons, List.sum_nil]
      omega
    · simp only [filterMap_concat, Option.map_some, Option.toList_some, List.getLast?_concat]
    · simp only [filterMap_concat, Option.map_some, Option.toList_some]
      rw [List.isChain_append]
      refine ⟨h.hourly, List.isChain_singleton _, ?_⟩
      intro last hlast later hlater
      rw [List.head?_cons, Option.mem_some_iff] at hlater
      rw [← hlater]
      have hsince := hhour last.1 (by rw [h.warnedAt_eq, hlast]; rfl)
      have hpositive : 0 < droppedWarningEvery := by decide
      simp only
      omega

theorem Accounted.calls {events : List (OutboxEvent M)} {s : Outboxed M} (h : Accounted events s)
    (max : ℕ) (calls : List (OutboxCall M)) :
    Accounted (events ++ (s.calls max calls).1) (s.calls max calls).2 := by
  induction calls generalizing events s with
  | nil => simpa [Outboxed.calls] using h
  | cons call calls ih =>
      rw [Outboxed.calls, List.append_cons]
      cases call with
      | push message => exact ih (h.push max message)
      | attempt result => exact ih (h.attempt max result)
      | log now => exact ih (h.log max now)

/-! ### The delivery task's outbox -/

def Delivery.outboxed (d : Delivery M) : Outboxed M := ⟨d.outbox, d.warnedAt⟩

/-- What an attempt takes, and what it leaves. -/
structure Attempted (max : ℕ) (d : Delivery M) (attempt : Delivery.Attempt M) : Prop where
  front_eq : d.outbox.front = some attempt.message
  began_eq : attempt.began = d.began + d.wait
  left_began : attempt.left.began = attempt.ended
  left_arrivals : attempt.left.arrivals = d.arrivals
  left_attempts : d.attempts.length = attempt.left.attempts.length + 1
  left_wait : attempt.left.wait = (d.outbox.after attempt.result max).1
  left_log : attempt.left.outboxed =
    ⟨(logDropped (d.outbox.after attempt.result max).2 d.warnedAt attempt.ended).2.2,
      (logDropped (d.outbox.after attempt.result max).2 d.warnedAt attempt.ended).2.1⟩

theorem attempted {d : Delivery M} {max : ℕ} {attempt : Delivery.Attempt M}
    (h : d.attempt max = some attempt) : Attempted max d attempt := by
  cases hfront : d.outbox.front with
  | none => simp [Delivery.attempt, hfront] at h
  | some message =>
      cases hattempts : d.attempts with
      | nil => simp [Delivery.attempt, hattempts] at h
      | cons next attempts =>
          simp only [Delivery.attempt, hfront, hattempts, Option.some.injEq] at h
          rw [← h]
          exact ⟨hfront, rfl, rfl, rfl, congrArg List.length hattempts, rfl, rfl⟩

/-! ### Every report -/

/-- Over any calls, each message is exactly one of sent, dropped and queued; messages are sent in
order; a send's result removes the message that was sent and a full outbox its oldest; and the
counts logged, at least an hour apart, are of the messages dropped. -/
theorem outbox_accounts (max : ℕ) (calls : List (OutboxCall M)) :
    let events := (({} : Outboxed M).calls max calls).1
    let s := (({} : Outboxed M).calls max calls).2
    Accounted events s ∧
      ((events.filterMap (·.pushed)).Nodup →
        (events.filterMap (·.sent) ++ events.filterMap (·.dropped) ++ s.outbox.queue).Nodup) ∧
      (∀ message rest result, s.outbox.queue = message :: rest →
        (s.call max (.attempt result)).2.outbox.queue =
          (if result = .temporary then message :: rest else rest) ∧
          (s.call max (.attempt result)).1.sent = (if result = .sent then some message else none) ∧
          (s.call max (.attempt result)).1.dropped =
            (if result = .permanent then some message else none)) ∧
      ∀ message,
        ((s.call max (.push message)).2.outbox.queue = s.outbox.queue ++ [message] ∧
            (s.call max (.push message)).1.dropped = none) ∨
          ∃ oldest rest, s.outbox.queue = oldest :: rest ∧ s.outbox.queue.length = maxQueued ∧
            (s.call max (.push message)).2.outbox.queue = rest ++ [message] ∧
            (s.call max (.push message)).1.dropped = some oldest := by
  have h : Accounted (({} : Outboxed M).calls max calls).1 (({} : Outboxed M).calls max calls).2 :=
    accounted_new.calls max calls
  refine ⟨h, h.conserved.nodup_iff.mp, ?_, ?_⟩
  · intro message rest result hqueue
    have hfront : (({} : Outboxed M).calls max calls).2.outbox.front = some message := by
      rw [Outbox.front, hqueue, List.head?_cons]
    simp only [Outboxed.call, hfront, and_true]
    exact (after_spec hqueue result max).1
  · intro message
    obtain ⟨-, hnone, hqueue, -⟩ | ⟨oldest, rest, hbefore, hfull, holdest, hqueue, -⟩ :=
      push_spec (({} : Outboxed M).calls max calls).2.outbox message
    · exact .inl ⟨hqueue, hnone⟩
    · exact .inr ⟨oldest, rest, hbefore, hfull, hqueue, holdest⟩

end MonitoringAgent.Agent

import MonitoringAgent.Library.Trace
import MonitoringAgent.Verification.Hub.PushHub

/-! # Push presence follows the connection that delivers

Which connection's end marks a system offline, and what a push system's status says, over every
order of the connections' steps and the sweep's. -/

namespace MonitoringAgent.Hub

open MonitoringAgent.Library

/-! ### Histories -/

/-- The system and the connection an event is about. -/
def PushEvent.about : PushEvent → Option (SystemId × ℕ)
  | .accepted system number _ | .claimed system number | .stored system number
      | .ended system number _ _ =>
      some (system, number)
  | .swept _ _ => none

/-- The connection that takes a system's currency by an event: it claims, or was accepted as
current. -/
def PushEvent.taker (system : SystemId) : PushEvent → Option ℕ
  | .accepted s number current => if s = system ∧ current = true then some number else none
  | .claimed s number => if s = system then some number else none
  | _ => none

/-- The connection that took a system's currency last. -/
def holder (system : SystemId) (log : List PushEvent) : Option ℕ :=
  (log.filterMap (PushEvent.taker system)).getLast?

/-- Whether an event is a connection's acceptance. -/
def PushEvent.isAccepted : PushEvent → Bool
  | .accepted _ _ _ => true
  | _ => false

/-- A snapshot of the connection was stored while it had claimed last, and none has claimed since
but it. -/
def Delivers (system : SystemId) (number : ℕ) (log : List PushEvent) : Prop :=
  ∃ before after, log = before ++ .stored system number :: after ∧
    holder system before = some number ∧
    ∀ e ∈ after, ∀ other, e.taker system = some other → other = number

/-- The connections of a system deliver one at a time: once one has claimed, no older one claims or
stores. -/
def InTurn (system : SystemId) (log : List PushEvent) : Prop :=
  Throughout (fun past e => ∀ number, e = .claimed system number ∨ e = .stored system number →
    ∀ other, .claimed system other ∈ past → other ≤ number) log

/-- The connection that claimed last ended and marked its system offline, and none has claimed
since. -/
def Left (system : SystemId) (log : List PushEvent) : Prop :=
  ∃ before number after, log = before ++ .ended system number .current false :: after ∧
    .claimed system number ∈ before ∧ ∀ other, .claimed system other ∉ after

theorem holder_append (system : SystemId) (log : List PushEvent) (e : PushEvent) :
    holder system (log ++ [e]) = (e.taker system).or (holder system log) := by
  rw [holder, List.filterMap_append, List.getLast?_append, holder]
  cases htaker : e.taker system with
  | none => simp [htaker]
  | some number => simp [htaker]

theorem about_of_taker {system : SystemId} {e : PushEvent} {number : ℕ}
    (h : e.taker system = some number) : e.about = some (system, number) := by
  cases e with
  | accepted s n current =>
      rw [PushEvent.taker, Option.ite_none_right_eq_some] at h
      obtain ⟨⟨rfl, -⟩, h⟩ := h
      rw [PushEvent.about, Option.some.inj h]
  | claimed s n =>
      rw [PushEvent.taker, Option.ite_none_right_eq_some] at h
      obtain ⟨rfl, h⟩ := h
      rw [PushEvent.about, Option.some.inj h]
  | _ => cases h

theorem about_of_holder {system : SystemId} {log : List PushEvent} {number : ℕ}
    (h : holder system log = some number) :
    ∃ e ∈ log, e.about = some (system, number) := by
  obtain ⟨e, he, htaker⟩ := List.mem_filterMap.mp (List.mem_of_getLast? h)
  exact ⟨e, he, about_of_taker htaker⟩

theorem Delivers.holder {system : SystemId} {number : ℕ} {log : List PushEvent}
    (hd : Delivers system number log) : holder system log = some number := by
  obtain ⟨before, after, rfl, hholder, hafter⟩ := hd
  induction after using List.reverseRecOn with
  | nil => exact (holder_append system before _).trans hholder
  | append_singleton after e ih =>
      have ih := ih fun event he => hafter event (List.mem_append_left _ he)
      rw [← List.cons_append, ← List.append_assoc, holder_append, ih]
      cases htaker : e.taker system with
      | none => rfl
      | some other =>
          rw [hafter e (by simp) other htaker]
          rfl

/-- What a delivering connection's log is with one more event: it delivered before, or just stored.
-/
theorem Delivers.cases {system : SystemId} {number : ℕ} {log : List PushEvent} {event : PushEvent}
    (hd : Delivers system number (log ++ [event])) :
    event = .stored system number ∨ Delivers system number log := by
  obtain ⟨before, after, hsplit, hholder, hafter⟩ := hd
  obtain ⟨-, rfl, -⟩ | ⟨rest, rfl, rfl⟩ := eq_concat_cases hsplit
  · exact .inl rfl
  · exact .inr ⟨before, rest, rfl, hholder, fun e he => hafter e (List.mem_append_left _ he)⟩

theorem holder_append_list (system : SystemId) (log more : List PushEvent) :
    holder system (log ++ more) = (holder system more).or (holder system log) := by
  rw [holder, List.filterMap_append, List.getLast?_append, holder, holder]

/-- What a left system's log is with one more event: the end itself, or it was left before and
nothing has claimed. -/
theorem Left.cases {system : SystemId} {log : List PushEvent} {event : PushEvent}
    (hl : Left system (log ++ [event])) :
    (∃ number, event = .ended system number .current false) ∨
      Left system log ∧ ∀ other, event ≠ .claimed system other := by
  obtain ⟨before, number, after, hsplit, hclaimed, hafter⟩ := hl
  obtain ⟨-, rfl, -⟩ | ⟨rest, rfl, rfl⟩ := eq_concat_cases hsplit
  · exact .inl ⟨number, rfl⟩
  · refine .inr ⟨⟨before, number, rest, rfl, hclaimed,
      fun other h => hafter other (List.mem_append_left _ h)⟩, ?_⟩
    rintro other rfl
    exact hafter other (by simp)

namespace PushHub

variable {h h' : PushHub} {e : Option PushEvent} {log : List PushEvent} {system : SystemId}
  {number : ℕ} {current fails : Bool} {ending : Ending}

theorem run_append (h : PushHub) (steps : List PushStep) (s : PushStep) :
    h.run (steps ++ [s]) = ((h.run steps).1 ++ ((h.run steps).2.step s).1.toList,
      ((h.run steps).2.step s).2) := by
  induction steps generalizing h with
  | nil => simp [run]
  | cons first steps ih => simp [run, ih]

/-! ### Numbers and tasks -/

/-- A task after a step: one of before, or the one just accepted. -/
theorem Stepped.task (hstep : Stepped h e h') {task : PushTask}
    (htask : h'.tasks.get? number = some task) :
    (∃ earlier, h.tasks.get? number = some earlier ∧ task.systemId = earlier.systemId ∧
      (task.running = true → earlier.running = true) ∧
      (task.storing = true → earlier.storing = true ∨ e = some (.claimed task.systemId number))) ∨
      number = h.view.next ∧ task.storing = false ∧
      ∃ current, e = some (.accepted task.systemId number current) := by
  have hcalm : Calms h.tasks h'.tasks → ∃ earlier, h.tasks.get? number = some earlier ∧
      task.systemId = earlier.systemId ∧ (task.running = true → earlier.running = true) ∧
      (task.storing = true → earlier.storing = true ∨
        e = some (.claimed task.systemId number)) := by
    intro hcalms
    obtain ⟨earlier, hearlier, hsystem, hrunning, hstoring⟩ := hcalms number task htask
    exact ⟨earlier, hearlier, hsystem, hrunning, fun h => .inl (hstoring h)⟩
  cases hstep with
  | quiet _ htasks => exact .inl (hcalm htasks)
  | evicted _ _ _ htasks => exact .inl (hcalm (htasks ▸ .refl _))
  | accepted system current _ _ _ htasks =>
      rw [htasks, Table.get?_insert] at htask
      split_ifs at htask with hn
      · obtain rfl := Option.some.inj htask
        exact .inr ⟨hn.symm, rfl, current, hn ▸ rfl⟩
      · exact .inl ⟨task, htask, rfl, id, fun h => .inl h⟩
  | claimed n claimer _ hclaimer _ htasks =>
      rw [htasks, Table.get?_insert] at htask
      split_ifs at htask with hn
      · obtain rfl := Option.some.inj htask
        exact .inl ⟨claimer, hn ▸ hclaimer, rfl, id, fun _ => .inr (hn ▸ rfl)⟩
      · exact .inl ⟨task, htask, rfl, id, fun h => .inl h⟩
  | stored n storer hstorer _ _ htasks =>
      exact .inl (hcalm (htasks ▸ calms_insert hstorer rfl id fun h => by cases h))
  | endedCurrent _ _ _ _ _ _ _ _ _ htasks => exact .inl (hcalm (htasks ▸ calms_erase _ _))
  | endedOther _ _ _ _ _ _ _ _ _ htasks => exact .inl (hcalm (htasks ▸ calms_erase _ _))
  | sweptLeave _ _ _ _ _ htasks => exact .inl (hcalm (htasks ▸ .refl _))
  | sweptMark _ _ _ _ _ _ _ _ htasks => exact .inl (hcalm (htasks ▸ .refl _))

/-- What a step's event is about: a task of before, or the connection just accepted. -/
theorem Stepped.about (hstep : Stepped h e h') {event : PushEvent} (hevent : e = some event)
    {system : SystemId} {number : ℕ} (habout : event.about = some (system, number)) :
    (∃ task, h.tasks.get? number = some task ∧ task.systemId = system) ∨
      number = h.view.next ∧ h'.tasks.get? number = some ⟨system, true, false⟩ ∧
        ∃ current, event = .accepted system number current := by
  subst hevent
  cases hstep with
  | accepted id current _ _ _ htasks =>
      cases habout
      exact .inr ⟨rfl, by rw [htasks, Table.get?_insert_self], current, rfl⟩
  | claimed n claimer _ hclaimer _ _ =>
      cases habout
      exact .inl ⟨claimer, hclaimer, rfl⟩
  | stored n storer hstorer _ _ _ =>
      cases habout
      exact .inl ⟨storer, hstorer, rfl⟩
  | endedCurrent n task _ _ htask _ _ _ _ _ =>
      cases habout
      exact .inl ⟨task, htask, rfl⟩
  | endedOther n task _ _ htask _ _ _ _ _ =>
      cases habout
      exact .inl ⟨task, htask, rfl⟩
  | sweptLeave _ _ _ _ _ _ => cases habout
  | sweptMark _ _ _ _ _ _ _ _ _ => cases habout

theorem Stepped.next (hstep : Stepped h e h') :
    h'.view.next = if e.any PushEvent.isAccepted then (h.view.next + 1) % 2 ^ 64
      else h.view.next := by
  cases hstep with
  | accepted _ _ _ hview _ _ =>
      rw [hview]
      rfl
  | quiet hview _ | evicted _ _ hview _ | claimed _ _ _ _ hview _ | stored _ _ _ _ hview _
  | endedCurrent _ _ _ _ _ _ _ _ hview _ | endedOther _ _ _ _ _ _ _ _ hview _
      | sweptLeave _ _ _ _ hview _
  | sweptMark _ _ _ _ _ _ _ hview _ =>
      rw [hview]
      rfl

/-- The connections' numbers: each new one's is fresh, and tells its system. -/
structure Numbered (log : List PushEvent) (h : PushHub) : Prop where
  next_eq : h.view.next = log.countP PushEvent.isAccepted
  tasks_lt : ∀ number task, h.tasks.get? number = some task → number < h.view.next
  log_lt : ∀ e ∈ log, ∀ system number, e.about = some (system, number) → number < h.view.next
  owner : ∀ e ∈ log, ∀ system number task, e.about = some (system, number) →
    h.tasks.get? number = some task → task.systemId = system
  storing : ∀ number task, h.tasks.get? number = some task → task.storing = true →
    .claimed task.systemId number ∈ log

theorem Numbered.step (hn : Numbered log h) (hstep : Stepped h e h')
    (hfew : (log ++ e.toList).countP PushEvent.isAccepted < 2 ^ 64) :
    Numbered (log ++ e.toList) h' := by
  have hcount : (log ++ e.toList).countP PushEvent.isAccepted =
      h.view.next + if e.any PushEvent.isAccepted = true then 1 else 0 := by
    rw [List.countP_append, hn.next_eq]
    cases e with
    | none => rfl
    | some event => simp [List.countP_cons]
  have hnext : h'.view.next = (log ++ e.toList).countP PushEvent.isAccepted := by
    rw [hcount, hstep.next]
    rw [hcount] at hfew
    split_ifs at hfew ⊢
    · exact Nat.mod_eq_of_lt hfew
    · rfl
  have hle : h.view.next ≤ h'.view.next := by
    rw [hnext, hcount]
    exact Nat.le_add_right _ _
  have haccepted : ∀ system number current, e = some (.accepted system number current) →
      h.view.next < h'.view.next := by
    rintro system number current rfl
    rw [hnext, hcount]
    exact Nat.lt_succ_self _
  refine ⟨hnext, ?_, ?_, ?_, ?_⟩
  · intro number task htask
    obtain ⟨earlier, hearlier, -⟩ | ⟨rfl, -, current, hevent⟩ := hstep.task htask
    · exact (hn.tasks_lt number earlier hearlier).trans_le hle
    · exact haccepted _ _ current hevent
  · intro event hmem system number habout
    rw [List.mem_append, Option.mem_toList] at hmem
    obtain hmem | hevent := hmem
    · exact (hn.log_lt event hmem system number habout).trans_le hle
    · obtain ⟨task, htask, -⟩ | ⟨rfl, -, current, rfl⟩ := hstep.about hevent habout
      · exact (hn.tasks_lt number task htask).trans_le hle
      · exact haccepted _ _ current hevent
  · intro event hmem system number task habout htask
    rw [List.mem_append, Option.mem_toList] at hmem
    obtain hmem | hevent := hmem
    · obtain ⟨earlier, hearlier, hsystem, -⟩ | ⟨rfl, -⟩ := hstep.task htask
      · rw [hsystem]
        exact hn.owner event hmem system number earlier habout hearlier
      · exact absurd (hn.log_lt event hmem system _ habout) (lt_irrefl _)
    · obtain ⟨earlier, hearlier, rfl⟩ | ⟨-, hnew, -⟩ := hstep.about hevent habout
      · obtain ⟨found, hfound, hsystem, -⟩ | ⟨rfl, -⟩ := hstep.task htask
        · rw [hsystem, Option.some.inj (hfound.symm.trans hearlier)]
        · exact absurd (hn.tasks_lt _ earlier hearlier) (lt_irrefl _)
      · rw [Option.some.inj (htask.symm.trans hnew)]
  · intro number task htask hstoring
    rw [List.mem_append, Option.mem_toList]
    obtain ⟨earlier, hearlier, hsystem, -, hbefore⟩ | ⟨-, hnot, -⟩ := hstep.task htask
    · obtain hbefore | hclaimed := hbefore hstoring
      · rw [hsystem]
        exact .inl (hn.storing number earlier hearlier hbefore)
      · exact .inr hclaimed
    · rw [hnot] at hstoring
      cases hstoring

/-! ### Who is current -/

/-- The entries are those of the connections that took currency last, while they run. -/
structure Present (log : List PushEvent) (h : PushHub) : Prop where
  numbered : Numbered log h
  entry : ∀ system current, h.view.entry system = some current →
    holder system log = some current.number ∧
    (current.claimed = true ↔ .claimed system current.number ∈ log)
  held : ∀ system number task, holder system log = some number → h.tasks.get? number = some task →
    task.running = true → ∃ claimed, h.view.entry system = some ⟨number, claimed⟩
  ending : ∀ system, h.ending = some system → ∀ number, holder system log = some number →
    h.tasks.get? number = none

/-- A step that takes no currency keeps the entries' meaning when it only removes those of
connections that don't run. -/
theorem Present.keep (hp : Present log h) {log' : List PushEvent} (hnumbered : Numbered log' h')
    (hholder : ∀ system, holder system log' = holder system log)
    (hclaimed : ∀ system number, .claimed system number ∈ log' ↔ .claimed system number ∈ log)
    (htasks : Calms h.tasks h'.tasks)
    (hentry : ∀ system current, h'.view.entry system = some current →
      h.view.entry system = some current)
    (hkept : ∀ system number task claimed, h'.tasks.get? number = some task → task.running = true →
      h.view.entry system = some ⟨number, claimed⟩ → h'.view.entry system = some ⟨number, claimed⟩)
    (hending : ∀ system, h'.ending = some system → h.ending = some system ∨
      ∀ number, holder system log = some number → h'.tasks.get? number = none) : Present
        log' h' where
  numbered := hnumbered
  entry system current hcurrent := by
    rw [hholder, hclaimed]
    exact hp.entry system current (hentry system current hcurrent)
  held system number task hnumber htask hrunning := by
    rw [hholder] at hnumber
    obtain ⟨earlier, hearlier, -, hran, -⟩ := htasks number task htask
    obtain ⟨claimed, hcurrent⟩ := hp.held system number earlier hnumber hearlier (hran hrunning)
    exact ⟨claimed, hkept system number task claimed htask hrunning hcurrent⟩
  ending system hsystem number hnumber := by
    rw [hholder] at hnumber
    obtain hbefore | hgone := hending system hsystem
    · have hnone := hp.ending system hbefore number hnumber
      rw [Option.eq_none_iff_forall_ne_some]
      intro task htask
      obtain ⟨earlier, hearlier, -⟩ := htasks number task htask
      rw [hnone] at hearlier
      cases hearlier
    · exact hgone number hnumber

/-- The entries that a sweep's question forgets are of connections that don't run. -/
theorem Forgets.kept {system : SystemId} {entry : SystemId → Option Current}
    (hforgets : h.Forgets system entry) :
    (∀ s current, entry s = some current → h.view.entry s = some current) ∧
      ∀ s number task claimed, h.tasks.get? number = some task → task.running = true →
        h.view.entry s = some ⟨number, claimed⟩ → entry s = some ⟨number, claimed⟩ := by
  obtain rfl | ⟨rfl, hgone⟩ := hforgets
  · exact ⟨fun _ _ h => h, fun _ _ _ _ _ _ h => h⟩
  · refine ⟨fun s current hcurrent => ?_, fun s number task claimed htask hrunning hcurrent => ?_⟩
    · rw [Function.update_apply] at hcurrent
      split_ifs at hcurrent
      exact hcurrent
    · rw [Function.update_apply, if_neg]
      · exact hcurrent
      · rintro rfl
        have hnot := hgone _ hcurrent
        rw [live, htask, Option.any_some, hrunning] at hnot
        cases hnot

theorem Present.accepted (hp : Present log h) {id : SystemId} {current : Bool}
    (hnumbered : Numbered (log ++ [.accepted id h.view.next current]) h') (hfree : h.ending = none)
    (hview : h'.view = { h.view with
      next := (h.view.next + 1) % 2 ^ 64
      entry := if ((h.view.entry id).any fun e => h.live e.number) = true then h.view.entry
        else Function.update h.view.entry id (some ⟨h.view.next, false⟩)
      status := Function.update h.view.status id (some ((h.view.status id).getD .unknown)) })
    (hcurrent : current = (h'.view.entry id).any (·.number = h.view.next))
    (htasks : h'.tasks = h.tasks.insert h.view.next ⟨id, true, false⟩) :
    Present (log ++ [.accepted id h.view.next current]) h' := by
  have hentry := congrArg View.entry hview
  have hnone := congrArg View.ending hview
  -- The new connection's number is in no event of before.
  have hfresh : ∀ s, holder s log ≠ some h.view.next := by
    intro s hs
    obtain ⟨event, hevent, habout⟩ := about_of_holder hs
    exact absurd (hp.numbered.log_lt event hevent s _ habout) (lt_irrefl _)
  have hclaims : ∀ s number, .claimed s number ∈ log ++ [.accepted id h.view.next current] ↔
      .claimed s number ∈ log := fun s number => by simp
  have hunclaimed : ∀ s, .claimed s h.view.next ∉ log := fun s hmem =>
    absurd (hp.numbered.log_lt _ hmem s h.view.next rfl) (lt_irrefl _)
  have holdTask : ∀ number task, number ≠ h.view.next → h'.tasks.get? number = some task →
      h.tasks.get? number = some task := by
    intro number task hne htask
    rwa [htasks, Table.get?_insert_of_ne _ _ (Ne.symm hne)] at htask
  by_cases htaken : ((h.view.entry id).any fun e => h.live e.number) = true
  · dsimp only at hentry
    rw [if_pos htaken] at hentry
    have hnot : current = false := by
      rw [hcurrent, hentry, Bool.eq_false_iff, ne_eq, Option.any_eq_true]
      rintro ⟨found, hfound, hnumber⟩
      exact hfresh id ((hp.entry id found hfound).1.trans
        (congrArg some (of_decide_eq_true hnumber)))
    have hholder : ∀ s, holder s (log ++ [.accepted id h.view.next current]) = holder s log := by
      intro s
      rw [holder_append, PushEvent.taker, if_neg (by simp [hnot]), Option.none_or]
    refine ⟨hnumbered, ?_, ?_, fun s hs => ?_⟩
    · intro s found hfound
      rw [hholder, hclaims]
      exact hp.entry s found (hentry ▸ hfound)
    · intro s number task hnumber htask hrunning
      rw [hholder] at hnumber
      rw [hentry]
      have hne : number ≠ h.view.next := fun heq => hfresh s (heq ▸ hnumber)
      exact hp.held s number task hnumber (holdTask number task hne htask) hrunning
    · cases (hnone.trans hfree).symm.trans hs
  · dsimp only at hentry
    rw [if_neg htaken] at hentry
    have htakes : current = true := by
      rw [hcurrent, hentry, Function.update_self]
      simp
    have hholder : ∀ s, holder s (log ++ [.accepted id h.view.next current]) =
        if id = s then some h.view.next else holder s log := by
      intro s
      rw [holder_append, PushEvent.taker, htakes]
      by_cases hs : id = s
      · simp [hs]
      · simp [hs]
    refine ⟨hnumbered, ?_, ?_, fun s hs => ?_⟩
    · intro s found hfound
      rw [hentry, Function.update_apply] at hfound
      rw [hholder, hclaims]
      by_cases hs : s = id
      · rw [if_pos hs] at hfound
        obtain rfl := Option.some.inj hfound
        rw [if_pos hs.symm]
        exact ⟨rfl, fun hclaim => (by cases hclaim), fun hmem => absurd hmem (hunclaimed s)⟩
      · rw [if_neg hs] at hfound
        rw [if_neg (Ne.symm hs)]
        exact hp.entry s found hfound
    · intro s number task hnumber htask hrunning
      rw [hholder] at hnumber
      rw [hentry, Function.update_apply]
      by_cases hs : s = id
      · rw [if_pos hs.symm] at hnumber
        rw [if_pos hs]
        exact ⟨false, by rw [Option.some.inj hnumber]⟩
      · rw [if_neg (Ne.symm hs)] at hnumber
        rw [if_neg hs]
        have hne : number ≠ h.view.next := fun heq => hfresh s (heq ▸ hnumber)
        exact hp.held s number task hnumber (holdTask number task hne htask) hrunning
    · cases (hnone.trans hfree).symm.trans hs

theorem Present.claimed (hp : Present log h) {number : ℕ} {task : PushTask}
    (hnumbered : Numbered (log ++ [.claimed task.systemId number]) h') (hfree : h.ending = none)
    (htask : h.tasks.get? number = some task)
    (hview : h'.view = { h.view
      with entry := Function.update h.view.entry task.systemId (some ⟨number, true⟩) })
    (htasks : h'.tasks = h.tasks.insert number { task with storing := true }) :
    Present (log ++ [.claimed task.systemId number]) h' := by
  have hentry := congrArg View.entry hview
  have hnone := congrArg View.ending hview
  dsimp only at hentry
  have hholder : ∀ s, holder s (log ++ [.claimed task.systemId number]) =
      if task.systemId = s then some number else holder s log := by
    intro s
    rw [holder_append, PushEvent.taker]
    split_ifs
    · rfl
    · rfl
  refine ⟨hnumbered, ?_, ?_, fun s hs => ?_⟩
  · intro s found hfound
    rw [hentry, Function.update_apply] at hfound
    rw [hholder]
    by_cases hs : s = task.systemId
    · rw [if_pos hs] at hfound
      obtain rfl := Option.some.inj hfound
      rw [if_pos hs.symm]
      exact ⟨rfl, fun _ => by simp [hs], fun _ => rfl⟩
    · rw [if_neg hs] at hfound
      rw [if_neg (Ne.symm hs)]
      obtain ⟨hlast, hclaimed⟩ := hp.entry s found hfound
      refine ⟨hlast, hclaimed.trans ?_⟩
      rw [List.mem_append, List.mem_singleton, or_iff_left]
      intro heq
      exact hs (PushEvent.claimed.inj heq).1
  · intro s other running hother hrunning hran
    rw [hholder] at hother
    rw [hentry, Function.update_apply]
    by_cases hs : s = task.systemId
    · rw [if_pos hs.symm] at hother
      rw [if_pos hs]
      exact ⟨true, by rw [Option.some.inj hother]⟩
    · rw [if_neg (Ne.symm hs)] at hother
      rw [if_neg hs]
      obtain ⟨event, hevent, habout⟩ := about_of_holder hother
      have hne : number ≠ other := by
        rintro rfl
        exact hs (hp.numbered.owner event hevent s number task habout htask).symm
      rw [htasks, Table.get?_insert_of_ne _ _ hne] at hrunning
      exact hp.held s other running hother hrunning hran
  · cases (hnone.trans hfree).symm.trans hs

theorem Present.step (hp : Present log h) (hstep : Stepped h e h')
    (hfew : (log ++ e.toList).countP PushEvent.isAccepted < 2 ^ 64) :
    Present (log ++ e.toList) h' := by
  have hnumbered := hp.numbered.step hstep hfew
  -- An event that takes nothing and claims nothing leaves the holders and the claims.
  have hquiet : ∀ event : PushEvent, (∀ system, event.taker system = none) →
      (∀ system, holder system (log ++ [event]) = holder system log) ∧
        ∀ system number, .claimed system number ∈ log ++ [event] ↔
          .claimed system number ∈ log := by
    intro event hevent
    refine ⟨fun system => ?_, fun system number => ?_⟩
    · rw [holder_append, hevent, Option.none_or]
    · rw [List.mem_append, List.mem_singleton, or_iff_left]
      rintro rfl
      have htaker := hevent system
      rw [PushEvent.taker, if_pos rfl] at htaker
      cases htaker
  have hsame : ∀ {log'}, h'.view.entry = h.view.entry →
      (∀ system, h'.ending = some system → h.ending = some system) →
      Calms h.tasks h'.tasks → Numbered log' h' →
      (∀ system, holder system log' = holder system log) →
      (∀ system number, .claimed system number ∈ log' ↔ .claimed system number ∈ log) →
      Present log' h' := by
    intro log' hentry hending htasks hnumbered hholder hclaimed
    refine hp.keep hnumbered hholder hclaimed htasks ?_ ?_ fun s hs => .inl (hending s hs)
    · exact fun s current hcurrent => congrFun hentry s ▸ hcurrent
    · exact fun s _ _ _ _ _ hcurrent => (congrFun hentry s).trans hcurrent
  cases hstep with
  | quiet hview htasks =>
      rw [Option.toList_none, List.append_nil] at hnumbered ⊢
      exact hsame (congrArg View.entry hview)
        (fun s hs => (congrArg View.ending hview).symm.trans hs) htasks
        hnumbered
        (fun _ => rfl) fun _ _ => Iff.rfl
  | evicted system hending hview htasks =>
      rw [Option.toList_none, List.append_nil] at hnumbered ⊢
      refine hsame (by rw [hview]) (fun s hs => ?_) (htasks ▸ .refl _) hnumbered
        (fun _ => rfl) fun _ _ => Iff.rfl
      cases (congrArg View.ending hview).symm.trans hs
  | accepted id current hfree hview hcurrent htasks =>
      exact hp.accepted hnumbered hfree hview hcurrent htasks
  | claimed number task hfree htask hview htasks =>
      exact hp.claimed hnumbered hfree htask hview htasks
  | stored number task htask hstoring hview htasks =>
      obtain ⟨hholder, hclaimed⟩ := hquiet (.stored task.systemId number) fun _ => rfl
      exact hsame (by rw [hview]) (fun s hs => (congrArg View.ending hview).symm.trans hs)
        (htasks ▸ calms_insert htask rfl id fun h => by cases h) hnumbered hholder hclaimed
  | endedCurrent number task fails hfree htask hrunning hdone hcurrent hview htasks =>
      obtain ⟨hholder, hclaimed⟩ := hquiet (.ended task.systemId number .current fails) fun _ => rfl
      obtain ⟨claimed, hcurrent⟩ := hcurrent
      have hentry := congrArg View.entry hview
      refine hp.keep hnumbered hholder hclaimed (htasks ▸ calms_erase _ _) ?_ ?_ ?_
      · intro s current hfound
        rw [hentry] at hfound
        dsimp only at hfound
        rw [Function.update_apply] at hfound
        split_ifs at hfound
        exact hfound
      · intro s other running claimed' hrunning hran hfound
        rw [hentry]
        dsimp only
        rw [Function.update_apply, if_neg]
        · exact hfound
        · rintro rfl
          obtain ⟨rfl, -⟩ := Current.mk.inj (Option.some.inj (hcurrent.symm.trans hfound))
          rw [htasks, Table.get?_erase, if_pos rfl] at hrunning
          cases hrunning
      · intro s hs
        obtain rfl := Option.some.inj ((congrArg View.ending hview).symm.trans hs)
        refine .inr fun other hother => ?_
        obtain rfl := Option.some.inj ((hp.entry _ _ hcurrent).1.symm.trans hother)
        rw [htasks, Table.get?_erase, if_pos rfl]
  | endedOther number task fails hfree htask hrunning hdone hother hview htasks =>
      obtain ⟨hholder, hclaimed⟩ := hquiet (.ended task.systemId number .notCurrent fails)
        fun _ => rfl
      exact hsame (congrArg View.entry hview)
        (fun s hs => (congrArg View.ending hview).symm.trans hs)
        (htasks ▸ calms_erase _ _) hnumbered hholder hclaimed
  | sweptLeave system hfree entry hforgets hview htasks =>
      obtain ⟨hholder, hclaimed⟩ := hquiet (.swept system .leave) fun _ => rfl
      obtain ⟨hbefore, hkept⟩ := hforgets.kept
      have hentry : h'.view.entry = entry := congrArg View.entry hview
      refine hp.keep hnumbered hholder hclaimed (htasks ▸ .refl _) ?_ ?_ fun s hs => ?_
      · exact hentry ▸ hbefore
      · rw [hentry, htasks]
        exact hkept
      · exact .inl ((congrArg View.ending hview).symm.trans hs)
  | sweptMark system reason fails hfree hunclaimed entry hforgets hview htasks =>
      obtain ⟨hholder, hclaimed⟩ := hquiet (.swept system (.markOffline reason)) fun _ => rfl
      obtain ⟨hbefore, hkept⟩ := hforgets.kept
      have hentry : h'.view.entry = entry := congrArg View.entry hview
      refine hp.keep hnumbered hholder hclaimed (htasks ▸ .refl _) ?_ ?_ fun s hs => ?_
      · exact hentry ▸ hbefore
      · rw [hentry, htasks]
        exact hkept
      · exact .inl ((congrArg View.ending hview).symm.trans hs)

/-! ### Ends and acceptances -/

theorem Present.start (db : Database) : Present [] (PushHub.start db) := by
  have htasks : ∀ number task, (PushHub.start db).tasks.get? number ≠ some task :=
    fun _ _ h => by cases h
  refine ⟨⟨rfl, ?_, ?_, ?_, ?_⟩, ?_, ?_, ?_⟩
  · exact fun number task h => absurd h (htasks number task)
  · exact fun e he => absurd he List.not_mem_nil
  · exact fun e he => absurd he List.not_mem_nil
  · exact fun number task h => absurd h (htasks number task)
  · exact fun system current h => by cases h
  · exact fun system number task _ h => absurd h (htasks number task)
  · exact fun system h => by cases h

/-- An end marks its system offline when its connection took currency last, and only then. -/
theorem Present.ended (hp : Present log h)
    (hstep : Stepped h (some (.ended system number ending fails)) h') :
    ending = .current ↔ holder system log = some number := by
  cases hstep with
  | endedCurrent _ task _ _ _ _ _ hcurrent _ _ =>
      obtain ⟨claimed, hcurrent⟩ := hcurrent
      exact iff_of_true rfl (hp.entry _ _ hcurrent).1
  | endedOther _ task _ _ htask hrunning _ hother _ _ =>
      refine iff_of_false (fun h => by cases h) fun hholder => ?_
      obtain ⟨claimed, hentry⟩ := hp.held _ _ task hholder htask hrunning
      exact hother claimed hentry

/-- A connection is accepted as current when none that took currency last still runs, and only then.
-/
theorem Present.accepted_current (hp : Present log h)
    (hstep : Stepped h (some (.accepted system number current)) h') :
    current = true ↔ ∀ other, holder system log = some other → h.live other = false := by
  cases hstep with
  | accepted _ _ _ hview hcurrent _ =>
      have hentry := congrFun (congrArg View.entry hview) system
      dsimp only at hentry
      by_cases htaken : ((h.view.entry system).any fun e => h.live e.number) = true
      · rw [if_pos htaken] at hentry
        obtain ⟨found, hfound, hlive⟩ := (Option.any_eq_true _ _).mp htaken
        have hholder := (hp.entry system found hfound).1
        refine iff_of_false ?_ fun hnone => ?_
        · rw [hcurrent, hentry, hfound, Option.any_some, decide_eq_true_eq]
          rintro hnumber
          obtain ⟨event, hevent, habout⟩ := about_of_holder hholder
          exact absurd (hp.numbered.log_lt event hevent system _ habout) (hnumber ▸ lt_irrefl _)
        · rw [hnone found.number hholder] at hlive
          cases hlive
      · rw [if_neg htaken, Function.update_self] at hentry
        refine iff_of_true (by rw [hcurrent, hentry]; simp) fun other hother => ?_
        by_contra hlive
        rw [Bool.not_eq_false] at hlive
        obtain ⟨task, htask, hrunning⟩ := (Option.any_eq_true _ _).mp hlive
        obtain ⟨claimed, hheld⟩ := hp.held system other task hother htask hrunning
        refine htaken ?_
        rw [hheld, Option.any_some]
        exact hlive

/-- An accepted connection's event says whether the entry names it. -/
theorem Stepped.accepted_entry (hstep : Stepped h (some (.accepted system number current)) h') :
    current = true ↔ ∃ claimed, h'.view.entry system = some ⟨number, claimed⟩ := by
  cases hstep with
  | accepted _ _ _ _ hcurrent _ =>
      rw [hcurrent, Option.any_eq_true]
      constructor
      · rintro ⟨⟨other, claimed⟩, hentry, hnumber⟩
        obtain rfl := of_decide_eq_true hnumber
        exact ⟨claimed, hentry⟩
      · rintro ⟨claimed, hentry⟩
        exact ⟨_, hentry, decide_eq_true rfl⟩

/-! ### The record of a run -/

/-- What a run's events say of its rows, its connections and each other. -/
structure Recorded (log : List PushEvent) (h : PushHub) : Prop where
  present : Present log h
  rows : ∀ system number current, .accepted system number current ∈ log →
    (h.view.status system).isSome = true
  accepted : ∀ number task, h.tasks.get? number = some task →
    ∃ current, .accepted task.systemId number current ∈ log
  stored : ∀ system number, .stored system number ∈ log → .claimed system number ∈ log
  gone : ∀ system number ending fails, .ended system number ending fails ∈ log →
    h.tasks.get? number = none
  fresh : Throughout (fun past e => ∀ system number current, e = .accepted system number current →
    .claimed system number ∉ past) log
  ends : Throughout (fun past e => ∀ system number fails, e = .ended system number .current fails →
    holder system past = some number) log

/-- Rows stay, and an accepted connection's system has one. -/
theorem Stepped.isSome_status (hstep : Stepped h e h') (system : SystemId) :
    ((h.view.status system).isSome = true → (h'.view.status system).isSome = true) ∧
      ∀ number current, e = some (.accepted system number current) →
        (h'.view.status system).isSome = true := by
  have hwrite : ∀ (id : SystemId) (value : Option SystemStatus),
      ((h.view.status id).isSome = true → value.isSome = true) →
        (h.view.status system).isSome = true →
        (Function.update h.view.status id value system).isSome = true := by
    intro id value hvalue hsome
    rw [Function.update_apply]
    split_ifs with hs
    · exact hvalue (hs ▸ hsome)
    · exact hsome
  have hoffline : ∀ (id : SystemId) (fails : Bool), (h.view.status system).isSome = true →
      ((if fails then h.view.status else Function.update h.view.status id
        ((h.view.status id).map fun _ => .offline))
        system).isSome = true := by
    intro id fails hsome
    cases fails with
    | true => exact hsome
    | false => exact hwrite id _ (fun h => by rwa [Option.isSome_map]) hsome
  cases hstep with
  | quiet hview _ | evicted _ _ hview _ | claimed _ _ _ _ hview _
      | endedOther _ _ _ _ _ _ _ _ hview _
  | sweptLeave _ _ _ _ hview _ =>
      refine ⟨fun hsome => ?_, fun number current h => by cases h⟩
      rw [hview]
      exact hsome
  | accepted id current _ hview _ _ =>
      refine ⟨fun hsome => ?_, fun number current heq => ?_⟩
      · rw [hview]
        exact hwrite id _ (fun _ => rfl) hsome
      · cases heq
        rw [hview]
        dsimp only
        rw [Function.update_self]
        rfl
  | stored _ task _ _ hview _ =>
      refine ⟨fun hsome => ?_, fun number current h => by cases h⟩
      rw [hview]
      exact hwrite task.systemId _ (fun _ => rfl) hsome
  | endedCurrent _ task fails _ _ _ _ _ hview _ =>
      refine ⟨fun hsome => ?_, fun number current h => by cases h⟩
      rw [hview]
      exact hoffline task.systemId fails hsome
  | sweptMark system _ fails _ _ _ _ hview _ =>
      refine ⟨fun hsome => ?_, fun number current h => by cases h⟩
      rw [hview]
      exact hoffline system fails hsome

theorem Recorded.step (hr : Recorded log h) (hstep : Stepped h e h')
    (hfew : (log ++ e.toList).countP PushEvent.isAccepted < 2 ^ 64) :
    Recorded (log ++ e.toList) h' := by
  have hp := hr.present
  refine ⟨hp.step hstep hfew, ?_, ?_, ?_, ?_, ?_, ?_⟩
  · intro system number current hmem
    obtain ⟨hkept, hnew⟩ := hstep.isSome_status system
    rw [List.mem_append, Option.mem_toList] at hmem
    obtain hmem | hevent := hmem
    · exact hkept (hr.rows system number current hmem)
    · exact hnew number current hevent
  · intro number task htask
    simp only [List.mem_append, Option.mem_toList]
    obtain ⟨earlier, hearlier, hsystem, -⟩ | ⟨-, -, current, hevent⟩ := hstep.task htask
    · obtain ⟨current, hmem⟩ := hr.accepted number earlier hearlier
      exact ⟨current, .inl (hsystem ▸ hmem)⟩
    · exact ⟨current, .inr hevent⟩
  · intro system number hmem
    rw [List.mem_append, Option.mem_toList] at hmem ⊢
    obtain hmem | rfl := hmem
    · exact .inl (hr.stored system number hmem)
    · cases hstep with
      | stored _ task htask hstoring _ _ =>
          exact .inl (hp.numbered.storing number task htask hstoring)
  · intro system number ending fails hmem
    rw [List.mem_append, Option.mem_toList] at hmem
    obtain hmem | rfl := hmem
    · rw [Option.eq_none_iff_forall_ne_some]
      intro task htask
      obtain ⟨earlier, hearlier, -⟩ | ⟨rfl, -⟩ := hstep.task htask
      · rw [hr.gone system number ending fails hmem] at hearlier
        cases hearlier
      · exact absurd (hp.numbered.log_lt _ hmem system _ rfl) (lt_irrefl _)
    · cases hstep with
      | endedCurrent _ _ _ _ _ _ _ _ _ htasks => rw [htasks, Table.get?_erase, if_pos rfl]
      | endedOther _ _ _ _ _ _ _ _ _ htasks => rw [htasks, Table.get?_erase, if_pos rfl]
  · cases e with
    | none =>
        rw [Option.toList_none, List.append_nil]
        exact hr.fresh
    | some event =>
        refine throughout_concat.mpr ⟨hr.fresh, ?_⟩
        rintro system number current rfl hmem
        cases hstep with
        | accepted => exact absurd (hp.numbered.log_lt _ hmem system _ rfl) (lt_irrefl _)
  · cases e with
    | none =>
        rw [Option.toList_none, List.append_nil]
        exact hr.ends
    | some event =>
        refine throughout_concat.mpr ⟨hr.ends, ?_⟩
        rintro system number fails rfl
        exact (hp.ended hstep).mp rfl

theorem Recorded.start (db : Database) : Recorded [] (PushHub.start db) where
  present := .start db
  rows _ _ _ h := by cases h
  accepted _ _ h := by cases h
  stored _ _ h := by cases h
  gone _ _ _ _ h := by cases h
  fresh := throughout_nil
  ends := throughout_nil

/-- A run as long as its connections' numbers don't wrap. -/
theorem Recorded.run (db : Database) (steps : List PushStep)
    (hfew : ((PushHub.start db).run steps).1.countP PushEvent.isAccepted < 2 ^ 64) :
    Recorded ((PushHub.start db).run steps).1 ((PushHub.start db).run steps).2 := by
  induction steps using List.reverseRecOn with
  | nil => exact .start db
  | append_singleton steps s ih =>
      rw [run_append] at hfew ⊢
      refine (ih ?_).step (stepped_step _ s) hfew
      rw [List.countP_append] at hfew
      exact (Nat.le_add_right _ _).trans_lt hfew

/-- The end of the connection that took currency last writes its system's status; another's writes
none. -/
theorem Recorded.ended_status (hr : Recorded log h)
    (hstep : Stepped h (some (.ended system number ending fails)) h') :
    h'.view.status = if holder system log = some number ∧ fails = false then
      Function.update h.view.status system (some .offline) else h.view.status := by
  have hcurrent := hr.present.ended hstep
  cases hstep with
  | endedCurrent _ task _ _ htask _ _ _ hview _ =>
      obtain ⟨current, haccepted⟩ := hr.accepted number task htask
      obtain ⟨status, hstatus⟩ := Option.isSome_iff_exists.mp (hr.rows _ _ _ haccepted)
      have hholder := hcurrent.mp rfl
      rw [hview]
      cases fails with
      | true => simp
      | false => simp [hholder, hstatus]
  | endedOther _ task _ _ _ _ _ _ hview _ =>
      have hnot : ¬ holder task.systemId log = some number := fun h => by cases hcurrent.mpr h
      rw [hview, if_neg fun h => hnot h.1]

/-- The sweep keeps the status of a system whose connection took currency last, claimed and runs. -/
theorem Present.swept_status (hp : Present log h) {other : SystemId} {sweep : Sweep}
    (hstep : Stepped h (some (.swept other sweep)) h') (hholder : holder system log = some number)
    (hclaimed : .claimed system number ∈ log) (hlive : h.live number = true) :
    h'.view.status system = h.view.status system := by
  obtain ⟨task, htask, hrunning⟩ := (Option.any_eq_true _ _).mp hlive
  obtain ⟨claimed, hentry⟩ := hp.held system number task hholder htask hrunning
  obtain rfl := (hp.entry system _ hentry).2.mpr hclaimed
  cases hstep with
  | sweptLeave _ _ _ _ hview _ => rw [hview]
  | sweptMark _ _ fails _ hunclaimed _ _ hview _ =>
      have hne : system ≠ other := by
        rintro rfl
        rw [hunclaimed number hentry] at hlive
        cases hlive
      rw [hview]
      cases fails with
      | true => rfl
      | false => exact Function.update_of_ne hne _ _

/-- At every point of a run: a connection's end sets its system's status to offline if it took
currency last and the write doesn't fail, and no status otherwise; an accepted connection is current
exactly when none that took currency last still runs; and the sweep keeps the status of every system
whose last taker of currency has claimed and runs. -/
theorem run_currency (db : Database) (steps : List PushStep) (s : PushStep)
    (hfew : ((start db).run steps).1.countP PushEvent.isAccepted < 2 ^ 64) :
    let log := ((start db).run steps).1
    let h := ((start db).run steps).2
    let after := (h.step s).2
    (∀ system number ending fails, (h.step s).1 = some (.ended system number ending fails) →
      (ending = .current ↔ holder system log = some number) ∧
        after.view.status = if holder system log = some number ∧ fails = false then
          Function.update h.view.status system (some .offline) else h.view.status) ∧
    (∀ system number current, (h.step s).1 = some (.accepted system number current) →
      (current = true ↔ ∀ other, holder system log = some other → h.live other = false) ∧
        (current = true ↔ ∃ claimed, after.view.entry system = some ⟨number, claimed⟩)) ∧
    ∀ other sweep, (h.step s).1 = some (.swept other sweep) →
      ∀ system number, holder system log = some number → .claimed system number ∈ log →
        h.live number = true → after.view.status system = h.view.status system := by
  have hr := Recorded.run db steps hfew
  have hstep := stepped_step ((start db).run steps).2 s
  refine ⟨fun system number ending fails he => ?_, fun system number current he => ?_,
    fun other sweep he => ?_⟩
  · rw [he] at hstep
    exact ⟨hr.present.ended hstep, hr.ended_status hstep⟩
  · rw [he] at hstep
    exact ⟨hr.present.accepted_current hstep, hstep.accepted_entry⟩
  · rw [he] at hstep
    exact fun system number => hr.present.swept_status hstep

def noPoints : Snapshot := ⟨[], by simp⟩

theorem firstSecond_inRange : 0 < 2 ^ 63 := by decide

def firstSecond : SnapshotTime := ⟨0, firstSecond_inRange⟩

/-- A host's connection delivers, a second one delivers, and the first one ends. -/
def reconnected : List PushStep :=
  [.handshake "host", .claim 0, .store 0 noPoints firstSecond none false, .handshake "host",
    .claim 1, .store 1 noPoints firstSecond none false, .end 0 false]

theorem run_currency_reconnected :
    let log := ((start .new).run reconnected).1
    let h := ((start .new).run reconnected).2
    (h.step (.end 1 false)).1 = some (.ended "host" 1 .current false) ∧ holder "host" log = some 1 ∧
      h.view.status "host" = some .online ∧
      (h.step (.end 1 false)).2.view.status "host" = some .offline ∧
      (h.step (.handshake "host")).1 = some (.accepted "host" 2 false) ∧ h.live 1 = true ∧
      ((h.step .readRegistry).2.step (.sweepRow reconnectGrace false)).2.view.status "host" =
        some .online := by
  have hend : (((start .new).run reconnected).2.step (.end 1 false)).1 =
      some (.ended "host" 1 .current false) := by
    decide +kernel
  have haccepted : (((start .new).run reconnected).2.step (.handshake "host")).1 =
      some (.accepted "host" 2 false) := by
    decide +kernel
  have honline : ((start .new).run reconnected).2.view.status "host" =
    some .online := by decide +kernel
  have hfew : ((start .new).run reconnected).1.countP PushEvent.isAccepted <
    2 ^ 64 := by decide +kernel
  obtain ⟨hcurrent, hstatus⟩ := (run_currency .new reconnected (.end 1 false) hfew).1 _ _ _ _ hend
  have hholder := hcurrent.mp rfl
  have hlive : ((start .new).run reconnected).2.live 1 = true := by
    have hnot := ((run_currency .new reconnected (.handshake "host") hfew).2.1 _ _ _ haccepted).1
    by_contra hdead
    rw [Bool.not_eq_true] at hdead
    have hfree := hnot.mpr fun other hother => by
      rwa [← Option.some.inj (hholder.symm.trans hother)]
    cases hfree
  refine ⟨hend, hholder, honline, ?_, haccepted, hlive, ?_⟩
  · rw [hstatus, if_pos ⟨hholder, rfl⟩, Function.update_self]
  · -- The pass reads the row as online and leaves it.
    have hread := run_append (start .new) reconnected .readRegistry
    have hquiet : (((start .new).run reconnected).2.step .readRegistry).1 = none := rfl
    rw [hquiet, Option.toList_none, List.append_nil] at hread
    have hswept : ((((start .new).run reconnected).2.step .readRegistry).2.step
        (.sweepRow reconnectGrace false)).1 = some (.swept "host" .leave) := by
      decide +kernel
    have hkept := (run_currency .new (reconnected ++ [.readRegistry])
      (.sweepRow reconnectGrace false)
      (by rw [hread]; exact hfew)).2.2
    rw [hread] at hkept
    exact (hkept _ _ hswept "host" 1 hholder (by decide +kernel) (by decide +kernel)).trans
      (by decide +kernel)

/-! ### One connection delivering -/

/-- A system's status and live metrics are its delivering connection's: online while it runs,
offline once it left. -/
structure Shown (system : SystemId) (log : List PushEvent) (h : PushHub) : Prop where
  online : ∀ number task, Delivers system number log → h.tasks.get? number = some task →
    task.running = true → h.view.status system = some .online ∧ h.view.metrics system = true
  offline : InTurn system log → Left system log →
    h.view.status system = some .offline ∧ (h.ending ≠ some system → h.view.metrics system = false)

/-- A delivering connection's entry, while it runs. -/
theorem Recorded.delivering (hr : Recorded log h) (hd : Delivers system number log)
    {task : PushTask} (htask : h.tasks.get? number = some task) (hrunning : task.running = true) :
    h.view.entry system = some ⟨number, true⟩ := by
  obtain ⟨claimed, hentry⟩ := hr.present.held system number task hd.holder htask hrunning
  have hstored : .stored system number ∈ log := by
    obtain ⟨before, after, rfl, -⟩ := hd
    simp
  obtain rfl := (hr.present.entry system _ hentry).2.mpr (hr.stored system number hstored)
  exact hentry

/-- A step that is no store of the system's keeps what a delivering connection shows. -/
theorem Shown.keep_online (hs : Shown system log h) (hr : Recorded log h) (hstep : Stepped h e h')
    {task : PushTask} (hd : Delivers system number log)
    (hnot : ∀ other, e ≠ some (.stored system other)) (htask : h'.tasks.get? number = some task)
    (hrunning : task.running = true) :
    h'.view.status system = some .online ∧ h'.view.metrics system = true := by
  have hlt : number < h.view.next := by
    obtain ⟨event, hevent, habout⟩ := about_of_holder hd.holder
    exact hr.present.numbered.log_lt event hevent system number habout
  obtain ⟨earlier, hearlier, -, hran, -⟩ | ⟨rfl, -⟩ := hstep.task htask
  swap
  · exact absurd hlt (lt_irrefl _)
  have hran := hran hrunning
  have hentry := hr.delivering hd hearlier hran
  obtain ⟨hstatus, hmetrics⟩ := hs.online number earlier hd hearlier hran
  cases hstep with
  | quiet hview _ | claimed _ _ _ _ hview _ | endedOther _ _ _ _ _ _ _ _ hview _
      | sweptLeave _ _ _ _ hview _ =>
      rw [hview]
      exact ⟨hstatus, hmetrics⟩
  | evicted other hending hview _ =>
      rw [hview]
      refine ⟨hstatus, (Function.update_of_ne ?_ _ _).trans hmetrics⟩
      rintro rfl
      have hnone := hr.present.ending _ hending number hd.holder
      rw [hearlier] at hnone
      cases hnone
  | accepted id current _ hview _ _ =>
      rw [hview]
      refine ⟨?_, hmetrics⟩
      dsimp only
      by_cases hid : system = id
      · rw [hid, Function.update_self, ← hid, hstatus, Option.getD_some]
      · rwa [Function.update_of_ne hid]
  | stored other storer _ _ hview _ =>
      have hne : system ≠ storer.systemId := by
        rintro rfl
        exact hnot other rfl
      rw [hview]
      dsimp only
      rw [Function.update_of_ne hne, Function.update_of_ne hne]
      exact ⟨hstatus, hmetrics⟩
  | endedCurrent other ended fails _ hended _ _ hcurrent hview htasks =>
      have hne : system ≠ ended.systemId := by
        rintro rfl
        obtain ⟨claimed, hcurrent⟩ := hcurrent
        obtain ⟨rfl, -⟩ := Current.mk.inj (Option.some.inj (hentry.symm.trans hcurrent))
        rw [htasks, Table.get?_erase, if_pos rfl] at htask
        cases htask
      rw [hview]
      refine ⟨?_, hmetrics⟩
      cases fails with
      | true => exact hstatus
      | false => exact (Function.update_of_ne hne _ _).trans hstatus
  | sweptMark other _ fails _ hunclaimed _ _ hview _ =>
      have hne : system ≠ other := by
        rintro rfl
        have hdead := hunclaimed number hentry
        rw [live, hearlier, Option.any_some, hran] at hdead
        cases hdead
      rw [hview]
      refine ⟨?_, hmetrics⟩
      cases fails with
      | true => exact hstatus
      | false => exact (Function.update_of_ne hne _ _).trans hstatus

theorem Shown.step_online (hs : Shown system log h) (hr : Recorded log h) (hstep : Stepped h e h')
    {task : PushTask} (hd : Delivers system number (log ++ e.toList))
    (htask : h'.tasks.get? number = some task) (hrunning : task.running = true) :
    h'.view.status system = some .online ∧ h'.view.metrics system = true := by
  by_cases hstored : ∃ other, e = some (.stored system other)
  · obtain ⟨other, rfl⟩ := hstored
    cases hstep with
    | stored _ _ _ _ hview _ =>
        rw [hview]
        exact ⟨Function.update_self _ _ _, Function.update_self _ _ _⟩
  · rw [not_exists] at hstored
    cases e with
    | none =>
        rw [Option.toList_none, List.append_nil] at hd
        exact hs.keep_online hr hstep hd hstored htask hrunning
    | some event =>
        obtain rfl | hd := hd.cases
        · exact absurd rfl (hstored number)
        · exact hs.keep_online hr hstep hd hstored htask hrunning

/-- Once a system is left, a store by an earlier claim is out of turn. -/
theorem Recorded.not_stored_left (hr : Recorded log h) (hl : Left system log) {task : PushTask}
    (htask : h.tasks.get? number = some task) (hstoring : task.storing = true)
    (hsystem : task.systemId = system) : ¬InTurn system (log ++ [.stored system number]) := by
  intro hturn
  have hclaim : .claimed system number ∈ log :=
    hsystem ▸ hr.present.numbered.storing number task htask hstoring
  obtain ⟨before, left, after, rfl, hleft, hafter⟩ := hl
  have hholder : holder system before = some left :=
    hr.ends before _ ⟨after, by simp⟩ system left false rfl
  have hne : number ≠ left := by
    rintro rfl
    rw [hr.gone system number .current false (by simp)] at htask
    cases htask
  have hbefore : .claimed system number ∈ before := by
    rw [List.mem_append, List.mem_cons] at hclaim
    obtain h | h | h := hclaim
    · exact h
    · cases h
    · exact absurd h (hafter number)
  obtain hlt | hlt := Nat.lt_or_gt_of_ne hne
  · -- The connection that left is the younger: its claim comes before this store.
    have hle := (throughout_concat.mp hturn).2 number (.inr rfl) left (List.mem_append_left _ hleft)
    exact absurd hle (not_le_of_gt hlt)
  · -- It is the older: it has not claimed since this one's claim, nor was it accepted since.
    obtain ⟨first, rest, rfl⟩ := List.append_of_mem hbefore
    have hlate : ∀ event, event ∈ rest → event ≠ .claimed system left := by
      rintro event hevent rfl
      obtain ⟨one, two, rfl⟩ := List.append_of_mem hevent
      have hle := hturn (first ++ .claimed system number :: one)
        (.claimed system left) ⟨_, by simp; rfl⟩ left
        (.inl rfl) number (by simp)
      exact absurd hle (not_le_of_gt hlt)
    have hearly : .claimed system left ∈ first := by
      rw [List.mem_append, List.mem_cons] at hleft
      obtain h | h | h := hleft
      · exact h
      · exact absurd (PushEvent.claimed.inj h).2.symm hne
      · exact absurd rfl (hlate _ h)
    rw [← List.singleton_append, ← List.append_assoc, holder_append_list, holder_append,
      PushEvent.taker, if_pos rfl, Option.some_or] at hholder
    obtain hrest | ⟨-, hrest⟩ := Option.or_eq_some_iff.mp hholder
    · obtain ⟨event, hevent, htaker⟩ := List.mem_filterMap.mp (List.mem_of_getLast? hrest)
      cases event with
      | accepted s n current =>
          cases about_of_taker htaker
          obtain ⟨one, two, rfl⟩ := List.append_of_mem hevent
          exact hr.fresh (first ++ .claimed system number :: one) _ ⟨_, by
            simp; rfl⟩ system left current rfl
            (List.mem_append_left _ hearly)
      | claimed s n =>
          cases about_of_taker htaker
          exact hlate _ hevent rfl
      | stored | ended | swept => cases htaker
    · exact hne (Option.some.inj hrest)

/-- A step keeps what is shown of a system that was left before it. -/
theorem Shown.keep_offline (hs : Shown system log h) (hr : Recorded log h) (hstep : Stepped h e h')
    (hleft : Left system log) (hbefore : InTurn system log)
    (hturn : InTurn system (log ++ e.toList)) :
    h'.view.status system = some .offline ∧
    (h'.ending ≠ some system → h'.view.metrics system = false) := by
  obtain ⟨hstatus, hmetrics⟩ := hs.offline hbefore hleft
  have hmark : ∀ (id : SystemId) (fails : Bool), (if fails then h.view.status
      else Function.update h.view.status id ((h.view.status id).map fun _ => .offline)) system =
        some .offline := by
    intro id fails
    cases fails with
    | true => exact hstatus
    | false =>
        by_cases hid : system = id
        · subst hid
          simp [hstatus]
        · exact (Function.update_of_ne hid _ _).trans hstatus
  cases hstep with
  | quiet hview _ | claimed _ _ _ _ hview _ | endedOther _ _ _ _ _ _ _ _ hview _
      | sweptLeave _ _ _ _ hview _ =>
      have hending : h'.ending = h.ending := congrArg View.ending hview
      rw [hending, hview]
      exact ⟨hstatus, hmetrics⟩
  | evicted other hevicted hview _ =>
      rw [hview]
      refine ⟨hstatus, fun _ => ?_⟩
      dsimp only
      by_cases hid : system = other
      · rw [hid, Function.update_self]
      · rw [Function.update_of_ne hid]
        refine hmetrics fun h => hid ?_
        exact Option.some.inj (h.symm.trans hevicted)
  | accepted id current _ hview _ _ =>
      have hending : h'.ending = h.ending := congrArg View.ending hview
      rw [hending, hview]
      refine ⟨?_, hmetrics⟩
      dsimp only
      by_cases hid : system = id
      · rw [hid, Function.update_self, ← hid, hstatus, Option.getD_some]
      · rwa [Function.update_of_ne hid]
  | stored number storer hstorer hstoring hview _ =>
      have hending : h'.ending = h.ending := congrArg View.ending hview
      have hne : system ≠ storer.systemId := by
        rintro rfl
        exact hr.not_stored_left hleft hstorer hstoring rfl hturn
      rw [hending, hview]
      dsimp only
      rw [Function.update_of_ne hne, Function.update_of_ne hne]
      exact ⟨hstatus, hmetrics⟩
  | endedCurrent _ ended fails hfree _ _ _ _ hview _ =>
      rw [hview]
      refine ⟨hmark ended.systemId fails, fun _ => hmetrics ?_⟩
      rw [hfree]
      simp
  | sweptMark other _ fails _ _ _ _ hview _ =>
      have hending : h'.ending = h.ending := congrArg View.ending hview
      rw [hending, hview]
      exact ⟨hmark other fails, hmetrics⟩

theorem Shown.step_offline (hs : Shown system log h) (hr : Recorded log h) (hstep : Stepped h e h')
    (hturn : InTurn system (log ++ e.toList)) (hl : Left system (log ++ e.toList)) :
    h'.view.status system = some .offline ∧
    (h'.ending ≠ some system → h'.view.metrics system = false) := by
  cases e with
  | none =>
      refine hs.keep_offline hr hstep ?_ ?_ hturn
      · rwa [Option.toList_none, List.append_nil] at hl
      · rwa [Option.toList_none, List.append_nil] at hturn
  | some event =>
      obtain ⟨number, rfl⟩ | ⟨hleft, -⟩ := hl.cases
      · -- The end itself: its row was inserted when its connection was accepted.
        cases hstep with
        | endedCurrent _ task _ _ htask _ _ _ hview _ =>
            have hending : h'.ending = some task.systemId := congrArg View.ending hview
            obtain ⟨current, haccepted⟩ := hr.accepted number task htask
            obtain ⟨status, hstatus⟩ := Option.isSome_iff_exists.mp (hr.rows _ _ _ haccepted)
            refine ⟨?_, fun hne => absurd hending hne⟩
            rw [hview]
            simp [hstatus]
      · exact hs.keep_offline hr hstep hleft (throughout_concat.mp hturn).1 hturn

theorem Shown.run (db : Database) (steps : List PushStep) (system : SystemId)
    (hfew : ((PushHub.start db).run steps).1.countP PushEvent.isAccepted < 2 ^ 64) :
    Shown system ((PushHub.start db).run steps).1 ((PushHub.start db).run steps).2 := by
  induction steps using List.reverseRecOn with
  | nil =>
      refine ⟨fun number task hd => ?_, fun _ hl => ?_⟩
      · cases hd.holder
      · obtain ⟨before, number, after, hsplit, -⟩ := hl
        exact absurd hsplit (by simp [PushHub.run])
  | append_singleton steps s ih =>
      rw [run_append] at hfew ⊢
      have hless : ((PushHub.start db).run steps).1.countP PushEvent.isAccepted < 2 ^ 64 := by
        rw [List.countP_append] at hfew
        exact (Nat.le_add_right _ _).trans_lt hfew
      have hr := Recorded.run db steps hless
      have hstep := stepped_step ((PushHub.start db).run steps).2 s
      refine ⟨fun number task hd htask hrunning => ?_, fun hturn hl => ?_⟩
      · exact (ih hless).step_online hr hstep hd htask hrunning
      · exact (ih hless).step_offline hr hstep hturn hl

/-- Whatever the order of the connections' steps and the sweep's: while a connection that delivers
runs, its system reads online with live metrics; and where the connections deliver one at a time,
once the one that claimed last ended, its system reads offline, its live metrics gone when the end
is over. -/
theorem run_shown (db : Database) (steps : List PushStep) (system : SystemId)
    (hfew : ((start db).run steps).1.countP PushEvent.isAccepted < 2 ^ 64) :
    let log := ((start db).run steps).1
    let h := ((start db).run steps).2
    (∀ number, Delivers system number log → h.live number = true →
      (h.app.db.systems.get? system).map SystemInfo.status = some .online ∧
        h.app.liveMetrics.contains system = true) ∧
    (InTurn system log → Left system log →
      (h.app.db.systems.get? system).map SystemInfo.status = some .offline ∧
        (h.ending ≠ some system → h.app.liveMetrics.contains system = false)) := by
  have hs := Shown.run db steps system hfew
  refine ⟨fun number hd hlive => ?_, hs.offline⟩
  obtain ⟨task, htask, hrunning⟩ := (Option.any_eq_true _ _).mp hlive
  exact hs.online number task hd htask hrunning

/-- The second one ends too. -/
def disconnected : List PushStep := reconnected ++ [.end 1 false, .evict]

theorem log_disconnected : ((start .new).run disconnected).1 =
    [] ++ [PushEvent.accepted "host" 0 true] ++ [PushEvent.claimed "host" 0] ++
      [PushEvent.stored "host" 0] ++
      [PushEvent.accepted "host" 1 false] ++ [PushEvent.claimed "host" 1] ++
        [PushEvent.stored "host" 1] ++
      [PushEvent.ended "host" 0 .notCurrent false] ++
        [PushEvent.ended "host" 1 .current false] := by
  decide +kernel

theorem run_shown_reconnected :
    let h := ((start .new).run reconnected).2
    let left := ((start .new).run disconnected).2
    ((h.app.db.systems.get? "host").map SystemInfo.status = some .online ∧
        h.app.liveMetrics.contains "host" = true) ∧
      (left.app.db.systems.get? "host").map SystemInfo.status = some .offline ∧
        left.app.liveMetrics.contains "host" = false := by
  refine ⟨?_, ?_⟩
  · have hfew : ((start .new).run reconnected).1.countP PushEvent.isAccepted <
      2 ^ 64 := by decide +kernel
    have hlive : ((start .new).run reconnected).2.live 1 = true := by decide +kernel
    refine (run_shown .new reconnected "host" hfew).1 1 ?_ hlive
    refine ⟨[.accepted "host" 0 true, .claimed "host" 0, .stored "host" 0, .accepted "host" 1 false,
      .claimed "host" 1], [.ended "host" 0 .notCurrent false], by
        decide +kernel, by decide +kernel, ?_⟩
    intro e he other htaker
    obtain rfl := List.mem_singleton.mp he
    cases htaker
  · have hturn : InTurn "host" ((start .new).run disconnected).1 := by
      rw [log_disconnected]
      simp only [InTurn, throughout_concat]
      simp [throughout_nil]
    have hleft : Left "host" ((start .new).run disconnected).1 := by
      rw [log_disconnected]
      exact ⟨_, 1, [], rfl, by decide, fun _ => List.not_mem_nil⟩
    have hfew : ((start .new).run disconnected).1.countP PushEvent.isAccepted <
      2 ^ 64 := by decide +kernel
    have hdone : ((start .new).run disconnected).2.ending ≠ some "host" := by decide +kernel
    obtain ⟨hstatus, hmetrics⟩ := (run_shown .new disconnected "host" hfew).2 hturn hleft
    exact ⟨hstatus, hmetrics hdone⟩

end PushHub

end MonitoringAgent.Hub

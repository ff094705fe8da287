import MonitoringAgent.Model.Agent.Mail

/-! # Mail batches

What the reports of a batch carry, over any sequence of its calls: each incident noted since the
report before, once. -/

namespace MonitoringAgent.Agent

open MonitoringAgent.Library

/-! ### Calls and their answers -/

/-- The alerts noted since the last report the log has, one entry each time. -/
def notedSince (log : List (BatchCall × BatchAnswer)) : List MailedAlert :=
  log.foldl (fun noted entry => match entry with
    | (.noteAlerts alerts, _) => noted ++ alerts.map MailedAlert.from
    | (_, .closed (some _)) => []
    | _ => noted) []

/-- The incident ids active on each tick. -/
def ticks (log : List (BatchCall × BatchAnswer)) : List (List String) :=
  log.filterMap fun entry => match entry with
    | (.noteAlerts alerts, _) => some (alerts.map (·.id))
    | _ => none

/-- Whether each tick was told that an incident became active. -/
def newOnes (log : List (BatchCall × BatchAnswer)) : List Bool :=
  log.filterMap fun entry => match entry with
    | (_, .noted anyNew) => some anyNew
    | _ => none

/-- The reports closed. -/
def reports (log : List (BatchCall × BatchAnswer)) : List MailReport :=
  log.filterMap fun entry => match entry with
    | (_, .closed report) => report
    | _ => none

/-- The unbroken runs of ticks at which `id` is active: whether one begins with the tick `k`. -/
def BeginsAt (ticks : List (List String)) (id : String) (k : ℕ) : Prop :=
  (∃ ids, ticks[k]? = some ids ∧ id ∈ ids) ∧ ∀ earlier, k = earlier + 1 →
    ∀ ids, ticks[earlier]? = some ids → id ∉ ids

/-- A report carries the incidents of `noted`: each once, as first noted, while they fit. -/
structure CarriesIncidents (noted : List MailedAlert) (report : MailReport) : Prop where
  distinct : (report.alerts.map (·.id)).Nodup
  atMost : report.alerts.length ≤ maxAlerts
  firsts : (firstOfEach (·.id) noted).length ≤ maxAlerts → report.alerts = firstOfEach (·.id) noted
  overflow : maxAlerts < (firstOfEach (·.id) noted).length →
    report.alerts.length = maxAlerts ∧ ∀ alert ∈ report.alerts, alert.id ∈ noted.map (·.id)

theorem foldl_noteAlert (noted : List MailedAlert) (alerts : List (ActiveAlert F32)) :
    alerts.foldl MailBatch.noteAlert noted =
      (alerts.map MailedAlert.from).foldl (noteBounded maxAlerts (·.id)) noted := by
  rw [List.foldl_map]
  rfl

/-! ### The invariant -/

/-- The batch after the calls of a log. -/
structure Batched (log : List (BatchCall × BatchAnswer)) (b : MailBatch) : Prop where
  nextSeq_eq : b.nextSeq = UInt64.ofNat ((reports log).length + 1)
  active_eq : b.active = (ticks log).getLast?.getD []
  alerts_hold : HoldsFirsts maxAlerts (·.id) (notedSince log) b.alerts
  carries : ∀ earlier call report later, log = earlier ++ (call, .closed (some report)) :: later →
    CarriesIncidents (notedSince earlier) report
  seqs_eq : (reports log).map (·.id.seq) = (List.range' 1 (reports log).length).map UInt64.ofNat
  length_eq : (newOnes log).length = (ticks log).length
  begins : ∀ k, (newOnes log)[k]? = some true ↔ ∃ id, BeginsAt (ticks log) id k

theorem batched_new (run : AgentRun) (interval : SampleInterval) :
    Batched [] (MailBatch.new run interval) where
  nextSeq_eq := rfl
  active_eq := rfl
  alerts_hold := holdsFirsts_nil
  carries earlier call report later h := by simp at h
  seqs_eq := rfl
  length_eq := rfl
  begins k := by simp [newOnes, BeginsAt, ticks]

theorem carriesIncidents {noted : List MailedAlert} {report : MailReport}
    (h : HoldsFirsts maxAlerts (·.id) noted report.alerts) : CarriesIncidents noted report where
  distinct := h.nodup
  atMost := h.length_le
  firsts := h.eq_firsts
  overflow hover := ⟨h.full hover, h.subset⟩

/-- What a log ends with. -/
theorem append_eq_append_cons {log earlier later : List (BatchCall × BatchAnswer)}
    {entry : BatchCall × BatchAnswer} {call : BatchCall} {report : MailReport}
    (h : log ++ [entry] = earlier ++ (call, .closed (some report)) :: later) :
    (log = earlier ∧ entry = (call, .closed (some report))) ∨
      ∃ later', log = earlier ++ (call, .closed (some report)) :: later' := by
  cases later using List.reverseRecOn with
  | nil =>
      obtain ⟨hlog, hentry⟩ := List.append_inj' h rfl
      exact .inl ⟨hlog, List.head_eq_of_cons_eq hentry⟩
  | append_singleton later last _ =>
      rw [← List.cons_append, ← List.append_assoc] at h
      exact .inr ⟨later, (List.append_inj' h rfl).1⟩

/-- An entry that neither notes alerts nor closes a report changes nothing the invariant speaks of.
-/
theorem Batched.quiet {log : List (BatchCall × BatchAnswer)} {b b' : MailBatch} (h : Batched log b)
    {entry : BatchCall × BatchAnswer} (hreports : reports (log ++ [entry]) = reports log)
    (hticks : ticks (log ++ [entry]) = ticks log) (hnew : newOnes (log ++ [entry]) = newOnes log)
    (hnoted : notedSince (log ++ [entry]) = notedSince log)
    (hentry : ∀ report, entry.2 ≠ .closed (some report)) (hseq : b'.nextSeq = b.nextSeq)
    (hactive : b'.active = b.active) (halerts : b'.alerts = b.alerts) :
    Batched (log ++ [entry]) b' := by
  constructor
  · rw [hseq, hreports]
    exact h.nextSeq_eq
  · rw [hactive, hticks]
    exact h.active_eq
  · rw [halerts, hnoted]
    exact h.alerts_hold
  · intro earlier call report later heq
    obtain ⟨-, hlast⟩ | ⟨later', hlog⟩ := append_eq_append_cons heq
    · exact absurd (congrArg Prod.snd hlast) (hentry report)
    · exact h.carries earlier call report later' hlog
  · rw [hreports]
    exact h.seqs_eq
  · rw [hnew, hticks]
    exact h.length_eq
  · rw [hnew, hticks]
    exact h.begins

theorem Batched.offer {log : List (BatchCall × BatchAnswer)} {b : MailBatch} (h : Batched log b)
    (sample : MailedSnapshot) (now : ℕ) :
    Batched (log ++ [(.offer sample now, .offered (b.offer sample now).1)])
      (b.offer sample now).2 := by
  have hsame : (b.offer sample now).2.nextSeq = b.nextSeq ∧
      (b.offer sample now).2.active = b.active ∧
      (b.offer sample now).2.alerts = b.alerts := by
    rw [MailBatch.offer]
    split_ifs
    · exact ⟨rfl, rfl, rfl⟩
    · exact ⟨rfl, rfl, rfl⟩
  obtain ⟨hseq, hactive, halerts⟩ := hsame
  apply h.quiet
  · simp [reports]
  · simp [ticks]
  · simp [newOnes]
  · simp [notedSince]
  · simp
  · exact hseq
  · exact hactive
  · exact halerts

/-- The runs that began so far began whatever the next tick finds. -/
theorem beginsAt_append {earlier : List (List String)} {k : ℕ} (hk : k < earlier.length)
    (ids : List String) (id : String) :
    BeginsAt (earlier ++ [ids]) id k ↔ BeginsAt earlier id k := by
  have hlast : ∀ j, j < earlier.length → (earlier ++ [ids])[j]? = earlier[j]? :=
    fun j hj => List.getElem?_append_left hj
  simp only [BeginsAt, hlast k hk]
  apply and_congr_right
  intro _
  apply forall_congr'
  intro j
  apply imp_congr_right
  intro hj
  rw [hlast j (by omega)]

/-- A run begins with the next tick when the last didn't have its incident. -/
theorem beginsAt_last (earlier : List (List String)) (ids : List String) (id : String) :
    BeginsAt (earlier ++ [ids]) id earlier.length ↔ id ∈ ids ∧ id ∉ earlier.getLast?.getD [] := by
  cases earlier using List.reverseRecOn with
  | nil => simp [BeginsAt]
  | append_singleton earlier last _ => simp [BeginsAt]

theorem Batched.noteAlerts {log : List (BatchCall × BatchAnswer)} {b : MailBatch}
    (h : Batched log b) (alerts : List (ActiveAlert F32)) :
    Batched (log ++ [(.noteAlerts alerts, .noted (b.noteAlerts alerts).1)])
      (b.noteAlerts alerts).2 := by
  have hreports : reports (log ++ [(.noteAlerts alerts, .noted (b.noteAlerts alerts).1)]) =
      reports log := by
    simp [reports]
  have hticks : ticks (log ++ [(.noteAlerts alerts, .noted (b.noteAlerts alerts).1)]) =
      ticks log ++ [alerts.map (·.id)] := by
    simp [ticks]
  have hnew : newOnes (log ++ [(.noteAlerts alerts, .noted (b.noteAlerts alerts).1)]) =
      newOnes log ++ [(b.noteAlerts alerts).1] := by
    simp [newOnes]
  have hnoted : notedSince (log ++ [(.noteAlerts alerts, .noted (b.noteAlerts alerts).1)]) =
      notedSince log ++ alerts.map MailedAlert.from := by
    simp [notedSince]
  constructor
  · rw [hreports]
    exact h.nextSeq_eq
  · rw [hticks, List.getLast?_append]
    rfl
  · rw [hnoted]
    have hnotes := h.alerts_hold.notes (by decide) (alerts.map MailedAlert.from)
    rw [← foldl_noteAlert] at hnotes
    exact hnotes
  · intro earlier call report later heq
    obtain ⟨-, hlast⟩ | ⟨later', hlog⟩ := append_eq_append_cons heq
    · cases hlast
    · exact h.carries earlier call report later' hlog
  · rw [hreports]
    exact h.seqs_eq
  · rw [hnew, hticks, List.length_append, List.length_append, h.length_eq]
    rfl
  · intro k
    rw [hnew, hticks]
    obtain hk | rfl | hk := Nat.lt_trichotomy k (ticks log).length
    · rw [List.getElem?_append_left (h.length_eq ▸ hk), h.begins k]
      exact exists_congr fun id => (beginsAt_append hk _ id).symm
    · rw [← h.length_eq, List.getElem?_concat_length, h.length_eq]
      simp only [beginsAt_last, ← h.active_eq, MailBatch.noteAlerts, Option.some.injEq,
        List.any_eq_true, List.mem_map]
      constructor
      · intro ⟨alert, hmem, hnot⟩
        exact ⟨alert.id, ⟨alert, hmem, rfl⟩, by simpa using hnot⟩
      · intro ⟨id, ⟨alert, hmem, hid⟩, hnot⟩
        exact ⟨alert, hmem, by simpa [hid] using hnot⟩
    · rw [List.getElem?_eq_none (by simp [h.length_eq]; omega)]
      constructor
      · intro hnone
        cases hnone
      · intro ⟨id, ⟨ids, hids, _⟩, _⟩
        rw [List.getElem?_eq_none (by simp; omega)] at hids
        cases hids

theorem Batched.close {log : List (BatchCall × BatchAnswer)} {b : MailBatch} (h : Batched log b)
    (interval : MailInterval) (reason : ReportReason) (createdAt : UInt64)
    (round : Option (ScrapeRound F64)) :
    Batched (log ++ [(.close interval reason createdAt round,
      .closed (b.close interval reason createdAt round).1)])
        (b.close interval reason createdAt round).2 := by
  by_cases hempty : b.samples = []
  · rw [MailBatch.close, if_pos hempty]
    apply h.quiet
    · simp [reports]
    · simp [ticks]
    · simp [newOnes]
    · simp [notedSince]
    · simp
    · rfl
    · rfl
    · rfl
  rw [MailBatch.close, if_neg hempty]
  set report : MailReport :=
    ⟨⟨b.run, b.nextSeq⟩, createdAt, interval, reason, b.samples, b.alerts, round⟩ with hreport
  have hreports :
      reports (log ++ [(.close interval reason createdAt round, .closed (some report))]) =
      reports log ++ [report] := by
    simp [reports]
  have hticks : ticks (log ++ [(.close interval reason createdAt round, .closed (some report))]) =
      ticks log := by
    simp [ticks]
  have hnew : newOnes (log ++ [(.close interval reason createdAt round, .closed (some report))]) =
      newOnes log := by
    simp [newOnes]
  have hnoted :
    notedSince (log ++ [(.close interval reason createdAt round, .closed (some report))]) = [] := by
    simp [notedSince]
  constructor
  · rw [hreports, List.length_append, List.length_singleton, UInt64.ofNat_add, ← h.nextSeq_eq]
    rfl
  · rw [hticks]
    exact h.active_eq
  · rw [hnoted]
    exact holdsFirsts_nil
  · intro earlier call report' later heq
    obtain ⟨hlog, hlast⟩ | ⟨later', hlog⟩ := append_eq_append_cons heq
    · cases hlast
      rw [← hlog]
      exact carriesIncidents h.alerts_hold
    · exact h.carries earlier call report' later' hlog
  · rw [hreports, List.map_append, h.seqs_eq, List.length_append, List.length_singleton,
      List.range'_concat, List.map_append, List.map_singleton, List.map_singleton,
      Nat.one_mul, Nat.add_comm 1]
    rw [← h.nextSeq_eq]
  · rw [hnew, hticks]
    exact h.length_eq
  · rw [hnew, hticks]
    exact h.begins

theorem Batched.call {log : List (BatchCall × BatchAnswer)} {b : MailBatch} (h : Batched log b)
    (call : BatchCall) : Batched (log ++ [(call, (b.call call).1)]) (b.call call).2 := by
  cases call with
  | offer sample now => exact h.offer sample now
  | noteAlerts alerts => exact h.noteAlerts alerts
  | close interval reason createdAt round => exact h.close interval reason createdAt round

theorem Batched.calls {log : List (BatchCall × BatchAnswer)} {b : MailBatch} (h : Batched log b)
    (calls : List BatchCall) : Batched (log ++ (b.calls calls).1) (b.calls calls).2 := by
  induction calls generalizing log b with
  | nil => simpa [MailBatch.calls] using h
  | cons call rest ih =>
      rw [MailBatch.calls]
      have hrest := ih (h.call call)
      rw [List.append_assoc] at hrest
      exact hrest

/-! ### What the reports carry -/

/-- Over any calls of a batch, every report carries the incidents noted since the one before, once
each; the reports are numbered from 1 without gap; a close without a report changes nothing; and a
tick is told of a new incident exactly when an unbroken run of ticks with an incident begins there.
-/
theorem reports_carry_incidents_once (run : AgentRun) (interval : SampleInterval)
    (calls : List BatchCall) :
    let log := ((MailBatch.new run interval).calls calls).1
    let b := ((MailBatch.new run interval).calls calls).2
    (∀ earlier call report later, log = earlier ++ (call, .closed (some report)) :: later →
        CarriesIncidents (notedSince earlier) report) ∧
      (reports log).map (·.id.seq) = (List.range' 1 (reports log).length).map UInt64.ofNat ∧
      (∀ mail reason createdAt round, (b.close mail reason createdAt round).1 = none →
        (b.close mail reason createdAt round).2 = b) ∧
      (newOnes log).length = (ticks log).length ∧
      ∀ k, (newOnes log)[k]? = some true ↔ ∃ id, BeginsAt (ticks log) id k := by
  have h := (batched_new run interval).calls calls
  refine ⟨h.carries, h.seqs_eq, ?_, h.length_eq, h.begins⟩
  intro mail reason createdAt round hnone
  rw [MailBatch.close] at hnone ⊢
  split_ifs at hnone ⊢
  rfl

end MonitoringAgent.Agent

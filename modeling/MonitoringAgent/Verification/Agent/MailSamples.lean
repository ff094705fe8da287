import MonitoringAgent.Model.Agent.Mail

/-! # Mailed samples

Over a run of the mail client whose every tick finds a snapshot read at it, which pairs of intervals
lose no kept sample. -/

namespace MonitoringAgent.Agent

open MonitoringAgent.Library

/-! ### Ticks -/

/-- What a tick does, by why it closes its batch, if it does. -/
inductive Ticked (mail : MailInterval) (c : MailClient) (tick : MailTick) :
    MailTicked → MailClient → Prop
  | scheduled (hdue : c.nextReport ≤ tick.now) :
      Ticked mail c tick
        ⟨(c.batch.gather tick).1.1, (c.batch.gather tick).1.2,
          ((c.batch.gather tick).2.close mail .scheduled tick.createdAt tick.round).1⟩
        ⟨((c.batch.gather tick).2.close mail .scheduled tick.createdAt tick.round).2, c.pace,
          tick.now + mail.asDuration⟩
  | incident (hdue : tick.now < c.nextReport) (hnew : (c.batch.gather tick).1.2 = true)
      (hallows : (c.pace.allows tick.now).1 = true) :
      Ticked mail c tick
        ⟨(c.batch.gather tick).1.1, (c.batch.gather tick).1.2,
          ((c.batch.gather tick).2.close mail .incident tick.createdAt tick.round).1⟩
        ⟨((c.batch.gather tick).2.close mail .incident tick.createdAt tick.round).2,
          ⟨some tick.now⟩, c.nextReport⟩
  | none (hdue : tick.now < c.nextReport)
      (hno : (c.batch.gather tick).1.2 = true → (c.pace.allows tick.now).1 = false) :
      Ticked mail c tick ⟨(c.batch.gather tick).1.1, (c.batch.gather tick).1.2, none⟩
        ⟨(c.batch.gather tick).2, c.pace, c.nextReport⟩

theorem allows_true {pace : IncidentPace} {now : ℕ} (h : (pace.allows now).1 = true) :
    (pace.allows now).2 = ⟨some now⟩ := by
  rw [IncidentPace.allows] at h ⊢
  split_ifs at h ⊢
  rfl

theorem allows_false {pace : IncidentPace} {now : ℕ} (h : (pace.allows now).1 = false) :
    (pace.allows now).2 = pace := by
  rw [IncidentPace.allows] at h ⊢
  split_ifs at h ⊢
  rfl

theorem tick_ticked (mail : MailInterval) (c : MailClient) (tick : MailTick) :
    Ticked mail c tick (c.tick mail tick).1 (c.tick mail tick).2 := by
  simp only [MailClient.tick, MailClient.due, MailClient.close]
  split_ifs with hdue hnew hallows
  · exact .scheduled hdue
  · rw [allows_true hallows]
    exact .incident (Nat.lt_of_not_le hdue) hnew hallows
  · rw [Bool.not_eq_true] at hallows
    rw [allows_false hallows]
    exact .none (Nat.lt_of_not_le hdue) fun _ => hallows
  · exact .none (Nat.lt_of_not_le hdue) fun h => absurd h hnew

theorem run_append (mail : MailInterval) (c : MailClient)
    (ticks : List MailTick) (tick : MailTick) :
    c.run mail (ticks ++ [tick]) =
      ((c.run mail ticks).1 ++ [((c.run mail ticks).2.tick mail tick).1],
        ((c.run mail ticks).2.tick mail tick).2) := by
  induction ticks generalizing c with
  | nil => rfl
  | cons first ticks ih =>
      simp only [List.cons_append, MailClient.run, ih]

theorem length_run (mail : MailInterval) (c : MailClient) (ticks : List MailTick) :
    (c.run mail ticks).1.length = ticks.length := by
  induction ticks generalizing c with
  | nil => rfl
  | cons tick ticks ih => exact congrArg Nat.succ (ih _)

/-! ### What a close takes -/

/-- A close leaves no sample, and its report has every one that waited. -/
theorem close_samples (b : MailBatch) (mail : MailInterval) (reason : ReportReason)
    (createdAt : UInt64) (round : Option (ScrapeRound F64)) :
    (b.close mail reason createdAt round).2.samples = [] ∧
      ((b.close mail reason createdAt round).1.map (·.snapshots)).getD [] = b.samples := by
  rw [MailBatch.close]
  split_ifs with hempty
  · exact ⟨hempty, hempty.symm⟩
  · exact ⟨rfl, rfl⟩

/-- A close leaves when the last sample was kept, and the samples' interval. -/
theorem close_kept (b : MailBatch) (mail : MailInterval) (reason : ReportReason)
    (createdAt : UInt64) (round : Option (ScrapeRound F64)) :
    (b.close mail reason createdAt round).2.lastKept = b.lastKept ∧
      (b.close mail reason createdAt round).2.sampleInterval = b.sampleInterval := by
  rw [MailBatch.close]
  split_ifs
  · exact ⟨rfl, rfl⟩
  · exact ⟨rfl, rfl⟩

/-- What gathering does to the samples is what the offer of a fresh snapshot does. -/
theorem gather_fresh {tick : MailTick} {snapshot : PublishedSnapshot SystemSnapshot}
    (h : tick.fresh = some snapshot) (b : MailBatch) :
    (b.gather tick).1.1 = some (b.offer (.from snapshot) snapshot.readAt).1 ∧
      (b.gather tick).2.samples = (b.offer (.from snapshot) snapshot.readAt).2.samples ∧
      (b.gather tick).2.lastKept = (b.offer (.from snapshot) snapshot.readAt).2.lastKept ∧
      (b.gather tick).2.sampleInterval = b.sampleInterval := by
  have hinterval : (b.offer (.from snapshot) snapshot.readAt).2.sampleInterval =
      b.sampleInterval := by
    rw [MailBatch.offer]
    split_ifs
    · rfl
    · rfl
  rw [MailBatch.gather, h]
  exact ⟨rfl, rfl, rfl, hinterval⟩

/-! ### Kept samples -/

/-- The snapshot a tick kept, if it kept one. -/
def keptBy (tick : MailTick) (did : MailTicked) : Option (PublishedSnapshot SystemSnapshot) :=
  if did.offered = some .kept then tick.fresh else none

/-- The samples a run kept, each with when it was read. -/
def keptSamples (ticks : List MailTick) (did : List MailTicked) :
    List (PublishedSnapshot SystemSnapshot) :=
  (ticks.zip did).filterMap fun (tick, did) => keptBy tick did

/-- The samples the reports of a run carry, in order. -/
def mailedSamples (did : List MailTicked) : List MailedSnapshot :=
  did.flatMap fun did => (did.report.map (·.snapshots)).getD []

/-- A run of ticks exactly 2 s apart from `first` on, each with a snapshot read at it. -/
def RegularFrom (first : ℕ) (ticks : List MailTick) : Prop :=
  ∀ k tick, ticks[k]? = some tick → tick.now = first + k * mailTick ∧
    ∃ snapshot, tick.fresh = some snapshot ∧ snapshot.readAt = tick.now

/-- A run of the client, started at `start`, loses no sample it kept: each waits in the batch or is
in exactly one report, in reading order and a sample interval apart, and no full batch keeps
another. -/
structure LosesNoSample (run : AgentRun) (mail : MailInterval) (interval : SampleInterval)
    (start : ℕ) (ticks : List MailTick) : Prop where
  carried : let (did, c) := (MailClient.new run mail interval start).run mail ticks
    mailedSamples did ++ c.batch.samples = (keptSamples ticks did).map MailedSnapshot.from
  spaced : (keptSamples ticks ((MailClient.new run mail interval start).run mail ticks).1).IsChain
    fun earlier later => earlier.readAt + interval.asDuration ≤ later.readAt
  evictsNone : ∀ earlier tick later, ticks = earlier ++ tick :: later →
    let b := ((MailClient.new run mail interval start).run mail earlier).2.batch
    b.samples.length = maxSamples → b.due tick.now = false

/-- Whatever closes its batch, a tick leaves the samples its offer left, or mails them all. -/
theorem Ticked.samples {mail : MailInterval} {c c' : MailClient} {tick : MailTick}
    {did : MailTicked} (h : Ticked mail c tick did c') :
    (did.report.map (·.snapshots)).getD [] ++ c'.batch.samples = (c.batch.gather tick).2.samples ∧
      (c'.batch.samples = [] ∨ c'.batch.samples = (c.batch.gather tick).2.samples) ∧
      c'.batch.lastKept = (c.batch.gather tick).2.lastKept ∧
      c'.batch.sampleInterval = (c.batch.gather tick).2.sampleInterval ∧
      did.offered = (c.batch.gather tick).1.1 := by
  cases h with
  | scheduled _ =>
      obtain ⟨hnone, hall⟩ :=
        close_samples (c.batch.gather tick).2 mail .scheduled tick.createdAt tick.round
      obtain ⟨hlast, hinterval⟩ :=
        close_kept (c.batch.gather tick).2 mail .scheduled tick.createdAt tick.round
      exact ⟨by rw [hnone, hall, List.append_nil], .inl hnone, hlast, hinterval, rfl⟩
  | incident _ _ _ =>
      obtain ⟨hnone, hall⟩ :=
        close_samples (c.batch.gather tick).2 mail .incident tick.createdAt tick.round
      obtain ⟨hlast, hinterval⟩ :=
        close_kept (c.batch.gather tick).2 mail .incident tick.createdAt tick.round
      exact ⟨by rw [hnone, hall, List.append_nil], .inl hnone, hlast, hinterval, rfl⟩
  | none _ _ => exact ⟨rfl, .inr rfl, rfl, rfl, rfl⟩

/-- The sample interval rounded up to whole ticks. -/
def tickSpacing (interval : SampleInterval) : ℕ := (interval.secs + 1) / 2 * mailTick

/-- A client between the ticks of a regular run: the next tick is `next`, and the window its batch's
samples are from opened at `opened`. -/
structure Gathering (interval : SampleInterval) (first opened next : ℕ)
    (kept : List (PublishedSnapshot SystemSnapshot)) (c : MailClient) : Prop where
  interval_eq : c.batch.sampleInterval = interval
  lastKept_eq : c.batch.lastKept = kept.getLast?.map (·.readAt)
  onTicks : ∀ snapshot ∈ kept, ∃ k, snapshot.readAt = first + k * mailTick
  next_eq : ∃ n, next = first + n * mailTick
  spaced : kept.IsChain fun earlier later => earlier.readAt + interval.asDuration ≤ later.readAt
  opened_le : opened ≤ next
  /-- What the window has room for before its scheduled close. -/
  room : c.nextReport + mailTick ≤ opened + maxSamples * tickSpacing interval
  notDue : c.batch.samples ≠ [] → next < c.nextReport + mailTick
  filled : c.batch.samples ≠ [] → ∃ last, c.batch.lastKept = some last ∧
    opened + (c.batch.samples.length - 1) * tickSpacing interval ≤ last

variable {interval : SampleInterval} {mail : MailInterval} {first opened next : ℕ}
  {kept : List (PublishedSnapshot SystemSnapshot)} {c : MailClient}

theorem due_iff (b : MailBatch) (now : ℕ) :
    b.due now = true ↔ ∀ last, b.lastKept = some last →
      b.sampleInterval.asDuration ≤ now - last := by
  rw [MailBatch.due, Option.all_eq_true]
  simp only [decide_eq_true_eq]

/-- On ticks, a sample is kept a whole tick spacing after the last. -/
theorem Gathering.due_spacing (h : Gathering interval first opened next kept c) {last : ℕ}
    (hlast : c.batch.lastKept = some last) (hdue : c.batch.due next = true) :
    last + interval.asDuration ≤ next ∧ last + tickSpacing interval ≤ next := by
  obtain ⟨snapshot, hmem, rfl⟩ : ∃ snapshot ∈ kept, snapshot.readAt = last := by
    rw [h.lastKept_eq, Option.map_eq_some_iff] at hlast
    obtain ⟨snapshot, hsnapshot, hread⟩ := hlast
    exact ⟨snapshot, List.mem_of_getLast? hsnapshot, hread⟩
  obtain ⟨k, hk⟩ := h.onTicks snapshot hmem
  obtain ⟨n, hn⟩ := h.next_eq
  have hlate := (due_iff _ _).mp hdue _ hlast
  rw [h.interval_eq] at hlate
  have hten := interval.ten_le
  simp only [SampleInterval.asDuration, seconds, tickSpacing, mailTick] at hlate hk hn ⊢
  omega

/-- A batch that holds as many samples as a report carries keeps no other before its window closes.
-/
theorem Gathering.no_eviction (h : Gathering interval first opened next kept c)
    (hfull : c.batch.samples.length = maxSamples) : c.batch.due next = false := by
  have hsamples : c.batch.samples ≠ [] := by
    intro hnil
    rw [hnil] at hfull
    cases hfull
  obtain ⟨last, hlast, hfilled⟩ := h.filled hsamples
  have hnext := h.notDue hsamples
  have hroom := h.room
  by_contra hdue
  rw [Bool.not_eq_false] at hdue
  have hspacing := (h.due_spacing hlast hdue).2
  rw [hfull] at hfilled
  simp only [maxSamples] at hfilled hroom
  omega

/-- How a regular tick's offer fills the batch. -/
theorem Gathering.offered (h : Gathering interval first opened next kept c)
    (sample : MailedSnapshot) :
    ((c.batch.offer sample next).1 = .skipped ∧ (c.batch.offer sample next).2 = c.batch) ∨
      ((c.batch.offer sample next).1 = .kept ∧ c.batch.due next = true ∧
        (c.batch.offer sample next).2.samples = c.batch.samples ++ [sample] ∧
        (c.batch.offer sample next).2.lastKept = some next ∧
        opened + c.batch.samples.length * tickSpacing interval ≤ next) := by
  rw [MailBatch.offer]
  split_ifs with hdue
  · refine .inr ⟨rfl, hdue, ?_, rfl, ?_⟩
    · refine pushBounded_of_ne (fun hfull => ?_) sample
      rw [h.no_eviction hfull] at hdue
      cases hdue
    · by_cases hsamples : c.batch.samples = []
      · rw [hsamples, List.length_nil, Nat.zero_mul]
        exact h.opened_le
      · obtain ⟨last, hlast, hfilled⟩ := h.filled hsamples
        have hspacing := (h.due_spacing hlast hdue).2
        obtain ⟨n, hn⟩ := Nat.exists_eq_succ_of_ne_zero (mt List.length_eq_zero_iff.mp hsamples)
        rw [hn, Nat.succ_sub_one] at hfilled
        rw [hn, Nat.succ_mul]
        omega
  · exact .inl ⟨rfl, rfl⟩

/-- What gathering on a regular tick leaves: the sample it kept, if it kept one, behind the others.
-/
structure Gathered (interval : SampleInterval) (first opened next : ℕ)
    (kept : List (PublishedSnapshot SystemSnapshot)) (before : List MailedSnapshot)
    (more : Option (PublishedSnapshot SystemSnapshot)) (b : MailBatch) : Prop where
  samples_eq : b.samples = before ++ more.toList.map MailedSnapshot.from
  interval_eq : b.sampleInterval = interval
  lastKept_eq : b.lastKept = (kept ++ more.toList).getLast?.map (·.readAt)
  onTicks : ∀ snapshot ∈ kept ++ more.toList, ∃ k, snapshot.readAt = first + k * mailTick
  spaced : (kept ++ more.toList).IsChain fun earlier later => earlier.readAt + interval.asDuration ≤
    later.readAt
  filled : b.samples ≠ [] → ∃ last, b.lastKept = some last ∧
    opened + (b.samples.length - 1) * tickSpacing interval ≤ last

theorem Gathering.gather (h : Gathering interval first opened next kept c) {tick : MailTick}
    {snapshot : PublishedSnapshot SystemSnapshot} (hfresh : tick.fresh = some snapshot)
    (hread : snapshot.readAt = next) :
    ∃ more, (if (c.batch.gather tick).1.1 = some .kept then tick.fresh else none) = more ∧
      Gathered interval first opened next kept c.batch.samples more (c.batch.gather tick).2 := by
  subst hread
  obtain ⟨hoffer, hsamples, hlast, hinterval⟩ := gather_fresh hfresh c.batch
  obtain ⟨hskipped, hsame⟩ | ⟨hkept, hdue, hpushed, hlastKept, hfilled⟩ :=
    h.offered (.from snapshot)
  · refine ⟨none, ?_, ?_⟩
    · rw [hoffer, hskipped]
      rfl
    rw [hsame] at hsamples hlast
    constructor
    · rw [hsamples, Option.toList_none, List.map_nil, List.append_nil]
    · rw [hinterval]
      exact h.interval_eq
    · rw [hlast, Option.toList_none, List.append_nil]
      exact h.lastKept_eq
    · rw [Option.toList_none, List.append_nil]
      exact h.onTicks
    · rw [Option.toList_none, List.append_nil]
      exact h.spaced
    · rw [hsamples, hlast]
      exact h.filled
  · refine ⟨some snapshot, ?_, ?_⟩
    · rw [hoffer, hkept]
      exact hfresh
    constructor
    · rw [hsamples, hpushed]
      rfl
    · rw [hinterval]
      exact h.interval_eq
    · rw [hlast, hlastKept, Option.toList_some, List.getLast?_concat]
      rfl
    · intro snapshot hmem
      rw [Option.toList_some, List.mem_append, List.mem_singleton] at hmem
      obtain hmem | rfl := hmem
      · exact h.onTicks snapshot hmem
      · exact h.next_eq
    · rw [Option.toList_some, List.isChain_append]
      refine ⟨h.spaced, List.isChain_singleton _, ?_⟩
      intro last hlast' later hlater
      rw [List.head?_cons, Option.mem_some_iff] at hlater
      rw [← hlater]
      refine (h.due_spacing ?_ hdue).1
      rw [h.lastKept_eq, hlast']
      rfl
    · intro _
      refine ⟨snapshot.readAt, by rw [hlast, hlastKept], ?_⟩
      rw [hsamples, hpushed, List.length_append, List.length_singleton, Nat.add_sub_cancel]
      exact hfilled

/-- A regular tick keeps the invariant: a scheduled report opens the next window. -/
theorem Gathering.tick (h : Gathering interval first opened next kept c)
    (hmail : mail.asDuration ≤ maxSamples * tickSpacing interval) {tick : MailTick}
    {snapshot : PublishedSnapshot SystemSnapshot} (hnow : tick.now = next)
    (hfresh : tick.fresh = some snapshot) (hread : snapshot.readAt = next) {did : MailTicked}
    {c' : MailClient} (hticked : Ticked mail c tick did c') :
    (∃ opened', Gathering interval first opened' (next + mailTick)
      (kept ++ (keptBy tick did).toList) c') ∧
      (did.report.map (·.snapshots)).getD [] ++ c'.batch.samples =
        c.batch.samples ++ (keptBy tick did).toList.map MailedSnapshot.from := by
  obtain ⟨hcarried, hsamples, hlast, hinterval, hoffered⟩ := hticked.samples
  obtain ⟨more, hmore, hgathered⟩ := h.gather hfresh hread
  have hkeptBy : keptBy tick did = more := by
    rw [keptBy, hoffered]
    exact hmore
  rw [hkeptBy]
  refine ⟨?_, hcarried.trans hgathered.samples_eq⟩
  have hnextTick : ∃ n, next + mailTick = first + n * mailTick := by
    obtain ⟨n, hn⟩ := h.next_eq
    exact ⟨n + 1, by rw [hn, Nat.succ_mul, Nat.add_assoc]⟩
  have hopened := h.opened_le
  have hroom := h.room
  cases hticked with
  | scheduled hdue =>
      have hnone :=
        (close_samples (c.batch.gather tick).2 mail .scheduled tick.createdAt tick.round).1
      refine ⟨next + mailTick, ?_⟩
      refine ⟨hinterval.trans hgathered.interval_eq, hlast.trans hgathered.lastKept_eq,
        hgathered.onTicks, hnextTick, hgathered.spaced, le_rfl, ?_, fun hsome => absurd hnone hsome,
        fun hsome => absurd hnone hsome⟩
      simp only [hnow]
      omega
  | incident hdue hnew hallows =>
      have hnone :=
        (close_samples (c.batch.gather tick).2 mail .incident tick.createdAt tick.round).1
      refine ⟨opened, ?_⟩
      exact ⟨hinterval.trans hgathered.interval_eq, hlast.trans hgathered.lastKept_eq,
        hgathered.onTicks, hnextTick, hgathered.spaced, hopened.trans (Nat.le_add_right _ _), hroom,
        fun hsome => absurd hnone hsome, fun hsome => absurd hnone hsome⟩
  | none hdue hno =>
      refine ⟨opened, ?_⟩
      refine ⟨hinterval.trans hgathered.interval_eq, hlast.trans hgathered.lastKept_eq,
        hgathered.onTicks, hnextTick, hgathered.spaced, hopened.trans (Nat.le_add_right _ _), hroom,
        fun _ => ?_, hgathered.filled⟩
      simp only
      omega

/-! ### Runs -/

/-- The pairs whose first window, closed at both ends, has a sample too many. -/
def Overfull (mail : MailInterval) (interval : SampleInterval) : Prop :=
  interval.secs % 2 = 0 ∧ (mail.secs = 60 * interval.secs ∨ mail.secs + 1 = 60 * interval.secs)

theorem new_eq_some {secs : ℕ} (h : SampleInterval.new secs mail = some interval) :
    interval.secs = secs ∧ mail.secs ≤ 60 * secs := by
  rw [SampleInterval.new] at h
  split_ifs at h with hfits
  cases h
  refine ⟨rfl, ?_⟩
  obtain ⟨hten, -, hdiv⟩ := hfits
  rw [Nat.div_le_iff_le_mul_add_pred (by omega), maxSamples] at hdiv
  omega

theorem mail_le_windows (h : mail.secs ≤ 60 * interval.secs) :
    mail.asDuration ≤ maxSamples * tickSpacing interval := by
  simp only [MailInterval.asDuration, seconds, maxSamples, tickSpacing, mailTick]
  omega

theorem first_window (h : mail.secs ≤ 60 * interval.secs) (hover : ¬ Overfull mail interval) :
    mail.asDuration + mailTick ≤ maxSamples * tickSpacing interval := by
  simp only [MailInterval.asDuration, seconds, maxSamples, tickSpacing, mailTick]
  rw [Overfull] at hover
  omega

theorem gathering_new (run : AgentRun) {start : ℕ} (hstart : start ≤ first)
    (hwindow : mail.asDuration + mailTick ≤ maxSamples * tickSpacing interval) :
    Gathering interval first first first [] (MailClient.new run mail interval start) where
  interval_eq := rfl
  lastKept_eq := rfl
  onTicks snapshot hmem := absurd hmem List.not_mem_nil
  next_eq := ⟨0, by rw [Nat.zero_mul, Nat.add_zero]⟩
  spaced := List.isChain_nil
  opened_le := le_rfl
  room := by
    simp only [MailClient.new]
    omega
  notDue hsome := absurd rfl hsome
  filled hsome := absurd rfl hsome

theorem keptSamples_append {ticks : List MailTick} {did : List MailTicked}
    (h : did.length = ticks.length) (tick : MailTick) (d : MailTicked) :
    keptSamples (ticks ++ [tick]) (did ++ [d]) = keptSamples ticks did ++
      (keptBy tick d).toList := by
  rw [keptSamples, List.zip_append h.symm, List.filterMap_append, keptSamples]
  cases hkept : keptBy tick d with
  | none => simp [hkept]
  | some snapshot => simp [hkept]

theorem mailedSamples_append (did : List MailTicked) (d : MailTicked) :
    mailedSamples (did ++ [d]) = mailedSamples did ++ (d.report.map (·.snapshots)).getD [] := by
  simp [mailedSamples]

theorem RegularFrom.of_append {earlier later : List MailTick}
    (h : RegularFrom first (earlier ++ later)) : RegularFrom first earlier := by
  intro k tick hk
  refine h k tick ?_
  rw [List.getElem?_append_left (List.getElem?_eq_some_iff.mp hk).1]
  exact hk

theorem RegularFrom.last {earlier later : List MailTick} {tick : MailTick}
    (h : RegularFrom first (earlier ++ tick :: later)) :
    tick.now = first + earlier.length * mailTick ∧ ∃ snapshot, tick.fresh = some snapshot ∧
      snapshot.readAt = tick.now :=
  h earlier.length tick (by simp)

/-- The invariant, over a regular run. -/
theorem gathering_run (run : AgentRun) {start : ℕ} (hstart : start ≤ first)
    (hmail : mail.secs ≤ 60 * interval.secs) (hover : ¬ Overfull mail interval)
    {ticks : List MailTick} (hticks : RegularFrom first ticks) :
    (∃ opened, Gathering interval first opened (first + ticks.length * mailTick)
        (keptSamples ticks ((MailClient.new run mail interval start).run mail ticks).1)
        ((MailClient.new run mail interval start).run mail ticks).2) ∧
      mailedSamples ((MailClient.new run mail interval start).run mail ticks).1 ++
          ((MailClient.new run mail interval start).run mail ticks).2.batch.samples =
        (keptSamples ticks ((MailClient.new run mail interval start).run mail ticks).1).map
          MailedSnapshot.from := by
  induction ticks using List.reverseRecOn with
  | nil =>
      refine ⟨⟨first, ?_⟩, rfl⟩
      rw [List.length_nil, Nat.zero_mul, Nat.add_zero]
      exact gathering_new run hstart (first_window hmail hover)
  | append_singleton ticks tick ih =>
      obtain ⟨⟨opened, hgathering⟩, hcarried⟩ := ih hticks.of_append
      obtain ⟨hnow, snapshot, hfresh, hread⟩ := hticks.last
      rw [hnow] at hread
      obtain ⟨⟨opened', hnext⟩, hmore⟩ := hgathering.tick (mail_le_windows hmail) hnow hfresh hread
        (tick_ticked mail _ tick)
      rw [run_append, keptSamples_append (length_run _ _ _), mailedSamples_append]
      refine ⟨⟨opened', ?_⟩, ?_⟩
      · rw [List.length_append, List.length_singleton, Nat.succ_mul, ← Nat.add_assoc]
        exact hnext
      · rw [List.append_assoc, hmore, ← List.append_assoc, hcarried, List.map_append]

theorem losesNoSample (run : AgentRun) {start : ℕ} (hstart : start ≤ first)
    (hmail : mail.secs ≤ 60 * interval.secs) (hover : ¬ Overfull mail interval)
    {ticks : List MailTick} (hticks : RegularFrom first ticks) :
    LosesNoSample run mail interval start ticks where
  carried := (gathering_run run hstart hmail hover hticks).2
  spaced := by
    obtain ⟨⟨opened, hgathering⟩, -⟩ := gathering_run run hstart hmail hover hticks
    exact hgathering.spaced
  evictsNone earlier tick later heq hfull := by
    rw [heq] at hticks
    obtain ⟨⟨opened, hgathering⟩, -⟩ := gathering_run run hstart hmail hover hticks.of_append
    rw [hticks.last.1]
    exact hgathering.no_eviction hfull

/-! ### The first window -/

/-- The `k`-th tick of a run without alerts, two seconds apart from 0. -/
def quietTick (system : SystemSnapshot) (k : ℕ) : MailTick :=
  ⟨k * mailTick, some ⟨system, UInt64.ofNat (2 * k), k * mailTick, k⟩, [],
    UInt64.ofNat (2 * k), none⟩

def quietTicks (system : SystemSnapshot) (n : ℕ) : List MailTick :=
  (List.range n).map (quietTick system)

theorem quietTicks_succ (system : SystemSnapshot) (n : ℕ) :
    quietTicks system (n + 1) = quietTicks system n ++ [quietTick system n] := by
  rw [quietTicks, List.range_succ, List.map_append]
  rfl

theorem regularFrom_quietTicks (system : SystemSnapshot) (n : ℕ) :
    RegularFrom 0 (quietTicks system n) := by
  intro k tick hk
  rw [quietTicks, List.getElem?_map, Option.map_eq_some_iff] at hk
  obtain ⟨j, hj, rfl⟩ := hk
  obtain ⟨hlt, hj⟩ := List.getElem?_eq_some_iff.mp hj
  rw [List.getElem_range] at hj
  subst hj
  exact ⟨(Nat.zero_add _).symm, _, rfl, rfl⟩

/-- A client in its first window, `n` ticks of an even sample interval of `half` ticks in. -/
structure FirstWindow (interval : SampleInterval) (mail : MailInterval)
    (half n kept : ℕ) (c : MailClient) : Prop where
  interval_eq : c.batch.sampleInterval = interval
  length_eq : c.batch.samples.length = kept
  none_kept : kept = 0 → c.batch.lastKept = none
  lastKept_eq : 0 < kept → c.batch.lastKept = some ((kept - 1) * half * mailTick)
  before : 0 < kept → (kept - 1) * half < n
  within : n ≤ kept * half
  active_eq : c.batch.active = []
  nextReport_eq : c.nextReport = mail.asDuration

variable {half n : ℕ}

/-- In the first window a sample is due once for each sample interval. -/
theorem FirstWindow.due_iff {kept : ℕ} (h : FirstWindow interval mail half n kept c)
    (hhalf : interval.secs = 2 * half) : c.batch.due (n * mailTick) = true ↔ n = kept * half := by
  have hten := interval.ten_le
  rw [Agent.due_iff, h.interval_eq]
  obtain hzero | hpos := Nat.eq_zero_or_pos kept
  · have hwithin := h.within
    rw [h.none_kept hzero]
    rw [hzero] at hwithin ⊢
    simp only [reduceCtorEq, false_imp_iff, implies_true, true_iff]
    omega
  · have hbefore := h.before hpos
    have hwithin := h.within
    obtain ⟨m, rfl⟩ := Nat.exists_eq_succ_of_ne_zero (Nat.pos_iff_ne_zero.mp hpos)
    rw [h.lastKept_eq hpos, Nat.succ_sub_one] at *
    rw [Nat.succ_mul] at hwithin ⊢
    simp only [Option.some.injEq, forall_eq', SampleInterval.asDuration, seconds, mailTick]
    generalize m * half = last at *
    omega

theorem firstWindow_new (run : AgentRun) :
    FirstWindow interval mail half 0 0 (MailClient.new run mail interval 0) where
  interval_eq := rfl
  length_eq := rfl
  none_kept _ := rfl
  lastKept_eq h := absurd h (Nat.lt_irrefl 0)
  before h := absurd h (Nat.lt_irrefl 0)
  within := Nat.zero_le _
  active_eq := rfl
  nextReport_eq := Nat.zero_add _

theorem FirstWindow.tick {kept : ℕ} (h : FirstWindow interval mail half n kept c)
    (hhalf : interval.secs = 2 * half) (hmail : 120 * half ≤ mail.secs + 1) (hn : n < 60 * half)
    (system : SystemSnapshot) :
    ∃ kept', FirstWindow interval mail half (n + 1) kept' (c.tick mail (quietTick system n)).2 := by
  have hticked := tick_ticked mail c (quietTick system n)
  have hten := interval.ten_le
  have hnotDue : (quietTick system n).now < c.nextReport := by
    rw [h.nextReport_eq]
    simp only [quietTick, mailTick, MailInterval.asDuration, seconds]
    omega
  have hbatch : (c.tick mail (quietTick system n)).2 =
      ⟨(c.batch.gather (quietTick system n)).2, c.pace, c.nextReport⟩ := by
    generalize (c.tick mail (quietTick system n)).1 = did at hticked
    generalize (c.tick mail (quietTick system n)).2 = c' at hticked ⊢
    cases hticked with
    | scheduled hdue => exact absurd hdue (Nat.not_le_of_lt hnotDue)
    | incident _ hnew _ => cases hnew
    | none _ _ => rfl
  have hfresh : (quietTick system n).fresh =
    some ⟨system, UInt64.ofNat (2 * n), n * mailTick, n⟩ := rfl
  obtain ⟨-, hsamples, hlast, hinterval⟩ := gather_fresh hfresh c.batch
  rw [hbatch]
  rw [MailBatch.offer] at hsamples hlast
  split_ifs at hsamples hlast with hdue
  · have hkept := (h.due_iff hhalf).mp hdue
    have hroom : c.batch.samples.length ≠ maxSamples := by
      intro hfull
      rw [h.length_eq, maxSamples] at hfull
      rw [hkept, hfull] at hn
      exact Nat.lt_irrefl _ hn
    refine ⟨kept + 1, ?_⟩
    constructor
    · exact hinterval.trans h.interval_eq
    · rw [hsamples, pushBounded_of_ne hroom, List.length_append, h.length_eq]
      rfl
    · exact fun hzero => absurd hzero (Nat.succ_ne_zero _)
    · intro _
      rw [hlast, Nat.add_sub_cancel, ← hkept]
    · intro _
      rw [Nat.add_sub_cancel, ← hkept]
      exact Nat.lt_succ_self n
    · rw [Nat.succ_mul, ← hkept]
      omega
    · rfl
    · exact h.nextReport_eq
  · have hless : n < kept * half := by
      have hne := mt (h.due_iff hhalf).mpr hdue
      exact Nat.lt_of_le_of_ne h.within hne
    refine ⟨kept, ?_⟩
    constructor
    · exact hinterval.trans h.interval_eq
    · rw [hsamples]
      exact h.length_eq
    · rw [hlast]
      exact h.none_kept
    · rw [hlast]
      exact h.lastKept_eq
    · exact fun hpos => (h.before hpos).trans (Nat.lt_succ_self n)
    · exact hless
    · rfl
    · exact h.nextReport_eq

theorem firstWindow_run (run : AgentRun) (hhalf : interval.secs = 2 * half)
    (hmail : 120 * half ≤ mail.secs + 1) (system : SystemSnapshot) (hn : n ≤ 60 * half) :
    ∃ kept, FirstWindow interval mail half n kept
      ((MailClient.new run mail interval 0).run mail (quietTicks system n)).2 := by
  induction n with
  | zero => exact ⟨0, firstWindow_new run⟩
  | succ n ih =>
      obtain ⟨kept, h⟩ := ih (Nat.le_of_succ_le hn)
      rw [quietTicks_succ, run_append]
      exact h.tick hhalf hmail hn system

/-- With a pair that overfills the first window, a quiet run comes to drop a sample. -/
theorem evicts_of_overfull (run : AgentRun) (hover : Overfull mail interval)
    (system : SystemSnapshot) :
    ¬ LosesNoSample run mail interval 0 (quietTicks system (60 * (interval.secs / 2) + 1)) := by
  intro h
  obtain ⟨heven, hmail⟩ := hover
  have hhalf : interval.secs = 2 * (interval.secs / 2) := by omega
  have hten := interval.ten_le
  have hlong : 120 * (interval.secs / 2) ≤ mail.secs + 1 := by omega
  obtain ⟨kept, hwindow⟩ := firstWindow_run run hhalf hlong system
    (le_refl (60 * (interval.secs / 2)))
  have hkept : kept = 60 := by
    have hwithin := hwindow.within
    have hle : 60 ≤ kept := Nat.le_of_mul_le_mul_right hwithin (by omega)
    have hbefore := hwindow.before (by omega)
    have hlt : kept - 1 < 60 := Nat.lt_of_mul_lt_mul_right hbefore
    omega
  have hevicts := h.evictsNone _ (quietTick system (60 * (interval.secs / 2))) []
    (quietTicks_succ system _) (hwindow.length_eq.trans hkept)
  have hdue := (hwindow.due_iff hhalf).mpr (by rw [hkept])
  exact absurd hevicts (by rw [quietTick, hdue]; decide)

def idleSystem : SystemSnapshot where
  hostname := ""
  osPrettyName := ""
  kernel := ""
  cpuModel := ""
  cpuLogicalCores := 1
  cpuUsagePercent := 0
  memoryUsagePercent := 0
  memoryUsedBytes := 0
  memoryTotalBytes := 0
  memoryTotalDisplay := ""
  swapUsagePercent := 0
  loadOne := 0
  loadFive := 0
  loadFifteen := 0
  uptimeSeconds := 0
  uptimeDisplay := ""
  disks := []

/-- An accepted pair of intervals loses no sample, over every regular run, exactly when its first
window isn't one sample too long. -/
theorem loses_no_sample_iff (run : AgentRun) {secs : ℕ}
    (hpair : SampleInterval.new secs mail = some interval) :
    (∀ start first, start ≤ first → ∀ ticks, RegularFrom first ticks →
      LosesNoSample run mail interval start ticks) ↔
      ¬ (secs % 2 = 0 ∧ (mail.secs = 60 * secs ∨ mail.secs + 1 = 60 * secs)) := by
  obtain ⟨hsecs, hmail⟩ := new_eq_some hpair
  rw [← hsecs] at hmail ⊢
  constructor
  · intro h hover
    exact evicts_of_overfull run hover idleSystem
      (h 0 0 le_rfl _ (regularFrom_quietTicks idleSystem _))
  · intro hover start first hstart ticks hticks
    exact losesNoSample run hstart hmail hover hticks

/-- Ten minutes of samples every 59 s in reports every 300 s. -/
theorem loses_no_sample_iff_59_300 :
    LosesNoSample ⟨⟨0⟩⟩ ⟨300, by decide⟩ ⟨59, by decide⟩ 0 (quietTicks idleSystem 301) := by
  have hpair : SampleInterval.new 59 ⟨300, by decide⟩ = some ⟨59, by decide⟩ := rfl
  exact (loses_no_sample_iff ⟨⟨0⟩⟩ hpair).mpr (by decide) 0 0 le_rfl _
    (regularFrom_quietTicks idleSystem 301)

/-- With samples every 10 s in reports every 600 s, an accepted pair, the first of the 61 samples
kept in the first ten minutes is in no report. -/
theorem sample_lost_10_600 :
    let mail : MailInterval := ⟨600, by decide⟩
    let interval : SampleInterval := ⟨10, by decide⟩
    let ticks := quietTicks idleSystem 301
    let after := (MailClient.new ⟨⟨0⟩⟩ mail interval 0).run mail ticks
    SampleInterval.new 10 mail = some interval ∧ RegularFrom 0 ticks ∧
      (keptSamples ticks after.1).map (·.collectedAt) =
        (List.range 61).map (fun k => UInt64.ofNat (10 * k)) ∧
      (mailedSamples after.1).map (·.collectedAt) = (List.range' 1 60).map
        (fun k => UInt64.ofNat (10 * k)) ∧
      after.2.batch.samples = [] ∧ ¬ LosesNoSample ⟨⟨0⟩⟩ mail interval 0 ticks := by
  have hover : Overfull ⟨600, by decide⟩ ⟨10, by decide⟩ := ⟨rfl, .inl rfl⟩
  refine ⟨rfl, regularFrom_quietTicks idleSystem 301, ?_, ?_, ?_,
    evicts_of_overfull ⟨⟨0⟩⟩ hover idleSystem⟩
  · decide +kernel
  · decide +kernel
  · decide +kernel

end MonitoringAgent.Agent

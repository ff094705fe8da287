import MonitoringAgent.Library.Calendar
import MonitoringAgent.Model.Iso8601

/-! # Times are written as their date

The two loops subtract whole years and whole months, so that what is left is the day of the
calendar; on machine words neither leaves its range. -/

namespace MonitoringAgent.Iso8601

open MonitoringAgent.Library

/-! ### The loops and the calendar -/

theorem isLeap_iff (y : ℕ) : Agent.isLeap y = true ↔ LeapYear y := by
  rw [Agent.isLeap, decide_eq_true_eq, LeapYear]
  omega

theorem daysInYear_eq (y : ℕ) : Agent.daysInYear y = yearDays y := by
  rw [Agent.daysInYear, yearDays]
  simp only [isLeap_iff]

/-- The loop over the years stops at the year of the day. -/
theorem yearOf_spec {y d : ℕ} (hy : 1 ≤ y) : y ≤ (Agent.yearOf y d).1 ∧
    daysBeforeYear (Agent.yearOf y d).1 + (Agent.yearOf y d).2 = daysBeforeYear y + d ∧
    (Agent.yearOf y d).2 < yearDays (Agent.yearOf y d).1 := by
  induction y, d using Agent.yearOf.induct with
  | case1 y d hlt =>
      rw [Agent.yearOf, if_pos hlt]
      rw [daysInYear_eq] at hlt
      exact ⟨le_rfl, rfl, hlt⟩
  | case2 y d hge ih =>
      obtain ⟨hle, hcount, hday⟩ := ih (Nat.le_add_left 1 y)
      rw [Agent.yearOf, if_neg hge]
      rw [daysInYear_eq] at hge hle hcount hday ⊢
      rw [daysBeforeYear_succ hy] at hcount
      refine ⟨(Nat.le_succ y).trans hle, ?_, hday⟩
      rw [hcount]
      omega

/-- The lengths of `months` months from `month` on. -/
def monthsFrom (y month months : ℕ) : List ℕ := (List.range' month months).map (daysInMonth y)

/-- The loop over the months stops at the month of the day. -/
theorem monthOf_spec {y month months d : ℕ} (hmonth : 1 ≤ month)
    (hd : daysBeforeMonth y month + d < daysBeforeMonth y (month + months)) :
    month ≤ (Agent.monthOf month d (monthsFrom y month months)).1 ∧
      (Agent.monthOf month d (monthsFrom y month months)).1 < month + months ∧
      daysBeforeMonth y (Agent.monthOf month d (monthsFrom y month months)).1 +
        (Agent.monthOf month d (monthsFrom y month months)).2 = daysBeforeMonth y month + d ∧
      (Agent.monthOf month d (monthsFrom y month months)).2 <
        daysInMonth y (Agent.monthOf month d (monthsFrom y month months)).1 := by
  induction months generalizing month d with
  | zero => exact absurd hd (by rw [Nat.add_zero]; omega)
  | succ months ih =>
      have hsucc := daysBeforeMonth_succ y hmonth
      rw [monthsFrom, List.range'_succ, List.map_cons, Agent.monthOf]
      split_ifs with hlt
      · exact ⟨le_rfl, by omega, rfl, hlt⟩
      · rw [← Nat.add_assoc, Nat.add_right_comm] at hd
        obtain ⟨hle, hend, hcount, hday⟩ := @ih (month + 1) (d - daysInMonth y month)
          (by omega) (by omega)
        rw [monthsFrom] at hle hend hcount hday
        exact ⟨by omega, by omega, by omega, hday⟩

theorem monthsFrom_eq (y : ℕ) :
    (if Agent.isLeap y then [31, 29, 31, 30, 31, 30, 31, 31, 30, 31, 30, 31]
    else [31, 28, 31, 30, 31, 30, 31, 31, 30, 31, 30, 31]) = monthsFrom y 1 12 := by
  simp only [isLeap_iff]
  by_cases hleap : LeapYear y <;> simp [monthsFrom, List.range'_succ, daysInMonth, hleap]

/-- The date and time the function writes. -/
def dateOf (secs : ℕ) : DateTime :=
  let year := Agent.yearOf 1970 (secs / 86400)
  let month := Agent.monthOf 1 year.2 (monthsFrom year.1 1 12)
  ⟨year.1, month.1, month.2 + 1, secs % 86400 / 3600, secs % 86400 % 3600 / 60, secs % 86400 % 60⟩

theorem dateOf_spec (secs : ℕ) : (dateOf secs).Valid ∧ (dateOf secs).unixSeconds = secs := by
  obtain ⟨hyear, hcount, hday⟩ := yearOf_spec (y := 1970) (d := secs / 86400) (by norm_num)
  have hmonths : daysBeforeMonth (Agent.yearOf 1970 (secs / 86400)).1 (1 + 12) = _ :=
    daysBeforeMonth_end _
  have hzero : daysBeforeMonth (Agent.yearOf 1970 (secs / 86400)).1 1 = 0 := rfl
  obtain ⟨hfirst, hlast, hcount', hday'⟩ := @monthOf_spec (Agent.yearOf 1970 (secs / 86400)).1 1 12
    (Agent.yearOf 1970 (secs / 86400)).2 le_rfl (by omega)
  constructor
  · exact ⟨by dsimp only [dateOf]; omega, ⟨hfirst, by dsimp only [dateOf]; omega⟩,
      ⟨Nat.le_add_left 1 _, hday'⟩, by dsimp only [dateOf]; omega, by dsimp only [dateOf]; omega,
      by dsimp only [dateOf]; omega⟩
  · rw [DateTime.unixSeconds, DateTime.dayNumber]
    dsimp only [dateOf]
    omega

/-! ### The text -/

theorem toList_padded (width n : ℕ) : (Agent.padded width n).toList = zeroPadded width n := by
  have hpushn (s : String) (k : ℕ) : (s.pushn '0' k).toList = s.toList ++ List.replicate k '0' := by
    rw [String.pushn_eq_repeat_push]
    induction k with
    | zero => exact (List.append_nil _).symm
    | succ k ih =>
        rw [Nat.repeat, String.toList_push, ih, List.replicate_succ', List.append_assoc]
  rw [Agent.padded, String.toList_append, hpushn, toList_toString, zeroPadded, List.leftpad,
    ← String.length_toList, toList_toString]
  rfl

theorem unixToIso8601_isoText (secs : ℕ) : Agent.unixToIso8601 secs = (dateOf secs).isoText := by
  have hmonths := monthsFrom_eq (Agent.yearOf 1970 (secs / 86400)).1
  rw [Agent.unixToIso8601]
  dsimp only
  rw [hmonths, ← String.toList_inj]
  simp only [String.toList_append, toList_padded, DateTime.isoText, String.toList_ofList,
    DateTime.isoFields, DateTime.fields, written, dateOf]
  simp

/-! ### On machine words -/

theorem isLeap_cast (y : ℕ) : isLeap y = Agent.isLeap y := by
  rw [isLeap, Agent.isLeap, Int.tmod_eq_emod_of_nonneg (Int.natCast_nonneg y),
    Int.tmod_eq_emod_of_nonneg (Int.natCast_nonneg y),
    Int.tmod_eq_emod_of_nonneg (Int.natCast_nonneg y), decide_eq_decide]
  omega

theorem daysInYear_cast (y : ℕ) : daysInYear y = Agent.daysInYear y := by
  rw [daysInYear, Agent.daysInYear, isLeap_cast]
  split_ifs <;> rfl

theorem yearOf_next {y d y' d' : ℤ} (hge : ¬d < daysInYear y)
    (hd : (subInt 63 d (daysInYear y) : Except (Stop Empty) ℤ) = .ok d')
    (hy : (addInt 63 y 1 : Except (Stop Empty) ℤ) = .ok y') : yearOf y d = yearOf y' d' := by
  rw [yearOf, if_neg hge]
  split
  · next hd' hy' =>
      rw [Except.ok.inj (hd.symm.trans hd'), Except.ok.inj (hy.symm.trans hy')]
  · next hstop => exact absurd hy (hstop d' y' hd)

/-- Counting years takes none of the days' range: each year is more than a day. -/
theorem yearOf_eq {y d : ℕ} (h : y + d < 2 ^ 63) :
    yearOf y d = .ok (((Agent.yearOf y d).1 : ℤ), ((Agent.yearOf y d).2 : ℤ)) := by
  induction y, d using Agent.yearOf.induct with
  | case1 y d hlt =>
      rw [yearOf, Agent.yearOf, daysInYear_cast, if_pos (by exact_mod_cast hlt), if_pos hlt]
  | case2 y d hge ih =>
      have hpos : 0 < Agent.daysInYear y := by
        rw [Agent.daysInYear]
        split_ifs <;> omega
      have hd : (subInt 63 d (daysInYear y) : Except (Stop Empty) ℤ) =
          .ok ((d - Agent.daysInYear y : ℕ) : ℤ) := by
        rw [daysInYear_cast, subInt_eq (by omega), Nat.cast_sub (not_lt.mp hge)]
      have hy : (addInt 63 y 1 : Except (Stop Empty) ℤ) = .ok ((y + 1 : ℕ) : ℤ) := by
        rw [addInt_eq (by omega), Nat.cast_succ]
      rw [Agent.yearOf, if_neg hge, yearOf_next (by rw [daysInYear_cast]; exact_mod_cast hge) hd hy]
      exact ih (by omega)

theorem monthOf_eq {m d : ℕ} (months : List ℕ) (hm : m + months.length < 2 ^ 31) (hd : d < 2 ^ 63) :
    monthOf m d (months.map fun md : ℕ => (md : ℤ)) =
      .ok (((Agent.monthOf m d months).1 : ℤ), ((Agent.monthOf m d months).2 : ℤ)) := by
  induction months generalizing m d with
  | nil => rfl
  | cons md months ih =>
      rw [List.map_cons, monthOf, Agent.monthOf]
      by_cases hlt : d < md
      · rw [if_pos (by exact_mod_cast hlt), if_pos hlt]
      · rw [List.length_cons] at hm
        rw [if_neg (by exact_mod_cast hlt), if_neg hlt, subInt_eq (by omega), except_ok_bind,
          addInt_eq (by omega), except_ok_bind, ← Nat.cast_sub (not_lt.mp hlt), ← Nat.cast_succ]
        exact ih (by omega) (by omega)

/-- No step of the function leaves its words. -/
theorem unixToIso8601_eq {secs : ℕ} (h : secs < 2 ^ 64) :
    unixToIso8601 secs = .ok (Agent.unixToIso8601 secs) := by
  have hdays : toI64 (secs / 86400) = ((secs / 86400 : ℕ) : ℤ) := if_pos (by omega)
  have hyear : yearOf 1970 ((secs / 86400 : ℕ) : ℤ) = _ :=
    yearOf_eq (y := 1970) (d := secs / 86400) (by omega)
  have hyearDay := (yearOf_spec (y := 1970) (d := secs / 86400) (by norm_num)).2.2
  have hmonth : monthOf 1 ((Agent.yearOf 1970 (secs / 86400)).2 : ℤ) _ = _ :=
    monthOf_eq (m := 1) (monthsFrom (Agent.yearOf 1970 (secs / 86400)).1 1 12)
      (by norm_num [monthsFrom]) (hyearDay.trans_le ((yearDays_le _).trans (by norm_num)))
  have hday : (dateOf secs).day ≤ 31 := (dateOf_spec secs).1.day.2.trans (daysInMonth_le _ _)
  have hmonthDays (y : ℕ) : monthDays y = (monthsFrom y 1 12).map fun md : ℕ => (md : ℤ) := by
    rw [monthDays, isLeap_cast, ← monthsFrom_eq]
    split_ifs <;> rfl
  have hpadded (width n : ℕ) : padded width (n : ℤ) = Agent.padded width n := by
    rw [padded, if_neg (by omega), Int.toNat_natCast]
  dsimp only [dateOf] at hday
  rw [unixToIso8601, hdays, hyear, except_ok_bind, hmonthDays, hmonth, except_ok_bind,
    addInt_eq (by omega), except_ok_bind, ← Nat.cast_succ, hpadded, hpadded, hpadded,
    Agent.unixToIso8601]
  dsimp only
  rw [monthsFrom_eq]
  rfl

/-- Every time is written, by all three functions alike and without an overflow, as a date of the
calendar that reads back as that time; and the texts of times before the year 10000 are ordered as
the times are. -/
theorem times_written_as_dates :
    (∀ secs < 2 ^ 64, ∃ text, Hub.Clock.unixToIso8601 secs = .ok text ∧
      Agent.Alerts.unixToIso8601 secs = .ok text ∧
      Agent.Api.unixToIso8601 secs = .ok text ∧
        ∃ date : DateTime, DateTime.ofIsoText text = some date ∧ date.Valid ∧
          date.unixSeconds = secs) ∧
    ∀ a b textA textB, Hub.Clock.unixToIso8601 a = .ok textA →
      Hub.Clock.unixToIso8601 b = .ok textB →
      (a : ℤ) < DateTime.unixSeconds ⟨10000, 1, 1, 0, 0, 0⟩ →
        (b : ℤ) < DateTime.unixSeconds ⟨10000, 1, 1, 0, 0, 0⟩ → (a < b ↔ textA < textB) := by
  have hend : DateTime.unixSeconds ⟨10000, 1, 1, 0, 0, 0⟩ = 253402300800 := by decide
  constructor
  · intro secs hsecs
    refine ⟨Agent.unixToIso8601 secs, unixToIso8601_eq hsecs, unixToIso8601_eq hsecs,
      unixToIso8601_eq hsecs, dateOf secs, ?_, dateOf_spec secs⟩
    rw [unixToIso8601_isoText, DateTime.ofIsoText_isoText]
  · intro a b textA textB hA hB ha hb
    have hmono {a b : ℕ} (ha : (a : ℤ) < DateTime.unixSeconds ⟨10000, 1, 1, 0, 0, 0⟩)
        (hb : (b : ℤ) < DateTime.unixSeconds ⟨10000, 1, 1, 0, 0, 0⟩) (hab : a < b) :
        (dateOf a).isoText < (dateOf b).isoText := by
      obtain ⟨hvalid, hseconds⟩ := dateOf_spec a
      obtain ⟨hvalid', hseconds'⟩ := dateOf_spec b
      rw [← hseconds] at ha
      rw [← hseconds'] at hb
      exact hvalid.isoText_lt hvalid' (DateTime.year_lt (by norm_num) ha)
        (DateTime.year_lt (by norm_num) hb)
        (by rw [hseconds, hseconds']; exact_mod_cast hab)
    rw [Hub.Clock.unixToIso8601, unixToIso8601_eq (by omega), unixToIso8601_isoText] at hA hB
    obtain rfl := Except.ok.inj hA
    obtain rfl := Except.ok.inj hB
    refine ⟨hmono ha hb, fun hlt => ?_⟩
    rcases Nat.lt_trichotomy a b with hab | rfl | hba
    · exact hab
    · exact absurd hlt (lt_irrefl _)
    · exact absurd hlt (lt_asymm (hmono hb ha hba))

end MonitoringAgent.Iso8601

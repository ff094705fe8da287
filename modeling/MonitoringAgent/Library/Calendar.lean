import Mathlib.Data.List.Lex
import MonitoringAgent.Library.Padded

/-! # The Gregorian calendar

A date by its days, counted through whole years and whole months, and its ISO 8601 text. Dates in
order have their instants in order. -/

namespace MonitoringAgent.Library

/-- Every fourth year is a leap year, but of the centuries only every fourth. -/
def LeapYear (year : ℕ) : Prop := 4 ∣ year ∧ ¬100 ∣ year ∨ 400 ∣ year

instance (year : ℕ) : Decidable (LeapYear year) := inferInstanceAs (Decidable (_ ∨ _))

def yearDays (year : ℕ) : ℕ := if LeapYear year then 366 else 365

def daysInMonth (year : ℕ) : ℕ → ℕ
  | 2 => if LeapYear year then 29 else 28
  | 4 | 6 | 9 | 11 => 30
  | _ => 31

/-- The days from the first of the year 1 to the first of the year. -/
def daysBeforeYear (year : ℕ) : ℕ :=
  365 * (year - 1) + (year - 1) / 4 - (year - 1) / 100 + (year - 1) / 400

/-- The days from the first of the year to the first of the month. -/
def daysBeforeMonth (year month : ℕ) : ℕ :=
  ((List.range (month - 1)).map fun m => daysInMonth year (m + 1)).sum

/-- A date and a time of day, to the second. -/
structure DateTime where
  year : ℕ
  month : ℕ
  day : ℕ
  hours : ℕ
  minutes : ℕ
  seconds : ℕ
  deriving DecidableEq, Repr

namespace DateTime

/-- A date of the calendar. -/
structure Valid (t : DateTime) : Prop where
  year : 1 ≤ t.year
  month : 1 ≤ t.month ∧ t.month ≤ 12
  day : 1 ≤ t.day ∧ t.day ≤ daysInMonth t.year t.month
  hours : t.hours < 24
  minutes : t.minutes < 60
  seconds : t.seconds < 60

/-- The days from the first of the year 1. -/
def dayNumber (t : DateTime) : ℕ :=
  daysBeforeYear t.year + daysBeforeMonth t.year t.month + (t.day - 1)

/-- The seconds from 1970-01-01T00:00:00Z. -/
def unixSeconds (t : DateTime) : ℤ :=
  ((t.dayNumber : ℤ) - daysBeforeYear 1970) * 86400 +
    (t.hours * 3600 + t.minutes * 60 + t.seconds : ℕ)

/-- The fields of an ISO 8601 text, to the second and in UTC. -/
def isoFields : List (ℕ × Char) := [(4, '-'), (2, '-'), (2, 'T'), (2, ':'), (2, ':'), (2, 'Z')]

def fields (t : DateTime) : List ℕ := [t.year, t.month, t.day, t.hours, t.minutes, t.seconds]

def isoText (t : DateTime) : String := String.ofList (written isoFields t.fields)

def ofIsoText (text : String) : Option DateTime :=
  match readFields isoFields text.toList with
  | some [year, month, day, hours, minutes, seconds] =>
      some ⟨year, month, day, hours, minutes, seconds⟩
  | _ => none

theorem ofIsoText_isoText (t : DateTime) : ofIsoText t.isoText = some t := by
  rw [ofIsoText, isoText, String.toList_ofList, readFields_written rfl (by decide)]
  rfl

end DateTime

/-! ### Counting days -/

theorem daysBeforeYear_succ {year : ℕ} (h : 1 ≤ year) :
    daysBeforeYear (year + 1) = daysBeforeYear year + yearDays year := by
  obtain ⟨n, rfl⟩ := Nat.exists_eq_succ_of_ne_zero (Nat.one_le_iff_ne_zero.mp h)
  have hcenturies : n / 100 ≤ n / 4 := Nat.div_le_div_left (by norm_num) (by norm_num)
  have hfour : 100 ∣ n + 1 → 4 ∣ n + 1 := Nat.dvd_trans (by norm_num)
  have hhundred : 400 ∣ n + 1 → 100 ∣ n + 1 := Nat.dvd_trans (by norm_num)
  have hyear : yearDays n.succ = 365 + (if 4 ∣ n + 1 then 1 else 0) -
      (if 100 ∣ n + 1 then 1 else 0) +
      if 400 ∣ n + 1 then 1 else 0 := by
    rw [yearDays, Nat.succ_eq_add_one]
    split_ifs with hleap <;> rw [LeapYear] at hleap <;> tauto
  rw [hyear, daysBeforeYear, daysBeforeYear, Nat.succ_eq_add_one, Nat.add_sub_cancel,
    Nat.add_sub_cancel, Nat.succ_div, Nat.succ_div, Nat.succ_div]
  generalize n / 4 = fours at *
  generalize n / 100 = hundreds at *
  split_ifs at * <;> omega

theorem daysBeforeMonth_succ (year : ℕ) {month : ℕ} (h : 1 ≤ month) :
    daysBeforeMonth year (month + 1) = daysBeforeMonth year month + daysInMonth year month := by
  obtain ⟨month, rfl⟩ := Nat.exists_eq_succ_of_ne_zero (Nat.one_le_iff_ne_zero.mp h)
  rw [daysBeforeMonth, daysBeforeMonth, Nat.succ_eq_add_one, Nat.add_sub_cancel, Nat.add_sub_cancel,
    List.range_succ, List.map_append, List.sum_append]
  simp

/-- The twelve months make up the year. -/
theorem daysBeforeMonth_end (year : ℕ) : daysBeforeMonth year 13 = yearDays year := by
  simp only [daysBeforeMonth, List.range_succ, List.range_zero, List.nil_append, List.map_append,
    List.sum_append, List.map_cons, List.map_nil, List.sum_cons, List.sum_nil,
    daysInMonth, yearDays]
  split_ifs <;> rfl

theorem yearDays_le (year : ℕ) : yearDays year ≤ 366 := by
  rw [yearDays]
  split_ifs <;> omega

theorem daysInMonth_le (year month : ℕ) : daysInMonth year month ≤ 31 := by
  rw [daysInMonth.eq_def]
  split
  · split_ifs <;> omega
  all_goals omega

theorem daysBeforeYear_mono {a b : ℕ} (ha : 1 ≤ a) (hab : a ≤ b) :
    daysBeforeYear a ≤ daysBeforeYear b := by
  induction b, hab using Nat.le_induction with
  | base => exact le_rfl
  | succ b hab ih =>
      rw [daysBeforeYear_succ (ha.trans hab)]
      exact ih.trans (Nat.le_add_right _ _)

theorem daysBeforeMonth_mono (year : ℕ) {a b : ℕ} (ha : 1 ≤ a) (hab : a ≤ b) :
    daysBeforeMonth year a ≤ daysBeforeMonth year b := by
  induction b, hab using Nat.le_induction with
  | base => exact le_rfl
  | succ b hab ih =>
      rw [daysBeforeMonth_succ year (ha.trans hab)]
      exact ih.trans (Nat.le_add_right _ _)

namespace DateTime

/-- The date lies within its month, and the month within its year. -/
theorem Valid.dayNumber_lt {t : DateTime} (h : t.Valid) :
    t.dayNumber < daysBeforeYear t.year + daysBeforeMonth t.year (t.month + 1) ∧
      t.dayNumber < daysBeforeYear (t.year + 1) := by
  have hmonth := daysBeforeMonth_succ t.year h.month.1
  have hyear := daysBeforeMonth_mono t.year (Nat.le_add_left 1 t.month)
    (Nat.add_le_add_right h.month.2 1)
  rw [daysBeforeMonth_end] at hyear
  have hday := h.day
  rw [daysBeforeYear_succ h.year, dayNumber]
  omega

/-- Of two dates, the one with the lesser fields is the earlier. -/
theorem Valid.unixSeconds_lt {a b : DateTime} (ha : a.Valid) (hb : b.Valid)
    (h : a.fields < b.fields) : a.unixSeconds < b.unixSeconds := by
  have hday := ha.day
  have hday' := hb.day
  have hhours := ha.hours
  have hminutes := ha.minutes
  have hseconds := ha.seconds
  simp only [fields, List.cons_lt_cons_iff, List.lt_irrefl, and_false, or_false] at h
  rw [unixSeconds, unixSeconds]
  rcases h with hlt | ⟨heq, hlt | ⟨heq', h⟩⟩
  · have hyears := daysBeforeYear_mono (Nat.le_add_left 1 a.year) hlt
    have hnumber := ha.dayNumber_lt.2
    rw [dayNumber.eq_def b]
    omega
  · have hmonths := daysBeforeMonth_mono a.year (Nat.le_add_left 1 a.month) hlt
    have hnumber := ha.dayNumber_lt.1
    rw [dayNumber.eq_def b, ← heq]
    omega
  · rw [dayNumber, dayNumber, heq, heq']
    omega

theorem Valid.unixSeconds_le {a b : DateTime} (ha : a.Valid) (hb : b.Valid)
    (h : a.fields ≤ b.fields) : a.unixSeconds ≤ b.unixSeconds := by
  rcases lt_or_eq_of_le h with hlt | heq
  · exact (ha.unixSeconds_lt hb hlt).le
  · have hab : a = b := by
      cases a
      cases b
      simpa [fields] using heq
    rw [hab]

/-- A date before the first of a year has a lesser year. -/
theorem year_lt {t : DateTime} {year : ℕ} (hyear : 1 ≤ year)
    (hlt : t.unixSeconds < unixSeconds ⟨year, 1, 1, 0, 0, 0⟩) : t.year < year := by
  by_contra hge
  have hyears := daysBeforeYear_mono hyear (not_lt.mp hge)
  rw [unixSeconds, unixSeconds, dayNumber, dayNumber] at hlt
  dsimp only at hlt
  have hzero : daysBeforeMonth year 1 = 0 := rfl
  omega

/-- Up to the year 9999 the texts are ordered as the dates. -/
theorem Valid.isoText_lt {a b : DateTime} (ha : a.Valid) (hb : b.Valid) (hyear : a.year < 10000)
    (hyear' : b.year < 10000) (h : a.unixSeconds < b.unixSeconds) : a.isoText < b.isoText := by
  have hfits {t : DateTime} (ht : t.Valid) (hyear : t.year < 10000) :
      List.Forall₂ (fun field n => n < 10 ^ field.1) isoFields t.fields := by
    have hmonth := ht.month
    have hday := ht.day.2.trans (daysInMonth_le _ _)
    have hhours := ht.hours
    have hminutes := ht.minutes
    have hseconds := ht.seconds
    simp only [isoFields, fields, List.forall₂_cons, List.Forall₂.nil, and_true]
    omega
  have hfields : a.fields < b.fields := not_le.mp fun hle => not_lt.mpr (hb.unixSeconds_le ha hle) h
  rw [String.lt_iff, isoText, isoText, String.toList_ofList, String.toList_ofList]
  exact written_lt (by decide) (hfits ha hyear) (hfits hb hyear') hfields

end DateTime

end MonitoringAgent.Library

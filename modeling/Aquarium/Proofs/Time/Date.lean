import Aquarium.Time.Calendar
import Mathlib.Tactic.IntervalCases

/-!
# Dates of the civil calendar

A date leads to the next one by the lengths of the months. That is all the calendar says; numbering
the days, finding the date of a number and the day of the week are computed without it, in steps of
years and months. They agree with it, for years before the first one too.

* `Valid`, `next`: the rules of the calendar;
* `monthOfDay_eq`, `inYear_yearOfDays`: the month and the year that a day lies in;
* `dayNumber_next`: the number of a day counts the days one by one;
* `exists_dayNumber`, `ofDayNumber_dayNumber`: every number is that of one date, which is the one
  found for it;
* `index_weekday`: the day of the week is the number of the day in steps of seven.
-/

namespace Aquarium

namespace Date

/-! ## 1. The rules -/

/-- The days of a month. -/
def monthLength (leap : Bool) : Nat → Nat
  | 2 => if leap then 29 else 28
  | 4 | 6 | 9 | 11 => 30
  | _ => 31

/-- The days of a year. -/
def yearLength (leap : Bool) : Nat := if leap then 366 else 365

/-- A month from one to twelve and a day that it has. -/
structure Valid (d : Date) : Prop where
  month_pos : 1 ≤ d.month
  month_le : d.month ≤ 12
  day_pos : 1 ≤ d.day
  day_le : d.day ≤ monthLength (isLeap d.year) d.month

/-- The day after: of the same month, or the first of the next one. -/
def next (d : Date) : Date :=
  if d.day < monthLength (isLeap d.year) d.month then ⟨d.year, d.month, d.day + 1⟩
  else if d.month < 12 then ⟨d.year, d.month + 1, 1⟩
  else ⟨d.year + 1, 1, 1⟩

theorem monthLength_pos (leap : Bool) (month : Nat) : 1 ≤ monthLength leap month := by
  unfold monthLength
  split
  · split <;> decide
  all_goals decide

theorem Valid.next {d : Date} (h : d.Valid) : d.next.Valid := by
  unfold Date.next
  split
  · rename_i hday
    exact ⟨h.month_pos, h.month_le, Nat.succ_le_succ (Nat.zero_le _), hday⟩
  · split
    · rename_i hmonth
      exact ⟨Nat.succ_le_succ (Nat.zero_le _), hmonth, Nat.le_refl 1, monthLength_pos _ _⟩
    · exact ⟨Nat.le_refl 1, show 1 ≤ 12 by decide, Nat.le_refl 1, monthLength_pos _ _⟩

/-! ## 2. The month of a day -/

/-- A day of the year, counted from zero, lies in a month. -/
structure InMonth (leap : Bool) (month day : Nat) : Prop where
  month_pos : 1 ≤ month
  month_le : month ≤ 12
  begun : daysBeforeMonth leap month ≤ day
  upTo : day < daysBeforeMonth leap month + monthLength leap month

theorem daysBeforeMonth_succ (leap : Bool) {month : Nat} (hpos : 1 ≤ month) (hlt : month < 12) :
    daysBeforeMonth leap (month + 1) = daysBeforeMonth leap month + monthLength leap month := by
  cases leap <;> interval_cases month <;> rfl

theorem yearLength_eq (leap : Bool) :
    yearLength leap = daysBeforeMonth leap 12 + monthLength leap 12 := by
  cases leap <;> rfl

/-- A month is over before a later one begins. -/
theorem daysBeforeMonth_le (leap : Bool) {month later : Nat} (hpos : 1 ≤ month)
    (hlt : month < later) (hle : later ≤ 12) :
    daysBeforeMonth leap month + monthLength leap month ≤ daysBeforeMonth leap later := by
  induction later, hlt using Nat.le_induction with
  | base => exact (daysBeforeMonth_succ leap hpos hle).ge
  | succ later hlater ih =>
    have hbefore := ih (Nat.le_of_succ_le hle)
    have hnext := daysBeforeMonth_succ leap (show 1 ≤ later by omega) hle
    omega

/-- A day before the end of a month lies in this month or in an earlier one. -/
theorem exists_inMonth_upTo {leap : Bool} {month day : Nat} (hpos : 1 ≤ month) (hle : month ≤ 12)
    (h : day < daysBeforeMonth leap month + monthLength leap month) :
    ∃ m, InMonth leap m day := by
  induction month, hpos using Nat.le_induction with
  | base => exact ⟨1, Nat.le_refl 1, hle, by simp [daysBeforeMonth], h⟩
  | succ month hpos ih =>
    by_cases hbegun : daysBeforeMonth leap (month + 1) ≤ day
    · exact ⟨month + 1, Nat.succ_le_succ (Nat.zero_le _), hle, hbegun, h⟩
    · rw [daysBeforeMonth_succ leap hpos hle] at hbegun
      exact ih (Nat.le_of_succ_le hle) (Nat.not_le.mp hbegun)

theorem exists_inMonth {leap : Bool} {day : Nat} (h : day < yearLength leap) :
    ∃ month, InMonth leap month day := by
  rw [yearLength_eq] at h
  exact exists_inMonth_upTo (by decide) (Nat.le_refl 12) h

theorem monthOfDay_eq {leap : Bool} {month day : Nat} (h : InMonth leap month day) :
    monthOfDay leap day = month := by
  have hbegun : ∀ m ∈ List.range 12,
      decide (daysBeforeMonth leap (m + 1) ≤ day) = decide (m < month) := by
    intro m hm
    have hm : m < 12 := List.mem_range.mp hm
    refine decide_eq_decide.mpr ⟨fun hle => Nat.lt_of_not_le fun hge => ?_, fun hlt => ?_⟩
    · exact absurd (daysBeforeMonth_le leap h.month_pos (Nat.lt_succ_of_le hge) hm)
        (Nat.not_le.mpr (Nat.lt_of_le_of_lt hle h.upTo))
    · rcases Nat.lt_or_eq_of_le hlt with hearlier | hsame
      · have hover := daysBeforeMonth_le leap (Nat.succ_le_succ (Nat.zero_le m)) hearlier h.month_le
        exact Nat.le_trans (Nat.le_of_add_right_le hover) h.begun
      · rw [show m + 1 = month from hsame]
        exact h.begun
  rw [monthOfDay, List.filter_congr hbegun]
  have hpos := h.month_pos
  have hle := h.month_le
  clear hbegun h
  interval_cases month <;> rfl

/-! ## 3. The year of a day -/

/-- A day, counted from the first of January of year one, lies in a year. -/
structure InYear (year n : Int) : Prop where
  begun : daysBeforeYear year ≤ n
  upTo : n < daysBeforeYear (year + 1)

theorem daysBeforeYear_succ (year : Int) :
    daysBeforeYear (year + 1) = daysBeforeYear year + yearLength (isLeap year) := by
  simp only [daysBeforeYear, yearLength, isLeap, Bool.and_eq_true, Bool.or_eq_true, beq_iff_eq,
    bne_iff_ne, ne_eq]
  split <;> omega

theorem daysBeforeYear_le {year later : Int} (h : year ≤ later) :
    daysBeforeYear year ≤ daysBeforeYear later := by
  induction later, h using Int.leInduction with
  | base => exact Int.le_refl _
  | succ later _ ih =>
    rw [daysBeforeYear_succ]
    omega

theorem InYear.unique {year year' n : Int} (h : InYear year n) (h' : InYear year' n) :
    year = year' := by
  have hle : ∀ {y y' : Int}, InYear y n → InYear y' n → y ≤ y' := fun {y y'} hy hy' => by
    refine Int.not_lt.mp fun hlt => ?_
    have := daysBeforeYear_le (show y' + 1 ≤ y from hlt)
    have := hy.begun
    have := hy'.upTo
    omega
  exact Int.le_antisymm (hle h h') (hle h' h)

/-- The days before a year in a cycle of four centuries: in a century of it, in four years of that,
and in a year of those. -/
theorem daysBeforeYear_of_cycle {cycle century four one : Int}
    (hcentury : 0 ≤ century ∧ century ≤ 3) (hfour : 0 ≤ four ∧ four ≤ 24)
    (hone : 0 ≤ one ∧ one ≤ 3) :
    daysBeforeYear (400 * cycle + 100 * century + 4 * four + one + 1) =
      146097 * cycle + 36524 * century + 1461 * four + 365 * one := by
  simp only [daysBeforeYear]
  omega

/-- A year is a leap year if it is the last of four, and not of a century, except of a cycle. -/
theorem yearLength_of_cycle {cycle century four one : Int}
    (hcentury : 0 ≤ century ∧ century ≤ 3) (hfour : 0 ≤ four ∧ four ≤ 24)
    (hone : 0 ≤ one ∧ one ≤ 3) :
    yearLength (isLeap (400 * cycle + 100 * century + 4 * four + one + 1)) =
      if one = 3 ∧ (four = 24 → century = 3) then 366 else 365 := by
  simp only [yearLength, isLeap, Bool.and_eq_true, Bool.or_eq_true, beq_iff_eq, bne_iff_ne, ne_eq]
  refine if_congr ?_ rfl rfl
  omega

theorem inYear_yearOfDays (n : Int) : InYear (yearOfDays n) n := by
  -- each rest is less than its cycle, but the last century and the last year have a day more
  obtain ⟨cycle, hcycle⟩ : ∃ c, c = n / 146097 := ⟨_, rfl⟩
  obtain ⟨century, hcentury⟩ : ∃ c, c = min (n % 146097 / 36524) 3 := ⟨_, rfl⟩
  obtain ⟨four, hfour⟩ : ∃ f, f = (n % 146097 - century * 36524) / 1461 := ⟨_, rfl⟩
  obtain ⟨one, hone⟩ : ∃ o, o = min ((n % 146097 - century * 36524) % 1461 / 365) 3 := ⟨_, rfl⟩
  have hyear : yearOfDays n = 400 * cycle + 100 * century + 4 * four + one + 1 := by
    rw [hone, hfour, hcentury, hcycle]
    rfl
  have hc : 0 ≤ century ∧ century ≤ 3 := by omega
  have hf : 0 ≤ four ∧ four ≤ 24 := by omega
  have ho : 0 ≤ one ∧ one ≤ 3 := by omega
  constructor
  · rw [hyear, daysBeforeYear_of_cycle hc hf ho]
    omega
  · rw [hyear, daysBeforeYear_succ, daysBeforeYear_of_cycle hc hf ho, yearLength_of_cycle hc hf ho]
    split <;> omega

/-! ## 4. The number of a day -/

theorem dayNumber_next {d : Date} (h : d.Valid) : d.next.dayNumber = d.dayNumber + 1 := by
  have hday := h.day_le
  have hpos := h.month_pos
  unfold next
  split
  · simp only [dayNumber]
    omega
  · split
    · rename_i hmonth
      simp only [dayNumber, daysBeforeMonth_succ _ hpos hmonth]
      omega
    · have hdecember : d.month = 12 := by
        have := h.month_le
        omega
      have hjanuary : daysBeforeMonth (isLeap (d.year + 1)) 1 = 0 := by simp [daysBeforeMonth]
      have hlength := yearLength_eq (isLeap d.year)
      rename_i hlast _
      rw [hdecember] at hday hlast
      simp only [dayNumber, daysBeforeYear_succ, hjanuary, hdecember]
      omega

/-- The day of the year of a date lies in its month. -/
theorem Valid.inMonth {d : Date} (h : d.Valid) :
    InMonth (isLeap d.year) d.month (daysBeforeMonth (isLeap d.year) d.month + d.day - 1) := by
  have := h.day_pos
  have := h.day_le
  exact ⟨h.month_pos, h.month_le, by omega, by omega⟩

theorem InMonth.lt_yearLength {leap : Bool} {month day : Nat} (h : InMonth leap month day) :
    day < yearLength leap := by
  have hover := h.upTo
  rw [yearLength_eq]
  rcases Nat.lt_or_eq_of_le h.month_le with hlt | heq
  · have := daysBeforeMonth_le leap h.month_pos hlt (Nat.le_refl 12)
    omega
  · rwa [heq] at hover

/-- The day of the year `year` that is number `day` of it, counted from zero. -/
theorem inYear_add {year : Int} {day : Nat} (h : day < yearLength (isLeap year)) :
    InYear year (daysBeforeYear year + day) := by
  refine ⟨by omega, ?_⟩
  rw [daysBeforeYear_succ]
  omega

/-- **The date found for the number of a day is that day.** -/
theorem ofDayNumber_dayNumber {d : Date} (h : d.Valid) : ofDayNumber d.dayNumber = d := by
  obtain ⟨year, month, day⟩ := d
  have hpos : 1 ≤ day := h.day_pos
  have hday : dayNumber ⟨year, month, day⟩ + epochDays =
      daysBeforeYear year + (daysBeforeMonth (isLeap year) month + day - 1 : Nat) := by
    simp only [dayNumber]
    omega
  have hyear : yearOfDays (dayNumber ⟨year, month, day⟩ + epochDays) = year := by
    rw [hday]
    exact (inYear_yearOfDays _).unique (inYear_add h.inMonth.lt_yearLength)
  have hmonth : monthOfDay (isLeap year) (daysBeforeMonth (isLeap year) month + day - 1) = month :=
    monthOfDay_eq h.inMonth
  simp only [ofDayNumber, hyear]
  simp only [hday, add_sub_cancel_left, Int.toNat_natCast, hmonth, mk.injEq, true_and]
  omega

/-- **Every number is that of a day.** -/
theorem exists_dayNumber (n : Int) : ∃ d : Date, d.Valid ∧ d.dayNumber = n := by
  have hyear := inYear_yearOfDays (n + epochDays)
  generalize yearOfDays (n + epochDays) = year at hyear
  have hlength := daysBeforeYear_succ year
  have hbegun := hyear.begun
  have hover := hyear.upTo
  have hday : (n + epochDays - daysBeforeYear year).toNat < yearLength (isLeap year) := by omega
  obtain ⟨month, hmonth⟩ := exists_inMonth hday
  have hfirst := hmonth.begun
  have hlast := hmonth.upTo
  refine ⟨⟨year, month, (n + epochDays - daysBeforeYear year).toNat -
    daysBeforeMonth (isLeap year) month + 1⟩, ⟨hmonth.month_pos, hmonth.month_le, ?_, ?_⟩, ?_⟩
  · exact Nat.succ_le_succ (Nat.zero_le _)
  · show _ + 1 ≤ monthLength (isLeap year) month
    omega
  · simp only [dayNumber]
    omega

theorem valid_ofDayNumber (n : Int) : (ofDayNumber n).Valid := by
  obtain ⟨d, hd, rfl⟩ := exists_dayNumber n
  rwa [ofDayNumber_dayNumber hd]

@[simp] theorem dayNumber_ofDayNumber (n : Int) : (ofDayNumber n).dayNumber = n := by
  obtain ⟨d, hd, rfl⟩ := exists_dayNumber n
  rw [ofDayNumber_dayNumber hd]

/-! ## 5. The day of the week -/

/-- A leap day shifts the months from March on. -/
theorem daysBeforeMonth_leap (leap : Bool) (month : Nat) :
    daysBeforeMonth leap month =
      daysBeforeMonth false month + if 2 < month then yearLength leap - 365 else 0 := by
  cases leap
  · simp [yearLength]
  · simp only [daysBeforeMonth, yearLength, Bool.true_and, Bool.false_and, decide_eq_true_eq]
    split <;> rfl

/-- From March on the congruence starts from the year itself, and with it a day later: a year has a
day more than its weeks. -/
theorem monthShift_mod {month : Nat} (hpos : 1 ≤ month) (hle : month ≤ 12) :
    (monthShift month + if 2 < month then 1 else 0) % 7 = daysBeforeMonth false month % 7 := by
  interval_cases month <;> rfl

/-- **The day of the week is the number of the day in steps of seven.** The first of January 1970
was a Thursday. -/
theorem index_weekday {d : Date} (h : d.Valid) :
    (d.weekday.index : Int) = (d.dayNumber + 4) % 7 := by
  have hshift := monthShift_mod h.month_pos h.month_le
  have hleap := daysBeforeMonth_leap (isLeap d.year) d.month
  have hyear := daysBeforeYear_succ d.year
  have hlength : 365 ≤ yearLength (isLeap d.year) := by
    unfold yearLength
    split <;> decide
  simp only [daysBeforeYear, add_sub_cancel_right] at hyear
  simp only [weekday, daysFromMonday, Day.index_ofMonday, dayNumber, daysBeforeYear, epochDays]
  by_cases hmarch : 2 < d.month
  · rw [if_pos hmarch] at hshift hleap
    rw [if_neg (Nat.not_lt.mpr hmarch)]
    omega
  · rw [if_neg hmarch] at hshift hleap
    rw [if_pos (Nat.lt_succ_of_le (Nat.not_lt.mp hmarch))]
    omega

end Date

end Aquarium

import Mathlib

/-!
# The proleptic Gregorian calendar

Days are counted from 1970-01-01, months through all years. A month begins where the month before
it ends, so a day lies in one month only.
-/
namespace MetriEngine.Foundation.Calendar

/-! ### Years -/

def IsLeap (year : ℤ) : Prop := year % 4 = 0 ∧ year % 100 ≠ 0 ∨ year % 400 = 0

instance (year : ℤ) : Decidable (IsLeap year) := inferInstanceAs (Decidable (_ ∨ _))

/-- The day on which a year begins. -/
def yearStart (year : ℤ) : ℤ :=
  365 * (year - 1) + (year - 1) / 4 - (year - 1) / 100 + (year - 1) / 400 - 719162

/-- The year of a day, through its place in the cycles of 400, 100, 4 and one year. -/
def yearOf (day : ℤ) : ℤ :=
  let d400 := (day + 719162) % 146097
  let d100 := d400 - 36524 * min (d400 / 36524) 3
  let d4 := d100 % 1461
  400 * ((day + 719162) / 146097) + 100 * min (d400 / 36524) 3 + 4 * (d100 / 1461) +
    min (d4 / 365) 3 + 1

theorem yearStart_succ (year : ℤ) :
    yearStart (year + 1) = yearStart year + if IsLeap year then 366 else 365 := by
  rw [yearStart, yearStart]
  split_ifs with h
  · rw [IsLeap] at h
    omega
  · rw [IsLeap] at h
    omega

/-- A year within its cycles. -/
theorem yearStart_cycles {a b c d : ℤ} (hb : 0 ≤ b ∧ b ≤ 3) (hc : 0 ≤ c ∧ c ≤ 24)
    (hd : 0 ≤ d ∧ d ≤ 3) :
    yearStart (400 * a + 100 * b + 4 * c + d + 1) =
      146097 * a + 36524 * b + 1461 * c + 365 * d - 719162 := by
  have hquarter : (400 * a + 100 * b + 4 * c + d) / 4 = 100 * a + 25 * b + c := by omega
  have hcentury : (400 * a + 100 * b + 4 * c + d) / 100 = 4 * a + b := by omega
  have hcycle : (400 * a + 100 * b + 4 * c + d) / 400 = a := by omega
  rw [yearStart, add_sub_cancel_right, hquarter, hcentury, hcycle]
  ring

theorem isLeap_cycles {a b c d : ℤ} (hb : 0 ≤ b ∧ b ≤ 3) (hc : 0 ≤ c ∧ c ≤ 24)
    (hd : 0 ≤ d ∧ d ≤ 3) :
    IsLeap (400 * a + 100 * b + 4 * c + d + 1) ↔ d = 3 ∧ (c ≠ 24 ∨ b = 3) := by
  rw [IsLeap]
  omega

/-- The place of a day in the cycles. -/
theorem day_cycles (day : ℤ) : ∃ a b c d rest : ℤ, yearOf day = 400 * a + 100 * b + 4 * c + d + 1 ∧
    day + 719162 = 146097 * a + 36524 * b + 1461 * c + 365 * d + rest ∧
    (0 ≤ b ∧ b ≤ 3) ∧ (0 ≤ c ∧ c ≤ 24) ∧ (0 ≤ d ∧ d ≤ 3) ∧ 0 ≤ rest ∧
    (rest < 365 ∨ rest = 365 ∧ d = 3 ∧ (c ≠ 24 ∨ b = 3)) := by
  set d400 := (day + 719162) % 146097 with h400
  set b := min (d400 / 36524) 3 with hb
  set d100 := d400 - 36524 * b with h100
  have hsplit : day + 719162 = 146097 * ((day + 719162) / 146097) + d400 := by omega
  have hcycle : 0 ≤ d400 ∧ d400 < 146097 := by omega
  have hcentury : (0 ≤ b ∧ b ≤ 3) ∧ 0 ≤ d100 ∧ (d100 < 36524 ∨ b = 3 ∧ d100 ≤ 36524) := by omega
  refine ⟨(day + 719162) / 146097, b, d100 / 1461, min (d100 % 1461 / 365) 3,
    d100 % 1461 - 365 * min (d100 % 1461 / 365) 3, rfl, ?_, hcentury.1, ?_, ?_, ?_, ?_⟩
  · clear_value d400 b
    omega
  all_goals
    clear_value d100
    clear hsplit h400 hb
    omega

theorem yearOf_spec (day : ℤ) :
    yearStart (yearOf day) ≤ day ∧ day < yearStart (yearOf day + 1) := by
  obtain ⟨a, b, c, d, rest, hyear, hday, hb, hc, hd, h0, hrest⟩ := day_cycles day
  have hleap := isLeap_cycles (a := a) hb hc hd
  rw [yearStart_succ, hyear, yearStart_cycles hb hc hd]
  split_ifs with h
  · omega
  · rw [hleap] at h
    omega

/-! ### Months -/

/-- The days of a year before a month, months counted from 1. -/
def daysBefore (year month : ℤ) : ℤ :=
  (367 * month - 362) / 12 - if month ≤ 2 then 0 else if IsLeap year then 1 else 2

def daysInMonth (year month : ℤ) : ℤ := daysBefore year (month + 1) - daysBefore year month

/-- The month of a day of the year, days counted from 0. -/
def monthOf (year dayOfYear : ℤ) : ℤ :=
  (12 * (dayOfYear + if dayOfYear < daysBefore year 3 then 0 else if IsLeap year then 1 else 2) +
    373) / 367

structure Date where
  year : ℤ
  month : ℤ
  day : ℤ
deriving DecidableEq

/-- A date that exists. -/
structure Date.Valid (d : Date) : Prop where
  month : 1 ≤ d.month ∧ d.month ≤ 12
  day : 1 ≤ d.day ∧ d.day ≤ daysInMonth d.year d.month

instance (d : Date) : Decidable d.Valid :=
  decidable_of_iff ((1 ≤ d.month ∧ d.month ≤ 12) ∧ 1 ≤ d.day ∧ d.day ≤ daysInMonth d.year d.month)
    ⟨fun h => ⟨h.1, h.2⟩, fun h => ⟨h.month, h.day⟩⟩

/-- The day of a date. -/
def Date.toDay (d : Date) : ℤ := yearStart d.year + daysBefore d.year d.month + d.day - 1

def dateOf (day : ℤ) : Date :=
  let year := yearOf day
  let dayOfYear := day - yearStart year
  let month := monthOf year dayOfYear
  ⟨year, month, dayOfYear - daysBefore year month + 1⟩

theorem monthOf_spec {year dayOfYear : ℤ} (h0 : 0 ≤ dayOfYear)
    (hlt : dayOfYear < if IsLeap year then 366 else 365) :
    (1 ≤ monthOf year dayOfYear ∧ monthOf year dayOfYear ≤ 12) ∧
      daysBefore year (monthOf year dayOfYear) ≤ dayOfYear ∧
        dayOfYear < daysBefore year (monthOf year dayOfYear + 1) := by
  have hmarch : daysBefore year 3 = if IsLeap year then 60 else 59 := by
    rw [daysBefore]
    split_ifs <;> omega
  rw [daysBefore, daysBefore, monthOf, hmarch]
  split_ifs at hlt ⊢ <;> omega

/-- Every day has a date. -/
theorem dateOf_spec (day : ℤ) : (dateOf day).Valid ∧ (dateOf day).toDay = day := by
  obtain ⟨hle, hlt⟩ := yearOf_spec day
  rw [yearStart_succ] at hlt
  have hlength : day - yearStart (yearOf day) < if IsLeap (yearOf day) then 366 else 365 := by omega
  obtain ⟨hmonth, hfirst, hlast⟩ := monthOf_spec (sub_nonneg.mpr hle) hlength
  refine ⟨⟨hmonth, ?_, ?_⟩, ?_⟩
  · simp only [dateOf]
    omega
  · simp only [dateOf, daysInMonth]
    omega
  · simp only [dateOf, Date.toDay]
    ring

/-- The first day of a month. -/
def Date.first (d : Date) : Date := ⟨d.year, d.month, 1⟩

/-- The first day of the month after. -/
def Date.next (d : Date) : Date :=
  if d.month = 12 then ⟨d.year + 1, 1, 1⟩ else ⟨d.year, d.month + 1, 1⟩

theorem Date.toDay_next (d : Date) :
    d.next.toDay = d.first.toDay + daysInMonth d.year d.month := by
  rw [next, first, toDay, toDay, daysInMonth]
  split_ifs with hlast
  · rw [yearStart_succ, hlast]
    have hjanuary : daysBefore (d.year + 1) 1 = 0 := rfl
    have hend : daysBefore d.year (12 + 1) = if IsLeap d.year then 366 else 365 := by
      rw [daysBefore]
      split_ifs <;> omega
    simp only [hjanuary, hend]
    ring
  · simp only
    ring

theorem yearStart_strictMono : StrictMono yearStart := by
  apply strictMono_int_of_lt_succ
  intro year
  rw [yearStart_succ]
  split_ifs <;> omega

theorem daysBefore_mono (year : ℤ) {month month' : ℤ} (h : month ≤ month') :
    daysBefore year month ≤ daysBefore year month' := by
  rw [daysBefore, daysBefore]
  split_ifs <;> omega

/-- A date lies in its year. -/
theorem Date.Valid.inYear {d : Date} (h : d.Valid) :
    yearStart d.year ≤ d.toDay ∧ d.toDay < yearStart (d.year + 1) := by
  have hfirst : daysBefore d.year 1 ≤ daysBefore d.year d.month := daysBefore_mono _ h.month.1
  have hlast : daysBefore d.year (d.month + 1) ≤ daysBefore d.year 13 :=
    daysBefore_mono _ (by have := h.month.2; omega)
  have hjanuary : daysBefore d.year 1 = 0 := rfl
  have hend : daysBefore d.year 13 = if IsLeap d.year then 366 else 365 := by
    rw [daysBefore]
    split_ifs <;> omega
  obtain ⟨hday, hday'⟩ := h.day
  rw [daysInMonth] at hday'
  rw [yearStart_succ, toDay]
  omega

/-- A day has one date only. -/
theorem Date.Valid.eq_of_toDay_eq {d d' : Date} (h : d.Valid) (h' : d'.Valid)
    (heq : d.toDay = d'.toDay) : d = d' := by
  have hyear : d.year = d'.year := by
    obtain ⟨hle, hlt⟩ := h.inYear
    obtain ⟨hle', hlt'⟩ := h'.inYear
    have h1 : d.year < d'.year + 1 := yearStart_strictMono.lt_iff_lt.mp (by omega)
    have h2 : d'.year < d.year + 1 := yearStart_strictMono.lt_iff_lt.mp (by omega)
    omega
  obtain ⟨hday, hlast⟩ := h.day
  obtain ⟨hday', hlast'⟩ := h'.day
  rw [daysInMonth] at hlast hlast'
  rw [toDay, toDay, ← hyear] at heq
  rw [← hyear] at hlast'
  have hmonth : d.month = d'.month := by
    rcases lt_trichotomy d.month d'.month with hlt | hmonth | hlt
    · have := daysBefore_mono d.year (Int.add_one_le_of_lt hlt)
      omega
    · exact hmonth
    · have := daysBefore_mono d.year (Int.add_one_le_of_lt hlt)
      omega
  cases d
  cases d'
  simp only at hyear hmonth heq
  subst hyear hmonth
  congr 1
  omega

theorem dateOf_toDay {d : Date} (h : d.Valid) : dateOf d.toDay = d :=
  (dateOf_spec d.toDay).1.eq_of_toDay_eq h (dateOf_spec d.toDay).2

theorem Date.Valid.first {d : Date} (h : d.Valid) : d.first.Valid :=
  ⟨h.month, le_rfl, h.day.1.trans h.day.2⟩

/-- The day of a date lies between the first of its month and the first of the month after. -/
theorem Date.Valid.inMonth {d : Date} (h : d.Valid) :
    d.first.toDay ≤ d.toDay ∧ d.toDay < d.next.toDay := by
  obtain ⟨hday, hlast⟩ := h.day
  rw [toDay_next, Date.first, toDay, toDay]
  simp only
  omega

/-! ### Months through all years -/

/-- The number of a month, counted from January of the year 0. -/
def Date.monthIndex (d : Date) : ℤ := 12 * d.year + d.month - 1

/-- The first day of a month. -/
def monthStart (i : ℤ) : ℤ := (⟨i / 12, i % 12 + 1, 1⟩ : Date).toDay

theorem daysInMonth_pos (year : ℤ) {month : ℤ} (h : 1 ≤ month ∧ month ≤ 12) :
    28 ≤ daysInMonth year month ∧ daysInMonth year month ≤ 31 := by
  rw [daysInMonth, daysBefore, daysBefore]
  split_ifs <;> omega

theorem monthStart_succ (i : ℤ) :
    monthStart (i + 1) = monthStart i + daysInMonth (i / 12) (i % 12 + 1) := by
  have hnext : (⟨(i + 1) / 12, (i + 1) % 12 + 1, 1⟩ : Date) =
      (⟨i / 12, i % 12 + 1, 1⟩ : Date).next := by
    rw [Date.next]
    split_ifs with h <;> simp only [Date.mk.injEq, and_true] at h ⊢ <;> omega
  rw [monthStart, hnext, Date.toDay_next]
  rfl

theorem monthStart_strictMono : StrictMono monthStart := by
  apply strictMono_int_of_lt_succ
  intro i
  have := daysInMonth_pos (i / 12) (by omega : 1 ≤ i % 12 + 1 ∧ i % 12 + 1 ≤ 12)
  rw [monthStart_succ]
  omega

theorem monthStart_monthIndex {d : Date} (h : d.Valid) : monthStart d.monthIndex = d.first.toDay := by
  have hmonth := h.month
  have hdate : (⟨d.monthIndex / 12, d.monthIndex % 12 + 1, 1⟩ : Date) = d.first := by
    rw [Date.first, Date.mk.injEq, Date.monthIndex]
    omega
  rw [monthStart, hdate]

/-- A date lies in its month. -/
theorem Date.Valid.between_months {d : Date} (h : d.Valid) :
    monthStart d.monthIndex ≤ d.toDay ∧ d.toDay < monthStart (d.monthIndex + 1) := by
  have hmonth := h.month
  have hplace : d.monthIndex / 12 = d.year ∧ d.monthIndex % 12 + 1 = d.month := by
    rw [Date.monthIndex]
    omega
  obtain ⟨hle, hlt⟩ := h.inMonth
  rw [toDay_next] at hlt
  rw [monthStart_succ, hplace.1, hplace.2, monthStart_monthIndex h]
  exact ⟨hle, hlt⟩

/-- A date some months later, its day cut to the length of the month. -/
def Date.addMonths (d : Date) (months : ℤ) : Date :=
  let i := d.monthIndex + months
  ⟨i / 12, i % 12 + 1, min d.day (daysInMonth (i / 12) (i % 12 + 1))⟩

theorem Date.Valid.addMonths {d : Date} (h : d.Valid) (months : ℤ) : (d.addMonths months).Valid := by
  have hmonth : 1 ≤ (d.monthIndex + months) % 12 + 1 ∧ (d.monthIndex + months) % 12 + 1 ≤ 12 := by
    omega
  have hlength := daysInMonth_pos ((d.monthIndex + months) / 12) hmonth
  have hday := h.day.1
  refine ⟨hmonth, ?_, min_le_right ..⟩
  simp only [Date.addMonths]
  omega

theorem Date.addMonths_monthIndex (d : Date) (months : ℤ) :
    (d.addMonths months).monthIndex = d.monthIndex + months := by
  rw [Date.monthIndex, Date.addMonths]
  dsimp only
  omega

/-- A day is the first of its month, and what its date says further. -/
theorem Date.Valid.toDay_eq {d : Date} (h : d.Valid) :
    d.toDay = monthStart d.monthIndex + d.day - 1 := by
  rw [monthStart_monthIndex h, Date.first, Date.toDay, Date.toDay]
  ring

theorem Date.toDay_addMonths {d : Date} (h : d.Valid) (months : ℤ) :
    (d.addMonths months).toDay = monthStart (d.monthIndex + months) +
      min d.day (daysInMonth ((d.monthIndex + months) / 12) ((d.monthIndex + months) % 12 + 1)) -
        1 := by
  rw [(h.addMonths months).toDay_eq, Date.addMonths_monthIndex]
  rfl

example : dateOf 20592 = ⟨2026, 5, 19⟩ ∧ dateOf (-1) = ⟨1969, 12, 31⟩ := by decide

end MetriEngine.Foundation.Calendar

import MetriEngine.Foundation.Scales
import MetriEngine.Temporal.Core

/-!
# Truncation to the start of a unit

The units of the calendar are scales of marks: minutes, hours, days and weeks at equal steps, and
months, quarters and years at the first days of months. In UTC an instant is truncated to the
greatest mark not after it, but for minutes and hours before 1970, the last day of May, and what
lies outside the years 1 to 9999.
-/
namespace MetriEngine.Temporal
open Foundation Foundation.Calendar

/-! ### Marks -/

/-- The starts of a unit in UTC. -/
def unitStart : CalUnit → ℤ → ℤ
  | .minute, i => 60 * i + 0
  | .hour, i => 3600 * i + 0
  | .day, i => 86400 * i + 0
  -- 1970-01-05 was a Monday
  | .week, i => 604800 * i + 345600
  | .month, i => monthStart (1 * i) * 86400
  | .quarter, i => monthStart (3 * i) * 86400
  | .year, i => monthStart (12 * i) * 86400

theorem unitStart_strictMono (unit : CalUnit) : StrictMono (unitStart unit) := by
  cases unit
  case minute => exact strictMono_steps (by norm_num) 0
  case hour => exact strictMono_steps (by norm_num) 0
  case day => exact strictMono_steps (by norm_num) 0
  case week => exact strictMono_steps (by norm_num) 345600
  case month => exact strictMono_every monthStart_strictMono (by norm_num) (by norm_num)
  case quarter => exact strictMono_every monthStart_strictMono (by norm_num) (by norm_num)
  case year => exact strictMono_every monthStart_strictMono (by norm_num) (by norm_num)

/-- UTC. -/
abbrev utc : Zone := .fixed 0

/-- The local date of an instant in UTC. -/
def dayDate (t : ℤ) : Date := dateOf (t / 86400)

/-- The start of the unit of `k` months that an instant lies in. -/
theorem between_months {k : ℤ} (hk : 0 < k) (t : ℤ) :
    monthStart (k * ((dayDate t).monthIndex / k)) * 86400 ≤ t ∧
      t < monthStart (k * ((dayDate t).monthIndex / k + 1)) * 86400 := by
  obtain ⟨hvalid, hday⟩ := dateOf_spec (t / 86400)
  have hmonths := hvalid.between_months
  rw [hday] at hmonths
  have hsplit := Int.mul_ediv_self_le (x := (dayDate t).monthIndex) hk.ne'
  have hnext := Int.lt_mul_ediv_self_add (x := (dayDate t).monthIndex) hk
  have hlow : monthStart (k * ((dayDate t).monthIndex / k)) ≤ t / 86400 :=
    (monthStart_strictMono.monotone hsplit).trans hmonths.1
  have hhigh : t / 86400 < monthStart (k * ((dayDate t).monthIndex / k + 1)) :=
    hmonths.2.trans_le (monthStart_strictMono.monotone (by rw [mul_add, mul_one]; exact hnext))
  omega

/-! ### What the code computes in UTC -/

/-- The unit is truncated over the date library, which has the years 1 to 9999 only. -/
def OverDates (unit : CalUnit) : Prop := unit ≠ .minute ∧ unit ≠ .hour

theorem epochToZdt_mem (t : ℤ) : minSecs ≤ epochToZdt t ∧ epochToZdt t ≤ maxSecs := by
  have : minSecs ≤ maxSecs := by decide
  rw [epochToZdt]
  omega

theorem truncateToUnit_clamped {unit : CalUnit} (h : OverDates unit) (t : ℤ) (zone : Zone) :
    truncateToUnit t unit zone = truncateToUnit (epochToZdt t) unit zone := by
  obtain ⟨hminute, hhour⟩ := h
  have hmem := epochToZdt_mem t
  cases unit <;> simp_all [truncateToUnit, epochToZdt_of_mem]

theorem withDate_utc {d : Date} (h : d.Valid) (t : ℤ) :
    utc.withDate d t = some (d.toDay * 86400 + t % 86400) := by
  rw [withDate_fixed 0 t h, add_zero, sub_zero]

theorem dateAt_utc (t : ℤ) : utc.dateAt t = dayDate t := by
  change dateOf ((t + 0) / 86400) = dateOf (t / 86400)
  rw [add_zero]

theorem day0_utc (day t : ℤ) : utc.day0 (day * 86400 + t % 86400) = day * 86400 := by
  rw [day0_fixed]
  omega

/-- The date of an instant of another day at the same time. -/
theorem dayDate_toDay {d : Date} (h : d.Valid) (t : ℤ) :
    dayDate (d.toDay * 86400 + t % 86400) = d := by
  have hday : (d.toDay * 86400 + t % 86400) / 86400 = d.toDay := by omega
  rw [dayDate, hday, dateOf_toDay h]

/-- The last day of May, which no first month of a quarter has. -/
def LastOfMay (t : ℤ) : Prop := (dayDate t).month = 5 ∧ (dayDate t).day = 31

instance (t : ℤ) : Decidable (LastOfMay t) := inferInstanceAs (Decidable (_ ∧ _))

/-- The date of the same day in the first month of the quarter. -/
def quarterDate (t : ℤ) : Date :=
  ⟨(dayDate t).year, ((dayDate t).month - 1) / 3 * 3 + 1, (dayDate t).day⟩

theorem withMonth_quarter (t : ℤ) :
    utc.withMonth (((utc.dateAt t).month - 1) / 3 * 3 + 1) t = utc.withDate (quarterDate t) t := by
  rw [Zone.withMonth, dateAt_utc]
  rfl

theorem quarterDate_valid_iff (t : ℤ) : (quarterDate t).Valid ↔ ¬LastOfMay t := by
  have hvalid : (dayDate t).Valid := (dateOf_spec (t / 86400)).1
  rw [LastOfMay, quarterDate]
  generalize dayDate t = d at hvalid
  obtain ⟨hmonth, hday, hlast⟩ := hvalid
  have hquarter : 1 ≤ (d.month - 1) / 3 * 3 + 1 ∧ (d.month - 1) / 3 * 3 + 1 ≤ 12 := by omega
  rw [← daysInMonth_eq _ hmonth, daysInMonth] at hlast
  constructor
  · rintro ⟨_, _, hfirst⟩ ⟨hmay, hend⟩
    dsimp only at hfirst
    rw [← daysInMonth_eq _ hquarter, daysInMonth, hmay, hend] at hfirst
    norm_num at hfirst
  · intro hmay
    refine ⟨hquarter, hday, ?_⟩
    dsimp only
    rw [← daysInMonth_eq _ hquarter, daysInMonth]
    split_ifs at hlast ⊢ <;> omega

theorem quarterStart_ne {t : ℤ} (hmay : LastOfMay t) (i : ℤ) :
    unitStart .quarter i ≠ t - t % 86400 := by
  intro hi
  rw [unitStart] at hi
  have hday : t / 86400 = (⟨3 * i / 12, 3 * i % 12 + 1, 1⟩ : Date).toDay := by
    change t / 86400 = monthStart (3 * i)
    omega
  have hvalid : (⟨3 * i / 12, 3 * i % 12 + 1, 1⟩ : Date).Valid := by
    have hmonth : 1 ≤ 3 * i % 12 + 1 ∧ 3 * i % 12 + 1 ≤ 12 := by omega
    refine ⟨hmonth, le_rfl, ?_⟩
    have := daysInMonth_pos (3 * i / 12) hmonth
    dsimp only
    omega
  have hlast := hmay.2
  rw [dayDate, hday, dateOf_toDay hvalid] at hlast
  norm_num at hlast

section InRange
variable {t : ℤ} (hmin : minSecs ≤ t) (hmax : t ≤ maxSecs)
include hmin hmax

theorem truncate_day_utc : truncateToUnit t .day utc = unitStart .day (t / 86400) := by
  simp only [truncateToUnit, epochToZdt_of_mem hmin hmax, day0_fixed, unitStart]
  omega

theorem truncate_week_utc :
    truncateToUnit t .week utc = unitStart .week ((t - 345600) / 604800) := by
  rw [truncate_week_fixed 0 t hmin hmax, unitStart]
  omega

theorem truncate_month_utc : truncateToUnit t .month utc =
    unitStart .month ((dayDate t).monthIndex / 1) := by
  have hvalid := (dateOf_spec (t / 86400)).1
  rw [truncate_month_fixed 0 t hmin hmax, unitStart, Int.ediv_one, one_mul, add_zero, sub_zero,
    dayDate, monthStart_monthIndex hvalid]

theorem truncate_quarter_utc (hmay : ¬LastOfMay t) : truncateToUnit t .quarter utc =
    unitStart .quarter ((dayDate t).monthIndex / 3) := by
  have hvalid := (quarterDate_valid_iff t).mpr hmay
  have hmonth : utc.withMonth (((utc.dateAt t).month - 1) / 3 * 3 + 1) t =
      some ((quarterDate t).toDay * 86400 + t % 86400) := by
    rw [withMonth_quarter]
    exact withDate_utc hvalid t
  have hday (s : ℤ) : utc.withDay 1 ((quarterDate t).toDay * 86400 + s % 86400) =
      some ((quarterDate t).first.toDay * 86400 + s % 86400) := by
    rw [Zone.withDay, dateAt_utc, dayDate_toDay hvalid]
    have hfirst := withDate_utc hvalid.first ((quarterDate t).toDay * 86400 + s % 86400)
    have htime : ((quarterDate t).toDay * 86400 + s % 86400) % 86400 = s % 86400 := by omega
    rwa [htime] at hfirst
  have hindex : (quarterDate t).monthIndex = 3 * ((dayDate t).monthIndex / 3) := by
    rw [Date.monthIndex, Date.monthIndex, quarterDate]
    dsimp only
    omega
  simp only [truncateToUnit, epochToZdt_of_mem hmin hmax]
  rw [hmonth, Option.bind_some, hday, Option.getD_some, day0_utc, unitStart, ← hindex,
    monthStart_monthIndex hvalid]

/-- On the last day of May the quarter starts that day. -/
theorem truncate_lastOfMay (hmay : LastOfMay t) :
    truncateToUnit t .quarter utc = t - t % 86400 := by
  have hmonth : utc.withMonth (((utc.dateAt t).month - 1) / 3 * 3 + 1) t = none := by
    have hinvalid : ¬(quarterDate t).Valid := fun h => (quarterDate_valid_iff t).mp h hmay
    rw [withMonth_quarter, Zone.withDate, Zone.mapLocal, if_neg hinvalid, Option.bind_none]
  simp only [truncateToUnit, epochToZdt_of_mem hmin hmax]
  rw [hmonth, Option.bind_none, Option.getD_none, day0_fixed, add_zero]

theorem truncate_year_utc : truncateToUnit t .year utc =
    unitStart .year ((dayDate t).monthIndex / 12) := by
  have hdate : (dayDate t).Valid := (dateOf_spec (t / 86400)).1
  have hvalid : (⟨(dayDate t).year, 1, 1⟩ : Date).Valid :=
    ⟨⟨le_rfl, by norm_num⟩, le_rfl, by
      have := daysInMonth_pos (dayDate t).year (by norm_num : (1 : ℤ) ≤ 1 ∧ (1 : ℤ) ≤ 12)
      dsimp only
      omega⟩
  have hordinal : utc.withOrdinal1 t =
      some ((⟨(dayDate t).year, 1, 1⟩ : Date).toDay * 86400 + t % 86400) := by
    rw [Zone.withOrdinal1, dateAt_utc]
    exact withDate_utc hvalid t
  have hindex : (⟨(dayDate t).year, 1, 1⟩ : Date).monthIndex =
      12 * ((dayDate t).monthIndex / 12) := by
    have hmonth := hdate.month
    rw [Date.monthIndex, Date.monthIndex]
    dsimp only
    omega
  simp only [truncateToUnit, epochToZdt_of_mem hmin hmax]
  rw [hordinal, Option.getD_some, day0_utc, unitStart, ← hindex, monthStart_monthIndex hvalid]
  rfl

theorem isTruncation_inRange {unit : CalUnit} (hdates : OverDates unit)
    (hmay : unit = .quarter → ¬LastOfMay t) :
    IsTruncation (unitStart unit) t (truncateToUnit t unit utc) := by
  have hmono := unitStart_strictMono unit
  cases unit with
  | minute => exact absurd rfl hdates.1
  | hour => exact absurd rfl hdates.2
  | day =>
    rw [truncate_day_utc hmin hmax]
    exact isTruncation_of_between hmono (by rw [unitStart]; omega) (by rw [unitStart]; omega)
  | week =>
    rw [truncate_week_utc hmin hmax]
    exact isTruncation_of_between hmono (by rw [unitStart]; omega) (by rw [unitStart]; omega)
  | month =>
    obtain ⟨hle, hlt⟩ := between_months (by norm_num : (0 : ℤ) < 1) t
    rw [truncate_month_utc hmin hmax]
    exact isTruncation_of_between hmono hle hlt
  | quarter =>
    obtain ⟨hle, hlt⟩ := between_months (by norm_num : (0 : ℤ) < 3) t
    rw [truncate_quarter_utc hmin hmax (hmay rfl)]
    exact isTruncation_of_between hmono hle hlt
  | year =>
    obtain ⟨hle, hlt⟩ := between_months (by norm_num : (0 : ℤ) < 12) t
    rw [truncate_year_utc hmin hmax]
    exact isTruncation_of_between hmono hle hlt

/-- The last day of May is not the first of a quarter. -/
theorem not_isTruncation_lastOfMay (hmay : LastOfMay t) :
    ¬IsTruncation (unitStart .quarter) t (truncateToUnit t .quarter utc) := by
  intro h
  obtain ⟨i, hi⟩ := h.1.1
  rw [truncate_lastOfMay hmin hmax hmay] at hi
  exact quarterStart_ne hmay i hi

end InRange

/-! ### Outside the years -/

/-- The first instant of the year 1 starts a unit of each kind. -/
theorem minSecs_mem_range {unit : CalUnit} (h : OverDates unit) :
    minSecs ∈ Set.range (unitStart unit) := by
  cases unit with
  | minute => exact absurd rfl h.1
  | hour => exact absurd rfl h.2
  | day => exact ⟨-719162, by decide⟩
  | week => exact ⟨-102738, by decide⟩
  | month => exact ⟨12, by decide⟩
  | quarter => exact ⟨4, by decide⟩
  | year => exact ⟨1, by decide⟩

/-- The first instant after the year 9999 starts a unit of each kind but the week. -/
theorem maxSecs_succ_mem_range {unit : CalUnit} (h : OverDates unit) (hweek : unit ≠ .week) :
    maxSecs + 1 ∈ Set.range (unitStart unit) := by
  cases unit with
  | minute => exact absurd rfl h.1
  | hour => exact absurd rfl h.2
  | day => exact ⟨2932897, by decide⟩
  | week => exact absurd rfl hweek
  | month => exact ⟨120000, by decide⟩
  | quarter => exact ⟨40000, by decide⟩
  | year => exact ⟨10000, by decide⟩

theorem not_isTruncation_of_lt_minSecs {unit : CalUnit} (h : OverDates unit) {t : ℤ}
    (hlt : t < minSecs) : ¬IsTruncation (unitStart unit) t (truncateToUnit t unit utc) := by
  intro htrunc
  have hclamp : epochToZdt t = minSecs := by
    rw [epochToZdt, min_eq_left (by unfold minSecs at hlt; unfold maxSecs; omega),
      max_eq_left hlt.le]
  have hrange : minSecs ≤ maxSecs := by decide
  have hfirst := isTruncation_inRange le_rfl hrange h fun _ => (by decide : ¬LastOfMay minSecs)
  obtain ⟨i, hi⟩ := minSecs_mem_range h
  have hle := hfirst.mark_le hi.le
  have hbefore := htrunc.le
  rw [truncateToUnit_clamped h, hclamp] at hbefore
  omega

theorem not_isTruncation_of_maxSecs_lt {unit : CalUnit} (h : OverDates unit) (hweek : unit ≠ .week)
    {t : ℤ} (hlt : maxSecs < t) :
    ¬IsTruncation (unitStart unit) t (truncateToUnit t unit utc) := by
  intro htrunc
  have hrange : minSecs ≤ maxSecs := by decide
  have hclamp : epochToZdt t = maxSecs := by
    rw [epochToZdt, min_eq_right hlt.le, max_eq_right hrange]
  have hlast := isTruncation_inRange hrange le_rfl h fun _ => (by decide : ¬LastOfMay maxSecs)
  obtain ⟨i, hi⟩ := maxSecs_succ_mem_range h hweek
  have hle := htrunc.mark_le (show unitStart unit i ≤ t by omega)
  have hbefore := hlast.le
  rw [truncateToUnit_clamped h, hclamp] at hle
  omega

/-- The last week of the year 9999 is truncated to its Monday, also after the end of the year. -/
theorem isTruncation_week_iff {t : ℤ} (hlt : maxSecs < t) :
    IsTruncation (unitStart .week) t (truncateToUnit t .week utc) ↔ t ≤ maxSecs + 172800 := by
  have hclamp : epochToZdt t = maxSecs := by
    rw [epochToZdt, min_eq_right hlt.le, max_eq_right (by decide)]
  have hdates : OverDates .week := ⟨by decide, by decide⟩
  rw [truncateToUnit_clamped hdates, hclamp,
    truncate_week_utc (by decide : minSecs ≤ maxSecs) le_rfl,
    isTruncation_mark_iff (unitStart_strictMono .week)]
  simp only [unitStart, maxSecs] at hlt ⊢
  omega

/-! ### Where the truncation is right -/

def Truncates : CalUnit → ℤ → Prop
  | .minute, t => 0 ≤ t ∨ t % 60 = 0
  | .hour, t => 0 ≤ t ∨ t % 3600 = 0
  | .week, t => minSecs ≤ t ∧ t ≤ maxSecs + 172800
  | .quarter, t => (minSecs ≤ t ∧ t ≤ maxSecs) ∧ ¬LastOfMay t
  | _, t => minSecs ≤ t ∧ t ≤ maxSecs

theorem isTruncation_dates_iff {unit : CalUnit} (h : OverDates unit) (hweek : unit ≠ .week) {t : ℤ} :
    IsTruncation (unitStart unit) t (truncateToUnit t unit utc) ↔
      (minSecs ≤ t ∧ t ≤ maxSecs) ∧ (unit = .quarter → ¬LastOfMay t) := by
  constructor
  · intro htrunc
    have hmin : minSecs ≤ t := by
      by_contra hlt
      exact not_isTruncation_of_lt_minSecs h (not_le.mp hlt) htrunc
    have hmax : t ≤ maxSecs := by
      by_contra hlt
      exact not_isTruncation_of_maxSecs_lt h hweek (not_le.mp hlt) htrunc
    refine ⟨⟨hmin, hmax⟩, ?_⟩
    rintro rfl hmay
    exact not_isTruncation_lastOfMay hmin hmax hmay htrunc
  · rintro ⟨⟨hmin, hmax⟩, hmay⟩
    exact isTruncation_inRange hmin hmax h hmay

/-- Division towards zero goes back to a mark for what is not negative, and for the marks. -/
theorem tdiv_between_iff {step : ℤ} (hstep : 0 < step) (t : ℤ) :
    (step * t.tdiv step ≤ t ∧ t < step * (t.tdiv step + 1)) ↔ 0 ≤ t ∨ t % step = 0 := by
  have hfloor := Int.mul_ediv_add_emod t step
  have hrest := Int.emod_nonneg t hstep.ne'
  have hrest' := Int.emod_lt_of_pos t hstep
  rw [Int.tdiv_eq_ediv]
  split_ifs with h
  · rw [Int.dvd_iff_emod_eq_zero] at h
    rw [add_zero, mul_add, mul_one]
    simp only [h, iff_true]
    omega
  · rw [Int.dvd_iff_emod_eq_zero] at h
    rw [Int.sign_eq_one_of_pos hstep, mul_add, mul_one]
    simp only [h, iff_false]
    omega

theorem isTruncation_truncateToUnit_iff (unit : CalUnit) (t : ℤ) :
    IsTruncation (unitStart unit) t (truncateToUnit t unit utc) ↔ Truncates unit t := by
  cases unit with
  | minute =>
    have hvalue : truncateToUnit t .minute utc = unitStart .minute (t.tdiv 60) := by
      rw [truncateToUnit, unitStart]
      ring
    rw [hvalue, isTruncation_mark_iff (unitStart_strictMono .minute)]
    simp only [unitStart, add_zero]
    exact tdiv_between_iff (by norm_num : (0 : ℤ) < 60) t
  | hour =>
    have hvalue : truncateToUnit t .hour utc = unitStart .hour (t.tdiv 3600) := by
      rw [truncateToUnit, unitStart]
      ring
    rw [hvalue, isTruncation_mark_iff (unitStart_strictMono .hour)]
    simp only [unitStart, add_zero]
    exact tdiv_between_iff (by norm_num : (0 : ℤ) < 3600) t
  | week =>
    have hdates : OverDates .week := ⟨by decide, by decide⟩
    rw [Truncates]
    by_cases hmin : minSecs ≤ t
    · by_cases hmax : t ≤ maxSecs
      · have htrunc := isTruncation_inRange hmin hmax hdates (by simp)
        simp only [htrunc, hmin, true_and, true_iff]
        omega
      · rw [isTruncation_week_iff (not_le.mp hmax)]
        simp [hmin]
    · simp [hmin, not_isTruncation_of_lt_minSecs hdates (not_le.mp hmin)]
  | day =>
    rw [isTruncation_dates_iff ⟨by decide, by decide⟩ (by decide)]
    simp [Truncates]
  | month =>
    rw [isTruncation_dates_iff ⟨by decide, by decide⟩ (by decide)]
    simp [Truncates]
  | quarter =>
    rw [isTruncation_dates_iff ⟨by decide, by decide⟩ (by decide)]
    simp [Truncates]
  | year =>
    rw [isTruncation_dates_iff ⟨by decide, by decide⟩ (by decide)]
    simp [Truncates]

/-- The start of a unit is truncated to itself wherever its instants are truncated right. -/
theorem truncates_start {unit : CalUnit} {t s : ℤ} (h : Truncates unit t)
    (hs : IsTruncation (unitStart unit) t s) : Truncates unit s := by
  obtain ⟨⟨⟨i, hi⟩, hle⟩, hgreatest⟩ := hs
  have hmin : OverDates unit → minSecs ≤ t → minSecs ≤ s := fun hdates hmin =>
    hgreatest ⟨minSecs_mem_range hdates, hmin⟩
  cases unit with
  | minute =>
    rw [unitStart] at hi
    rw [Truncates]
    omega
  | hour =>
    rw [unitStart] at hi
    rw [Truncates]
    omega
  | day => exact ⟨hmin ⟨by decide, by decide⟩ h.1, hle.trans h.2⟩
  | week => exact ⟨hmin ⟨by decide, by decide⟩ h.1, hle.trans h.2⟩
  | month => exact ⟨hmin ⟨by decide, by decide⟩ h.1, hle.trans h.2⟩
  | quarter =>
    refine ⟨⟨hmin ⟨by decide, by decide⟩ h.1.1, hle.trans h.1.2⟩, fun hmay => ?_⟩
    have hwhole : s % 86400 = 0 := by
      rw [← hi, unitStart]
      omega
    exact quarterStart_ne hmay i (by rw [hi, hwhole, sub_zero])
  | year => exact ⟨hmin ⟨by decide, by decide⟩ h.1, hle.trans h.2⟩

/-- Exactly where an instant is truncated to the greatest start of the unit that is not after it.
There the truncation is idempotent, monotone and constant on each unit. -/
theorem truncateToUnit_iff (unit : CalUnit) (t : ℤ) :
    (IsTruncation (unitStart unit) t (truncateToUnit t unit utc) ↔ Truncates unit t) ∧
    (Truncates unit t →
      truncateToUnit (truncateToUnit t unit utc) unit utc = truncateToUnit t unit utc ∧
      ∀ t', Truncates unit t' → t ≤ t' →
        truncateToUnit t unit utc ≤ truncateToUnit t' unit utc ∧
        ((∀ i, unitStart unit i ≤ t' → unitStart unit i ≤ t) →
          truncateToUnit t unit utc = truncateToUnit t' unit utc)) := by
  refine ⟨isTruncation_truncateToUnit_iff unit t, fun h => ?_⟩
  have htrunc := (isTruncation_truncateToUnit_iff unit t).mpr h
  constructor
  · have hagain := (isTruncation_truncateToUnit_iff unit _).mpr (truncates_start h htrunc)
    exact hagain.unique htrunc.self
  · intro t' h' hle
    have htrunc' := (isTruncation_truncateToUnit_iff unit t').mpr h'
    exact ⟨htrunc.mono htrunc' hle, htrunc.eq_of_no_mark htrunc' hle⟩

/-- Noon of 2026-05-19. -/
theorem quarter_of_may19 : IsTruncation (unitStart .quarter) 1779192000
      (truncateToUnit 1779192000 .quarter utc) ∧
    truncateToUnit (truncateToUnit 1779192000 .quarter utc) .quarter utc =
      truncateToUnit 1779192000 .quarter utc :=
  ⟨(truncateToUnit_iff .quarter 1779192000).1.mpr ⟨by decide, by decide⟩,
    ((truncateToUnit_iff .quarter 1779192000).2 ⟨by decide, by decide⟩).1⟩

/-- Noon of 2026-05-31 is truncated to its midnight, and the last second before 1970 to the minute
after it. -/
theorem quarter_of_may31 :
    (truncateToUnit 1780228800 .quarter utc = 1780185600 ∧
      ¬IsTruncation (unitStart .quarter) 1780228800 1780185600) ∧
    (truncateToUnit (-1) .minute utc = 0 ∧ ¬IsTruncation (unitStart .minute) (-1) 0) := by
  have hquarter : truncateToUnit 1780228800 .quarter utc = 1780185600 := by decide
  refine ⟨⟨hquarter, ?_⟩, by decide, fun h => absurd h.le (by decide)⟩
  rw [← hquarter, isTruncation_truncateToUnit_iff]
  exact fun h => h.2 (by decide)

end MetriEngine.Temporal

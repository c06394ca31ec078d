import MetriEngine.Temporal.TimeFrame

/-!
# Adjacent windows

A window begins where the one before it ends, and both ends belong to a window. So two adjacent
windows share the rows of one second, the one at which they meet, and no other row.
-/
namespace MetriEngine.Temporal
open Foundation.Calendar Storage Eav

/-! ### Frames that meet -/

/-- The second frame begins where the first one ends. -/
inductive Meets : TimeFrameType → TimeFrameType → Prop
  | days : Meets .yesterday .today
  | nextDays : Meets .today .tomorrow
  | weeks : Meets .lastWeek .thisWeek
  | weekToDate : Meets .lastWeek .weekToDate
  | months : Meets .lastMonth .thisMonth
  | monthToDate : Meets .lastMonth .monthToDate
  | quarters : Meets .lastQuarter .thisQuarter
  | quarterToDate : Meets .lastQuarter .quarterToDate
  | years : Meets .lastYear .thisYear
  | yearToDate : Meets .lastYear .yearToDate

/-- The first frame ends at the reference instant, the second one begins with the next week or the
next month. -/
inductive Precedes : TimeFrameType → TimeFrameType → Prop
  | week : Precedes .thisWeek .nextWeek
  | weekToDate : Precedes .weekToDate .nextWeek
  | month : Precedes .thisMonth .nextMonth
  | monthToDate : Precedes .monthToDate .nextMonth

/-- The range of a frame type under a context. -/
def frameRange (zones : String → Option Zone) (now : ℤ) (tf : TimeFrameCtx) (t : TimeFrameType) :
    Option Aegis.TimeRange :=
  resolveTimeFrame zones now { tf with tfType := t }

theorem Meets.ranges {earlier later : TimeFrameType} (h : Meets earlier later)
    (zones : String → Option Zone) (now : ℤ) (tf : TimeFrameCtx) :
    ∃ startTs boundary endTs,
      frameRange zones now tf earlier = some (between startTs boundary) ∧
      frameRange zones now tf later = some (between boundary endTs) := by
  cases h <;> exact ⟨_, _, _, rfl, rfl⟩

theorem Precedes.ranges {earlier later : TimeFrameType} (h : Precedes earlier later)
    (zones : String → Option Zone) (now : ℤ) (tf : TimeFrameCtx) :
    ∃ startTs next endTs, frameRange zones now tf earlier = some (between startTs now) ∧
      frameRange zones now tf later = some (between next endTs) ∧
      (next = shiftByCalendar (truncateToUnit now .week (parseTz zones tf.timezone)) 1 .week
          (parseTz zones tf.timezone) ∨
        next = shiftByCalendar (truncateToUnit now .month (parseTz zones tf.timezone)) 1 .month
          (parseTz zones tf.timezone)) := by
  cases h with
  | week | weekToDate => exact ⟨_, _, _, rfl, rfl, Or.inl rfl⟩
  | month | monthToDate => exact ⟨_, _, _, rfl, rfl, Or.inr rfl⟩

/-! ### The next week and the next month under a fixed offset -/

/-- The first second of a year, in UTC. -/
def yearSeconds (year : ℤ) : ℤ := yearStart year * 86400

section Fixed

variable {offset now : ℤ} (hnow : yearSeconds 3 ≤ now ∧ now < yearSeconds 9998)
include hnow

theorem now_bounds : -62072524800 ≤ now ∧ now < 253339228800 := by
  have hfirst : yearSeconds 3 = -62072524800 := by decide
  have hlast : yearSeconds 9998 = 253339228800 := by decide
  omega

/-- The next week begins after the reference instant, and within 32 days. -/
theorem nextWeek_bounds :
    now < shiftByCalendar (truncateToUnit now .week (.fixed offset)) 1 .week (.fixed offset) ∧
      shiftByCalendar (truncateToUnit now .week (.fixed offset)) 1 .week (.fixed offset) ≤
        now + 32 * 86400 := by
  obtain ⟨hlow, hhigh⟩ := now_bounds hnow
  rw [truncate_week_fixed _ _ (by rw [minSecs]; omega) (by rw [maxSecs]; omega), shiftByCalendar,
    epochToZdt_of_mem]
  · omega
  · rw [minSecs]
    omega
  · rw [maxSecs]
    omega

theorem nextMonth_bounds (hoffset : -86400 < offset ∧ offset < 86400) :
    now < shiftByCalendar (truncateToUnit now .month (.fixed offset)) 1 .month (.fixed offset) ∧
      shiftByCalendar (truncateToUnit now .month (.fixed offset)) 1 .month (.fixed offset) ≤
        now + 32 * 86400 := by
  obtain ⟨hlow, hhigh⟩ := now_bounds hnow
  obtain ⟨hvalid, hday⟩ := dateOf_spec ((now + offset) / 86400)
  rw [truncate_month_fixed _ _ (by rw [minSecs]; omega) (by rw [maxSecs]; omega)]
  set d := dateOf ((now + offset) / 86400)
  obtain ⟨hfirst, hnext⟩ := hvalid.inMonth
  obtain ⟨hstart, hend⟩ := hvalid.inYear
  have hyear2 : yearStart 2 = -718797 := by decide
  have hyear9999 : yearStart 9999 = 2932532 := by decide
  have hyear : 2 < d.year + 1 := yearStart_strictMono.lt_iff_lt.mp (by omega)
  have hyear' : d.year < 9999 := yearStart_strictMono.lt_iff_lt.mp (by omega)
  have hfirstYear : yearStart 2 ≤ d.first.toDay :=
    (yearStart_strictMono.monotone (by omega : 2 ≤ d.year)).trans hvalid.first.inYear.1
  have hlength : d.next.toDay ≤ d.first.toDay + 31 := by
    rw [d.toDay_next, ← daysInMonth_eq _ hvalid.month, daysInMonth]
    split_ifs <;> omega
  rw [shift_month_fixed _ hvalid.first ⟨by omega, hyear'⟩]
  · omega
  · rw [minSecs]
    omega
  · rw [maxSecs]
    omega

end Fixed

/-! ### Rows of adjacent windows -/

/-- Adjacent windows share at most the rows of the second at which they meet. -/
structure SharesBoundaryOnly (zones : String → Option Zone) (now : ℤ) : Prop where
  /-- A range with a start and the period before it, of the same length. -/
  previousPeriod : ∀ (range : Aegis.TimeRange) (startTs : Signed 64) (tz : Zone)
    (period : ComparisonPeriod), range.startTs = some startTs →
    resolveShortcut now .previousPeriod range tz = some period →
    ∀ rows, ∀ row ∈ Aegis.retainInTimeWindow range rows,
      row ∈ filterRowsByWindow rows period.prevStart period.prevEnd → rowSeconds row = startTs
  /-- Two frames that meet. -/
  frames : ∀ (tf : TimeFrameCtx) (earlier later : TimeFrameType), Meets earlier later →
    ∃ first second boundary, frameRange zones now tf earlier = some first ∧
      frameRange zones now tf later = some second ∧
      first.endTs = some boundary ∧ second.startTs = some boundary ∧
      ∀ rows, ∀ row ∈ Aegis.retainInTimeWindow first rows,
        row ∈ Aegis.retainInTimeWindow second rows → rowSeconds row = boundary
  /-- The running week or month, and the next one. -/
  next : ∀ (tf : TimeFrameCtx) (offset : ℤ), parseTz zones tf.timezone = .fixed offset →
    -86400 < offset ∧ offset < 86400 → yearSeconds 3 ≤ now ∧ now < yearSeconds 9998 →
    ∀ earlier later, Precedes earlier later →
    ∃ first second, frameRange zones now tf earlier = some first ∧
      frameRange zones now tf later = some second ∧
      ∀ rows, ∀ row ∈ Aegis.retainInTimeWindow first rows,
        row ∉ Aegis.retainInTimeWindow second rows

theorem adjacent_windows (zones : String → Option Zone) (now : ℤ) :
    SharesBoundaryOnly zones now where
  previousPeriod := by
    intro range startTs tz period hstart hperiod rows row hrow hprev
    have hge := le_of_mem_retain hstart hrow
    obtain ⟨-, -, hle⟩ := mem_filterRowsByWindow.mp hprev
    have hend : period.prevEnd.val = startTs.val := by
      rw [resolveShortcut, hstart] at hperiod
      cases hperiod
      exact seconds_val startTs.property.1 startTs.property.2
    apply Subtype.ext
    omega
  frames := by
    intro tf earlier later hmeets
    obtain ⟨startTs, boundary, endTs, hearlier, hlater⟩ := hmeets.ranges zones now tf
    refine ⟨_, _, seconds boundary, hearlier, hlater, rfl, rfl, fun rows row hrow hrow' => ?_⟩
    obtain ⟨-, -, hle⟩ := mem_retain_between.mp hrow
    obtain ⟨-, hge, -⟩ := mem_retain_between.mp hrow'
    exact Subtype.ext (le_antisymm hle hge)
  next := by
    intro tf offset htz hoffset hnow earlier later hprecedes
    obtain ⟨startTs, next, endTs, hearlier, hlater, hnext⟩ := hprecedes.ranges zones now tf
    refine ⟨_, _, hearlier, hlater, fun rows row hrow hrow' => ?_⟩
    obtain ⟨-, -, hle⟩ := mem_retain_between.mp hrow
    obtain ⟨-, hge, -⟩ := mem_retain_between.mp hrow'
    rw [htz] at hnext
    have hbounds : now < next ∧ next ≤ now + 32 * 86400 := by
      rcases hnext with rfl | rfl
      · exact nextWeek_bounds hnow
      · exact nextMonth_bounds hnow hoffset
    obtain ⟨hlow, hhigh⟩ := now_bounds hnow
    rw [seconds_val (by omega) (by omega)] at hle hge
    omega

/-! ### A row at midnight -/

def rowAt (z : Signed 64) : JsonMap :=
  (∅ : JsonMap).insert "created_at" (.number (.ofSigned z))

def frameCtx (timezone : String) : TimeFrameCtx := ⟨.today, seconds 1, seconds 0, seconds 0, timezone⟩

/-- A zone that goes forward by an hour at an instant; the hour before it does not exist there. -/
def Zone.springing (offset change : ℤ) : Zone where
  offsetAt := fun t => if t < change then offset else offset + 3600
  single := fun l =>
    if l < change + offset then some (l - offset)
    else if l < change + offset + 3600 then none
    else some (l - (offset + 3600))
  single_iff := by
    intro l t
    have hchange (s : ℤ) : s + (if s < change then offset else offset + 3600) = l ↔
        s < change ∧ s + offset = l ∨ change ≤ s ∧ s + (offset + 3600) = l := by
      split_ifs <;> omega
    simp only [hchange]
    split_ifs with hbefore hgap
    · rw [Option.some.injEq]
      constructor
      · intro h s
        omega
      · intro h
        have := (h t).mpr rfl
        omega
    · constructor
      · intro h
        cases h
      · intro h
        have := (h t).mpr rfl
        omega
    · rw [Option.some.injEq]
      constructor
      · intro h s
        omega
      · intro h
        have := (h t).mpr rfl
        omega

/-- The clocks of Asunción went forward at midnight of the first of October 2017. -/
def asuncion (tz : String) : Option Zone :=
  if tz = "America/Asuncion" then some (.springing (-14400) 1506830400) else none

/-- A row of midnight is one of yesterday and of today, and of the period before today. And where
the clocks change at the first midnight of a month, a row of the evening before is one of this month
and of the next one. -/
theorem midnight_row_is_of_both_days :
    (∃ yesterday today period, frameRange asuncion 1778979600 (frameCtx "UTC") .yesterday =
        some yesterday ∧
      frameRange asuncion 1778979600 (frameCtx "UTC") .today = some today ∧
      resolveShortcut 1778979600 .previousPeriod today (parseTz asuncion "UTC") = some period ∧
      rowAt (seconds 1778976000) ∈
        Aegis.retainInTimeWindow yesterday [rowAt (seconds 1778976000)] ∧
      rowAt (seconds 1778976000) ∈ Aegis.retainInTimeWindow today [rowAt (seconds 1778976000)] ∧
      rowAt (seconds 1778976000) ∈ filterRowsByWindow [rowAt (seconds 1778976000)]
        period.prevStart period.prevEnd) ∧
    ∃ thisMonth nextMonth, frameRange asuncion 1506819600 (frameCtx "America/Asuncion")
        .thisMonth = some thisMonth ∧
      frameRange asuncion 1506819600 (frameCtx "America/Asuncion") .nextMonth = some nextMonth ∧
      rowAt (seconds 1506817800) ∈
        Aegis.retainInTimeWindow thisMonth [rowAt (seconds 1506817800)] ∧
      rowAt (seconds 1506817800) ∈
        Aegis.retainInTimeWindow nextMonth [rowAt (seconds 1506817800)] := by
  have hyesterday : frameRange asuncion 1778979600 (frameCtx "UTC") .yesterday =
      some (between 1778889600 1778976000) := by decide +kernel
  have htoday : frameRange asuncion 1778979600 (frameCtx "UTC") .today =
      some (between 1778976000 1779062400) := by decide +kernel
  have hperiod : resolveShortcut 1778979600 .previousPeriod (between 1778976000 1779062400)
      (parseTz asuncion "UTC") = some ⟨seconds 1778889600, seconds 1778976000⟩ := by decide +kernel
  have hmonth : frameRange asuncion 1506819600 (frameCtx "America/Asuncion") .thisMonth =
      some (between 1504238400 1506819600) := by decide +kernel
  have hnext : frameRange asuncion 1506819600 (frameCtx "America/Asuncion") .nextMonth =
      some (between 1506816000 1509505200) := by decide +kernel
  have hrow : rowSeconds (rowAt (seconds 1778976000)) = seconds 1778976000 := by decide +kernel
  have hrow' : rowSeconds (rowAt (seconds 1506817800)) = seconds 1506817800 := by decide +kernel
  constructor
  · refine ⟨_, _, _, hyesterday, htoday, hperiod, ?_, ?_, ?_⟩
    · exact mem_retain_between.mpr ⟨List.mem_singleton_self _, by rw [hrow]; decide⟩
    · exact mem_retain_between.mpr ⟨List.mem_singleton_self _, by rw [hrow]; decide⟩
    · exact mem_filterRowsByWindow.mpr ⟨List.mem_singleton_self _, by rw [hrow]; decide⟩
  · refine ⟨_, _, hmonth, hnext, ?_, ?_⟩
    · exact mem_retain_between.mpr ⟨List.mem_singleton_self _, by rw [hrow']; decide⟩
    · exact mem_retain_between.mpr ⟨List.mem_singleton_self _, by rw [hrow']; decide⟩

end MetriEngine.Temporal

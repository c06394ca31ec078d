import MetriEngine.Aegis.Table
import MetriEngine.Storage.Decoders
import MetriEngine.Temporal.Core

/-!
# Time frames and the periods they are compared with

A frame resolves to a range around the reference instant, a comparison to a range before it. Both
ends of a range belong to it.
-/
namespace MetriEngine.Temporal
open Storage Eav

/-- A time in 64 bits. -/
def seconds (z : ℤ) : Signed 64 := ⟨wrapI64 z, wrapI64_bounds z⟩

theorem seconds_val {z : ℤ} (h : -2 ^ 63 ≤ z) (h' : z < 2 ^ 63) : (seconds z).val = z :=
  wrapI64_of_bounds h h'

/-! ### Frames -/

inductive TimeFrameType
  | customRange
  | today
  | yesterday
  | tomorrow
  | lastNMinutes
  | lastNHours
  | lastNDays
  | nextNDays
  | thisWeek
  | lastWeek
  | nextWeek
  | lastNWeeks
  | nextNWeeks
  | weekToDate
  | thisMonth
  | lastMonth
  | nextMonth
  | lastNMonths
  | nextNMonths
  | monthToDate
  | thisQuarter
  | lastQuarter
  | lastNQuarters
  | quarterToDate
  | thisYear
  | lastYear
  | lastNYears
  | yearToDate
  | allTime
  | unspecified
deriving DecidableEq

structure TimeFrameCtx where
  tfType : TimeFrameType
  nValue : Signed 64
  startTsMs : Signed 64
  endTsMs : Signed 64
  timezone : String

def msToS (ms : ℤ) : ℤ := ms.tdiv 1000

/-- The range from one time to another. -/
def between (startTs endTs : ℤ) : Aegis.TimeRange := ⟨some (seconds startTs), some (seconds endTs)⟩

/-- The range of a frame at the reference instant `now`. -/
def resolveTimeFrame (zones : String → Option Zone) (now : ℤ) (tf : TimeFrameCtx) :
    Option Aegis.TimeRange :=
  let tz := parseTz zones tf.timezone
  let n := max tf.nValue.val 1
  let td := truncateToUnit now .day tz
  let wk := truncateToUnit now .week tz
  let mo := truncateToUnit now .month tz
  let qt := truncateToUnit now .quarter tz
  let yr := truncateToUnit now .year tz
  let d (base delta : ℤ) := shiftByCalendar base delta .day tz
  let m (base delta : ℤ) := shiftByCalendar base delta .month tz
  let y (base delta : ℤ) := shiftByCalendar base delta .year tz
  let w (base delta : ℤ) := shiftByCalendar base delta .week tz
  match tf.tfType with
  | .customRange => some (between (msToS tf.startTsMs.val) (msToS tf.endTsMs.val))
  | .today => some (between td (d td 1))
  | .yesterday => some (between (d td (-1)) td)
  | .tomorrow => some (between (d td 1) (d td 2))
  | .lastNMinutes => some (between (now - n * 60) now)
  | .lastNHours => some (between (now - n * 3600) now)
  | .lastNDays => some (between (d td (-n)) now)
  | .nextNDays => some (between now (d now n))
  | .thisWeek => some (between wk now)
  | .lastWeek => some (between (w wk (-1)) wk)
  | .nextWeek => some (between (w wk 1) (w wk 2))
  | .lastNWeeks => some (between (w wk (-n)) now)
  | .nextNWeeks => some (between now (w now n))
  | .weekToDate => some (between wk now)
  | .thisMonth => some (between mo now)
  | .lastMonth => some (between (m mo (-1)) mo)
  | .nextMonth => some (between (m mo 1) (m mo 2))
  | .lastNMonths => some (between (m mo (-n)) now)
  | .nextNMonths => some (between now (m now n))
  | .monthToDate => some (between mo now)
  | .thisQuarter => some (between qt now)
  | .lastQuarter => some (between (m qt (-3)) qt)
  | .lastNQuarters => some (between (m qt (-3 * n)) now)
  | .quarterToDate => some (between qt now)
  | .thisYear => some (between yr now)
  | .lastYear => some (between (y yr (-1)) yr)
  | .lastNYears => some (between (y yr (-n)) now)
  | .yearToDate => some (between yr now)
  | .allTime => some ⟨none, none⟩
  | .unspecified => none

/-! ### Comparisons -/

inductive ShiftShortcut
  | previousPeriod
  | samePeriodLastYear
  | samePeriodLastQuarter
  | samePeriodLastMonth
  | sameDayLastWeek
  | sameDayLastMonth
  | sameDayLastYear
  | yesterdayLastYear
  | yesterdayLastMonth
  | yesterdayLastWeek
  | todayLastYear
  | todayLastMonth
  | unspecified
deriving DecidableEq

structure ComparisonPeriod where
  prevStart : Signed 64
  prevEnd : Signed 64
deriving DecidableEq

/-- The period that a shortcut compares a range with. -/
def resolveShortcut (now : ℤ) (shortcut : ShiftShortcut) (range : Aegis.TimeRange) (tz : Zone) :
    Option ComparisonPeriod :=
  let cs := range.startTs.elim 0 (·.val)
  let ce := range.endTs.elim now (·.val)
  let dur := ce - cs
  let period (prevStart prevEnd : ℤ) : ComparisonPeriod := ⟨seconds prevStart, seconds prevEnd⟩
  let shiftCal (amount : ℤ) (unit : CalUnit) :=
    period (shiftByCalendar cs (-amount) unit tz) (shiftByCalendar ce (-amount) unit tz)
  let dayBefore (unit : CalUnit) :=
    period (shiftByCalendar (seconds (cs - 86400)).val (-1) unit tz)
      (shiftByCalendar cs (-1) unit tz)
  match shortcut with
  | .previousPeriod => some (period (cs - dur) cs)
  | .samePeriodLastYear => some (shiftCal 1 .year)
  | .sameDayLastYear => some (shiftCal 1 .year)
  | .todayLastYear => some (shiftCal 1 .year)
  | .yesterdayLastYear => some (dayBefore .year)
  | .samePeriodLastQuarter => some (shiftCal 1 .quarter)
  | .samePeriodLastMonth => some (shiftCal 1 .month)
  | .sameDayLastMonth => some (shiftCal 1 .month)
  | .todayLastMonth => some (shiftCal 1 .month)
  | .yesterdayLastMonth => some (dayBefore .month)
  | .sameDayLastWeek => some (shiftCal 1 .week)
  | .yesterdayLastWeek => some (dayBefore .week)
  | .unspecified => none

/-! ### Rows within a period -/

/-- The time of a row; one without a time is of the epoch. -/
def rowSeconds (row : JsonMap) : Signed 64 :=
  let tsRaw :=
    (Aegis.tsCandidates.findSome? fun f => (row.lookup f).bind JsonValue.asF64).getD (F64.ofInt 0)
  if tsRaw.isMilliseconds then tsRaw.milliToSeconds else tsRaw.asSigned

def filterRowsByWindow (rows : List JsonMap) (prevStart prevEnd : Signed 64) : List JsonMap :=
  rows.filter fun row =>
    prevStart.val ≤ (rowSeconds row).val && (rowSeconds row).val ≤ prevEnd.val

theorem mem_filterRowsByWindow {rows : List JsonMap} {prevStart prevEnd : Signed 64}
    {row : JsonMap} : row ∈ filterRowsByWindow rows prevStart prevEnd ↔
      row ∈ rows ∧ prevStart.val ≤ (rowSeconds row).val ∧ (rowSeconds row).val ≤ prevEnd.val := by
  rw [filterRowsByWindow, List.mem_filter, Bool.and_eq_true, decide_eq_true_eq,
    decide_eq_true_eq]

/-- A row of a range with both ends. -/
theorem mem_retain_between {rows : List JsonMap} {startTs endTs : Signed 64} {row : JsonMap} :
    row ∈ Aegis.retainInTimeWindow ⟨some startTs, some endTs⟩ rows ↔
      row ∈ rows ∧ startTs.val ≤ (rowSeconds row).val ∧ (rowSeconds row).val ≤ endTs.val := by
  have hbounded : Aegis.TimeRange.isBounded ⟨some startTs, some endTs⟩ = true := rfl
  rw [Aegis.retainInTimeWindow, if_pos hbounded, List.mem_filter, Aegis.inTimeWindow,
    Option.all_some, Option.all_some, Bool.and_eq_true, decide_eq_true_eq, decide_eq_true_eq]
  rfl

/-- A row of a range is not before its start. -/
theorem le_of_mem_retain {rows : List JsonMap} {range : Aegis.TimeRange} {startTs : Signed 64}
    (hstart : range.startTs = some startTs) {row : JsonMap}
    (h : row ∈ Aegis.retainInTimeWindow range rows) : startTs.val ≤ (rowSeconds row).val := by
  have hbounded : range.isBounded = true := by
    rw [Aegis.TimeRange.isBounded, hstart]
    rfl
  rw [Aegis.retainInTimeWindow, if_pos hbounded, List.mem_filter, Aegis.inTimeWindow, hstart,
    Option.all_some, Bool.and_eq_true, decide_eq_true_eq] at h
  exact h.2.1

end MetriEngine.Temporal

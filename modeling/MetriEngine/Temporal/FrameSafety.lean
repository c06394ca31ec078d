import MetriEngine.Temporal.MonthShifts
import MetriEngine.Temporal.TimeFrame

/-!
# Time frames that resolve without a panic

The count of a frame comes from the request and has 32 bits. The machine multiplies it and adds it
to dates: durations and dates panic beyond their range, and the sums and casts of months are watched
as well. Only the counted days and weeks can leave the dates of the library.
-/
namespace MetriEngine.Temporal
open Foundation.Calendar Storage Eav

/-! ### Operations that can fail -/

/-- The first and the last second of the date library. -/
def minDateTime : ℤ := -8334601228800
def maxDateTime : ℤ := 8210266876799

def checkedI64 (z : ℤ) : Option ℤ := if -2 ^ 63 ≤ z ∧ z < 2 ^ 63 then some z else none

def checkedI32 (z : ℤ) : Option ℤ := if -2 ^ 31 ≤ z ∧ z < 2 ^ 31 then some z else none

/-- A duration of so many seconds; nothing where the constructor panics. -/
def timeDelta (secs : ℤ) : Option ℤ := if |secs| ≤ 9223372036854775 then some secs else none

/-- `dt + delta`; nothing where it panics. -/
def addDelta (dt delta : ℤ) : Option ℤ :=
  if minDateTime ≤ dt + delta ∧ dt + delta ≤ maxDateTime then some (dt + delta) else none

/-- The shift; nothing where a sum overflows or a cast changes the number. -/
def checkedShiftMonths (zone : Zone) (dt months : ℤ) : Option ℤ := do
  let totalMonths ← checkedI64 ((zone.dateAt dt).month - 1 + months)
  let yearDelta ← checkedI32 (totalMonths / 12)
  let _ ← checkedI32 ((zone.dateAt dt).year + yearDelta)
  return shiftMonths zone dt months

def checkedShiftByCalendar (epochSecs amount : ℤ) (unit : CalUnit) (zone : Zone) : Option ℤ :=
  let dt := epochToZdt epochSecs
  match unit with
  | .minute => timeDelta (amount * 60) >>= addDelta dt
  | .hour => timeDelta (amount * 3600) >>= addDelta dt
  | .day => timeDelta (amount * 86400) >>= addDelta dt
  | .week => timeDelta (amount * 604800) >>= addDelta dt
  | .month => checkedShiftMonths zone dt amount
  | .quarter => checkedI64 (amount * 3) >>= checkedShiftMonths zone dt
  | .year => checkedI64 (amount * 12) >>= checkedShiftMonths zone dt

/-! ### Where they succeed -/

theorem checkedI64_eq {z : ℤ} (h : -2 ^ 63 ≤ z ∧ z < 2 ^ 63) : checkedI64 z = some z := if_pos h

theorem checkedI32_eq {z : ℤ} (h : -2 ^ 31 ≤ z ∧ z < 2 ^ 31) : checkedI32 z = some z := if_pos h

theorem checkedShiftMonths_eq {zone : Zone} (hzone : zone.Bounded) (t : ℤ) {months : ℤ}
    (h : -12 * (2 ^ 31 - 1) ≤ months ∧ months ≤ 2 ^ 31) :
    checkedShiftMonths zone (epochToZdt t) months =
      some (shiftMonths zone (epochToZdt t) months) := by
  have hindex := monthIndex_bounds hzone t
  have hmonth := (dateAt_valid zone (epochToZdt t)).month
  rw [Date.monthIndex] at hindex
  rw [checkedShiftMonths, checkedI64_eq (by omega), Option.bind_eq_bind, Option.bind_some,
    checkedI32_eq (by omega), Option.bind_some, checkedI32_eq (by omega)]
  rfl

/-- No count of 32 bits takes a shift by months out of the machine's numbers. -/
theorem checkedShiftByCalendar_months {unit : CalUnit} {m : ℤ} (hunit : monthsIn unit = some m)
    {zone : Zone} (hzone : zone.Bounded) (t : ℤ) {k : ℤ}
    (h : -12 * (2 ^ 31 - 1) ≤ k * m ∧ k * m ≤ 2 ^ 31) :
    checkedShiftByCalendar t k unit zone = some (shiftByCalendar t k unit zone) := by
  cases unit with
  | month =>
    cases hunit
    rw [mul_one] at h
    exact checkedShiftMonths_eq hzone t h
  | quarter =>
    cases hunit
    rw [checkedShiftByCalendar, checkedI64_eq (by omega)]
    exact checkedShiftMonths_eq hzone t h
  | year =>
    cases hunit
    rw [checkedShiftByCalendar, checkedI64_eq (by omega)]
    exact checkedShiftMonths_eq hzone t h
  | minute | hour | day | week => cases hunit

/-- A shift by seconds fails exactly where it leaves the dates of the library. -/
theorem checkedShiftByCalendar_seconds {unit : CalUnit} (hunit : monthsIn unit = none) (zone : Zone)
    (t : ℤ) {k : ℤ} (h : -2 ^ 31 ≤ k ∧ k ≤ 2 ^ 31) :
    checkedShiftByCalendar t k unit zone =
      if minDateTime ≤ shiftByCalendar t k unit zone ∧ shiftByCalendar t k unit zone ≤ maxDateTime
      then some (shiftByCalendar t k unit zone) else none := by
  have hdelta (c : ℤ) (hc : 0 ≤ c ∧ c ≤ 604800) : timeDelta (k * c) = some (k * c) := by
    apply if_pos
    rw [abs_le]
    constructor <;> nlinarith
  cases unit with
  | month | quarter | year => cases hunit
  | minute =>
    rw [checkedShiftByCalendar, hdelta _ (by norm_num)]
    rfl
  | hour =>
    rw [checkedShiftByCalendar, hdelta _ (by norm_num)]
    rfl
  | day =>
    rw [checkedShiftByCalendar, hdelta _ (by norm_num)]
    rfl
  | week =>
    rw [checkedShiftByCalendar, hdelta _ (by norm_num)]
    rfl

/-- A day or a week, or two of them, stay within the dates. -/
theorem checkedShiftByCalendar_near {unit : CalUnit} (hunit : monthsIn unit = none) (zone : Zone)
    (t : ℤ) {k : ℤ} (h : -2 ≤ k ∧ k ≤ 2) :
    checkedShiftByCalendar t k unit zone = some (shiftByCalendar t k unit zone) := by
  have hclamped := epochToZdt_bounds t
  have hseconds : 0 ≤ secondsIn unit ∧ secondsIn unit ≤ 604800 := by
    cases unit <;> simp [secondsIn]
  rw [checkedShiftByCalendar_seconds hunit zone t (by omega), shiftByCalendar_seconds hunit]
  apply if_pos
  rw [minDateTime, maxDateTime]
  constructor <;> nlinarith

theorem shiftByCalendar_seconds_bounds {unit : CalUnit} (hunit : monthsIn unit = none)
    (zone : Zone) (t : ℤ) {k : ℤ} (h : 0 ≤ k) :
    shiftByCalendar t (-k) unit zone = epochToZdt t - k * secondsIn unit ∧
      shiftByCalendar t k unit zone = epochToZdt t + k * secondsIn unit ∧
      0 ≤ k * secondsIn unit := by
  have hseconds : 0 ≤ secondsIn unit := by
    cases unit <;> simp [secondsIn]
  rw [shiftByCalendar_seconds hunit, shiftByCalendar_seconds hunit]
  refine ⟨?_, rfl, mul_nonneg h hseconds⟩
  ring

/-- Into the past only the first date of the library can be passed. -/
theorem checkedShiftByCalendar_past {unit : CalUnit} (hunit : monthsIn unit = none) (zone : Zone)
    (t : ℤ) {k : ℤ} (h : 0 ≤ k ∧ k < 2 ^ 31) :
    checkedShiftByCalendar t (-k) unit zone =
      if epochToZdt t - k * secondsIn unit < minDateTime then none
      else some (shiftByCalendar t (-k) unit zone) := by
  have hclamped := epochToZdt_bounds t
  obtain ⟨hpast, _, hpos⟩ := shiftByCalendar_seconds_bounds hunit zone t h.1
  rw [checkedShiftByCalendar_seconds hunit zone t (by omega), hpast, maxDateTime]
  split_ifs <;> first | rfl | omega

/-- Into the future only the last one can be. -/
theorem checkedShiftByCalendar_future {unit : CalUnit} (hunit : monthsIn unit = none) (zone : Zone)
    (t : ℤ) {k : ℤ} (h : 0 ≤ k ∧ k < 2 ^ 31) :
    checkedShiftByCalendar t k unit zone =
      if maxDateTime < epochToZdt t + k * secondsIn unit then none
      else some (shiftByCalendar t k unit zone) := by
  have hclamped := epochToZdt_bounds t
  obtain ⟨_, hfuture, hpos⟩ := shiftByCalendar_seconds_bounds hunit zone t h.1
  rw [checkedShiftByCalendar_seconds hunit zone t (by omega), hfuture, minDateTime]
  split_ifs <;> first | rfl | omega

/-! ### Frames -/

/-- A range whose ends may fail. -/
def span (startTs endTs : Option ℤ) : Option (Option Aegis.TimeRange) := do
  let startTs ← startTs
  let endTs ← endTs
  return some (between startTs endTs)

/-- `resolve_time_frame`; nothing where it panics. -/
def checkedResolveTimeFrame (zones : String → Option Zone) (now : ℤ) (tf : TimeFrameCtx) :
    Option (Option Aegis.TimeRange) :=
  let tz := parseTz zones tf.timezone
  let n := max tf.nValue.val 1
  let td := truncateToUnit now .day tz
  let wk := truncateToUnit now .week tz
  let mo := truncateToUnit now .month tz
  let qt := truncateToUnit now .quarter tz
  let yr := truncateToUnit now .year tz
  let d (base delta : ℤ) := checkedShiftByCalendar base delta .day tz
  let m (base delta : ℤ) := checkedShiftByCalendar base delta .month tz
  let y (base delta : ℤ) := checkedShiftByCalendar base delta .year tz
  let w (base delta : ℤ) := checkedShiftByCalendar base delta .week tz
  match tf.tfType with
  | .customRange => span (some (msToS tf.startTsMs.val)) (some (msToS tf.endTsMs.val))
  | .today => span (some td) (d td 1)
  | .yesterday => span (d td (-1)) (some td)
  | .tomorrow => span (d td 1) (d td 2)
  | .lastNMinutes => span (checkedI64 (n * 60) >>= fun secs => checkedI64 (now - secs)) (some now)
  | .lastNHours => span (checkedI64 (n * 3600) >>= fun secs => checkedI64 (now - secs)) (some now)
  | .lastNDays => span (d td (-n)) (some now)
  | .nextNDays => span (some now) (d now n)
  | .thisWeek => span (some wk) (some now)
  | .lastWeek => span (w wk (-1)) (some wk)
  | .nextWeek => span (w wk 1) (w wk 2)
  | .lastNWeeks => span (w wk (-n)) (some now)
  | .nextNWeeks => span (some now) (w now n)
  | .weekToDate => span (some wk) (some now)
  | .thisMonth => span (some mo) (some now)
  | .lastMonth => span (m mo (-1)) (some mo)
  | .nextMonth => span (m mo 1) (m mo 2)
  | .lastNMonths => span (m mo (-n)) (some now)
  | .nextNMonths => span (some now) (m now n)
  | .monthToDate => span (some mo) (some now)
  | .thisQuarter => span (some qt) (some now)
  | .lastQuarter => span (m qt (-3)) (some qt)
  | .lastNQuarters => span (checkedI64 (-3 * n) >>= m qt) (some now)
  | .quarterToDate => span (some qt) (some now)
  | .thisYear => span (some yr) (some now)
  | .lastYear => span (y yr (-1)) (some yr)
  | .lastNYears => span (y yr (-n)) (some now)
  | .yearToDate => span (some yr) (some now)
  | .allTime => some (some ⟨none, none⟩)
  | .unspecified => some none

/-- The counted days or weeks lead out of the dates of the library. -/
def LeavesDates (zones : String → Option Zone) (now : ℤ) (tf : TimeFrameCtx) : Prop :=
  let tz := parseTz zones tf.timezone
  let n := max tf.nValue.val 1
  match tf.tfType with
  | .lastNDays => epochToZdt (truncateToUnit now .day tz) - n * 86400 < minDateTime
  | .nextNDays => maxDateTime < epochToZdt now + n * 86400
  | .lastNWeeks => epochToZdt (truncateToUnit now .week tz) - n * 604800 < minDateTime
  | .nextNWeeks => maxDateTime < epochToZdt now + n * 604800
  | _ => False

instance (zones : String → Option Zone) (now : ℤ) (tf : TimeFrameCtx) :
    Decidable (LeavesDates zones now tf) := by
  unfold LeavesDates
  dsimp only
  split <;> infer_instance

section Frames
variable {zones : String → Option Zone} {now : ℤ} {tf : TimeFrameCtx}

theorem parseTz_bounded (h : ∀ name zone, zones name = some zone → zone.Bounded) (tz : String) :
    (parseTz zones tz).Bounded := by
  rw [parseTz]
  cases hname : zones tz with
  | none => exact Zone.fixed_bounded (by norm_num)
  | some zone => exact h tz zone hname

theorem span_ite_left (c : Prop) [Decidable c] (startTs endTs : ℤ) :
    span (if c then none else some startTs) (some endTs) =
      if c then none else some (some (between startTs endTs)) := by
  split_ifs <;> rfl

theorem span_ite_right (c : Prop) [Decidable c] (startTs endTs : ℤ) :
    span (some startTs) (if c then none else some endTs) =
      if c then none else some (some (between startTs endTs)) := by
  split_ifs <;> rfl

theorem resolved_of_leaves_iff {c : Prop} [Decidable c] (hc : LeavesDates zones now tf ↔ c)
    (h : checkedResolveTimeFrame zones now tf =
      if c then none else some (resolveTimeFrame zones now tf)) :
    checkedResolveTimeFrame zones now tf =
      if LeavesDates zones now tf then none else some (resolveTimeFrame zones now tf) := by
  rw [h]
  exact if_congr hc.symm rfl rfl

theorem checkedResolveTimeFrame_eq (hzones : ∀ name zone, zones name = some zone → zone.Bounded)
    (hnow : minDateTime ≤ now ∧ now ≤ maxDateTime) (hn : tf.nValue.val < 2 ^ 31) :
    checkedResolveTimeFrame zones now tf =
      if LeavesDates zones now tf then none else some (resolveTimeFrame zones now tf) := by
  have hzone := parseTz_bounded hzones tf.timezone
  have hcount : 0 ≤ max tf.nValue.val 1 ∧ max tf.nValue.val 1 < 2 ^ 31 := by omega
  rw [minDateTime, maxDateTime] at hnow
  -- what each helper gives
  have hday (base : ℤ) {k : ℤ} (h : -2 ≤ k ∧ k ≤ 2) :=
    checkedShiftByCalendar_near (show monthsIn .day = none from rfl) (parseTz zones tf.timezone)
      base h
  have hweek (base : ℤ) {k : ℤ} (h : -2 ≤ k ∧ k ≤ 2) :=
    checkedShiftByCalendar_near (show monthsIn .week = none from rfl) (parseTz zones tf.timezone)
      base h
  have hmonth (base : ℤ) {k : ℤ} (h : -12 * (2 ^ 31 - 1) ≤ k * 1 ∧ k * 1 ≤ 2 ^ 31) :=
    checkedShiftByCalendar_months (show monthsIn .month = some 1 from rfl) hzone base h
  have hyear (base : ℤ) {k : ℤ} (h : -12 * (2 ^ 31 - 1) ≤ k * 12 ∧ k * 12 ≤ 2 ^ 31) :=
    checkedShiftByCalendar_months (show monthsIn .year = some 12 from rfl) hzone base h
  cases htype : tf.tfType
  case lastNDays =>
    apply resolved_of_leaves_iff (by rw [LeavesDates, htype])
    simp only [checkedResolveTimeFrame, resolveTimeFrame, htype]
    rw [checkedShiftByCalendar_past rfl _ _ hcount]
    exact span_ite_left ..
  case nextNDays =>
    apply resolved_of_leaves_iff (by rw [LeavesDates, htype])
    simp only [checkedResolveTimeFrame, resolveTimeFrame, htype]
    rw [checkedShiftByCalendar_future rfl _ _ hcount]
    exact span_ite_right ..
  case lastNWeeks =>
    apply resolved_of_leaves_iff (by rw [LeavesDates, htype])
    simp only [checkedResolveTimeFrame, resolveTimeFrame, htype]
    rw [checkedShiftByCalendar_past rfl _ _ hcount]
    exact span_ite_left ..
  case nextNWeeks =>
    apply resolved_of_leaves_iff (by rw [LeavesDates, htype])
    simp only [checkedResolveTimeFrame, resolveTimeFrame, htype]
    rw [checkedShiftByCalendar_future rfl _ _ hcount]
    exact span_ite_right ..
  all_goals
    rw [if_neg (by rw [LeavesDates, htype]; exact not_false)]
    simp only [checkedResolveTimeFrame, resolveTimeFrame, htype]
  case lastNMinutes =>
    simp only [checkedI64_eq (show -2 ^ 63 ≤ max tf.nValue.val 1 * 60 ∧
        max tf.nValue.val 1 * 60 < 2 ^ 63 by omega), Option.bind_eq_bind, Option.bind_some,
      checkedI64_eq (show -2 ^ 63 ≤ now - max tf.nValue.val 1 * 60 ∧
        now - max tf.nValue.val 1 * 60 < 2 ^ 63 by omega)]
    rfl
  case lastNHours =>
    simp only [checkedI64_eq (show -2 ^ 63 ≤ max tf.nValue.val 1 * 3600 ∧
        max tf.nValue.val 1 * 3600 < 2 ^ 63 by omega), Option.bind_eq_bind, Option.bind_some,
      checkedI64_eq (show -2 ^ 63 ≤ now - max tf.nValue.val 1 * 3600 ∧
        now - max tf.nValue.val 1 * 3600 < 2 ^ 63 by omega)]
    rfl
  case lastNQuarters =>
    simp only [checkedI64_eq (show -2 ^ 63 ≤ -3 * max tf.nValue.val 1 ∧
        -3 * max tf.nValue.val 1 < 2 ^ 63 by omega), Option.bind_eq_bind, Option.bind_some]
    rw [hmonth _ (by omega)]
    rfl
  case lastNMonths =>
    rw [hmonth _ (by omega)]
    rfl
  case nextNMonths =>
    rw [hmonth _ (by omega)]
    rfl
  case lastNYears =>
    rw [hyear _ (by omega)]
    rfl
  case today =>
    rw [hday _ (by norm_num)]
    rfl
  case yesterday =>
    rw [hday _ (by norm_num)]
    rfl
  case tomorrow =>
    rw [hday _ (by norm_num), hday _ (by norm_num)]
    rfl
  case lastWeek =>
    rw [hweek _ (by norm_num)]
    rfl
  case nextWeek =>
    rw [hweek _ (by norm_num), hweek _ (by norm_num)]
    rfl
  case lastMonth =>
    rw [hmonth _ (by norm_num)]
    rfl
  case nextMonth =>
    rw [hmonth _ (by norm_num), hmonth _ (by norm_num)]
    rfl
  case lastQuarter =>
    rw [hmonth _ (by norm_num)]
    rfl
  case lastYear =>
    rw [hyear _ (by norm_num)]
    rfl
  -- the others shift nothing
  all_goals rfl

end Frames

/-! ### Frames of a request -/

def TimeFrameType.fromProto : ℤ → TimeFrameType
  | 1 => .customRange
  | 2 => .today
  | 3 => .yesterday
  | 4 => .tomorrow
  | 5 => .lastNMinutes
  | 6 => .lastNHours
  | 7 => .lastNDays
  | 8 => .nextNDays
  | 9 => .thisWeek
  | 10 => .lastWeek
  | 11 => .nextWeek
  | 12 => .lastNWeeks
  | 13 => .nextNWeeks
  | 14 => .weekToDate
  | 15 => .thisMonth
  | 16 => .lastMonth
  | 17 => .nextMonth
  | 18 => .lastNMonths
  | 19 => .nextNMonths
  | 20 => .monthToDate
  | 21 => .thisQuarter
  | 22 => .lastQuarter
  | 23 => .lastNQuarters
  | 24 => .quarterToDate
  | 25 => .thisYear
  | 26 => .lastYear
  | 27 => .lastNYears
  | 28 => .yearToDate
  | 29 => .allTime
  | _ => .unspecified

/-- A frame as either contract writes it; the count has 32 bits. -/
structure TimeFrameContext (T : Type) where
  type : Signed 32
  nValue : Signed 32
  startTs : Signed 64
  endTs : Signed 64
  timezone : T

/-- A count of 32 bits in 64. -/
def widen (n : Signed 32) : Signed 64 := seconds n.val

theorem widen_lt (n : Signed 32) : (widen n).val < 2 ^ 31 := by
  have hlow : -2 ^ 31 ≤ n.val := n.property.1
  have hhigh : n.val < 2 ^ 31 := n.property.2
  rw [widen, seconds_val (by omega) (by omega)]
  exact hhigh

/-- The frame of a gRPC request. -/
def protoFrame (tf : TimeFrameContext String) : TimeFrameCtx :=
  ⟨.fromProto tf.type.val, widen tf.nValue, tf.startTs, tf.endTs,
    if tf.timezone = "" then "UTC" else tf.timezone⟩

/-- The frame of a FlatBuffers request. -/
def fbsFrame (tf : TimeFrameContext (Option String)) : TimeFrameCtx :=
  ⟨.fromProto tf.type.val, widen tf.nValue, tf.startTs, tf.endTs, tf.timezone.getD "UTC"⟩

/-- A frame of a request resolves without a panic exactly where its counted days or weeks stay
within the dates of the library. -/
theorem request_resolves_iff {zones : String → Option Zone}
    (hzones : ∀ name zone, zones name = some zone → zone.Bounded) {now : ℤ}
    (hnow : minDateTime ≤ now ∧ now ≤ maxDateTime) :
    (∀ tf : TimeFrameContext String,
      checkedResolveTimeFrame zones now (protoFrame tf) ≠ none ↔
        ¬LeavesDates zones now (protoFrame tf)) ∧
    (∀ tf : TimeFrameContext (Option String),
      checkedResolveTimeFrame zones now (fbsFrame tf) ≠ none ↔
        ¬LeavesDates zones now (fbsFrame tf)) := by
  have hresolves (tf : TimeFrameCtx) (hn : tf.nValue.val < 2 ^ 31) :
      checkedResolveTimeFrame zones now tf ≠ none ↔ ¬LeavesDates zones now tf := by
    rw [checkedResolveTimeFrame_eq hzones hnow hn]
    split_ifs with hleaves <;> simp [hleaves]
  exact ⟨fun tf => hresolves (protoFrame tf) (widen_lt tf.nValue),
    fun tf => hresolves (fbsFrame tf) (widen_lt tf.nValue)⟩

/-- The last days before an instant of 2026, in UTC. -/
def lastDays (n : Signed 32) : TimeFrameContext String :=
  ⟨⟨7, by decide⟩, n, seconds 0, seconds 0, "UTC"⟩

theorem lastWeekOfDays_resolves : checkedResolveTimeFrame (fun _ => none) 1780000000
    (protoFrame (lastDays ⟨7, by decide⟩)) ≠ none :=
  have hzones : ∀ name zone, (none : Option Zone) = some zone → Zone.Bounded zone := by
    intro name zone h
    cases h
  ((request_resolves_iff hzones (by decide : minDateTime ≤ 1780000000 ∧ _)).1
    (lastDays ⟨7, by decide⟩)).mpr (by decide)

/-- So many days before 2026 there is no date. -/
theorem lastDays_panics : checkedResolveTimeFrame (fun _ => none) 1780000000
    (protoFrame (lastDays ⟨2147483647, by decide⟩)) = none := by
  rw [checkedResolveTimeFrame_eq (fun _ zone h => by cases h) (by decide) (by decide)]
  exact if_pos (by decide)

end MetriEngine.Temporal

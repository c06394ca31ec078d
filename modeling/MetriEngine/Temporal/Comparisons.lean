import MetriEngine.Temporal.MonthShifts
import MetriEngine.Temporal.TimeFrame

/-!
# Periods of comparison

A comparison of a request shifts both ends of a period into the past, or two instants a day apart;
or it takes the period before, or one that the request gives. The shifted ends are in order where
the zone gives the two shifted local times instants in that order.
-/
namespace MetriEngine.Temporal
open Foundation.Calendar Storage Eav

/-! ### Comparisons of a request -/

inductive ComparisonType
  | timeShiftRelative
  | timeShiftShortcut
  | timeShiftAbsolute
  | benchmark
  | smart
  | unspecified
deriving DecidableEq

/-- The amount comes from a field of 32 bits. -/
structure AnalyticalComparison where
  compType : ComparisonType
  relativeGranularity : String
  relativeAmount : Signed 32
  shortcut : ShiftShortcut
  absoluteStartTs : Option (Signed 64)
  absoluteEndTs : Option (Signed 64)

/-- What is no unit is a day. -/
def CalUnit.fromStr [Aegis.TextSearch] (s : String) : CalUnit :=
  match Aegis.TextSearch.lowercase s with
  | "minute" => .minute
  | "hour" => .hour
  | "week" => .week
  | "month" => .month
  | "quarter" => .quarter
  | "year" => .year
  | _ => .day

def startOf (range : Aegis.TimeRange) : ℤ := range.startTs.elim 0 (·.val)

def endOf (now : Signed 64) (range : Aegis.TimeRange) : ℤ := range.endTs.elim now.val (·.val)

/-- The period that a range is compared with. -/
def resolveComparisonPeriod [Aegis.TextSearch] (now : Signed 64) (comp : AnalyticalComparison)
    (range : Aegis.TimeRange) (tz : Zone) : Option ComparisonPeriod :=
  match comp.compType with
  | .timeShiftRelative =>
    let unit := CalUnit.fromStr comp.relativeGranularity
    let amount := max comp.relativeAmount.val 1
    some ⟨seconds (shiftByCalendar (startOf range) (-amount) unit tz),
      seconds (shiftByCalendar (endOf now range) (-amount) unit tz)⟩
  | .timeShiftShortcut => resolveShortcut now.val comp.shortcut range tz
  | .timeShiftAbsolute =>
    some ⟨comp.absoluteStartTs.getD (seconds 0), comp.absoluteEndTs.getD now⟩
  | .benchmark => none
  | .smart => none
  | .unspecified => none

/-! ### What is shifted -/

/-- Two instants that go some units into the past. -/
structure Shift where
  first : ℤ
  last : ℤ
  unit : CalUnit
  amount : ℤ

/-- The unit of a shortcut that shifts, and whether it shifts the day before the period. -/
def ShiftShortcut.shifts : ShiftShortcut → Option (CalUnit × Bool)
  | .previousPeriod => none
  | .samePeriodLastYear => some (.year, false)
  | .sameDayLastYear => some (.year, false)
  | .todayLastYear => some (.year, false)
  | .yesterdayLastYear => some (.year, true)
  | .samePeriodLastQuarter => some (.quarter, false)
  | .samePeriodLastMonth => some (.month, false)
  | .sameDayLastMonth => some (.month, false)
  | .todayLastMonth => some (.month, false)
  | .yesterdayLastMonth => some (.month, true)
  | .sameDayLastWeek => some (.week, false)
  | .yesterdayLastWeek => some (.week, true)
  | .unspecified => none

def shiftOf [Aegis.TextSearch] (now : Signed 64) (comp : AnalyticalComparison)
    (range : Aegis.TimeRange) : Option Shift :=
  match comp.compType with
  | .timeShiftRelative =>
    some ⟨startOf range, endOf now range, CalUnit.fromStr comp.relativeGranularity,
      max comp.relativeAmount.val 1⟩
  | .timeShiftShortcut =>
    comp.shortcut.shifts.map fun s =>
      if s.2 then ⟨(seconds (startOf range - 86400)).val, startOf range, s.1, 1⟩
      else ⟨startOf range, endOf now range, s.1, 1⟩
  | _ => none

/-- The period of a shift. -/
def Shift.period (s : Shift) (tz : Zone) : ComparisonPeriod :=
  ⟨seconds (shiftByCalendar s.first (-s.amount) s.unit tz),
    seconds (shiftByCalendar s.last (-s.amount) s.unit tz)⟩

section Resolved
variable [Aegis.TextSearch] {now : Signed 64} {comp : AnalyticalComparison}
  {range : Aegis.TimeRange}

theorem resolve_of_shiftOf {s : Shift} (h : shiftOf now comp range = some s) (tz : Zone) :
    resolveComparisonPeriod now comp range tz = some (s.period tz) := by
  rw [shiftOf] at h
  rw [resolveComparisonPeriod]
  cases hkind : comp.compType with
  | timeShiftRelative =>
    rw [hkind] at h
    cases h
    rfl
  | timeShiftShortcut =>
    rw [hkind] at h
    obtain ⟨unit, hunit, rfl⟩ := Option.map_eq_some_iff.mp h
    cases hshortcut : comp.shortcut <;> rw [hshortcut] at hunit <;> cases hunit <;> rfl
  | timeShiftAbsolute | benchmark | smart | unspecified =>
    rw [hkind] at h
    cases h

theorem amount_of_shiftOf {s : Shift} (h : shiftOf now comp range = some s) :
    0 < s.amount ∧ s.amount < 2 ^ 31 := by
  rw [shiftOf] at h
  cases hkind : comp.compType with
  | timeShiftRelative =>
    rw [hkind] at h
    cases h
    have hlimit : comp.relativeAmount.val < 2 ^ 31 := comp.relativeAmount.property.2
    dsimp only
    omega
  | timeShiftShortcut =>
    rw [hkind] at h
    obtain ⟨unit, _, rfl⟩ := Option.map_eq_some_iff.mp h
    split_ifs <;> norm_num
  | timeShiftAbsolute | benchmark | smart | unspecified =>
    rw [hkind] at h
    cases h

end Resolved

/-! ### Where the ends are in order -/

/-- The two instants stay in order: as the machine moves them into the years 1 to 9999, and for
months as the zone reads the two shifted local times. -/
def Shift.KeepsOrder (s : Shift) (zone : Zone) : Prop :=
  match monthsIn s.unit with
  | none => epochToZdt s.first ≤ epochToZdt s.last
  | some m => zone.instantOf (saturatedLocal zone (epochToZdt s.first) (-s.amount * m)) ≤
      zone.instantOf (saturatedLocal zone (epochToZdt s.last) (-s.amount * m))

theorem Shift.period_inOrder_iff (s : Shift) {zone : Zone} (hzone : zone.Bounded)
    (hamount : 0 < s.amount ∧ s.amount < 2 ^ 31) :
    (s.period zone).prevStart.val ≤ (s.period zone).prevEnd.val ↔ s.KeepsOrder zone := by
  have hfirst := shiftByCalendar_bounds hzone s.first hamount s.unit
  have hlast := shiftByCalendar_bounds hzone s.last hamount s.unit
  rw [period, seconds_val hfirst.1 hfirst.2, seconds_val hlast.1 hlast.2, KeepsOrder]
  cases hmonths : monthsIn s.unit with
  | none =>
    rw [shiftByCalendar_seconds hmonths, shiftByCalendar_seconds hmonths]
    exact add_le_add_iff_right _
  | some m => rw [shiftByCalendar_months hmonths, shiftByCalendar_months hmonths]

/-- A shift by seconds keeps the order. -/
theorem Shift.keepsOrder_seconds {s : Shift} (h : monthsIn s.unit = none) (hle : s.first ≤ s.last)
    (zone : Zone) : s.KeepsOrder zone := by
  rw [KeepsOrder, h]
  exact epochToZdt_mono hle

/-- Under a fixed offset, a shift by months that stays after the year 0 keeps the order but where
the target month cuts both days. -/
theorem Shift.keepsOrder_fixed_iff {s : Shift} {m : ℤ} (h : monthsIn s.unit = some m)
    (hle : s.first ≤ s.last) {offset : ℤ} (hoffset : -86400 < offset ∧ offset < 86400)
    (hamount : 0 < s.amount)
    (hyear : s.amount * m ≤ ((Zone.fixed offset).dateAt (epochToZdt s.first)).monthIndex) :
    s.KeepsOrder (.fixed offset) ↔
      ¬CutApart (.fixed offset) (epochToZdt s.first) (epochToZdt s.last) (s.amount * m) := by
  have hclamped := epochToZdt_mono hle
  have hlocal : (Zone.fixed offset).localTime (epochToZdt s.first) ≤
      (Zone.fixed offset).localTime (epochToZdt s.last) := add_le_add_left hclamped offset
  have hmonths := monthIndex_mono hlocal
  have hlast := (monthIndex_bounds (Zone.fixed_bounded hoffset) s.last).2
  have hm : 0 < m := by
    cases hunit : s.unit <;> rw [hunit] at h <;> cases h <;> norm_num
  have hpos : 0 < s.amount * m := mul_pos hamount hm
  have hyears (dt : ℤ) (hmin : s.amount * m ≤ ((Zone.fixed offset).dateAt dt).monthIndex)
      (hmax : ((Zone.fixed offset).dateAt dt).monthIndex ≤ 120000) :
      saturatedLocal (.fixed offset) dt (-(s.amount * m)) =
        laterLocal (.fixed offset) dt (-(s.amount * m)) := by
    apply saturatedLocal_eq
    simp only [Date.addMonths]
    omega
  rw [KeepsOrder, h]
  dsimp only
  rw [neg_mul, hyears _ hyear (hmonths.trans hlast), hyears _ (hyear.trans hmonths) hlast,
    ← laterLocal_le_iff hlocal]
  exact sub_le_sub_iff_right offset

/-! ### The comparison periods -/

/-- When the ends of the period of a comparison are in order. -/
def EndsInOrder [Aegis.TextSearch] (zone : Zone) (now : Signed 64) (comp : AnalyticalComparison)
    (range : Aegis.TimeRange) : Prop :=
  match shiftOf now comp range with
  | some s => s.KeepsOrder zone
  | none =>
    match comp.compType with
    | .timeShiftAbsolute =>
      (comp.absoluteStartTs.getD (seconds 0)).val ≤ (comp.absoluteEndTs.getD now).val
    -- the start of the previous period has 64 bits
    | _ => -2 ^ 63 ≤ startOf range - (endOf now range - startOf range)

theorem wrapI64_le_iff {a b : ℤ} (hhigh : b < 2 ^ 63) (hle : a ≤ b) :
    wrapI64 (a - (b - a)) ≤ a ↔ -2 ^ 63 ≤ a - (b - a) := by
  rw [wrapI64]
  omega

theorem startOf_bounds (range : Aegis.TimeRange) :
    -2 ^ 63 ≤ startOf range ∧ startOf range < 2 ^ 63 := by
  rw [startOf]
  cases range.startTs with
  | none => norm_num
  | some t => exact t.property

theorem endOf_bounds (now : Signed 64) (range : Aegis.TimeRange) :
    -2 ^ 63 ≤ endOf now range ∧ endOf now range < 2 ^ 63 := by
  rw [endOf]
  cases range.endTs with
  | none => exact now.property
  | some t => exact t.property

theorem resolveComparisonPeriod_iff [Aegis.TextSearch] {zone : Zone} (hzone : zone.Bounded)
    (now : Signed 64) (comp : AnalyticalComparison) (range : Aegis.TimeRange)
    (hle : startOf range ≤ endOf now range) {p : ComparisonPeriod}
    (h : resolveComparisonPeriod now comp range zone = some p) :
    p.prevStart.val ≤ p.prevEnd.val ↔ EndsInOrder zone now comp range := by
  rw [EndsInOrder]
  cases hshift : shiftOf now comp range with
  | some s =>
    rw [resolve_of_shiftOf hshift] at h
    cases h
    exact s.period_inOrder_iff hzone (amount_of_shiftOf hshift)
  | none =>
    dsimp only
    rw [shiftOf] at hshift
    rw [resolveComparisonPeriod] at h
    cases hkind : comp.compType with
    | timeShiftAbsolute =>
      rw [hkind] at h
      cases h
      rfl
    | timeShiftShortcut =>
      rw [hkind] at h hshift
      have hnone : comp.shortcut.shifts = none := Option.map_eq_none_iff.mp hshift
      cases hshortcut : comp.shortcut <;> rw [hshortcut] at hnone h <;> cases hnone <;> cases h
      -- the previous period is left
      have hstart := startOf_bounds range
      have hwrap := wrapI64_le_iff (endOf_bounds now range).2 hle
      rw [← hwrap]
      have hend : (seconds (startOf range)).val = startOf range :=
        seconds_val hstart.1 hstart.2
      change _ ≤ (seconds (startOf range)).val ↔ _
      rw [hend]
      rfl
    | timeShiftRelative =>
      rw [hkind] at hshift
      cases hshift
    | benchmark | smart | unspecified =>
      rw [hkind] at h
      cases h

/-- A shift by months, quarters or years shows the date that many months later, its day cut to the
length of the month, at the same time of day, exactly where that local time is single or is read in
UTC as in the zone. The ends of a comparison period are in order exactly where they stay in order;
shifts by seconds keep them so, and under a fixed offset shifts by months do but where the target
month cuts both days. -/
theorem calendar_shifts_iff [Aegis.TextSearch] :
    (∀ (zone : Zone) (unit : CalUnit) (m : ℤ), monthsIn unit = some m → ∀ t k,
      0 ≤ ((zone.dateAt (epochToZdt t)).addMonths (k * m)).year ∧
        ((zone.dateAt (epochToZdt t)).addMonths (k * m)).year ≤ 9999 →
      (zone.localTime (shiftByCalendar t k unit zone) = laterLocal zone (epochToZdt t) (k * m) ↔
        (∃ s, zone.single (laterLocal zone (epochToZdt t) (k * m)) = some s) ∨
          zone.offsetAt (laterLocal zone (epochToZdt t) (k * m)) = 0)) ∧
    (∀ zone : Zone, zone.Bounded → ∀ now comp range, startOf range ≤ endOf now range →
      ∀ p, resolveComparisonPeriod now comp range zone = some p →
        (p.prevStart.val ≤ p.prevEnd.val ↔ EndsInOrder zone now comp range)) ∧
    (∀ (s : Shift) (zone : Zone), monthsIn s.unit = none → s.first ≤ s.last → s.KeepsOrder zone) ∧
    (∀ (s : Shift) (m offset : ℤ), monthsIn s.unit = some m → s.first ≤ s.last →
      -86400 < offset ∧ offset < 86400 → 0 < s.amount →
      s.amount * m ≤ ((Zone.fixed offset).dateAt (epochToZdt s.first)).monthIndex →
      (s.KeepsOrder (.fixed offset) ↔
        ¬CutApart (.fixed offset) (epochToZdt s.first) (epochToZdt s.last) (s.amount * m))) :=
  ⟨fun zone _ _ h t k hyear => localTime_shiftByCalendar_iff h zone t k hyear,
    fun _ hzone now comp range hle _ h => resolveComparisonPeriod_iff hzone now comp range hle h,
    fun _ zone h hle => Shift.keepsOrder_seconds h hle zone,
    fun _ _ _ h hle hoffset hamount hyear =>
      Shift.keepsOrder_fixed_iff h hle hoffset hamount hyear⟩

/-- Ten days of March 2026 and the month before, in UTC. -/
theorem tenDays_of_march : (Zone.fixed 0).localTime (shiftByCalendar 1773100800 (-1) .month (.fixed 0)) =
      laterLocal (.fixed 0) (epochToZdt 1773100800) (-1 * 1) ∧
    (⟨1773100800, 1773964800, .month, 1⟩ : Shift).KeepsOrder (.fixed 0) := by
  have laws := @calendar_shifts_iff Aegis.plainSearch
  refine ⟨?_, ?_⟩
  · exact (laws.1 (.fixed 0) .month 1 rfl 1773100800 (-1) (by decide)).mpr (Or.inl ⟨_, rfl⟩)
  · exact (laws.2.2.2 ⟨1773100800, 1773964800, .month, 1⟩ 1 0 rfl (by decide) (by decide) (by decide)
      (by decide)).mpr (by decide)

/-! ### An hour that is there twice -/

/-- A zone that goes back from two hours to one at 2025-10-26 01:00 in UTC. -/
def autumnZone : Zone where
  offsetAt t := if t < 1761440400 then 7200 else 3600
  single l :=
    if l < 1761444000 then some (l - 7200)
    else if l < 1761447600 then none
    else some (l - 3600)
  single_iff := by
    intro l t
    constructor
    · intro h s
      split_ifs at h ⊢ <;> simp only [Option.some.injEq] at h <;> omega
    · intro h
      have hsummer := h (l - 7200)
      have hwinter := h (l - 3600)
      have hself := h t
      split_ifs at hsummer hwinter hself ⊢ <;> first | omega | (rw [Option.some.injEq]; omega)

/-- The last days of March go to one day of February, the later one with the earlier time. -/
def endOfMarch : Shift := ⟨1774872000, 1774944000, .month, 1⟩

theorem shifts_out_of_order :
    (shiftByCalendar 1758846600 1 .month autumnZone = 1761445800 ∧
      laterLocal autumnZone 1758846600 1 = 1761445800 ∧
      autumnZone.localTime 1761445800 = 1761449400) ∧
    (resolveShortcut 0 .samePeriodLastMonth (between 1774872000 1774944000) (.fixed 0) =
      some (endOfMarch.period (.fixed 0)) ∧
      (endOfMarch.period (.fixed 0)).prevStart.val = 1772280000 ∧
      (endOfMarch.period (.fixed 0)).prevEnd.val = 1772265600) := by
  refine ⟨⟨by decide, by decide, by decide⟩, by decide, by decide, by decide⟩

end MetriEngine.Temporal

import MetriEngine.Foundation.Calendar

/-!
# Shifting and truncating times

Times are epoch seconds. A time zone gives each instant its local time, and a local time its
instant where there is exactly one. Sums that leave the range of the date library, on which it
panics, are left out.
-/
namespace MetriEngine.Temporal
open Foundation.Calendar

/-! ### Time zones -/

structure Zone where
  offsetAt : ℤ → ℤ
  /-- The instant of a local time, if there is one and no other. -/
  single : ℤ → Option ℤ
  single_iff : ∀ l t, single l = some t ↔ ∀ s, s + offsetAt s = l ↔ s = t

/-- A zone that never changes its offset. -/
def Zone.fixed (offset : ℤ) : Zone where
  offsetAt := fun _ => offset
  single := fun l => some (l - offset)
  single_iff := by
    intro l t
    rw [Option.some.injEq]
    constructor
    · intro h s
      omega
    · intro h
      have := (h t).mpr rfl
      omega

/-- What the zone database knows about a name; an unknown name is UTC. -/
def parseTz (zones : String → Option Zone) (tz : String) : Zone := (zones tz).getD (.fixed 0)

def minSecs : ℤ := -62135596800
def maxSecs : ℤ := 253402300799

/-- The instant, moved into the years 1 to 9999. -/
def epochToZdt (epochSecs : ℤ) : ℤ := max minSecs (min epochSecs maxSecs)

namespace Zone

variable (zone : Zone)

def localTime (t : ℤ) : ℤ := t + zone.offsetAt t

/-- The instant with another local time, as far as it is a single one. -/
def mapLocal (f : ℤ → Option ℤ) (t : ℤ) : Option ℤ := (f (zone.localTime t)).bind zone.single

def withHour0 : ℤ → Option ℤ := zone.mapLocal fun l => some (l - l % 86400 / 3600 * 3600)

def withMinute0 : ℤ → Option ℤ := zone.mapLocal fun l => some (l - l % 3600 / 60 * 60)

def withSecond0 : ℤ → Option ℤ := zone.mapLocal fun l => some (l - l % 60)

def withNanosecond0 : ℤ → Option ℤ := zone.mapLocal some

def day0 (t : ℤ) : ℤ :=
  ((((zone.withHour0 t).bind zone.withMinute0).bind zone.withSecond0).bind
    zone.withNanosecond0).getD t

/-- The local date of an instant. -/
def dateAt (t : ℤ) : Date := dateOf (zone.localTime t / 86400)

/-- The instant at the same local time of another date, if that date exists. -/
def withDate (d : Date) (t : ℤ) : Option ℤ :=
  zone.mapLocal (fun l => if d.Valid then some (d.toDay * 86400 + l % 86400) else none) t

def withDay (day : ℤ) (t : ℤ) : Option ℤ := zone.withDate { zone.dateAt t with day := day } t

def withMonth (month : ℤ) (t : ℤ) : Option ℤ := zone.withDate { zone.dateAt t with month := month } t

/-- The first day of the year. -/
def withOrdinal1 (t : ℤ) : Option ℤ := zone.withDate ⟨(zone.dateAt t).year, 1, 1⟩ t

def numDaysFromMonday (t : ℤ) : ℤ := (zone.localTime t / 86400 + 3) % 7

end Zone

/-! ### Units -/

inductive CalUnit
  | minute
  | hour
  | day
  | week
  | month
  | quarter
  | year
deriving DecidableEq

def daysInMonth (year month : ℤ) : ℤ :=
  if month = 1 ∨ month = 3 ∨ month = 5 ∨ month = 7 ∨ month = 8 ∨ month = 10 ∨ month = 12 then 31
  else if month = 4 ∨ month = 6 ∨ month = 9 ∨ month = 11 then 30
  else if month = 2 then if IsLeap year then 29 else 28
  else 30

/-- The table of the months agrees with the calendar. -/
theorem daysInMonth_eq (year : ℤ) {month : ℤ} (h : 1 ≤ month ∧ month ≤ 12) :
    daysInMonth year month = Foundation.Calendar.daysInMonth year month := by
  obtain ⟨h1, h12⟩ := h
  rw [daysInMonth, Foundation.Calendar.daysInMonth, daysBefore, daysBefore]
  split_ifs <;> omega

/-- Keeps the day as far as the month has it; a year outside 0 to 9999 is moved there. -/
def shiftMonths (zone : Zone) (dt : ℤ) (months : ℤ) : ℤ :=
  let date := zone.dateAt dt
  let totalMonths := date.month - 1 + months
  let newMonth := totalMonths % 12 + 1
  let newYear := date.year + totalMonths / 12
  let newDay := min date.day (daysInMonth newYear newMonth)
  let shifted : Date := ⟨max 0 (min newYear 9999), newMonth, newDay⟩
  let naive :=
    if shifted.Valid then shifted.toDay * 86400 + zone.localTime dt % 86400
    else zone.localTime dt
  (zone.single naive).getD naive

def shiftYears (zone : Zone) (dt : ℤ) (years : ℤ) : ℤ := shiftMonths zone dt (years * 12)

def shiftByCalendar (epochSecs amount : ℤ) (unit : CalUnit) (zone : Zone) : ℤ :=
  let dt := epochToZdt epochSecs
  match unit with
  | .minute => dt + amount * 60
  | .hour => dt + amount * 3600
  | .day => dt + amount * 86400
  | .week => dt + amount * 604800
  | .month => shiftMonths zone dt amount
  | .quarter => shiftMonths zone dt (amount * 3)
  | .year => shiftYears zone dt amount

def truncateToUnit (epochSecs : ℤ) (unit : CalUnit) (zone : Zone) : ℤ :=
  let dt := epochToZdt epochSecs
  match unit with
  | .minute => epochSecs.tdiv 60 * 60
  | .hour => epochSecs.tdiv 3600 * 3600
  | .day => zone.day0 dt
  | .week => zone.day0 (dt - zone.numDaysFromMonday dt * 86400)
  | .month => zone.day0 ((zone.withDay 1 dt).getD dt)
  | .quarter =>
    let qm := ((zone.dateAt dt).month - 1) / 3 * 3 + 1
    zone.day0 (((zone.withMonth qm dt).bind (zone.withDay 1)).getD dt)
  | .year => zone.day0 ((zone.withOrdinal1 dt).getD dt)

/-! ### A fixed offset -/

theorem epochToZdt_of_mem {t : ℤ} (h : minSecs ≤ t) (h' : t ≤ maxSecs) : epochToZdt t = t := by
  rw [epochToZdt, min_eq_left h', max_eq_right h]

section Fixed

variable (offset t : ℤ)

theorem day0_fixed : (Zone.fixed offset).day0 t = t - (t + offset) % 86400 := by
  have hhour : (Zone.fixed offset).withHour0 t =
      some (t - (t + offset) % 86400 / 3600 * 3600) := by
    simp only [Zone.withHour0, Zone.mapLocal, Zone.localTime, Zone.fixed, Option.bind_some,
      Option.some.injEq]
    omega
  have hminute (s : ℤ) : (Zone.fixed offset).withMinute0 s =
      some (s - (s + offset) % 3600 / 60 * 60) := by
    simp only [Zone.withMinute0, Zone.mapLocal, Zone.localTime, Zone.fixed, Option.bind_some,
      Option.some.injEq]
    omega
  have hsecond (s : ℤ) : (Zone.fixed offset).withSecond0 s = some (s - (s + offset) % 60) := by
    simp only [Zone.withSecond0, Zone.mapLocal, Zone.localTime, Zone.fixed, Option.bind_some,
      Option.some.injEq]
    omega
  have hnano (s : ℤ) : (Zone.fixed offset).withNanosecond0 s = some s := by
    simp only [Zone.withNanosecond0, Zone.mapLocal, Zone.localTime, Zone.fixed, Option.bind_some,
      Option.some.injEq]
    omega
  rw [Zone.day0, hhour, Option.bind_some, hminute, Option.bind_some, hsecond, Option.bind_some,
    hnano, Option.getD_some]
  omega

theorem withDate_fixed {d : Date} (h : d.Valid) :
    (Zone.fixed offset).withDate d t = some (d.toDay * 86400 + (t + offset) % 86400 - offset) := by
  simp only [Zone.withDate, Zone.mapLocal, if_pos h]
  rfl

/-- The midnight before the Monday of an instant. -/
theorem truncate_week_fixed (hmin : minSecs ≤ t) (hmax : t ≤ maxSecs) :
    truncateToUnit t .week (.fixed offset) =
      t - (t + offset) % 86400 - ((t + offset) / 86400 + 3) % 7 * 86400 := by
  simp only [truncateToUnit, epochToZdt_of_mem hmin hmax, day0_fixed]
  simp only [Zone.numDaysFromMonday, Zone.localTime, Zone.fixed]
  omega

theorem truncate_month_fixed (hmin : minSecs ≤ t) (hmax : t ≤ maxSecs) :
    truncateToUnit t .month (.fixed offset) =
      (dateOf ((t + offset) / 86400)).first.toDay * 86400 - offset := by
  have hvalid := (dateOf_spec ((t + offset) / 86400)).1.first
  have hfirst : (Zone.fixed offset).withDay 1 t = some
      ((dateOf ((t + offset) / 86400)).first.toDay * 86400 + (t + offset) % 86400 - offset) :=
    withDate_fixed offset t hvalid
  simp only [truncateToUnit, epochToZdt_of_mem hmin hmax, hfirst, Option.getD_some, day0_fixed]
  omega

omit t in
/-- From the first of a month to the first of the next. -/
theorem shift_month_fixed {d : Date} (hd : d.first.Valid) (hyear : 0 ≤ d.year ∧ d.year < 9999)
    (hmin : minSecs ≤ d.first.toDay * 86400 - offset)
    (hmax : d.first.toDay * 86400 - offset ≤ maxSecs) :
    shiftByCalendar (d.first.toDay * 86400 - offset) 1 .month (.fixed offset) =
      d.next.toDay * 86400 - offset := by
  have hlocal : (Zone.fixed offset).localTime (d.first.toDay * 86400 - offset) =
      d.first.toDay * 86400 := sub_add_cancel ..
  have hdate : (Zone.fixed offset).dateAt (d.first.toDay * 86400 - offset) = d.first := by
    rw [Zone.dateAt, hlocal, Int.mul_ediv_cancel _ (by norm_num), dateOf_toDay hd]
  have hmonth : 1 ≤ d.month ∧ d.month ≤ 12 := hd.month
  have hnext : d.next = ⟨d.year + d.month / 12, d.month % 12 + 1, 1⟩ := by
    rw [Date.next]
    split_ifs <;> rw [Date.mk.injEq] <;> omega
  have hlength (year : ℤ) : 1 ≤ daysInMonth year (d.month % 12 + 1) := by
    rw [daysInMonth]
    split_ifs <;> omega
  have hvalid : d.next.Valid := by
    rw [hnext]
    refine ⟨by dsimp only; omega, le_rfl, ?_⟩
    have hbounds : 1 ≤ d.month % 12 + 1 ∧ d.month % 12 + 1 ≤ 12 := by omega
    rw [← daysInMonth_eq _ hbounds]
    exact hlength _
  have hshifted : (⟨max 0 (min (d.first.year + (d.first.month - 1 + 1) / 12) 9999),
      (d.first.month - 1 + 1) % 12 + 1, min d.first.day (daysInMonth
        (d.first.year + (d.first.month - 1 + 1) / 12) ((d.first.month - 1 + 1) % 12 + 1))⟩ : Date) =
      d.next := by
    simp only [Date.first]
    rw [sub_add_cancel, min_eq_left (hlength _), hnext, Date.mk.injEq]
    omega
  simp only [shiftByCalendar, epochToZdt_of_mem hmin hmax, shiftMonths, hdate, hlocal, hshifted,
    if_pos hvalid, Int.mul_emod_left, add_zero]
  rfl

end Fixed
end MetriEngine.Temporal

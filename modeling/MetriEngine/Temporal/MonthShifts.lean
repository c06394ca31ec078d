import MetriEngine.Temporal.Core

/-!
# Shifts by months

A shift by months, quarters or years goes to the date that many months later, its day cut to the
length of the month, at the same time of day. The zone gives that local time its instant where it
has a single one; a local time that is none or two is read in UTC.
-/
namespace MetriEngine.Temporal
open Foundation.Calendar

/-! ### Local times and their instants -/

/-- The instant of a local time; one that is not single is read in UTC. -/
def Zone.instantOf (zone : Zone) (l : ℤ) : ℤ := (zone.single l).getD l

/-- The offsets of a zone are less than a day. -/
def Zone.Bounded (zone : Zone) : Prop := ∀ t, -86400 < zone.offsetAt t ∧ zone.offsetAt t < 86400

theorem Zone.fixed_bounded {offset : ℤ} (h : -86400 < offset ∧ offset < 86400) :
    (Zone.fixed offset).Bounded := fun _ => h

theorem Zone.localTime_of_single {zone : Zone} {l t : ℤ} (h : zone.single l = some t) :
    zone.localTime t = l :=
  ((zone.single_iff l t).mp h t).mpr rfl

/-- The instant of a local time shows that time where it is a single one, or where its reading in
UTC is the zone's too. -/
theorem Zone.localTime_instantOf_iff (zone : Zone) (l : ℤ) :
    zone.localTime (zone.instantOf l) = l ↔ (∃ t, zone.single l = some t) ∨ zone.offsetAt l = 0 := by
  cases hsingle : zone.single l with
  | some t =>
    rw [instantOf, hsingle, Option.getD_some]
    exact ⟨fun _ => Or.inl ⟨t, rfl⟩, fun _ => localTime_of_single hsingle⟩
  | none =>
    rw [instantOf, hsingle, Option.getD_none, localTime]
    simp

theorem Zone.Bounded.instantOf {zone : Zone} (h : zone.Bounded) (l : ℤ) :
    l - 86400 < zone.instantOf l ∧ zone.instantOf l < l + 86400 := by
  rw [Zone.instantOf]
  cases hsingle : zone.single l with
  | some t =>
    have hlocal := Zone.localTime_of_single hsingle
    have hoffset := h t
    rw [Zone.localTime] at hlocal
    rw [Option.getD_some]
    omega
  | none =>
    rw [Option.getD_none]
    omega

/-! ### Some months later -/

/-- The date and the time of day some months later. -/
def laterLocal (zone : Zone) (dt months : ℤ) : ℤ :=
  ((zone.dateAt dt).addMonths months).toDay * 86400 + zone.localTime dt % 86400

/-- The local time that a shift goes to: the year is moved to 0 to 9999, and where that makes no
date the shift stays. -/
def saturatedLocal (zone : Zone) (dt months : ℤ) : ℤ :=
  let later := (zone.dateAt dt).addMonths months
  let moved : Date := { later with year := max 0 (min later.year 9999) }
  if moved.Valid then moved.toDay * 86400 + zone.localTime dt % 86400 else zone.localTime dt

theorem dateAt_valid (zone : Zone) (t : ℤ) : (zone.dateAt t).Valid := (dateOf_spec _).1

theorem shiftMonths_eq (zone : Zone) (dt months : ℤ) :
    shiftMonths zone dt months = zone.instantOf (saturatedLocal zone dt months) := by
  have hmonth := (dateAt_valid zone dt).month
  have hplace : ((zone.dateAt dt).month - 1 + months) % 12 + 1 =
        ((zone.dateAt dt).monthIndex + months) % 12 + 1 ∧
      (zone.dateAt dt).year + ((zone.dateAt dt).month - 1 + months) / 12 =
        ((zone.dateAt dt).monthIndex + months) / 12 := by
    rw [Date.monthIndex]
    omega
  have hbounds : 1 ≤ ((zone.dateAt dt).monthIndex + months) % 12 + 1 ∧
      ((zone.dateAt dt).monthIndex + months) % 12 + 1 ≤ 12 := by omega
  simp only [shiftMonths, saturatedLocal, Zone.instantOf, Date.addMonths, hplace.1, hplace.2,
    daysInMonth_eq _ hbounds]
  rfl

/-- Within the years 0 to 9999 nothing is moved. -/
theorem saturatedLocal_eq {zone : Zone} {dt months : ℤ}
    (h : 0 ≤ ((zone.dateAt dt).addMonths months).year ∧
      ((zone.dateAt dt).addMonths months).year ≤ 9999) :
    saturatedLocal zone dt months = laterLocal zone dt months := by
  have hvalid := (dateAt_valid zone dt).addMonths months
  simp only [saturatedLocal, laterLocal]
  rw [min_eq_left h.2, max_eq_right h.1, if_pos hvalid]

/-- The months of a unit that is made of months. -/
def monthsIn : CalUnit → Option ℤ
  | .month => some 1
  | .quarter => some 3
  | .year => some 12
  | _ => none

/-- The seconds of a unit that is made of seconds. -/
def secondsIn : CalUnit → ℤ
  | .minute => 60
  | .hour => 3600
  | .day => 86400
  | .week => 604800
  | _ => 0

theorem shiftByCalendar_months {unit : CalUnit} {m : ℤ} (h : monthsIn unit = some m)
    (t amount : ℤ) (zone : Zone) : shiftByCalendar t amount unit zone =
      zone.instantOf (saturatedLocal zone (epochToZdt t) (amount * m)) := by
  cases unit with
  | month =>
    cases h
    rw [shiftByCalendar, ← shiftMonths_eq, mul_one]
  | quarter =>
    cases h
    rw [shiftByCalendar, ← shiftMonths_eq]
  | year =>
    cases h
    rw [shiftByCalendar, ← shiftMonths_eq, shiftYears]
  | minute => cases h
  | hour => cases h
  | day => cases h
  | week => cases h

theorem shiftByCalendar_seconds {unit : CalUnit} (h : monthsIn unit = none) (t amount : ℤ)
    (zone : Zone) : shiftByCalendar t amount unit zone =
      epochToZdt t + amount * secondsIn unit := by
  cases unit with
  | month => cases h
  | quarter => cases h
  | year => cases h
  | minute => rfl
  | hour => rfl
  | day => rfl
  | week => rfl

/-- A shift by months shows the date that many months later at the same time of day exactly where
that local time is single, or read in UTC as in the zone. -/
theorem localTime_shiftByCalendar_iff {unit : CalUnit} {m : ℤ} (h : monthsIn unit = some m)
    (zone : Zone) (t k : ℤ)
    (hyear : 0 ≤ ((zone.dateAt (epochToZdt t)).addMonths (k * m)).year ∧
      ((zone.dateAt (epochToZdt t)).addMonths (k * m)).year ≤ 9999) :
    zone.localTime (shiftByCalendar t k unit zone) = laterLocal zone (epochToZdt t) (k * m) ↔
      (∃ s, zone.single (laterLocal zone (epochToZdt t) (k * m)) = some s) ∨
        zone.offsetAt (laterLocal zone (epochToZdt t) (k * m)) = 0 := by
  rw [shiftByCalendar_months h, saturatedLocal_eq hyear]
  exact zone.localTime_instantOf_iff _

/-! ### The order of shifted instants -/

theorem epochToZdt_mono {a b : ℤ} (h : a ≤ b) : epochToZdt a ≤ epochToZdt b := by
  rw [epochToZdt, epochToZdt]
  omega

theorem epochToZdt_bounds (t : ℤ) : -62135596800 ≤ epochToZdt t ∧ epochToZdt t ≤ 253402300799 := by
  rw [epochToZdt, minSecs, maxSecs]
  omega

theorem toDay_dateAt (zone : Zone) (t : ℤ) :
    (zone.dateAt t).toDay = zone.localTime t / 86400 := (dateOf_spec _).2

/-- An instant within the years 1 to 9999 shows a month from December of the year 0 to January of
the year 10000. -/
theorem monthIndex_bounds {zone : Zone} (hzone : zone.Bounded) (t : ℤ) :
    11 ≤ (zone.dateAt (epochToZdt t)).monthIndex ∧
      (zone.dateAt (epochToZdt t)).monthIndex ≤ 120000 := by
  have hmonths := (dateAt_valid zone (epochToZdt t)).between_months
  have hoffset := hzone (epochToZdt t)
  have hclamped := epochToZdt_bounds t
  have hfirst : monthStart 11 = -719193 := by decide
  have hlast : monthStart 120001 = 2932928 := by decide
  rw [toDay_dateAt, Zone.localTime] at hmonths
  constructor
  · by_contra hlt
    have := monthStart_strictMono.monotone
      (show (zone.dateAt (epochToZdt t)).monthIndex + 1 ≤ 11 by omega)
    omega
  · by_contra hlt
    have := monthStart_strictMono.monotone
      (show (120001 : ℤ) ≤ (zone.dateAt (epochToZdt t)).monthIndex by omega)
    omega

/-- Both days are cut to the end of the target month, and the earlier day has the later time. -/
def CutApart (zone : Zone) (a b k : ℤ) : Prop :=
  let target := (zone.dateAt a).monthIndex - k
  (zone.dateAt a).monthIndex = (zone.dateAt b).monthIndex ∧
    Foundation.Calendar.daysInMonth (target / 12) (target % 12 + 1) ≤ (zone.dateAt a).day ∧
    (zone.dateAt a).day < (zone.dateAt b).day ∧
    zone.localTime b % 86400 < zone.localTime a % 86400

instance (zone : Zone) (a b k : ℤ) : Decidable (CutApart zone a b k) :=
  inferInstanceAs (Decidable (_ ∧ _))

theorem monthIndex_mono {zone : Zone} {a b : ℤ} (h : zone.localTime a ≤ zone.localTime b) :
    (zone.dateAt a).monthIndex ≤ (zone.dateAt b).monthIndex := by
  by_contra hlt
  have hstart := (dateAt_valid zone a).between_months.1
  have hend := (dateAt_valid zone b).between_months.2
  have hbetween := monthStart_strictMono.monotone
    (show (zone.dateAt b).monthIndex + 1 ≤ (zone.dateAt a).monthIndex by omega)
  rw [toDay_dateAt] at hstart hend
  omega

/-- Two local times in order stay in order some months earlier, but where the month cuts both. -/
theorem laterLocal_le_iff {zone : Zone} {a b : ℤ} (h : zone.localTime a ≤ zone.localTime b)
    (k : ℤ) : laterLocal zone a (-k) ≤ laterLocal zone b (-k) ↔ ¬CutApart zone a b k := by
  have hmonths := monthIndex_mono h
  have hvalid := dateAt_valid zone a
  have hvalid' := dateAt_valid zone b
  have hday := hvalid.toDay_eq
  have hday' := hvalid'.toDay_eq
  rw [toDay_dateAt] at hday hday'
  rw [laterLocal, laterLocal, Date.toDay_addMonths hvalid, Date.toDay_addMonths hvalid', CutApart]
  rcases hmonths.lt_or_eq with hlt | heq
  · -- the end of the earlier target month comes before the start of the later one
    have hbound : 1 ≤ ((zone.dateAt a).monthIndex + -k) % 12 + 1 ∧
        ((zone.dateAt a).monthIndex + -k) % 12 + 1 ≤ 12 := by omega
    have hnext := monthStart_succ ((zone.dateAt a).monthIndex + -k)
    have hbefore := monthStart_strictMono.monotone
      (show (zone.dateAt a).monthIndex + -k + 1 ≤ (zone.dateAt b).monthIndex + -k by omega)
    have hlength : 1 ≤ min (zone.dateAt b).day (Foundation.Calendar.daysInMonth
        (((zone.dateAt b).monthIndex + -k) / 12) (((zone.dateAt b).monthIndex + -k) % 12 + 1)) := by
      have := daysInMonth_pos (((zone.dateAt b).monthIndex + -k) / 12)
        (by omega : 1 ≤ ((zone.dateAt b).monthIndex + -k) % 12 + 1 ∧
          ((zone.dateAt b).monthIndex + -k) % 12 + 1 ≤ 12)
      have := hvalid'.day.1
      omega
    have hcut := min_le_right (zone.dateAt a).day (Foundation.Calendar.daysInMonth
        (((zone.dateAt a).monthIndex + -k) / 12) (((zone.dateAt a).monthIndex + -k) % 12 + 1))
    simp only [hlt.ne, false_and, not_false_eq_true, iff_true]
    omega
  · have hbound : 1 ≤ ((zone.dateAt b).monthIndex + -k) % 12 + 1 ∧
        ((zone.dateAt b).monthIndex + -k) % 12 + 1 ≤ 12 := by omega
    simp only [heq, true_and, ← sub_eq_add_neg] at hday ⊢
    generalize Foundation.Calendar.daysInMonth (((zone.dateAt b).monthIndex - k) / 12)
      (((zone.dateAt b).monthIndex - k) % 12 + 1) = length
    generalize monthStart ((zone.dateAt b).monthIndex - k) = start
    omega

/-! ### The range of shifted instants -/

theorem saturatedLocal_bounds {zone : Zone} (hzone : zone.Bounded) (t months : ℤ) :
    -62200000000 ≤ saturatedLocal zone (epochToZdt t) months ∧
      saturatedLocal zone (epochToZdt t) months ≤ 253500000000 := by
  simp only [saturatedLocal]
  generalize hmoved : ({ (zone.dateAt (epochToZdt t)).addMonths months with
    year := max 0 (min ((zone.dateAt (epochToZdt t)).addMonths months).year 9999) } : Date) = moved
  split_ifs with hvalid
  · have hyear : 0 ≤ moved.year ∧ moved.year ≤ 9999 := by
      rw [← hmoved]
      dsimp only
      omega
    have hfirst := yearStart_strictMono.monotone hyear.1
    have hlast := yearStart_strictMono.monotone (show moved.year + 1 ≤ 10000 by omega)
    have hzero : yearStart 0 = -719528 := by decide
    have hend : yearStart 10000 = 2932897 := by decide
    have hday := hvalid.inYear
    omega
  · have hclamped := epochToZdt_bounds t
    have hoffset := hzone (epochToZdt t)
    rw [Zone.localTime]
    omega

/-- A shift into the past by fewer than `2 ^ 31` units is a time of 64 bits. -/
theorem shiftByCalendar_bounds {zone : Zone} (hzone : zone.Bounded) (t : ℤ) {k : ℤ}
    (hk : 0 < k ∧ k < 2 ^ 31) (unit : CalUnit) :
    -2 ^ 63 ≤ shiftByCalendar t (-k) unit zone ∧ shiftByCalendar t (-k) unit zone < 2 ^ 63 := by
  cases hmonths : monthsIn unit with
  | some m =>
    have hlocal := saturatedLocal_bounds hzone t (-k * m)
    have hinstant := hzone.instantOf (saturatedLocal zone (epochToZdt t) (-k * m))
    rw [shiftByCalendar_months hmonths]
    omega
  | none =>
    have hclamped := epochToZdt_bounds t
    have hseconds : 0 ≤ secondsIn unit ∧ secondsIn unit ≤ 604800 := by
      cases unit <;> simp [secondsIn]
    rw [shiftByCalendar_seconds hmonths]
    constructor <;> nlinarith

end MetriEngine.Temporal

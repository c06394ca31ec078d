import MetriEngine.Foundation.Scales
import MetriEngine.Quota.Resolver

/-!
# The cycle in which a quota runs

A strategy renews by the day, the month or the year. The period of the running cycle is written
from its first day to the first day of the next, and covers exactly the days of the cycle. Dates
are chrono's, and what is used of its calendar are the laws below.
-/
namespace MetriEngine.Quota
open Foundation Chrono

section Calendar
variable {Date : Type} [Chrono Date]

/-- Months are numbered through all years. -/
def yearMonth (d : Date) : ℤ ×ₗ ℕ := toLex (year d, month d)

/-- A calendar without gaps that begins in January, and dates that are written and read. -/
class LawfulChrono (Date : Type) [Chrono Date] : Prop where
  month_bounds : ∀ d : Date, 1 ≤ month d ∧ month d ≤ 12
  yearMonth_mono : ∀ d e : Date, d ≤ e → yearMonth d ≤ yearMonth e
  fromYmdOpt_first : ∀ {y : ℤ} {m : ℕ} {c : Date}, fromYmdOpt y m 1 = some c →
    yearMonth c = toLex (y, m) ∧ ∀ d, toLex (y, m) ≤ yearMonth d → c ≤ d
  fromYmdOpt_isSome : ∀ {y : ℤ} {m : ℕ} (t u : Date), year t ≤ y → 1 ≤ m → m ≤ 12 →
    toLex (y, m) ≤ yearMonth u → (fromYmdOpt y m 1 : Option Date).isSome = true
  succOpt_least : ∀ {d e : Date}, succOpt d = some e → IsLeast {f | d < f} e
  le_of_succOpt : ∀ {d : Date}, succOpt d = none → ∀ f, f ≤ d
  parse_format : ∀ d : Date, parse (format d) = some d
  underscore_notMem : ∀ d : Date, '_' ∉ (format d).toList

/-- The units by which a quota renews. -/
inductive ResetUnit
  | daily
  | monthly
  | yearly
deriving DecidableEq

/-- The unit of a strategy, if it renews. -/
def unitOf (resetStrategy : String) : Option ResetUnit :=
  match toUppercase resetStrategy with
  | "DAILY" => some .daily
  | "MONTHLY" => some .monthly
  | "YEARLY" => some .yearly
  | _ => none

/-- The days lie in one day, month or year. -/
def SameCycle (unit : ResetUnit) (t u : Date) : Prop :=
  match unit with
  | .daily => t = u
  | .monthly => yearMonth t = yearMonth u
  | .yearly => year t = year u

/-- The cycle of `t` runs from `first` to `next`. -/
def RunsFrom (unit : ResetUnit) (t first next : Date) : Prop :=
  match unit with
  | .daily => KeyCycle id t first next
  | .monthly => KeyCycle yearMonth t first next
  | .yearly => KeyCycle year t first next

/-- The calendar has a day after the cycle of `t`. -/
def GoesOn (unit : ResetUnit) (t : Date) : Prop := ∃ d, t < d ∧ ¬SameCycle unit t d

def periodText (first next : Date) : String := format first ++ "_" ++ format next

/-- The bounds that are written. -/
def cycleBounds (unit : ResetUnit) (today : Date) : Option (Date × Date) :=
  match unit with
  | .daily => (succOpt today).map fun fin => (today, fin)
  | .monthly => (fromYmdOpt (year today) (month today) 1).bind fun inicio =>
      (if month today = 12 then fromYmdOpt (year today + 1) 1 1
        else fromYmdOpt (year today) (month today + 1) 1).map fun fin => (inicio, fin)
  | .yearly => (fromYmdOpt (year today) 1 1).bind fun inicio =>
      (fromYmdOpt (year today + 1) 1 1).map fun fin => (inicio, fin)

theorem renewedPeriod_eq (resetStrategy : String) (today : Date) :
    renewedPeriod resetStrategy today = (unitOf resetStrategy).bind fun unit =>
      (cycleBounds unit today).map fun bounds => periodText bounds.1 bounds.2 := by
  unfold renewedPeriod unitOf
  generalize toUppercase resetStrategy = name
  by_cases hdaily : name = "DAILY"
  · subst hdaily
    cases hfin : succOpt today <;> simp [cycleBounds, periodText, hfin]
  by_cases hmonthly : name = "MONTHLY"
  · subst hmonthly
    cases hfirst : (fromYmdOpt (year today) (month today) 1 : Option Date) with
    | none => simp [cycleBounds, hfirst]
    | some inicio =>
      by_cases hlast : month today = 12
      · rw [hlast] at hfirst
        cases hfin : (fromYmdOpt (year today + 1) 1 1 : Option Date) <;>
          simp [cycleBounds, periodText, hfirst, hlast, hfin]
      · cases hfin : (fromYmdOpt (year today) (month today + 1) 1 : Option Date) <;>
          simp [cycleBounds, periodText, hfirst, hlast, hfin]
  by_cases hyearly : name = "YEARLY"
  · subst hyearly
    cases hfirst : (fromYmdOpt (year today) 1 1 : Option Date) with
    | none => simp [cycleBounds, hfirst]
    | some inicio =>
      cases hfin : (fromYmdOpt (year today + 1) 1 1 : Option Date) <;>
        simp [cycleBounds, periodText, hfirst, hfin]
  simp

/-! ### Cycles and their bounds -/

section Bounds
variable {unit : ResetUnit} {t u first next : Date}

/-- The month after a month. -/
def monthAfter (d : Date) : ℤ × ℕ :=
  if month d = 12 then (year d + 1, 1) else (year d, month d + 1)

theorem lt_monthAfter (d : Date) : yearMonth d < toLex (monthAfter d) := by
  rw [monthAfter, yearMonth, Prod.Lex.toLex_lt_toLex]
  split_ifs
  · exact Or.inl (Int.lt_succ _)
  · exact Or.inr ⟨rfl, Nat.lt_succ_self _⟩

theorem year_le_monthAfter (d : Date) : year d ≤ (monthAfter d).1 := by
  rw [monthAfter]
  split_ifs
  · exact (Int.lt_succ _).le
  · exact le_rfl

theorem fromYmdOpt_monthAfter (d : Date) :
    (if month d = 12 then fromYmdOpt (year d + 1) 1 1 else fromYmdOpt (year d) (month d + 1) 1) =
      (fromYmdOpt (monthAfter d).1 (monthAfter d).2 1 : Option Date) := by
  rw [monthAfter]
  split_ifs <;> rfl

theorem RunsFrom.first_le (h : RunsFrom unit t first next) : first ≤ t := by
  cases unit with
  | daily => exact KeyCycle.first_le h
  | monthly => exact KeyCycle.first_le h
  | yearly => exact KeyCycle.first_le h

theorem RunsFrom.unique {first' next' : Date} (h : RunsFrom unit t first next)
    (h' : RunsFrom unit t first' next') : first = first' ∧ next = next' := by
  cases unit with
  | daily => exact KeyCycle.unique h h'
  | monthly => exact KeyCycle.unique h h'
  | yearly => exact KeyCycle.unique h h'

theorem RunsFrom.congr (h : RunsFrom unit t first next) (hsame : SameCycle unit t u) :
    RunsFrom unit u first next := by
  cases unit with
  | daily => exact KeyCycle.congr h hsame
  | monthly => exact KeyCycle.congr h hsame
  | yearly => exact KeyCycle.congr h hsame

theorem RunsFrom.same {next' : Date} (h : RunsFrom unit t first next)
    (h' : RunsFrom unit u first next') : SameCycle unit t u := by
  cases unit with
  | daily => exact KeyCycle.key_eq h h'
  | monthly => exact KeyCycle.key_eq h h'
  | yearly => exact KeyCycle.key_eq h h'

theorem SameCycle.symm (h : SameCycle unit t u) : SameCycle unit u t := by
  cases unit with
  | daily => exact Eq.symm h
  | monthly => exact Eq.symm h
  | yearly => exact Eq.symm h

/-- The text of the period that runs on a day. -/
def RunningPeriod (unit : ResetUnit) (t : Date) (text : String) : Prop :=
  ∃ first next, RunsFrom unit t first next ∧ text = periodText first next

theorem RunningPeriod.congr {text : String} (h : RunningPeriod unit t text) (hsame : SameCycle unit t u) :
    RunningPeriod unit u text := by
  obtain ⟨first, next, hruns, rfl⟩ := h
  exact ⟨first, next, hruns.congr hsame, rfl⟩

theorem same_or_goesOn (unit : ResetUnit) (t u : Date) :
    SameCycle unit t u ∨ GoesOn unit t ∨ GoesOn unit u := by
  by_cases hsame : SameCycle unit t u
  · exact Or.inl hsame
  · rcases lt_trichotomy t u with hlt | heq | hlt
    · exact Or.inr (Or.inl ⟨u, hlt, hsame⟩)
    · subst heq
      have hself : SameCycle unit t t := by cases unit <;> rfl
      exact absurd hself hsame
    · exact Or.inr (Or.inr ⟨t, hlt, fun h => hsame h.symm⟩)

end Bounds

section Laws
variable [LawfulChrono Date] {unit : ResetUnit} {t u first next : Date}
open LawfulChrono

theorem monotone_yearMonth : Monotone (yearMonth : Date → ℤ ×ₗ ℕ) :=
  fun d e h => yearMonth_mono d e h

theorem monotone_year : Monotone (year : Date → ℤ) := by
  intro d e h
  rcases Prod.Lex.toLex_le_toLex.mp (yearMonth_mono d e h) with hlt | ⟨heq, _⟩
  · exact hlt.le
  · exact heq.le

theorem monthAfter_bounds (d : Date) : 1 ≤ (monthAfter d).2 ∧ (monthAfter d).2 ≤ 12 := by
  have hmonth := month_bounds d
  rw [monthAfter]
  split_ifs with hlast <;> dsimp only <;> omega

theorem monthAfter_le (h : yearMonth t < yearMonth u) : toLex (monthAfter t) ≤ yearMonth u := by
  have hmonth := month_bounds t
  have hmonth' := month_bounds u
  rw [yearMonth, yearMonth, Prod.Lex.toLex_lt_toLex] at h
  rw [monthAfter, yearMonth, Prod.Lex.toLex_le_toLex]
  split_ifs with hlast
  · dsimp only
    omega
  · dsimp only
    omega

theorem january_le_iff {y : ℤ} {d : Date} : toLex (y, 1) ≤ yearMonth d ↔ y ≤ year d := by
  have hmonth := (month_bounds d).1
  rw [yearMonth, Prod.Lex.toLex_le_toLex]
  dsimp only
  omega

theorem runsFrom_of_cycleBounds (h : cycleBounds unit t = some (first, next)) :
    RunsFrom unit t first next := by
  cases unit with
  | daily =>
    obtain ⟨fin, hfin, heq⟩ := Option.map_eq_some_iff.mp h
    cases heq
    exact ⟨isLeast_singleton, succOpt_least hfin⟩
  | monthly =>
    obtain ⟨inicio, hfirst, h⟩ := Option.bind_eq_some_iff.mp h
    rw [fromYmdOpt_monthAfter] at h
    obtain ⟨fin, hnext, heq⟩ := Option.map_eq_some_iff.mp h
    cases heq
    obtain ⟨hkey, hleast⟩ := fromYmdOpt_first hfirst
    obtain ⟨hkeyNext, hleastNext⟩ := fromYmdOpt_first hnext
    have hafter : yearMonth t < yearMonth next := by
      rw [hkeyNext]
      exact lt_monthAfter t
    exact KeyCycle.of_le hkey hleast hafter fun d hd => hleastNext d (monthAfter_le hd)
  | yearly =>
    obtain ⟨inicio, hfirst, h⟩ := Option.bind_eq_some_iff.mp h
    obtain ⟨fin, hnext, heq⟩ := Option.map_eq_some_iff.mp h
    cases heq
    obtain ⟨hkey, hleast⟩ := fromYmdOpt_first hfirst
    obtain ⟨hkeyNext, hleastNext⟩ := fromYmdOpt_first hnext
    have hyear : year first = year t := congrArg (fun k => (ofLex k).1) hkey
    have hyearNext : year next = year t + 1 := congrArg (fun k => (ofLex k).1) hkeyNext
    have hafter : year t < year next := by
      rw [hyearNext]
      exact Int.lt_succ _
    exact KeyCycle.of_le hyear (fun d hd => hleast d (january_le_iff.mpr hd)) hafter
      fun d hd => hleastNext d (january_le_iff.mpr hd)

theorem cycleBounds_isSome (h : GoesOn unit t) : (cycleBounds unit t).isSome = true := by
  obtain ⟨d, hlt, hother⟩ := h
  cases unit with
  | daily =>
    cases hfin : succOpt t with
    | none => exact absurd (le_of_succOpt hfin d) (not_le.mpr hlt)
    | some fin => simp [cycleBounds, hfin]
  | monthly =>
    have hkey : yearMonth t < yearMonth d := lt_of_le_of_ne (yearMonth_mono t d hlt.le) hother
    have hmonth := month_bounds t
    have hbounds := monthAfter_bounds t
    have hfirst : (fromYmdOpt (year t) (month t) 1 : Option Date).isSome = true :=
      fromYmdOpt_isSome t t le_rfl hmonth.1 hmonth.2 le_rfl
    have hnext : (fromYmdOpt (monthAfter t).1 (monthAfter t).2 1 : Option Date).isSome = true :=
      fromYmdOpt_isSome t d (year_le_monthAfter t) hbounds.1 hbounds.2 (monthAfter_le hkey)
    obtain ⟨inicio, hinicio⟩ := Option.isSome_iff_exists.mp hfirst
    obtain ⟨fin, hfin⟩ := Option.isSome_iff_exists.mp hnext
    rw [cycleBounds, fromYmdOpt_monthAfter, hinicio, hfin]
    rfl
  | yearly =>
    have hkey : year t < year d := lt_of_le_of_ne (monotone_year hlt.le) hother
    have hfirst : (fromYmdOpt (year t) 1 1 : Option Date).isSome = true :=
      fromYmdOpt_isSome t t le_rfl le_rfl (by decide) (january_le_iff.mpr le_rfl)
    have hnext : (fromYmdOpt (year t + 1) 1 1 : Option Date).isSome = true :=
      fromYmdOpt_isSome t d (Int.lt_succ _).le le_rfl (by decide)
        (january_le_iff.mpr (Int.add_one_le_of_lt hkey))
    obtain ⟨inicio, hinicio⟩ := Option.isSome_iff_exists.mp hfirst
    obtain ⟨fin, hfin⟩ := Option.isSome_iff_exists.mp hnext
    rw [cycleBounds, hinicio, hfin]
    rfl

theorem RunsFrom.lt_next (h : RunsFrom unit t first next) : t < next := by
  cases unit with
  | daily => exact KeyCycle.lt_next monotone_id h
  | monthly => exact KeyCycle.lt_next monotone_yearMonth h
  | yearly => exact KeyCycle.lt_next monotone_year h

theorem RunsFrom.goesOn (h : RunsFrom unit t first next) : GoesOn unit t := by
  refine ⟨next, h.lt_next, ?_⟩
  cases unit with
  | daily => exact ne_of_lt (KeyCycle.key_lt_next h)
  | monthly => exact ne_of_lt (KeyCycle.key_lt_next h)
  | yearly => exact ne_of_lt (KeyCycle.key_lt_next h)

/-- The bounds that are written are those of the cycle. -/
theorem cycleBounds_eq_some_iff : cycleBounds unit t = some (first, next) ↔
    RunsFrom unit t first next := by
  constructor
  · exact runsFrom_of_cycleBounds
  · intro h
    obtain ⟨bounds, hbounds⟩ := Option.isSome_iff_exists.mp (cycleBounds_isSome h.goesOn)
    obtain ⟨hfirst, hnext⟩ := h.unique (runsFrom_of_cycleBounds hbounds)
    rw [hbounds, hfirst, hnext]

/-! ### Periods as texts -/

theorem splitOnceList_of_notMem {a : List Char} (h : '_' ∉ a) (b : List Char) :
    splitOnceList ['_'] (a ++ '_' :: b) = some (a, b) := by
  induction a with
  | nil => rfl
  | cons c a ih =>
    obtain ⟨hc, ha⟩ := not_or.mp (mt List.mem_cons.mpr h)
    have hprefix : List.isPrefixOf ['_'] (c :: (a ++ '_' :: b)) = false := by
      simp [List.isPrefixOf, hc]
    rw [List.cons_append, splitOnceList, hprefix, ih ha]
    rfl

theorem splitOnce_periodText (first next : Date) :
    Text.splitOnce "_" (periodText first next) = some (format first, format next) := by
  have htext : (periodText first next).toList =
      (format first).toList ++ '_' :: (format next).toList := by
    simp [periodText]
  rw [Text.splitOnce, htext]
  change (splitOnceList ['_'] _).map _ = _
  rw [splitOnceList_of_notMem (underscore_notMem first), Option.map_some,
    String.ofList_toList, String.ofList_toList]

theorem periodText_ne_lifetime (first next : Date) : periodText first next ≠ "LIFETIME" := by
  intro heq
  have hnone : Text.splitOnce "_" "LIFETIME" = none := by decide
  have hsplit := splitOnce_periodText first next
  rw [heq, hnone] at hsplit
  cases hsplit

theorem format_injective {d e : Date} (h : format d = format e) : d = e := by
  have hparse := parse_format d
  rw [h, parse_format e] at hparse
  exact (Option.some.inj hparse).symm

theorem periodText_injective {first' next' : Date}
    (h : periodText first next = periodText first' next') : first = first' ∧ next = next' := by
  have hsplit := splitOnce_periodText first next
  rw [h, splitOnce_periodText first' next'] at hsplit
  have hpair := Prod.ext_iff.mp (Option.some.inj hsplit)
  exact ⟨(format_injective hpair.1).symm, (format_injective hpair.2).symm⟩

/-- A period covers the days between its bounds. -/
theorem covers_periodText_iff (first next t : Date) :
    covers (periodText first next) t = true ↔ first ≤ t ∧ t < next := by
  rw [covers, if_neg (periodText_ne_lifetime first next), splitOnce_periodText]
  dsimp only
  rw [parse_format, parse_format]
  exact decide_eq_true_iff

/-! ### The running period -/

variable {resetStrategy text : String}

/-- What is renewed is the period that runs. -/
theorem renewedPeriod_eq_some_iff : renewedPeriod resetStrategy t = some text ↔
    ∃ unit, unitOf resetStrategy = some unit ∧ RunningPeriod unit t text := by
  rw [renewedPeriod_eq, Option.bind_eq_some_iff]
  constructor
  · rintro ⟨unit, hunit, htext⟩
    obtain ⟨⟨first, next⟩, hbounds, rfl⟩ := Option.map_eq_some_iff.mp htext
    exact ⟨unit, hunit, first, next, runsFrom_of_cycleBounds hbounds, rfl⟩
  · rintro ⟨unit, hunit, first, next, hruns, rfl⟩
    refine ⟨unit, hunit, ?_⟩
    rw [cycleBounds_eq_some_iff.mpr hruns]
    rfl

/-- A period is renewed while the calendar goes on after the cycle. -/
theorem renewedPeriod_isSome_iff (hunit : unitOf resetStrategy = some unit) :
    (renewedPeriod resetStrategy t).isSome = true ↔ GoesOn unit t := by
  rw [Option.isSome_iff_exists]
  constructor
  · rintro ⟨text, htext⟩
    obtain ⟨unit', hunit', first, next, hruns, _⟩ := renewedPeriod_eq_some_iff.mp htext
    rw [hunit] at hunit'
    cases hunit'
    exact hruns.goesOn
  · intro h
    obtain ⟨⟨first, next⟩, hbounds⟩ := Option.isSome_iff_exists.mp (cycleBounds_isSome h)
    have hruns := runsFrom_of_cycleBounds hbounds
    exact ⟨periodText first next,
      renewedPeriod_eq_some_iff.mpr ⟨unit, hunit, first, next, hruns, rfl⟩⟩

/-- A renewed period covers its day. -/
theorem covers_renewedPeriod (h : renewedPeriod resetStrategy t = some text) :
    covers text t = true := by
  obtain ⟨unit, _, first, next, hruns, rfl⟩ := renewedPeriod_eq_some_iff.mp h
  exact (covers_periodText_iff first next t).mpr ⟨hruns.first_le, hruns.lt_next⟩

theorem same_of_renewedPeriod_eq (hunit : unitOf resetStrategy = some unit)
    (hgoes : GoesOn unit t)
    (h : renewedPeriod resetStrategy t = renewedPeriod resetStrategy u) : SameCycle unit t u := by
  obtain ⟨text, htext⟩ :=
    Option.isSome_iff_exists.mp ((renewedPeriod_isSome_iff hunit).mpr hgoes)
  obtain ⟨unit', hunit', first, next, hruns, hfirst⟩ := renewedPeriod_eq_some_iff.mp htext
  obtain ⟨unit'', hunit'', first', next', hruns', hfirst'⟩ :=
    renewedPeriod_eq_some_iff.mp (h.symm.trans htext)
  rw [hunit] at hunit' hunit''
  cases hunit'
  cases hunit''
  obtain ⟨rfl, rfl⟩ := periodText_injective (hfirst.symm.trans hfirst')
  exact hruns.same hruns'

/-- Two days have one renewed period exactly if they lie in one cycle. -/
theorem renewedPeriod_eq_iff (hunit : unitOf resetStrategy = some unit) :
    renewedPeriod resetStrategy t = renewedPeriod resetStrategy u ↔ SameCycle unit t u := by
  constructor
  · intro h
    rcases same_or_goesOn unit t u with hsame | hgoes | hgoes
    · exact hsame
    · exact same_of_renewedPeriod_eq hunit hgoes h
    · exact (same_of_renewedPeriod_eq hunit hgoes h.symm).symm
  · intro hsame
    apply Option.ext
    intro text
    rw [renewedPeriod_eq_some_iff, renewedPeriod_eq_some_iff]
    constructor
    · rintro ⟨unit', hunit', hrunning⟩
      rw [hunit] at hunit'
      cases hunit'
      exact ⟨unit, hunit, hrunning.congr hsame⟩
    · rintro ⟨unit', hunit', hrunning⟩
      rw [hunit] at hunit'
      cases hunit'
      exact ⟨unit, hunit, hrunning.congr hsame.symm⟩

end Laws
end Calendar
end MetriEngine.Quota

import MetriEngine.Foundation.FixedWidth
import MetriEngine.Quota.Counters
import MetriEngine.Quota.RowSelection

/-!
# A calendar that keeps the laws

The days of the years with four digits. A date is written with all its digits; to be read it may
have fewer, blanks before a number, and a sign before the year.
-/
namespace MetriEngine.Quota
open Foundation Chrono

namespace CivilDate

/-- The date exists. -/
structure Valid (d : CivilDate) : Prop where
  year : d.year ≤ 9999
  month : 1 ≤ d.month ∧ d.month ≤ 12
  day : 1 ≤ d.day ∧ d.day ≤ daysIn d.year d.month

instance (d : CivilDate) : Decidable d.Valid :=
  decidable_of_iff (d.year ≤ 9999 ∧ (1 ≤ d.month ∧ d.month ≤ 12) ∧
    1 ≤ d.day ∧ d.day ≤ daysIn d.year d.month)
    ⟨fun h => ⟨h.1, h.2.1, h.2.2⟩, fun h => ⟨h.year, h.month, h.day⟩⟩

theorem le_iff {d e : CivilDate} : d ≤ e ↔
    d.year < e.year ∨ d.year = e.year ∧ (d.month < e.month ∨ d.month = e.month ∧ d.day ≤ e.day) := by
  change toLex (d.year, toLex (d.month, d.day)) ≤ toLex (e.year, toLex (e.month, e.day)) ↔ _
  rw [Prod.Lex.toLex_le_toLex, Prod.Lex.toLex_le_toLex]

theorem lt_iff {d e : CivilDate} : d < e ↔
    d.year < e.year ∨ d.year = e.year ∧ (d.month < e.month ∨ d.month = e.month ∧ d.day < e.day) := by
  change toLex (d.year, toLex (d.month, d.day)) < toLex (e.year, toLex (e.month, e.day)) ↔ _
  rw [Prod.Lex.toLex_lt_toLex, Prod.Lex.toLex_lt_toLex]

theorem one_le_daysIn (y m : ℕ) : 1 ≤ daysIn y m := by
  rw [daysIn]
  split_ifs <;> omega

theorem daysIn_le (y m : ℕ) : daysIn y m ≤ 31 := by
  rw [daysIn]
  split_ifs <;> omega

end CivilDate

/-- A day of a year with four digits. -/
abbrev NaiveDate := { d : CivilDate // d.Valid }

namespace NaiveDate

def ofYmd (y m d : ℕ) : Option NaiveDate :=
  if h : (⟨y, m, d⟩ : CivilDate).Valid then some ⟨_, h⟩ else none

/-- The day after, if it is written with four digits. -/
def succ (d : NaiveDate) : Option NaiveDate :=
  if d.val.day < CivilDate.daysIn d.val.year d.val.month then
    ofYmd d.val.year d.val.month (d.val.day + 1)
  else if d.val.month < 12 then ofYmd d.val.year (d.val.month + 1) 1
  else ofYmd (d.val.year + 1) 1 1

def digits (d : NaiveDate) : List Char :=
  fixedDigits 4 d.val.year ++
    '-' :: (fixedDigits 2 d.val.month ++ '-' :: fixedDigits 2 d.val.day)

/-- A number of at most so many digits, with blanks before it. -/
def readNumber (maxDigits : ℕ) (part : List Char) : Option ℕ :=
  let cs := part.dropWhile Text.isWhitespace
  if cs.length ≤ maxDigits then parseNat cs else none

/-- A year with a sign may have more than four digits. -/
def readYear (part : List Char) : Option ℕ :=
  let cs := part.dropWhile Text.isWhitespace
  if cs.head? = some '+' then parseNat cs.tail else readNumber 4 part

def read (s : String) : Option NaiveDate :=
  match splitOnSep '-' s.toList with
  | [y, m, d] => (readYear y).bind fun y => (readNumber 2 m).bind fun m =>
      (readNumber 2 d).bind fun d => ofYmd y m d
  | _ => none

instance : Chrono NaiveDate where
  year d := d.val.year
  month d := d.val.month
  fromYmdOpt y m d := if 0 ≤ y then ofYmd y.toNat m d else none
  succOpt := succ
  format d := String.ofList d.digits
  parse := read

/-! ### Dates as texts -/

theorem not_isWhitespace_of_isDigit {c : Char} (h : c.isDigit = true) :
    Text.isWhitespace c = false := by
  have hbounds := Char.isDigit_iff_toNat.mp h
  have hnine : '9'.toNat = 57 := rfl
  have hzero : '0'.toNat = 48 := rfl
  simp only [Text.isWhitespace, Bool.or_eq_false_iff, Bool.and_eq_false_iff, decide_eq_false_iff_not]
  omega

theorem dropWhile_fixedDigits (width n : ℕ) :
    (fixedDigits width n).dropWhile Text.isWhitespace = fixedDigits width n := by
  cases hcs : fixedDigits width n with
  | nil => rfl
  | cons c cs =>
    have hdigit : c.isDigit = true :=
      isDigit_of_mem_fixedDigits (by rw [hcs]; exact List.mem_cons_self)
    rw [List.dropWhile_cons_of_neg]
    rw [not_isWhitespace_of_isDigit hdigit]
    exact Bool.false_ne_true

theorem readNumber_fixedDigits {width n : ℕ} (hwidth : 0 < width) (h : n < 10 ^ width) :
    readNumber width (fixedDigits width n) = some n := by
  unfold readNumber
  rw [dropWhile_fixedDigits]
  dsimp only
  rw [if_pos (length_fixedDigits hwidth h).le, parseNat_fixedDigits]

theorem readYear_fixedDigits {n : ℕ} (h : n < 10 ^ 4) : readYear (fixedDigits 4 n) = some n := by
  have hplus : (fixedDigits 4 n).head? ≠ some '+' := by
    intro hhead
    have hdigit := isDigit_of_mem_fixedDigits (List.mem_of_head? hhead)
    exact absurd hdigit (by decide)
  unfold readYear
  rw [dropWhile_fixedDigits]
  dsimp only
  rw [if_neg hplus, readNumber_fixedDigits (by decide) h]

theorem notMem_fixedDigits {c : Char} (hc : c.isDigit = false) (width n : ℕ) :
    c ∉ fixedDigits width n := by
  intro hmem
  rw [isDigit_of_mem_fixedDigits hmem] at hc
  cases hc

theorem read_digits (d : NaiveDate) : read (String.ofList d.digits) = some d := by
  obtain ⟨⟨y, m, n⟩, hvalid⟩ := d
  have hdash : ('-' : Char).isDigit = false := by decide
  have hyear : y < 10 ^ 4 := Nat.lt_succ_of_le hvalid.year
  have hmonth : m < 10 ^ 2 := lt_of_le_of_lt hvalid.month.2 (by decide)
  have hday : n < 10 ^ 2 :=
    lt_of_le_of_lt (hvalid.day.2.trans (CivilDate.daysIn_le y m)) (by decide)
  have hsplit : splitOnSep '-' (String.ofList (digits ⟨⟨y, m, n⟩, hvalid⟩)).toList =
      [fixedDigits 4 y, fixedDigits 2 m, fixedDigits 2 n] := by
    rw [String.toList_ofList, digits, splitOnSep_append (notMem_fixedDigits hdash 4 y),
      splitOnSep_append (notMem_fixedDigits hdash 2 m),
      splitOnSep_of_notMem (notMem_fixedDigits hdash 2 n)]
  rw [read, hsplit]
  dsimp only
  rw [readYear_fixedDigits hyear, readNumber_fixedDigits (by decide) hmonth,
    readNumber_fixedDigits (by decide) hday]
  exact dif_pos hvalid

theorem underscore_notMem_digits (d : NaiveDate) : '_' ∉ d.digits := by
  have hunderscore : ('_' : Char).isDigit = false := by decide
  rw [digits, List.mem_append, List.mem_cons, List.mem_append, List.mem_cons]
  rintro (h | h | h | h | h)
  · exact notMem_fixedDigits hunderscore _ _ h
  · exact absurd h (by decide)
  · exact notMem_fixedDigits hunderscore _ _ h
  · exact absurd h (by decide)
  · exact notMem_fixedDigits hunderscore _ _ h

/-! ### The laws of the calendar -/

theorem ofYmd_eq_some {y m d : ℕ} {e : NaiveDate} (h : ofYmd y m d = some e) :
    e.val = ⟨y, m, d⟩ := by
  unfold ofYmd at h
  split_ifs at h
  cases h
  rfl

theorem fromYmdOpt_eq_some {y : ℤ} {m d : ℕ} {e : NaiveDate}
    (h : fromYmdOpt y m d = some e) : 0 ≤ y ∧ e.val = ⟨y.toNat, m, d⟩ := by
  change (if 0 ≤ y then ofYmd y.toNat m d else none) = some e at h
  split_ifs at h with hy
  exact ⟨hy, ofYmd_eq_some h⟩

theorem yearMonth_le_iff {y : ℤ} {m : ℕ} {d : NaiveDate} :
    toLex (y, m) ≤ yearMonth d ↔ y < d.val.year ∨ y = d.val.year ∧ m ≤ d.val.month :=
  Prod.Lex.toLex_le_toLex

theorem valid_first {y m : ℕ} (hy : y ≤ 9999) (hm : 1 ≤ m ∧ m ≤ 12) :
    (⟨y, m, 1⟩ : CivilDate).Valid := ⟨hy, hm, le_rfl, CivilDate.one_le_daysIn y m⟩

theorem first_le {y m : ℕ} {c d : NaiveDate} (hc : c.val = ⟨y, m, 1⟩)
    (h : toLex ((y : ℤ), m) ≤ yearMonth d) : c ≤ d := by
  change c.val ≤ d.val
  rw [hc, CivilDate.le_iff]
  rw [yearMonth_le_iff] at h
  have hday := d.property.day.1
  dsimp only
  omega

theorem succ_eq_some {d e : NaiveDate} (h : succ d = some e) :
    d.val.day < CivilDate.daysIn d.val.year d.val.month ∧
        e.val = ⟨d.val.year, d.val.month, d.val.day + 1⟩ ∨
      CivilDate.daysIn d.val.year d.val.month ≤ d.val.day ∧
        (d.val.month < 12 ∧ e.val = ⟨d.val.year, d.val.month + 1, 1⟩ ∨
          12 ≤ d.val.month ∧ e.val = ⟨d.val.year + 1, 1, 1⟩) := by
  unfold succ at h
  split_ifs at h with hday hmonth
  · exact Or.inl ⟨hday, ofYmd_eq_some h⟩
  · exact Or.inr ⟨not_lt.mp hday, Or.inl ⟨hmonth, ofYmd_eq_some h⟩⟩
  · exact Or.inr ⟨not_lt.mp hday, Or.inr ⟨not_lt.mp hmonth, ofYmd_eq_some h⟩⟩

theorem ofYmd_ne_none {y m d : ℕ} (h : (⟨y, m, d⟩ : CivilDate).Valid) : ofYmd y m d ≠ none := by
  rw [ofYmd, dif_pos h]
  exact Option.some_ne_none _

theorem succ_least {d e : NaiveDate} (h : succ d = some e) : IsLeast {f | d < f} e := by
  have hd := d.property
  constructor
  · change d.val < e.val
    rw [CivilDate.lt_iff]
    rcases succ_eq_some h with ⟨_, he⟩ | ⟨_, ⟨_, he⟩ | ⟨_, he⟩⟩
    · rw [he]
      dsimp only
      omega
    · rw [he]
      dsimp only
      omega
    · rw [he]
      dsimp only
      omega
  · intro f hf
    have hf' : d.val < f.val := hf
    have hfDay := f.property.day
    have hfMonth := f.property.month
    rw [CivilDate.lt_iff] at hf'
    change e.val ≤ f.val
    rw [CivilDate.le_iff]
    rcases succ_eq_some h with ⟨_, he⟩ | ⟨hlast, ⟨_, he⟩ | ⟨hlastMonth, he⟩⟩
    · rw [he]
      dsimp only
      omega
    · rw [he]
      have hsame : f.val.year = d.val.year → f.val.month = d.val.month →
          f.val.day ≤ d.val.day := by
        intro hy hm
        rw [hy, hm] at hfDay
        exact hfDay.2.trans hlast
      dsimp only
      omega
    · rw [he]
      have hsame : f.val.year = d.val.year → f.val.month = d.val.month →
          f.val.day ≤ d.val.day := by
        intro hy hm
        rw [hy, hm] at hfDay
        exact hfDay.2.trans hlast
      dsimp only
      omega

theorem le_of_succ_eq_none {d : NaiveDate} (h : succ d = none) (f : NaiveDate) : f ≤ d := by
  have hd := d.property
  have hf := f.property
  by_contra hlt
  have hlt' : d.val < f.val := not_le.mp hlt
  rw [CivilDate.lt_iff] at hlt'
  unfold succ at h
  split_ifs at h with hday hmonth
  · have hvalid : (⟨d.val.year, d.val.month, d.val.day + 1⟩ : CivilDate).Valid :=
      ⟨hd.year, hd.month, Nat.le_add_left 1 _, hday⟩
    exact ofYmd_ne_none hvalid h
  · have hvalid : (⟨d.val.year, d.val.month + 1, 1⟩ : CivilDate).Valid :=
      valid_first hd.year ⟨Nat.le_add_left 1 _, hmonth⟩
    exact ofYmd_ne_none hvalid h
  · have hyear : 9999 < d.val.year + 1 := by
      by_contra hle
      exact ofYmd_ne_none (valid_first (not_lt.mp hle) ⟨le_rfl, by decide⟩) h
    have hfYear := hf.year
    have hfMonth := hf.month
    have hfDay := hf.day
    have hsame : f.val.year = d.val.year → f.val.month = d.val.month → f.val.day ≤ d.val.day := by
      intro hy hm
      rw [hy, hm] at hfDay
      exact hfDay.2.trans (not_lt.mp hday)
    omega

instance : LawfulChrono NaiveDate where
  month_bounds d := d.property.month
  yearMonth_mono := by
    intro d e h
    have hle := CivilDate.le_iff.mp (show d.val ≤ e.val from h)
    have hkey : yearMonth d = toLex ((d.val.year : ℤ), d.val.month) := rfl
    rw [hkey, yearMonth_le_iff]
    omega
  fromYmdOpt_first := by
    intro y m c h
    obtain ⟨hy, hc⟩ := fromYmdOpt_eq_some h
    have hcast : ((y.toNat : ℕ) : ℤ) = y := Int.toNat_of_nonneg hy
    constructor
    · change toLex ((c.val.year : ℤ), c.val.month) = _
      rw [hc]
      dsimp only
      rw [hcast]
    · intro d hd
      rw [← hcast] at hd
      exact first_le hc hd
  fromYmdOpt_isSome := by
    intro y m t u hy hlow hhigh hle
    rw [yearMonth_le_iff] at hle
    have hnonneg : 0 ≤ y := (Int.natCast_nonneg t.val.year).trans hy
    have hyear : y.toNat ≤ 9999 := by
      have hu := u.property.year
      omega
    change (if 0 ≤ y then ofYmd y.toNat m 1 else none).isSome = true
    rw [if_pos hnonneg, ofYmd, dif_pos (valid_first hyear ⟨hlow, hhigh⟩)]
    rfl
  succOpt_least := succ_least
  le_of_succOpt := le_of_succ_eq_none
  parse_format := read_digits
  underscore_notMem := by
    intro d h
    change '_' ∈ (String.ofList d.digits).toList at h
    rw [String.toList_ofList] at h
    exact underscore_notMem_digits d h

theorem digits_lt {d e : NaiveDate} (h : d < e) : d.digits < e.digits := by
  have hd := d.property
  have he := e.property
  have hyear : d.val.year < 10 ^ 4 := Nat.lt_succ_of_le hd.year
  have hyear' : e.val.year < 10 ^ 4 := Nat.lt_succ_of_le he.year
  have hmonth : d.val.month < 10 ^ 2 := lt_of_le_of_lt hd.month.2 (by decide)
  have hmonth' : e.val.month < 10 ^ 2 := lt_of_le_of_lt he.month.2 (by decide)
  have hday' : e.val.day < 10 ^ 2 :=
    lt_of_le_of_lt (he.day.2.trans (CivilDate.daysIn_le _ _)) (by decide)
  have hyears : (fixedDigits 4 d.val.year).length = (fixedDigits 4 e.val.year).length := by
    rw [length_fixedDigits (by decide) hyear, length_fixedDigits (by decide) hyear']
  have hmonths : (fixedDigits 2 d.val.month).length = (fixedDigits 2 e.val.month).length := by
    rw [length_fixedDigits (by decide) hmonth, length_fixedDigits (by decide) hmonth']
  rw [digits, digits, append_lt_append_iff hyears, List.cons_lt_cons_iff,
    append_lt_append_iff hmonths, List.cons_lt_cons_iff]
  rcases CivilDate.lt_iff.mp (show d.val < e.val from h) with hlt | ⟨heq, hlt | ⟨heq', hlt⟩⟩
  · exact Or.inl (fixedDigits_lt (by decide) hyear' hlt)
  · rw [heq]
    exact Or.inr ⟨rfl, Or.inr ⟨rfl, Or.inl (fixedDigits_lt (by decide) hmonth' hlt)⟩⟩
  · rw [heq, heq']
    have hdays : fixedDigits 2 d.val.day < fixedDigits 2 e.val.day :=
      fixedDigits_lt (by decide) hday' hlt
    exact Or.inr ⟨rfl, Or.inr ⟨rfl, Or.inr ⟨rfl, Or.inr ⟨rfl, hdays⟩⟩⟩⟩

theorem length_digits (d : NaiveDate) : d.digits.length = 10 := by
  have hd := d.property
  have hyear : d.val.year < 10 ^ 4 := Nat.lt_succ_of_le hd.year
  have hmonth : d.val.month < 10 ^ 2 := lt_of_le_of_lt hd.month.2 (by decide)
  have hday : d.val.day < 10 ^ 2 :=
    lt_of_le_of_lt (hd.day.2.trans (CivilDate.daysIn_le _ _)) (by decide)
  rw [digits, List.length_append, List.length_cons, List.length_append, List.length_cons,
    length_fixedDigits (by decide) hyear, length_fixedDigits (by decide) hmonth,
    length_fixedDigits (by decide) hday]

instance : OrderedDates NaiveDate where
  format_lt := by
    intro d e _ _ h
    rw [String.lt_iff_toList_lt]
    change (String.ofList d.digits).toList < (String.ofList e.digits).toList
    rw [String.toList_ofList, String.toList_ofList]
    exact digits_lt h
  format_length := by
    intro d _
    change (String.ofList d.digits).toList.length = 10
    rw [String.toList_ofList]
    exact length_digits d

end NaiveDate

/-! ### Two rows -/

def octoberDay : NaiveDate := ⟨⟨2026, 10, 15⟩, by decide⟩

theorem goesOn_october (unit : ResetUnit) : GoesOn unit octoberDay := by
  refine ⟨⟨⟨2028, 1, 1⟩, by decide⟩, by decide, ?_⟩
  intro h
  exact absurd h.year_eq (by decide)

theorem julyRow_written : ∀ row ∈ [julyRow], ∃ start fin : NaiveDate, FourDigits start ∧
    row.periodKey? = some (periodText start fin) := by
  intro row hrow
  rw [List.mem_singleton.mp hrow]
  exact ⟨⟨⟨2026, 7, 1⟩, by decide⟩, ⟨⟨2026, 8, 1⟩, by decide⟩, by decide, by decide +kernel⟩

/-- In October the row of July is renewed, and the cycle of October is named. -/
theorem july_renews_in_october :
    NamesCycles "MONTHLY" .monthly octoberDay octoberDay ∧
      ∀ mix, mix ⊆ [julyRow] → PicksRight mix octoberDay :=
  (cycle_selection_iff (by decide +kernel) octoberDay octoberDay [julyRow] octoberDay).mpr
    (textsAgree_of_written (by decide) julyRow_written)

/-- A monthly row whose period is written with one digit for the month. -/
def septemberRow : QuotaRow :=
  [("id", .text "q"), ("period_key", .text "2026-9-1_2026-10-1"),
    ("reset_strategy", .text "MONTHLY"), ("max_limit", .integer 10)]

/-- The row of September is read as a date, but as a text it comes after October. -/
theorem short_month_is_not_renewed :
    ¬∀ (rows : List QuotaRow) (today : NaiveDate), PicksRight rows today := by
  intro h
  have hother : ∀ row ∈ [septemberRow], ¬row.Applies octoberDay := by
    intro row hrow happlies
    rw [List.mem_singleton.mp hrow, ← exactMatch_isSome_iff] at happlies
    exact absurd happlies (by decide +kernel)
  have hrenewable : septemberRow.Renewable octoberDay ⟨⟨2026, 9, 1⟩, by decide⟩ := by
    refine ⟨by decide +kernel, by decide +kernel, .monthly, ⟨⟨2026, 10, 1⟩, by decide⟩,
      by decide +kernel, goesOn_october .monthly, ⟨rfl, ?_⟩, by decide⟩
    intro d hd
    exact NaiveDate.first_le rfl (le_of_eq (Eq.symm hd))
  obtain ⟨_, _, _, _, _, _, spec, _, hpick⟩ := (h [septemberRow] octoberDay).newest hother
    ⟨septemberRow, List.mem_cons_self, _, hrenewable⟩
  have hnone : pickActive [septemberRow] octoberDay = none := by decide +kernel
  rw [hnone] at hpick
  cases hpick

/-- A row of next year, with a blank in front, comes before October as a text and governs. -/
example :
    let row : QuotaRow := [("id", .text "q"), ("period_key", .text " 2027-01-01_2027-02-01"),
      ("reset_strategy", .text "MONTHLY")]
    (row.startDate.map fun d : NaiveDate => d.val) = some ⟨2027, 1, 1⟩ ∧
      (pickActive [row] octoberDay).map QuotaSpec.periodKey = some "2026-10-01_2026-11-01" := by
  decide +kernel

end MetriEngine.Quota

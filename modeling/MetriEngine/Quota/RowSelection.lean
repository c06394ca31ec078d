import MetriEngine.Foundation.FixedWidth
import MetriEngine.Quota.Cycles

/-!
# Which row of a quota is picked

Of the rows of a domain the first that covers the day is picked. Where there is none, a row that
renews is, and then the one whose own period began last should be. The begin of a period is
compared as a text: with other texts, and with the text of the running period. For any mix of
some rows the right one is picked exactly where these comparisons agree with the dates.
-/
namespace MetriEngine.Quota
open Foundation Chrono

section Rows
variable {Date : Type} [Chrono Date]

namespace QuotaRow

def strategy (row : QuotaRow) : String := ((row.field "reset_strategy").bind Column.asStr).getD ""

/-- The text before the first underscore of a row's period. -/
def startText (row : QuotaRow) : Option String := row.periodKey?.map periodStart

/-- The day on which a row's period begins; an unlimited one does not begin. -/
def startDate (row : QuotaRow) : Option Date :=
  row.periodKey?.bind fun periodKey =>
    if periodKey = "LIFETIME" then none else parse (periodStart periodKey)

/-- The row's period covers the day, and it has a counter. -/
def Applies (row : QuotaRow) (today : Date) : Prop :=
  row.rowId.isSome = true ∧ ∃ periodKey, row.periodKey? = some periodKey ∧
    covers periodKey today = true

/-- The row renews, and this is the period that would be renewed. -/
def RenewsAs (row : QuotaRow) (today : Date) (text : String) : Prop :=
  ∃ unit, unitOf row.strategy = some unit ∧ RunningPeriod unit today text

/-- The row renews, and its own period began no later than the running cycle did. -/
def Renewable (row : QuotaRow) (today start : Date) : Prop :=
  row.rowId.isSome = true ∧ row.startDate = some start ∧
    ∃ unit first, unitOf row.strategy = some unit ∧ GoesOn unit today ∧
      (SameCycle unit first today ∧ ∀ d, SameCycle unit d today → first ≤ d) ∧ start ≤ first

/-- The row renews, and the text of its begin comes before the running period. -/
def TextComesBefore (row : QuotaRow) (today : Date) : Prop :=
  row.rowId.isSome = true ∧ ∃ start text, row.startText = some start ∧
    row.RenewsAs today text ∧ start < text

/-- Renewed, the rows give one quota. -/
def SameQuota (row row' : QuotaRow) (today : Date) : Prop :=
  row.rowId = row'.rowId ∧ row.integer "max_limit" = row'.integer "max_limit" ∧
    ∃ text, row.RenewsAs today text ∧ row'.RenewsAs today text

end QuotaRow

/-- The quota is that of a row, as it is or renewed. -/
def Gives (row : QuotaRow) (today : Date) (spec : QuotaSpec) : Prop :=
  exactMatch row today = some spec ∨ ∃ inicio, renewed row today = some (inicio, spec)

/-- What is asked of the pick. -/
structure PicksRight (rows : List QuotaRow) (today : Date) : Prop where
  notFuture : ∀ spec, pickActive rows today = some spec →
    ∃ row ∈ rows, Gives row today spec ∧ ∀ start : Date, row.startDate = some start → start ≤ today
  current : (∃ row ∈ rows, row.Applies today) →
    ∃ row ∈ rows, row.Applies today ∧ ∃ spec, exactMatch row today = some spec ∧
      pickActive rows today = some spec
  newest : (∀ row ∈ rows, ¬row.Applies today) → (∃ row ∈ rows, ∃ start, row.Renewable today start) →
    ∃ row ∈ rows, ∃ start, row.Renewable today start ∧
      (∀ row' ∈ rows, ∀ start', row'.Renewable today start' → start' ≤ start) ∧
        ∃ inicio spec, renewed row today = some (inicio, spec) ∧ pickActive rows today = some spec

/-- The texts of the rows that do not apply agree with their dates. -/
structure TextsAgree (rows : List QuotaRow) (today : Date) : Prop where
  future : ∀ row ∈ rows, ¬row.Applies today → row.TextComesBefore today →
    ∀ start : Date, row.startDate = some start → start ≤ today
  renews : ∀ row ∈ rows, ¬row.Applies today → ∀ start, row.Renewable today start →
    row.TextComesBefore today
  newest : ∀ row ∈ rows, ¬row.Applies today → ∀ start, row.Renewable today start →
    ∀ row' ∈ rows, ¬row'.Applies today → row'.TextComesBefore today →
      (∀ start', row'.Renewable today start' → start' < start) →
        (∃ text text', row.startText = some text ∧ row'.startText = some text' ∧ text' < text) ∨
          row.SameQuota row' today

/-! ### Rows that apply -/

section Applying
variable {row : QuotaRow} {rows : List QuotaRow} {today : Date} {spec : QuotaSpec}

theorem exactMatch_isSome_iff : (exactMatch row today).isSome = true ↔ row.Applies today := by
  constructor
  · intro h
    obtain ⟨spec, hspec⟩ := Option.isSome_iff_exists.mp h
    obtain ⟨hid, _, hperiod, hcovers⟩ := exactMatch_eq_some hspec
    rw [QuotaRow.Applies, hid]
    exact ⟨rfl, spec.periodKey, hperiod, hcovers⟩
  · rintro ⟨hid, periodKey, hperiod, hcovers⟩
    obtain ⟨id, hid⟩ := Option.isSome_iff_exists.mp hid
    unfold exactMatch
    rw [hperiod, hid]
    simp [hcovers]

theorem exactMatch_eq_none (h : ¬row.Applies today) : exactMatch row today = none := by
  rw [← exactMatch_isSome_iff] at h
  exact Option.not_isSome_iff_eq_none.mp h

theorem splitOnSep_of_splitOnceList {l a b : List Char}
    (h : splitOnceList ['_'] l = some (a, b)) : ∃ rest, splitOnSep '_' l = a :: rest := by
  induction l generalizing a b with
  | nil => cases h
  | cons c l ih =>
    by_cases hc : c = '_'
    · subst hc
      have hhere : splitOnceList ['_'] ('_' :: l) = some ([], l) := by simp [splitOnceList]
      rw [hhere] at h
      cases h
      exact ⟨splitOnSep '_' l, by simp [splitOnSep]⟩
    · have hprefix : List.isPrefixOf ['_'] (c :: l) = false := by
        simp [List.isPrefixOf, Ne.symm hc]
      rw [splitOnceList, hprefix] at h
      obtain ⟨⟨a', b'⟩, hrest, heq⟩ := Option.map_eq_some_iff.mp h
      cases heq
      obtain ⟨rest, hsplit⟩ := ih hrest
      exact ⟨rest, by rw [splitOnSep, if_neg hc, hsplit]⟩

theorem periodStart_of_splitOnce {periodKey : String} {parts : String × String}
    (h : Text.splitOnce "_" periodKey = some parts) : periodStart periodKey = parts.1 := by
  obtain ⟨⟨a, b⟩, hsplit, rfl⟩ := Option.map_eq_some_iff.mp h
  obtain ⟨rest, hparts⟩ := splitOnSep_of_splitOnceList hsplit
  rw [periodStart, Text.split, hparts]
  rfl

/-- A covered day is not before the begin. -/
theorem start_le_of_covers {periodKey : String} (h : covers periodKey today = true)
    (hlife : periodKey ≠ "LIFETIME") {start : Date} (hstart : parse (periodStart periodKey) = some start) :
    start ≤ today := by
  rw [covers, if_neg hlife] at h
  cases hsplit : Text.splitOnce "_" periodKey with
  | none =>
    rw [hsplit] at h
    cases h
  | some parts =>
    rw [periodStart_of_splitOnce hsplit] at hstart
    rw [hsplit] at h
    dsimp only at h
    rw [hstart] at h
    cases hfin : (parse parts.2 : Option Date) with
    | none =>
      rw [hfin] at h
      cases h
    | some fin =>
      rw [hfin] at h
      exact (of_decide_eq_true h).1

theorem start_le_of_applies (h : row.Applies today) {start : Date}
    (hstart : row.startDate = some start) : start ≤ today := by
  obtain ⟨_, periodKey, hperiod, hcovers⟩ := h
  unfold QuotaRow.startDate at hstart
  rw [hperiod, Option.bind_some] at hstart
  split_ifs at hstart with hlife
  exact start_le_of_covers hcovers hlife hstart

end Applying

/-! ### Rows that renew -/

section Latest
variable {candidates : List (String × QuotaSpec)} {mejor : Option (String × QuotaSpec)}
  {c : String × QuotaSpec}

/-- No candidate begins later than the one that is kept. -/
theorem le_foldl_latest (h : candidates.foldl latest mejor = some c) :
    (∀ m, mejor = some m → m.1 ≤ c.1) ∧ ∀ d ∈ candidates, d.1 ≤ c.1 := by
  induction candidates generalizing mejor with
  | nil =>
    constructor
    · intro m hm
      rw [List.foldl_nil, hm] at h
      cases h
      exact le_rfl
    · intro d hd
      cases hd
  | cons d candidates ih =>
    rw [List.foldl_cons] at h
    obtain ⟨hkept, hrest⟩ := ih h
    have hboth : (∀ m, mejor = some m → m.1 ≤ c.1) ∧ d.1 ≤ c.1 := by
      cases hm : mejor with
      | none =>
        rw [hm] at hkept
        refine ⟨?_, hkept d rfl⟩
        intro m hnone
        cases hnone
      | some prev =>
        rw [hm] at hkept
        unfold latest at hkept
        dsimp only at hkept
        by_cases hlater : d.1 > prev.1
        · rw [if_pos hlater] at hkept
          have hle := hkept d rfl
          refine ⟨?_, hle⟩
          intro m heq
          cases heq
          exact hlater.le.trans hle
        · rw [if_neg hlater] at hkept
          have hle := hkept prev rfl
          refine ⟨?_, (not_lt.mp hlater).trans hle⟩
          intro m heq
          cases heq
          exact hle
    exact ⟨hboth.1, List.forall_mem_cons.mpr ⟨hboth.2, hrest⟩⟩

theorem latest_isSome (mejor : Option (String × QuotaSpec)) (c : String × QuotaSpec) :
    (latest mejor c).isSome = true := by
  unfold latest
  split
  · split_ifs <;> rfl
  · rfl

theorem foldl_latest_isSome (h : mejor.isSome = true) :
    (candidates.foldl latest mejor).isSome = true := by
  induction candidates generalizing mejor with
  | nil => exact h
  | cons d candidates ih => exact ih (latest_isSome mejor d)

end Latest

section Renewing
variable {row : QuotaRow} {rows : List QuotaRow} {today : Date} {spec : QuotaSpec} {inicio : String}

/-- Of rows that do not apply the first whose begin is the last as a text is picked. -/
theorem pickActive_of_renewed (hnone : ∀ row ∈ rows, ¬row.Applies today)
    (hrow : row ∈ rows) (hrenewed : renewed row today = some (inicio, spec)) :
    ∃ best ∈ rows, ∃ start found, renewed best today = some (start, found) ∧
      pickActive rows today = some found ∧
        ∀ row' ∈ rows, ∀ start' found', renewed row' today = some (start', found') →
          start' ≤ start := by
  have hcandidate : (inicio, spec) ∈ rows.filterMap fun row => renewed row today :=
    List.mem_filterMap.mpr ⟨row, hrow, hrenewed⟩
  have hsome : ((rows.filterMap fun row => renewed row today).foldl latest none).isSome = true := by
    cases hlist : rows.filterMap fun row => renewed row today with
    | nil =>
      rw [hlist] at hcandidate
      cases hcandidate
    | cons d rest =>
      rw [List.foldl_cons]
      exact foldl_latest_isSome (latest_isSome none d)
  obtain ⟨⟨start, found⟩, hfold⟩ := Option.isSome_iff_exists.mp hsome
  have hfirst : rows.findSome? (fun row => exactMatch row today) = none :=
    List.findSome?_eq_none_iff.mpr fun row hrow => exactMatch_eq_none (hnone row hrow)
  rcases foldl_latest_mem _ _ hfold with hnil | hmem
  · cases hnil
  · obtain ⟨best, hbest, hfound⟩ := List.mem_filterMap.mp hmem
    refine ⟨best, hbest, start, found, hfound, ?_, ?_⟩
    · simp only [pickActive, hfirst, renewLatest, hfold, Option.map_some]
    · intro row' hrow' start' found' hrenewed'
      exact (le_foldl_latest hfold).2 _ (List.mem_filterMap.mpr ⟨row', hrow', hrenewed'⟩)

/-- The quota of a renewed row. -/
def renewalOf (row : QuotaRow) (id text : String) : QuotaSpec :=
  { id
    counterId := id ++ "#" ++ text
    maxLimit := row.integer "max_limit"
    seedUsage := 0
    periodKey := text }

variable [LawfulChrono Date]

theorem renewed_eq_some_iff : renewed row today = some (inicio, spec) ↔
    row.startText = some inicio ∧ ∃ text id, row.RenewsAs today text ∧ inicio < text ∧
      row.rowId = some id ∧ spec = renewalOf row id text := by
  unfold renewed QuotaRow.startText QuotaRow.RenewsAs
  cases hperiod : row.periodKey? with
  | none => simp
  | some periodKey =>
    constructor
    · intro h
      dsimp only [Option.bind_eq_bind, Option.bind_some] at h
      obtain ⟨text, htext, h⟩ := Option.bind_eq_some_iff.mp h
      split_ifs at h with hstart
      obtain ⟨id, hid, h⟩ := Option.bind_eq_some_iff.mp h
      cases h
      exact ⟨rfl, text, id, renewedPeriod_eq_some_iff.mp htext, not_le.mp hstart, hid, rfl⟩
    · rintro ⟨hinicio, text, id, hrenews, hlt, hid, rfl⟩
      cases hinicio
      have htext := renewedPeriod_eq_some_iff.mpr hrenews
      unfold QuotaRow.strategy at htext
      change ((renewedPeriod _ today).bind _) = _
      rw [htext, Option.bind_some]
      dsimp only
      rw [if_neg (not_le.mpr hlt), hid]
      rfl

theorem textComesBefore_iff : row.TextComesBefore today ↔ (renewed row today).isSome = true := by
  rw [Option.isSome_iff_exists]
  constructor
  · rintro ⟨hid, start, text, hstart, hrenews, hlt⟩
    obtain ⟨id, hid⟩ := Option.isSome_iff_exists.mp hid
    exact ⟨(start, renewalOf row id text),
      renewed_eq_some_iff.mpr ⟨hstart, text, id, hrenews, hlt, hid, rfl⟩⟩
  · rintro ⟨⟨start, spec⟩, hrenewed⟩
    obtain ⟨hstart, text, id, hrenews, hlt, hid, _⟩ := renewed_eq_some_iff.mp hrenewed
    exact ⟨by rw [hid]; rfl, start, text, hstart, hrenews, hlt⟩

theorem renewsAs_unique {text text' : String} (h : row.RenewsAs today text)
    (h' : row.RenewsAs today text') : text = text' :=
  Option.some.inj ((renewedPeriod_eq_some_iff.mpr h).symm.trans (renewedPeriod_eq_some_iff.mpr h'))

theorem sameQuota_iff {row' : QuotaRow} {inicio' : String} {spec' : QuotaSpec}
    (h : renewed row today = some (inicio, spec)) (h' : renewed row' today = some (inicio', spec')) :
    row.SameQuota row' today ↔ spec = spec' := by
  obtain ⟨_, text, id, hrenews, _, hid, rfl⟩ := renewed_eq_some_iff.mp h
  obtain ⟨_, text', id', hrenews', _, hid', rfl⟩ := renewed_eq_some_iff.mp h'
  constructor
  · rintro ⟨hids, hlimits, common, hcommon, hcommon'⟩
    have htext := (renewsAs_unique hrenews hcommon).trans (renewsAs_unique hcommon' hrenews')
    have hsame : id = id' := Option.some.inj (hid.symm.trans (hids.trans hid'))
    rw [renewalOf, renewalOf, htext, hsame, hlimits]
  · intro heq
    have hids : id = id' := congrArg QuotaSpec.id heq
    have hlimits : row.integer "max_limit" = row'.integer "max_limit" :=
      congrArg QuotaSpec.maxLimit heq
    have htext : text = text' := congrArg QuotaSpec.periodKey heq
    subst hids htext
    exact ⟨hid.trans hid'.symm, hlimits, text, hrenews, hrenews'⟩

end Renewing

/-! ### Picks and texts -/

section Picks
variable {rows : List QuotaRow} {today : Date}

theorem exists_newest (rows : List QuotaRow)
    (h : ∃ row ∈ rows, ∃ start : Date, row.Renewable today start) :
    ∃ row ∈ rows, ∃ start : Date, row.Renewable today start ∧
      ∀ row' ∈ rows, ∀ start', row'.Renewable today start' → start' ≤ start := by
  induction rows with
  | nil =>
    obtain ⟨row, hrow, _⟩ := h
    cases hrow
  | cons row rows ih =>
    by_cases hrest : ∃ row ∈ rows, ∃ start : Date, row.Renewable today start
    · obtain ⟨best, hbest, start, hrenewable, hnewest⟩ := ih hrest
      by_cases hlater : ∃ start', row.Renewable today start' ∧ start < start'
      · obtain ⟨start', hrow, hlt⟩ := hlater
        refine ⟨row, List.mem_cons_self, start', hrow, ?_⟩
        intro row'' hrow'' start'' hrenewable''
        rcases List.mem_cons.mp hrow'' with heq | hmem
        · subst heq
          exact (Option.some.inj (hrenewable''.2.1.symm.trans hrow.2.1)).le
        · exact (hnewest row'' hmem start'' hrenewable'').trans hlt.le
      · refine ⟨best, List.mem_cons_of_mem _ hbest, start, hrenewable, ?_⟩
        intro row'' hrow'' start'' hrenewable''
        rcases List.mem_cons.mp hrow'' with heq | hmem
        · subst heq
          exact not_lt.mp fun hlt => hlater ⟨start'', hrenewable'', hlt⟩
        · exact hnewest row'' hmem start'' hrenewable''
    · obtain ⟨found, hfound, start, hrenewable⟩ := h
      refine ⟨found, hfound, start, hrenewable, ?_⟩
      intro row'' hrow'' start'' hrenewable''
      have hfirst : ∀ r ∈ row :: rows, ∀ s : Date, r.Renewable today s → r = row := by
        intro r hr s hs
        rcases List.mem_cons.mp hr with heq | hmem
        · exact heq
        · exact absurd ⟨r, hmem, s, hs⟩ hrest
      have heq := hfirst found hfound start hrenewable
      have heq'' := hfirst row'' hrow'' start'' hrenewable''
      subst heq heq''
      exact (Option.some.inj (hrenewable''.2.1.symm.trans hrenewable.2.1)).le

variable [LawfulChrono Date]

/-- Where texts agree with dates the right row is picked from any mix of the rows. -/
theorem picksRight_of_textsAgree (h : TextsAgree rows today) {mix : List QuotaRow}
    (hsub : mix ⊆ rows) : PicksRight mix today where
  notFuture := by
    intro spec hpick
    rcases pickActive_cases hpick with ⟨row, hrow, hmatch⟩ | ⟨hnone, row, hrow, inicio, hrenewed⟩
    · refine ⟨row, hrow, Or.inl hmatch, ?_⟩
      intro start hstart
      have happlies : row.Applies today := exactMatch_isSome_iff.mp (by rw [hmatch]; rfl)
      exact start_le_of_applies happlies hstart
    · refine ⟨row, hrow, Or.inr ⟨inicio, hrenewed⟩, ?_⟩
      have hother : ¬row.Applies today := by
        rw [← exactMatch_isSome_iff, hnone row hrow]
        exact Bool.false_ne_true
      have hbefore : row.TextComesBefore today := textComesBefore_iff.mpr (by rw [hrenewed]; rfl)
      exact h.future row (hsub hrow) hother hbefore
  current := by
    rintro ⟨row, hrow, happlies⟩
    have hcurrent : HasCurrentRow mix today := ⟨row, hrow, exactMatch_isSome_iff.mpr happlies⟩
    obtain ⟨row', hrow', spec, hmatch, hpick⟩ := pickActive_of_hasCurrentRow hcurrent
    exact ⟨row', hrow', exactMatch_isSome_iff.mp (by rw [hmatch]; rfl), spec, hmatch, hpick⟩
  newest := by
    intro hnone hsome
    obtain ⟨row, hrow, start, hrenewable, hnewest⟩ := exists_newest mix hsome
    have hbefore := h.renews row (hsub hrow) (hnone row hrow) start hrenewable
    obtain ⟨⟨inicio, spec⟩, hrenewed⟩ := Option.isSome_iff_exists.mp (textComesBefore_iff.mp hbefore)
    obtain ⟨best, hbest, inicio', found, hfound, hpick, hlast⟩ :=
      pickActive_of_renewed hnone hrow hrenewed
    by_cases hlater : ∃ start', best.Renewable today start' ∧ start ≤ start'
    · obtain ⟨start', hbestRenewable, hle⟩ := hlater
      refine ⟨best, hbest, start', hbestRenewable, ?_, inicio', found, hfound, hpick⟩
      intro row' hrow' start'' hrenewable'
      exact (hnewest row' hrow' start'' hrenewable').trans hle
    · have holder : ∀ start', best.Renewable today start' → start' < start := by
        intro start' hbestRenewable
        exact not_le.mp fun hle => hlater ⟨start', hbestRenewable, hle⟩
      have hbestBefore : best.TextComesBefore today :=
        textComesBefore_iff.mpr (by rw [hfound]; rfl)
      rcases h.newest row (hsub hrow) (hnone row hrow) start hrenewable best (hsub hbest)
        (hnone best hbest) hbestBefore holder with ⟨text, text', htext, htext', hlt⟩ | hsame
      · rw [(renewed_eq_some_iff.mp hrenewed).1] at htext
        rw [(renewed_eq_some_iff.mp hfound).1] at htext'
        cases htext
        cases htext'
        exact absurd hlt (not_lt.mpr (hlast row hrow inicio spec hrenewed))
      · have heq := (sameQuota_iff hrenewed hfound).mp hsame
        subst heq
        exact ⟨row, hrow, start, hrenewable, hnewest, inicio, spec, hrenewed, hpick⟩

omit [LawfulChrono Date] in
theorem pickActive_pair {row row' : QuotaRow} (hrow : ¬row.Applies today)
    (hrow' : ¬row'.Applies today) {c c' : String × QuotaSpec} (hc : renewed row today = some c)
    (hc' : renewed row' today = some c') (hle : c.1 ≤ c'.1) :
    pickActive [row', row] today = some c'.2 := by
  have hnone := exactMatch_eq_none hrow
  have hnone' := exactMatch_eq_none hrow'
  have hkept : latest (some c') c = some c' := if_neg (not_lt.mpr hle)
  have hpick : renewLatest [row', row] today = some c'.2 := by
    simp only [renewLatest, List.filterMap_cons, List.filterMap_nil, hc, hc', List.foldl_cons,
      List.foldl_nil]
    change (latest (some c') c).map Prod.snd = _
    rw [hkept]
    rfl
  simp only [pickActive, List.findSome?_cons, List.findSome?_nil, hnone, hnone', hpick]

/-- Where the right row is picked from any mix, texts agree with dates. -/
theorem textsAgree_of_picksRight (h : ∀ mix, mix ⊆ rows → PicksRight mix today) :
    TextsAgree rows today where
  future := by
    intro row hrow hother hbefore start hstart
    obtain ⟨⟨inicio, spec⟩, hrenewed⟩ := Option.isSome_iff_exists.mp (textComesBefore_iff.mp hbefore)
    have halone : ∀ r ∈ [row], ¬r.Applies today := by
      intro r hr
      rwa [List.mem_singleton.mp hr]
    obtain ⟨best, _, _, found, _, hpick, _⟩ :=
      pickActive_of_renewed halone List.mem_cons_self hrenewed
    obtain ⟨r, hr, _, hle⟩ := (h [row] (by simpa using hrow)).notFuture found hpick
    rw [List.mem_singleton.mp hr] at hle
    exact hle start hstart
  renews := by
    intro row hrow hother start hrenewable
    have halone : ∀ r ∈ [row], ¬r.Applies today := by
      intro r hr
      rwa [List.mem_singleton.mp hr]
    obtain ⟨r, hr, _, _, _, inicio, spec, hrenewed, _⟩ := (h [row] (by simpa using hrow)).newest
      halone ⟨row, List.mem_cons_self, start, hrenewable⟩
    rw [List.mem_singleton.mp hr] at hrenewed
    exact textComesBefore_iff.mpr (by rw [hrenewed]; rfl)
  newest := by
    intro row hrow hother start hrenewable row' hrow' hother' hbefore' holder
    have hnone : ∀ r ∈ [row', row], ¬r.Applies today := by
      intro r hr
      rcases List.mem_cons.mp hr with heq | hr
      · rwa [heq]
      · rwa [List.mem_singleton.mp hr]
    obtain ⟨best, hbest, start', hbestRenewable, hnewest, inicio, spec, hrenewed, hpick⟩ :=
      (h [row', row] (by simp [hrow, hrow'])).newest hnone
        ⟨row, List.mem_cons_of_mem _ List.mem_cons_self, start, hrenewable⟩
    have hle := hnewest row (List.mem_cons_of_mem _ List.mem_cons_self) start hrenewable
    have hbestRow : best = row := by
      rcases List.mem_cons.mp hbest with heq | hmem
      · rw [heq] at hbestRenewable
        exact absurd (holder start' hbestRenewable) (not_lt.mpr hle)
      · exact List.mem_singleton.mp hmem
    subst hbestRow
    obtain ⟨⟨inicio', spec'⟩, hrenewed'⟩ :=
      Option.isSome_iff_exists.mp (textComesBefore_iff.mp hbefore')
    by_cases hlt : inicio' < inicio
    · exact Or.inl ⟨inicio, inicio', (renewed_eq_some_iff.mp hrenewed).1,
        (renewed_eq_some_iff.mp hrenewed').1, hlt⟩
    · -- the text keeps the other row, so both must give the same quota
      have hkept := pickActive_pair hother hother' hrenewed hrenewed' (not_lt.mp hlt)
      rw [hpick] at hkept
      exact Or.inr ((sameQuota_iff hrenewed hrenewed').mpr (Option.some.inj hkept))

end Picks

/-! ### Cycles and picks -/

/-- While the calendar goes on after the cycle of a day there is a period for it, the period
covers the day, and periods are kept apart as the days are. -/
structure NamesCycles (resetStrategy : String) (unit : ResetUnit) (t u : Date) : Prop where
  isSome_iff : (renewedPeriod resetStrategy t).isSome = true ↔ GoesOn unit t
  covers : ∀ text, renewedPeriod resetStrategy t = some text → covers text t = true
  same_iff : renewedPeriod resetStrategy t = renewedPeriod resetStrategy u ↔ SameCycle unit t u

theorem namesCycles [LawfulChrono Date] {resetStrategy : String} {unit : ResetUnit}
    (hunit : unitOf resetStrategy = some unit) (t u : Date) :
    NamesCycles resetStrategy unit t u where
  isSome_iff := renewedPeriod_isSome_iff hunit
  covers := fun _ htext => covers_renewedPeriod htext
  same_iff := renewedPeriod_eq_iff hunit

/-- Cycles are named as they should be; rows are picked as they should be exactly where texts
agree with dates. -/
theorem cycle_selection_iff [LawfulChrono Date] {resetStrategy : String} {unit : ResetUnit}
    (hunit : unitOf resetStrategy = some unit) (t u : Date) (rows : List QuotaRow) (today : Date) :
    (NamesCycles resetStrategy unit t u ∧ ∀ mix, mix ⊆ rows → PicksRight mix today) ↔
      TextsAgree rows today := by
  constructor
  · rintro ⟨_, hpicks⟩
    exact textsAgree_of_picksRight hpicks
  · intro htexts
    exact ⟨namesCycles hunit t u, fun _ hsub => picksRight_of_textsAgree htexts hsub⟩

/-! ### Periods as they are written -/

/-- The year is written with four digits and no sign. -/
def FourDigits (d : Date) : Prop := 0 ≤ year d ∧ year d ≤ 9999

instance (d : Date) : Decidable (FourDigits d) :=
  inferInstanceAs (Decidable (0 ≤ year d ∧ year d ≤ 9999))

/-- Dates with four digits stand in their order, in texts of one length. -/
class OrderedDates (Date : Type) [Chrono Date] : Prop where
  format_lt : ∀ d e : Date, FourDigits d → FourDigits e → d < e → format d < format e
  format_length : ∀ d : Date, FourDigits d → (format d).toList.length = 10

section Written
variable [LawfulChrono Date] [OrderedDates Date] {rows : List QuotaRow} {today start first next : Date}

omit [LawfulChrono Date] in
theorem format_lt_periodText_iff (hstart : FourDigits start) (hfirst : FourDigits first) :
    format start < periodText first next ↔ start ≤ first := by
  have hlength : (format start).toList.length = (format first).toList.length := by
    rw [OrderedDates.format_length start hstart, OrderedDates.format_length first hfirst]
  have htext : (periodText first next).toList =
      (format first).toList ++ '_' :: (format next).toList := by
    simp [periodText]
  have hcompare : format start < periodText first next ↔
      (format start).toList < (format first).toList ∨
        (format start).toList = (format first).toList := by
    have happend := append_lt_append_iff (c := []) (d := '_' :: (format next).toList) hlength
    rw [List.append_nil] at happend
    rw [String.lt_iff_toList_lt, htext, happend]
    simp
  rw [hcompare]
  constructor
  · intro h
    by_contra hlater
    have hlt := OrderedDates.format_lt first start hfirst hstart (not_le.mp hlater)
    rw [String.lt_iff_toList_lt] at hlt
    rcases h with h | h
    · exact absurd hlt h.asymm
    · rw [h] at hlt
      exact lt_irrefl _ hlt
  · intro h
    rcases h.lt_or_eq with hlt | heq
    · exact Or.inl (String.lt_iff_toList_lt.mp (OrderedDates.format_lt start first hstart hfirst hlt))
    · exact Or.inr (by rw [heq])

omit [LawfulChrono Date] [OrderedDates Date] in
theorem RunsFrom.least {unit : ResetUnit} (h : RunsFrom unit today first next) :
    SameCycle unit first today ∧ ∀ d, SameCycle unit d today → first ≤ d := by
  cases unit with
  | daily => exact ⟨h.first.1, fun d hd => h.first.2 hd⟩
  | monthly => exact ⟨h.first.1, fun d hd => h.first.2 hd⟩
  | yearly => exact ⟨h.first.1, fun d hd => h.first.2 hd⟩

omit [LawfulChrono Date] [OrderedDates Date] in
theorem SameCycle.year_eq {unit : ResetUnit} {t u : Date} (h : SameCycle unit t u) :
    year t = year u := by
  cases unit with
  | daily => exact congrArg year h
  | monthly => exact congrArg (fun k => (ofLex k).1) h
  | yearly => exact h

/-- Periods as they are written, with years of four digits, agree with their dates. -/
theorem textsAgree_of_written (htoday : FourDigits today)
    (hwritten : ∀ row ∈ rows, ∃ start fin : Date, FourDigits start ∧
      row.periodKey? = some (periodText start fin)) : TextsAgree rows today := by
  have hdates : ∀ row ∈ rows, ∃ start : Date, FourDigits start ∧
      row.startText = some (format start) ∧ row.startDate = some start := by
    intro row hrow
    obtain ⟨start, fin, hfour, hperiod⟩ := hwritten row hrow
    have hfirst := periodStart_of_splitOnce (splitOnce_periodText start fin)
    refine ⟨start, hfour, ?_, ?_⟩
    · rw [QuotaRow.startText, hperiod, Option.map_some, hfirst]
    · rw [QuotaRow.startDate, hperiod, Option.bind_some, if_neg (periodText_ne_lifetime start fin),
        hfirst, LawfulChrono.parse_format]
  have hfour : ∀ {unit : ResetUnit} {first : Date}, SameCycle unit first today →
      FourDigits first := by
    intro unit first hsame
    rw [FourDigits, hsame.year_eq]
    exact htoday
  -- a row that comes before as a text begins no later than the running cycle
  have hearlier : ∀ row ∈ rows, row.TextComesBefore today → ∀ start : Date,
      row.startDate = some start → row.Renewable today start := by
    intro row hrow hbefore start hstart
    obtain ⟨hid, text, period, htext, ⟨unit, hunit, first, next, hruns, hperiod⟩, hlt⟩ := hbefore
    obtain ⟨start', hstart', htext', hdate⟩ := hdates row hrow
    have hsame : start' = start := Option.some.inj (hdate.symm.trans hstart)
    subst hsame
    have htexts : format start' = text := Option.some.inj (htext'.symm.trans htext)
    rw [← htexts, hperiod] at hlt
    exact ⟨hid, hdate, unit, first, hunit, hruns.goesOn, hruns.least,
      (format_lt_periodText_iff hstart' (hfour hruns.least.1)).mp hlt⟩
  refine ⟨?_, ?_, ?_⟩
  · intro row hrow _ hbefore start hstart
    obtain ⟨_, _, unit, first, _, _, ⟨_, hleast⟩, hle⟩ := hearlier row hrow hbefore start hstart
    have hself : SameCycle unit today today := by cases unit <;> rfl
    exact hle.trans (hleast today hself)
  · rintro row hrow _ start ⟨hid, hstart, unit, first, hunit, hgoes, ⟨hsame, hleast⟩, hle⟩
    obtain ⟨start', hstart', htext', hdate⟩ := hdates row hrow
    have hstarts : start' = start := Option.some.inj (hdate.symm.trans hstart)
    subst hstarts
    obtain ⟨⟨first', next⟩, hbounds⟩ := Option.isSome_iff_exists.mp (cycleBounds_isSome hgoes)
    have hruns := runsFrom_of_cycleBounds hbounds
    have hfirsts : first' = first :=
      le_antisymm (hruns.least.2 first hsame) (hleast first' hruns.least.1)
    subst hfirsts
    exact ⟨hid, format start', periodText first' next, htext', ⟨unit, hunit, first', next, hruns, rfl⟩,
      (format_lt_periodText_iff hstart' (hfour hsame)).mpr hle⟩
  · intro row hrow _ start hrenewable row' hrow' _ hbefore' holder
    left
    obtain ⟨start₁, hfour₁, htext, hdate⟩ := hdates row hrow
    obtain ⟨start₂, hfour₂, htext', hdate'⟩ := hdates row' hrow'
    have hstarts : start₁ = start := Option.some.inj (hdate.symm.trans hrenewable.2.1)
    subst hstarts
    have hlt := holder start₂ (hearlier row' hrow' hbefore' start₂ hdate')
    exact ⟨format start₁, format start₂, htext, htext',
      OrderedDates.format_lt start₂ start₁ hfour₂ hfour₁ hlt⟩

end Written
end Rows
end MetriEngine.Quota

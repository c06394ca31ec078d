import MetriEngine.Quota.Reservations
import MetriEngine.Quota.Resolver

/-!
# Which counter each path addresses

The write-count debits take the counter of the resolved quota, a reservation takes the
id of its row, and the overlay of read projections works the counter out from the row
that it shows. They meet exactly where the counter is the row's id: a row of the domain
itself whose period covers the day.
-/
namespace MetriEngine.Quota
open Foundation

/-- `field` in the overlay's order: the bare column first. -/
def QuotaRow.bareField (row : QuotaRow) (name : String) : Option Column :=
  (row.get name).or (row.get (qualified name))

/-- What `reserve_tokens` knows of a ticket besides its quota. -/
structure TicketData where
  id : String
  tenantId : String
  estimated : ℤ
  expiresAt : ℤ

/-- The reservation that `reserve_tokens` opens for a quota. -/
def reserveTicket (quota : QuotaSpec) (data : TicketData) : Reservation where
  id := data.id
  tenantId := data.tenantId
  quotaId := quota.id
  estimated := data.estimated
  debited := false
  expiresAt := data.expiresAt

section Overlay
variable {Date : Type} [Chrono Date]

/-- `QuotaUsageOverlay::counter_id` on a day. -/
def overlayCounterId (row : QuotaRow) (today : Date) : Option String := do
  let id ← ((row.bareField "id").bind Column.asStr).filter fun s => s ≠ ""
  let periodKey := ((row.bareField "period_key").bind Column.asStr).getD ""
  if periodKey = "" ∨ covers periodKey today = true then pure id
  else
    let estrategia := ((row.bareField "reset_strategy").bind Column.asStr).getD ""
    match renewedPeriod estrategia today with
    | some actual =>
      if periodStart periodKey < actual then pure (id ++ "#" ++ actual) else pure id
    | none => pure id

/-- The places that debit, refund, settle or report a quota. -/
inductive CounterPath
  | writeCount
  | composite
  | reserve
  | reconcile
  | sweep
  | overlay
deriving DecidableEq

/-- The counter that a path addresses for a quota, whose row is `row`. -/
def CounterPath.counter (quota : QuotaSpec) (data : TicketData) (row : QuotaRow)
    (today : Date) : CounterPath → Option String
  | writeCount => some quota.counterId
  | composite => some quota.counterId
  | reserve => some quota.id
  | reconcile => some (reserveTicket quota data).quotaId
  | sweep => some (reserveTicket quota data).quotaId
  | overlay => overlayCounterId row today

end Overlay

/-! ### The rows of a tenant -/

/-- The rows of one tenant and limit type by their domain. A row carries each column
under one name, and its id is of no other row. -/
structure QuotaTable where
  rows : String → List QuotaRow
  oneName : ∀ domain, ∀ row ∈ rows domain, ∀ name,
    row.get (QuotaRow.qualified name) = none ∨ row.get name = none
  oneRow : ∀ domain domain', ∀ row ∈ rows domain, ∀ row' ∈ rows domain', ∀ id,
    row.rowId = some id → row'.rowId = some id → row = row'

namespace QuotaTable
variable {Date : Type} [Chrono Date] (table : QuotaTable)

/-- Every path addresses the counter of the quota. -/
def Agrees (today : Date) (spec : QuotaSpec) : Prop :=
  ∀ (path : CounterPath) (data : TicketData) (domain : String), ∀ row ∈ table.rows domain,
    row.rowId = some spec.id → path.counter spec data row today = some spec.counterId

/-- One selection: the domain, the day and the quota. -/
structure Selection (Date : Type) where
  domain : String
  today : Date
  spec : QuotaSpec

/-- The selection was made through the tenant's default plan. -/
def ByDefault (s : Selection Date) : Prop := pickActive (table.rows s.domain) s.today = none

/-- Two selections of one row, for different domains of a default plan or for
different cycles, address no counter in common. -/
def Separate (s t : Selection Date) : Prop :=
  s.spec.id = t.spec.id →
    (table.ByDefault s ∧ table.ByDefault t ∧ s.domain ≠ t.domain ∨
      s.spec.periodKey ≠ t.spec.periodKey) →
    ∀ (path path' : CounterPath) (data data' : TicketData) (domain : String),
      ∀ row ∈ table.rows domain, row.rowId = some s.spec.id →
        path.counter s.spec data row s.today ≠ path'.counter t.spec data' row t.today

variable {table} {today : Date} {spec : QuotaSpec} {row : QuotaRow} {domain : String}

theorem bareField_eq_field (hrow : row ∈ table.rows domain) (name : String) :
    row.bareField name = row.field name := by
  unfold QuotaRow.bareField QuotaRow.field
  rcases table.oneName domain row hrow name with h | h
  · rw [h, Option.or_none, Option.none_or]
  · rw [h, Option.or_none, Option.none_or]

/-- On a row of the table the overlay reads the columns that the resolver reads. -/
theorem overlayCounterId_eq (hrow : row ∈ table.rows domain) {id : String}
    (hid : row.rowId = some id) (today : Date) :
    overlayCounterId row today =
      if row.periodKey?.getD "" = "" ∨ covers (row.periodKey?.getD "") today = true then some id
      else match renewedPeriod (((row.field "reset_strategy").bind Column.asStr).getD "") today with
        | some actual =>
          if periodStart (row.periodKey?.getD "") < actual then some (id ++ "#" ++ actual)
          else some id
        | none => some id := by
  have hid' : ((row.field "id").bind Column.asStr).filter (fun s => s ≠ "") = some id := hid
  unfold overlayCounterId
  rw [bareField_eq_field hrow, bareField_eq_field hrow, bareField_eq_field hrow, hid']
  rfl

/-- The overlay agrees on a row that covers the day. -/
theorem overlayCounterId_of_exactMatch (hrow : row ∈ table.rows domain)
    (h : exactMatch row today = some spec) :
    overlayCounterId row today = some spec.counterId := by
  obtain ⟨hid, hcounter, hperiod, hcovers⟩ := exactMatch_eq_some h
  rw [overlayCounterId_eq hrow hid, hperiod, hcounter]
  simp [hcovers]

/-- A quota of a domain with a current row is that row's. -/
theorem exactMatch_of_activeQuota (hcurrent : HasCurrentRow (table.rows domain) today)
    (h : activeQuota table.rows domain today = some spec) :
    ∃ row ∈ table.rows domain, exactMatch row today = some spec := by
  obtain ⟨row, hrow, spec', hmatch, hpick⟩ := pickActive_of_hasCurrentRow hcurrent
  unfold activeQuota at h
  rw [hpick] at h
  cases h
  exact ⟨row, hrow, hmatch⟩

theorem rowId_of_activeQuota (h : activeQuota table.rows domain today = some spec) :
    ∃ domain', ∃ row ∈ table.rows domain', row.rowId = some spec.id := by
  have hpicked {domain' : String} {spec' : QuotaSpec}
      (hpick : pickActive (table.rows domain') today = some spec') :
      ∃ row ∈ table.rows domain', row.rowId = some spec'.id := by
    rcases pickActive_cases hpick with ⟨row, hrow, hmatch⟩ | ⟨_, row, hrow, inicio, hrenewed⟩
    · exact ⟨row, hrow, (exactMatch_eq_some hmatch).1⟩
    · exact ⟨row, hrow, (renewed_eq_some hrenewed).1⟩
  unfold activeQuota at h
  split at h
  · rename_i spec' hpick
    cases h
    exact ⟨domain, hpicked hpick⟩
  · split_ifs at h
    obtain ⟨plantilla, hpick, rfl⟩ := Option.map_eq_some_iff.mp h
    obtain ⟨row, hrow, hid⟩ := hpicked hpick
    exact ⟨defaultQuotaDomain, row, hrow, hid⟩

/-- All paths address the counter of a quota exactly when its domain has a current row. -/
theorem agrees_iff (h : activeQuota table.rows domain today = some spec) :
    table.Agrees today spec ↔ HasCurrentRow (table.rows domain) today := by
  constructor
  · intro hagrees
    obtain ⟨domain', row, hrow, hid⟩ := rowId_of_activeQuota h
    have hreserve := hagrees .reserve ⟨"", "", 0, 0⟩ domain' row hrow hid
    exact (counterId_eq_id_iff h).mp (Option.some.inj hreserve).symm
  · intro hcurrent path data domain' row hrow hid
    have hcounter := (counterId_eq_id_iff h).mpr hcurrent
    cases path with
    | overlay =>
      obtain ⟨row', hrow', hmatch⟩ := exactMatch_of_activeQuota hcurrent h
      have hsame := table.oneRow _ _ row hrow row' hrow' spec.id hid (exactMatch_eq_some hmatch).1
      exact overlayCounterId_of_exactMatch hrow (hsame ▸ hmatch)
    | writeCount => rfl
    | composite => rfl
    | reserve => exact congrArg some hcounter.symm
    | reconcile => exact congrArg some hcounter.symm
    | sweep => exact congrArg some hcounter.symm

/-- Where both domains have a current row, no default plan is used and a row has one cycle. -/
theorem separate_of_hasCurrentRow {s t : Selection Date}
    (hs : activeQuota table.rows s.domain s.today = some s.spec)
    (ht : activeQuota table.rows t.domain t.today = some t.spec)
    (hcurrent : HasCurrentRow (table.rows s.domain) s.today)
    (hcurrent' : HasCurrentRow (table.rows t.domain) t.today) : table.Separate s t := by
  intro hid hdifferent
  rcases hdifferent with ⟨hdefault, _, _⟩ | hcycles
  · obtain ⟨row, _, spec, _, hpick⟩ := pickActive_of_hasCurrentRow hcurrent
    have hnone : pickActive (table.rows s.domain) s.today = none := hdefault
    rw [hpick] at hnone
    cases hnone
  · obtain ⟨row, hrow, hmatch⟩ := exactMatch_of_activeQuota hcurrent hs
    obtain ⟨row', hrow', hmatch'⟩ := exactMatch_of_activeQuota hcurrent' ht
    obtain ⟨hrowId, _, hperiod, _⟩ := exactMatch_eq_some hmatch
    obtain ⟨hrowId', _, hperiod', _⟩ := exactMatch_eq_some hmatch'
    have hsame := table.oneRow _ _ row hrow row' hrow' s.spec.id hrowId (hid ▸ hrowId')
    rw [hsame, hperiod'] at hperiod
    exact absurd (Option.some.inj hperiod).symm hcycles

/-- For any two selections: all paths address the counter of their quota, and counters
are kept apart, exactly when both domains have a row of their own that covers the day. -/
theorem counters_agree_iff (table : QuotaTable) (s t : Selection Date)
    (hs : activeQuota table.rows s.domain s.today = some s.spec)
    (ht : activeQuota table.rows t.domain t.today = some t.spec) :
    table.Agrees s.today s.spec ∧ table.Agrees t.today t.spec ∧ table.Separate s t ↔
      HasCurrentRow (table.rows s.domain) s.today ∧
        HasCurrentRow (table.rows t.domain) t.today := by
  rw [agrees_iff hs, agrees_iff ht]
  constructor
  · rintro ⟨hcurrent, hcurrent', _⟩
    exact ⟨hcurrent, hcurrent'⟩
  · rintro ⟨hcurrent, hcurrent'⟩
    exact ⟨hcurrent, hcurrent', separate_of_hasCurrentRow hs ht hcurrent hcurrent'⟩

end QuotaTable

/-! ### A calendar -/

structure CivilDate where
  year : ℕ
  month : ℕ
  day : ℕ
deriving DecidableEq

namespace CivilDate

def daysIn (year month : ℕ) : ℕ :=
  if month = 2 then if year % 4 = 0 ∧ (year % 100 ≠ 0 ∨ year % 400 = 0) then 29 else 28
  else if month = 4 ∨ month = 6 ∨ month = 9 ∨ month = 11 then 30
  else 31

def ofYmd (year month day : ℕ) : Option CivilDate :=
  if year ≤ 9999 ∧ 1 ≤ month ∧ month ≤ 12 ∧ 1 ≤ day ∧ day ≤ daysIn year month then
    some ⟨year, month, day⟩
  else none

def padded (width n : ℕ) : String :=
  String.ofList (List.leftpad width '0' (Nat.repr n).toList)

def parse (s : String) : Option CivilDate :=
  match (Text.split s '-').map fun part => parseNat part.toList with
  | [some year, some month, some day] => ofYmd year month day
  | _ => none

instance : LinearOrder CivilDate :=
  LinearOrder.lift' (fun d => toLex (d.year, toLex (d.month, d.day))) (by
    intro a b h
    cases a
    cases b
    cases h
    rfl)

instance : Chrono CivilDate where
  year d := d.year
  month d := d.month
  fromYmdOpt year month day := if 0 ≤ year then ofYmd year.toNat month day else none
  succOpt d :=
    if d.day < daysIn d.year d.month then ofYmd d.year d.month (d.day + 1)
    else if d.month < 12 then ofYmd d.year (d.month + 1) 1
    else ofYmd (d.year + 1) 1 1
  format d := padded 4 d.year ++ "-" ++ padded 2 d.month ++ "-" ++ padded 2 d.day
  parse := parse

end CivilDate

/-- A monthly row for the tokens of one model. -/
def julyRow : QuotaRow :=
  [("id", .text "q"), ("period_key", .text "2026-07-01_2026-08-01"),
    ("reset_strategy", .text "MONTHLY"), ("max_limit", .integer 10)]

def julyTable : QuotaTable where
  rows domain := if domain = "model" then [julyRow] else []
  oneName domain row hrow name := by
    split_ifs at hrow
    · left
      rw [List.mem_singleton.mp hrow]
      apply List.lookup_eq_none_iff.mpr
      intro column hcolumn
      have hbare : '/' ∉ column.1.toList := by
        revert column
        decide
      apply bne_iff_ne.mpr
      intro heq
      rw [← heq] at hbare
      simp [QuotaRow.qualified] at hbare
    · cases hrow
  oneRow domain domain' row hrow row' hrow' id _ _ := by
    split_ifs at hrow hrow'
    · rw [List.mem_singleton.mp hrow, List.mem_singleton.mp hrow']
    · cases hrow'
    · cases hrow
    · cases hrow

def julySelection : QuotaTable.Selection CivilDate where
  domain := "model"
  today := ⟨2026, 7, 15⟩
  spec := ⟨"q", "q", 10, 0, "2026-07-01_2026-08-01"⟩

/-- In July every path addresses the row's own counter. -/
theorem july_counters_agree :
    julyTable.Agrees julySelection.today julySelection.spec ∧
      julyTable.Agrees julySelection.today julySelection.spec ∧
      julyTable.Separate julySelection julySelection :=
  (QuotaTable.counters_agree_iff julyTable julySelection julySelection (by decide +kernel)
    (by decide +kernel)).mpr ⟨by decide +kernel, by decide +kernel⟩

/-- In August the row is renewed: writes would count against `q#2026-08-01_2026-09-01`,
a reservation is debited against `q`. -/
theorem august_reservation_misses_the_counter :
    ¬ ∀ (table : QuotaTable) (domain : String) (today : CivilDate) (spec : QuotaSpec),
      activeQuota table.rows domain today = some spec → table.Agrees today spec := by
  intro h
  have hagrees := h julyTable "model" ⟨2026, 8, 15⟩
    ⟨"q", "q#2026-08-01_2026-09-01", 10, 0, "2026-08-01_2026-09-01"⟩ (by decide +kernel)
  have hreserve := hagrees .reserve ⟨"", "", 0, 0⟩ "model" _ List.mem_cons_self (by decide +kernel)
  exact absurd hreserve (by decide +kernel)

end MetriEngine.Quota

import MetriEngine.Foundation.Text

/-!
# Which quota governs an operation

The rows of `domain_quota` for a domain, the one whose period covers the day, the
renewal of a row whose cycle has ended, and the default plan of the tenant. A quota
names the row it comes from and the counter it is debited against.

Dates are chrono's: a parameter with the operations that the resolver calls.
-/
namespace MetriEngine.Quota
open Foundation

class Chrono (Date : Type) extends LinearOrder Date where
  year : Date → ℤ
  month : Date → ℕ
  fromYmdOpt : ℤ → ℕ → ℕ → Option Date
  succOpt : Date → Option Date
  /-- Formatting and parsing with `%Y-%m-%d`. -/
  format : Date → String
  parse : String → Option Date

/-- A JSON value of a row, as far as a column is read. -/
inductive Column
  | text (s : String)
  | integer (n : ℤ)
  | other
deriving DecidableEq

def Column.asStr : Column → Option String
  | text s => some s
  | _ => none

def Column.asI64 : Column → Option ℤ
  | integer n => if -2 ^ 63 ≤ n ∧ n < 2 ^ 63 then some n else none
  | _ => none

/-- A row as Aegis returns it: its columns, qualified or bare. -/
abbrev QuotaRow := List (String × Column)

namespace QuotaRow

def get (row : QuotaRow) (name : String) : Option Column := row.lookup name

def qualified (name : String) : String := "domain_quota/" ++ name

def field (row : QuotaRow) (name : String) : Option Column :=
  (row.get (qualified name)).or (row.get name)

/-- The id of a row; without one there is no counter. -/
def rowId (row : QuotaRow) : Option String :=
  ((row.field "id").bind Column.asStr).filter fun s => s ≠ ""

def periodKey? (row : QuotaRow) : Option String := (row.field "period_key").bind Column.asStr

def integer (row : QuotaRow) (name : String) : ℤ := ((row.field name).bind Column.asI64).getD 0

end QuotaRow

@[ext] structure QuotaSpec where
  id : String
  counterId : String
  maxLimit : ℤ
  seedUsage : ℤ
  periodKey : String
deriving DecidableEq

def defaultQuotaDomain : String := "*"

/-- `str::to_uppercase`, as far as ASCII letters come out of it: the dotless i is the
one other character that turns into a letter of a strategy's name. -/
def toUppercase (s : String) : String :=
  String.ofList (s.toList.map fun c => if c = 'ı' then 'I' else c.toUpper)

section Periods
variable {Date : Type} [Chrono Date]
open Chrono

/-- The `period_key` of the cycle that runs on a day. -/
def renewedPeriod (resetStrategy : String) (today : Date) : Option String := do
  let (inicio, fin) ← match toUppercase resetStrategy with
    | "DAILY" => do
      let fin ← succOpt today
      pure (today, fin)
    | "MONTHLY" => do
      let inicio ← fromYmdOpt (year today) (month today) 1
      let fin ← if month today = 12 then fromYmdOpt (year today + 1) 1 1
        else fromYmdOpt (year today) (month today + 1) 1
      pure (inicio, fin)
    | "YEARLY" => do
      let inicio : Date ← fromYmdOpt (year today) 1 1
      let fin ← fromYmdOpt (year today + 1) 1 1
      pure (inicio, fin)
    | _ => none
  pure (format inicio ++ "_" ++ format fin)

def covers (periodKey : String) (today : Date) : Bool :=
  if periodKey = "LIFETIME" then true
  else
    match Text.splitOnce "_" periodKey with
    | none => false
    | some (start, fin) =>
      match (parse start : Option Date), (parse fin : Option Date) with
      | some start, some fin => decide (start ≤ today ∧ today < fin)
      | _, _ => false

/-- The first part of a period key. -/
def periodStart (periodKey : String) : String := (Text.split periodKey '_').headD ""

/-- The row as it is, if its period covers the day. -/
def exactMatch (row : QuotaRow) (today : Date) : Option QuotaSpec := do
  let periodKey ← row.periodKey?
  if covers periodKey today then
    let id ← row.rowId
    pure {
      id
      counterId := id
      maxLimit := row.integer "max_limit"
      seedUsage := row.integer "current_usage"
      periodKey }
  else none

/-- The running cycle of a row that renews, with the start of the row's own period. -/
def renewed (row : QuotaRow) (today : Date) : Option (String × QuotaSpec) := do
  let periodKey ← row.periodKey?
  let estrategia := ((row.field "reset_strategy").bind Column.asStr).getD ""
  let actual ← renewedPeriod estrategia today
  let inicio := periodStart periodKey
  if inicio ≥ actual then none
  else
    let id ← row.rowId
    pure (inicio, {
      id
      counterId := id ++ "#" ++ actual
      maxLimit := row.integer "max_limit"
      seedUsage := 0
      periodKey := actual })

/-- Keeps the candidate that starts latest, the first of equals. -/
def latest (mejor : Option (String × QuotaSpec)) (candidate : String × QuotaSpec) :
    Option (String × QuotaSpec) :=
  match mejor with
  | some prev => if candidate.1 > prev.1 then some candidate else some prev
  | none => some candidate

def renewLatest (rows : List QuotaRow) (today : Date) : Option QuotaSpec :=
  ((rows.filterMap fun row => renewed row today).foldl latest none).map Prod.snd

def pickActive (rows : List QuotaRow) (today : Date) : Option QuotaSpec :=
  match rows.findSome? fun row => exactMatch row today with
  | some vigente => some vigente
  | none => renewLatest rows today

/-- The default plan of the tenant, for one domain. -/
def deriveForDomain (plantilla : QuotaSpec) (resourceDomain : String) : QuotaSpec :=
  { plantilla with counterId := plantilla.counterId ++ "#" ++ resourceDomain, seedUsage := 0 }

/-- `active_quota` on the rows that the query finds for each domain. -/
def activeQuota (rows : String → List QuotaRow) (resourceDomain : String) (today : Date) :
    Option QuotaSpec :=
  match pickActive (rows resourceDomain) today with
  | some spec => some spec
  | none =>
    if resourceDomain ≠ defaultQuotaDomain then
      (pickActive (rows defaultQuotaDomain) today).map fun plantilla =>
        deriveForDomain plantilla resourceDomain
    else none

/-! ### Where a quota comes from -/

section Origin
variable {row : QuotaRow} {rows : List QuotaRow} {today : Date} {spec : QuotaSpec}

theorem exactMatch_eq_some (h : exactMatch row today = some spec) :
    row.rowId = some spec.id ∧ spec.counterId = spec.id ∧
      row.periodKey? = some spec.periodKey ∧ covers spec.periodKey today = true := by
  obtain ⟨periodKey, hperiod, h⟩ := Option.bind_eq_some_iff.mp h
  split_ifs at h with hcovers
  obtain ⟨id, hid, h⟩ := Option.bind_eq_some_iff.mp h
  cases h
  exact ⟨hid, rfl, hperiod, hcovers⟩

theorem renewed_eq_some {inicio : String} (h : renewed row today = some (inicio, spec)) :
    row.rowId = some spec.id ∧ spec.counterId = spec.id ++ "#" ++ spec.periodKey ∧
      ∃ periodKey, row.periodKey? = some periodKey ∧ periodStart periodKey < spec.periodKey ∧
        renewedPeriod (((row.field "reset_strategy").bind Column.asStr).getD "") today =
          some spec.periodKey := by
  obtain ⟨periodKey, hperiod, h⟩ := Option.bind_eq_some_iff.mp h
  obtain ⟨actual, hactual, h⟩ := Option.bind_eq_some_iff.mp h
  dsimp only at h
  split_ifs at h with hstart
  obtain ⟨id, hid, h⟩ := Option.bind_eq_some_iff.mp h
  cases h
  exact ⟨hid, rfl, periodKey, hperiod, not_le.mp hstart, hactual⟩

theorem foldl_latest_mem (candidates : List (String × QuotaSpec))
    (mejor : Option (String × QuotaSpec)) {c : String × QuotaSpec}
    (h : candidates.foldl latest mejor = some c) : mejor = some c ∨ c ∈ candidates := by
  induction candidates generalizing mejor with
  | nil => exact Or.inl h
  | cons d candidates ih =>
    rw [List.foldl_cons] at h
    rcases ih _ h with hd | hmem
    · unfold latest at hd
      split at hd
      · split_ifs at hd with hlater
        · cases hd
          exact Or.inr List.mem_cons_self
        · exact Or.inl hd
      · cases hd
        exact Or.inr List.mem_cons_self
    · exact Or.inr (List.mem_cons_of_mem d hmem)

/-- A quota is a row whose period covers the day or, where there is none, a renewed row. -/
theorem pickActive_cases (h : pickActive rows today = some spec) :
    (∃ row ∈ rows, exactMatch row today = some spec) ∨
      (∀ row ∈ rows, exactMatch row today = none) ∧
        ∃ row ∈ rows, ∃ inicio, renewed row today = some (inicio, spec) := by
  unfold pickActive at h
  split at h
  · rename_i vigente hfound
    cases h
    exact Or.inl (List.exists_of_findSome?_eq_some hfound)
  · rename_i hnone
    right
    refine ⟨List.findSome?_eq_none_iff.mp hnone, ?_⟩
    obtain ⟨⟨inicio, found⟩, hfold, rfl⟩ := Option.map_eq_some_iff.mp h
    rcases foldl_latest_mem _ _ hfold with hnil | hmem
    · cases hnil
    · obtain ⟨row, hrow, hrenewed⟩ := List.mem_filterMap.mp hmem
      exact ⟨row, hrow, inicio, hrenewed⟩

/-- The rows hold one whose period covers the day. -/
def HasCurrentRow (rows : List QuotaRow) (today : Date) : Prop :=
  ∃ row ∈ rows, (exactMatch row today).isSome = true

instance (rows : List QuotaRow) (today : Date) : Decidable (HasCurrentRow rows today) :=
  inferInstanceAs (Decidable (∃ row ∈ rows, _))

theorem pickActive_of_hasCurrentRow (h : HasCurrentRow rows today) :
    ∃ row ∈ rows, ∃ spec, exactMatch row today = some spec ∧
      pickActive rows today = some spec := by
  cases hfound : rows.findSome? fun row => exactMatch row today with
  | none =>
    obtain ⟨row, hrow, hsome⟩ := h
    rw [List.findSome?_eq_none_iff.mp hfound row hrow] at hsome
    cases hsome
  | some spec =>
    obtain ⟨row, hrow, hmatch⟩ := List.exists_of_findSome?_eq_some hfound
    exact ⟨row, hrow, spec, hmatch, by simp only [pickActive, hfound]⟩

theorem length_append_hash (a b : String) : a.length < (a ++ "#" ++ b).length := by
  have hone : "#".length = 1 := rfl
  simp [hone]
  omega

/-- The counter of a quota is its row's id exactly when a row of the domain itself
covers the day. -/
theorem counterId_eq_id_iff {table : String → List QuotaRow} {domain : String}
    (h : activeQuota table domain today = some spec) :
    spec.counterId = spec.id ↔ HasCurrentRow (table domain) today := by
  constructor
  · intro hid
    have hsuffix (a b : String) : a ++ "#" ++ b ≠ a := fun heq =>
      absurd (congrArg String.length heq) (length_append_hash a b).ne'
    unfold activeQuota at h
    split at h
    · rename_i spec' hpick
      cases h
      rcases pickActive_cases hpick with ⟨row, hrow, hmatch⟩ | ⟨_, row, _, inicio, hrenewed⟩
      · exact ⟨row, hrow, by rw [hmatch]; rfl⟩
      · obtain ⟨_, hcounter, _⟩ := renewed_eq_some hrenewed
        exact absurd (hcounter.symm.trans hid) (hsuffix _ _)
    · split_ifs at h with hdomain
      obtain ⟨plantilla, hpick, rfl⟩ := Option.map_eq_some_iff.mp h
      have hderived : plantilla.counterId ++ "#" ++ domain = plantilla.id := hid
      rcases pickActive_cases hpick with ⟨row, _, hmatch⟩ | ⟨_, row, _, inicio, hrenewed⟩
      · rw [(exactMatch_eq_some hmatch).2.1] at hderived
        exact absurd hderived (hsuffix _ _)
      · rw [(renewed_eq_some hrenewed).2.1] at hderived
        have hlen := congrArg String.length hderived
        have hone := length_append_hash plantilla.id plantilla.periodKey
        have htwo := length_append_hash (plantilla.id ++ "#" ++ plantilla.periodKey) domain
        omega
  · intro hcurrent
    obtain ⟨row, _, spec', hmatch, hpick⟩ := pickActive_of_hasCurrentRow hcurrent
    unfold activeQuota at h
    rw [hpick] at h
    cases h
    exact (exactMatch_eq_some hmatch).2.1

end Origin
end Periods
end MetriEngine.Quota

import MetriEngine.Storage.Operation

/-!
# The quota counter and its ceiling

`QuotaLedger` over the quota sections of a partition store. A debit is decided on the
counter alone, the amount is added afterwards: the ceiling holds along a run of debits
exactly when every debit that finds the counter below the ceiling fits under it.
-/
namespace MetriEngine.Quota
open Foundation Storage

inductive DebitOutcome
  | debited (newUsage : ℤ)
  | exhausted (currentUsage limit : ℤ)
deriving DecidableEq

inductive SettleOutcome
  | applied
  | alreadyApplied
deriving DecidableEq

def DebitOutcome.isDebited : DebitOutcome → Bool
  | debited _ => true
  | exhausted _ _ => false

/-- `try_debit` of the ledger, as one section of the store. -/
def tryDebit (st : MbfPartitionStore) (tenantId quotaId : String) (amount maxLimit seed : ℤ) :
    MbfPartitionStore × DebitOutcome :=
  match st.quotaTryDebit tenantId quotaId amount maxLimit seed with
  | (some st', usage) => (st', .debited usage)
  | (none, usage) => (st, .exhausted usage maxLimit)

/-- `settle_once` of the ledger, as one section of the store. -/
def settleOnce (st : MbfPartitionStore) (tenantId quotaId : String) (delta : ℤ)
    (idemKey : String) : MbfPartitionStore × SettleOutcome :=
  match st.quotaSettleOnce tenantId quotaId delta idemKey with
  | some st' => (st', .applied)
  | none => (st, .alreadyApplied)

/-- What a debit needs to know of its quota row. -/
structure Ceiling where
  tenantId : String
  quotaId : String
  maxLimit : ℤ
  seed : ℤ

namespace Ceiling

/-- The counter as `quota_try_debit` reads it: the row's seed until it exists. -/
def current (row : Ceiling) (st : MbfPartitionStore) : ℤ :=
  (st.quotaCounters.lookup (toLex (row.tenantId, row.quotaId))).getD row.seed

def tryDebit (row : Ceiling) (st : MbfPartitionStore) (amount : ℤ) :
    MbfPartitionStore × DebitOutcome :=
  Quota.tryDebit st row.tenantId row.quotaId amount row.maxLimit row.seed

variable {row : Ceiling} {st : MbfPartitionStore} {amount : ℤ}

/-- A debit either finds the ceiling reached and changes nothing, or adds its amount. -/
theorem tryDebit_cases (row : Ceiling) (st : MbfPartitionStore) (amount : ℤ) :
    row.maxLimit ≤ row.current st ∧
        row.tryDebit st amount = (st, .exhausted (row.current st) row.maxLimit) ∨
      row.current st < row.maxLimit ∧ ∃ st',
        row.tryDebit st amount = (st', .debited (wrapI64 (row.current st + amount))) ∧
        row.current st' = wrapI64 (row.current st + amount) := by
  rcases le_or_gt row.maxLimit (row.current st) with hfull | hroom
  · left
    refine ⟨hfull, ?_⟩
    have hge : (st.quotaCounters.lookup (toLex (row.tenantId, row.quotaId))).getD row.seed ≥
        row.maxLimit := hfull
    simp only [Ceiling.tryDebit, Quota.tryDebit, MbfPartitionStore.quotaTryDebit, if_pos hge]
    rfl
  · right
    let next := wrapI64 (row.current st + amount)
    refine ⟨hroom, { st with quotaCounters :=
      st.quotaCounters.insert (toLex (row.tenantId, row.quotaId)) next }, ?_, ?_⟩
    · have hlt : ¬ (st.quotaCounters.lookup (toLex (row.tenantId, row.quotaId))).getD row.seed ≥
          row.maxLimit := not_le.mpr hroom
      simp only [Ceiling.tryDebit, Quota.tryDebit, MbfPartitionStore.quotaTryDebit, if_neg hlt]
      rfl
    · simp [Ceiling.current, next]

/-! ### Runs of debits -/

/-- One debit of a run: its amount, the counter just before it, its answer, and the
counter after it. -/
structure Debit where
  amount : ℤ
  before : ℤ
  outcome : DebitOutcome
  after : ℤ
deriving DecidableEq

/-- The debits of a run, one section after the other. -/
def debits (row : Ceiling) : MbfPartitionStore → List ℤ → List Debit
  | _, [] => []
  | st, amount :: amounts =>
    let (st', outcome) := row.tryDebit st amount
    ⟨amount, row.current st, outcome, row.current st'⟩ :: row.debits st' amounts

/-- The counter stays under the ceiling, the addition is one of integers, and `debited`
is the answer exactly when the amount fits under the ceiling. -/
structure Debit.Respects (d : Debit) (maxLimit : ℤ) : Prop where
  ceiling : d.after ≤ maxLimit
  exact : d.outcome.isDebited = true → d.before + d.amount < 2 ^ 63
  allowed : d.outcome.isDebited = true ↔ d.before + d.amount ≤ maxLimit

/-- The ceiling is reached already, or the amount fits under it. -/
def Debit.Fits (d : Debit) (maxLimit : ℤ) : Prop :=
  d.before < maxLimit → d.before + d.amount ≤ maxLimit

instance (d : Debit) (maxLimit : ℤ) : Decidable (d.Fits maxLimit) :=
  inferInstanceAs (Decidable (_ → _))

/-- One debit of a counter in range: it respects the ceiling exactly when it fits, and a
debit that fits leaves the counter in range. -/
theorem tryDebit_respects_iff (hmax : row.maxLimit < 2 ^ 63) (hlow : 0 ≤ row.current st)
    (hhigh : row.current st ≤ row.maxLimit) (hamount : 1 ≤ amount) :
    let d : Debit := ⟨amount, row.current st, (row.tryDebit st amount).2,
      row.current (row.tryDebit st amount).1⟩
    (d.Respects row.maxLimit ↔ d.Fits row.maxLimit) ∧
      (d.Fits row.maxLimit → 0 ≤ d.after ∧ d.after ≤ row.maxLimit) := by
  intro d
  rcases tryDebit_cases row st amount with ⟨hfull, hdebit⟩ | ⟨hroom, st', hdebit, hafter⟩
  · have hd : d = ⟨amount, row.current st, .exhausted (row.current st) row.maxLimit,
        row.current st⟩ := by
      simp only [d, hdebit]
    have hfits : d.Fits row.maxLimit := by
      rw [hd]
      intro hlt
      exact absurd hfull (not_le.mpr hlt)
    refine ⟨⟨fun _ => hfits, fun _ => ⟨?_, ?_, ?_⟩⟩, fun _ => ?_⟩
    · rw [hd]
      exact hhigh
    · rw [hd]
      intro h
      cases h
    · rw [hd]
      constructor
      · intro h
        cases h
      · intro h
        dsimp only at h
        omega
    · rw [hd]
      exact ⟨hlow, hhigh⟩
  · have hd : d = ⟨amount, row.current st, .debited (wrapI64 (row.current st + amount)),
        wrapI64 (row.current st + amount)⟩ := by
      simp only [d, hdebit, hafter]
    have hsum (hfits : d.Fits row.maxLimit) : row.current st + amount ≤ row.maxLimit ∧
        wrapI64 (row.current st + amount) = row.current st + amount := by
      rw [hd] at hfits
      have hle := hfits hroom
      dsimp only at hle
      exact ⟨hle, wrapI64_of_bounds (by omega) (by omega)⟩
    refine ⟨⟨?_, fun hfits => ⟨?_, ?_, ?_⟩⟩, fun hfits => ?_⟩
    · intro hrespects _
      apply hrespects.allowed.mp
      rw [hd]
      rfl
    · obtain ⟨hle, hwrap⟩ := hsum hfits
      rw [hd]
      dsimp only
      omega
    · intro _
      obtain ⟨hle, _⟩ := hsum hfits
      rw [hd]
      dsimp only
      omega
    · obtain ⟨hle, _⟩ := hsum hfits
      rw [hd]
      exact ⟨fun _ => hle, fun _ => rfl⟩
    · obtain ⟨hle, hwrap⟩ := hsum hfits
      rw [hd]
      dsimp only
      omega

/-- A run of debits respects the ceiling exactly when each of them finds it reached or
fits under it. -/
theorem debits_respect_iff (row : Ceiling) (st : MbfPartitionStore) (amounts : List ℤ)
    (hmax : row.maxLimit < 2 ^ 63) (hlow : 0 ≤ row.current st)
    (hhigh : row.current st ≤ row.maxLimit)
    (hamounts : ∀ amount ∈ amounts, 1 ≤ amount ∧ amount < 2 ^ 63) :
    (∀ d ∈ row.debits st amounts, d.Respects row.maxLimit) ↔
      ∀ d ∈ row.debits st amounts, d.Fits row.maxLimit := by
  induction amounts generalizing st with
  | nil => simp [debits]
  | cons amount amounts ih =>
    obtain ⟨hhead, htail⟩ := List.forall_mem_cons.mp hamounts
    obtain ⟨hone, hrange⟩ := tryDebit_respects_iff hmax hlow hhigh hhead.1
    rw [debits, List.forall_mem_cons, List.forall_mem_cons]
    constructor
    · rintro ⟨hd, hds⟩
      have hfits := hone.mp hd
      obtain ⟨hlow', hhigh'⟩ := hrange hfits
      exact ⟨hfits, (ih _ hlow' hhigh' htail).mp hds⟩
    · rintro ⟨hfits, hds⟩
      obtain ⟨hlow', hhigh'⟩ := hrange hfits
      exact ⟨hone.mpr hfits, (ih _ hlow' hhigh' htail).mpr hds⟩

/-- Three debits of which the last finds the ceiling reached. -/
theorem fitting_debits : (debits ⟨"t", "q", 10, 3⟩ {} [4, 3, 8]).length = 3 ∧
    ∀ d ∈ debits ⟨"t", "q", 10, 3⟩ {} [4, 3, 8], d.Respects 10 :=
  ⟨by decide +kernel, (debits_respect_iff ⟨"t", "q", 10, 3⟩ {} [4, 3, 8] (by decide)
    (by decide +kernel) (by decide +kernel) (by decide)).mpr (by decide +kernel)⟩

/-- A counter at 9 of 10 takes five units, and one at 1 of 2 as many as there are. -/
theorem oversized_debit_passes_the_ceiling :
    ¬ (∀ (row : Ceiling) (st : MbfPartitionStore) (amounts : List ℤ),
      0 ≤ row.maxLimit → row.maxLimit < 2 ^ 63 → 0 ≤ row.current st →
      row.current st ≤ row.maxLimit → (∀ amount ∈ amounts, 1 ≤ amount ∧ amount < 2 ^ 63) →
      ∀ d ∈ row.debits st amounts, d.Respects row.maxLimit) := by
  intro h
  have hd := h ⟨"t", "q", 10, 9⟩ {} [5] (by decide) (by decide) (by decide +kernel)
    (by decide +kernel) (by decide) ⟨5, 9, .debited 14, 14⟩ (by decide +kernel)
  exact absurd hd.ceiling (by decide)

end Ceiling
end MetriEngine.Quota

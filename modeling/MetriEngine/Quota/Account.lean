import Mathlib

/-!
# The account of one reservation

What may have moved the counter for a reservation of an estimate `e` with an actual
consumption `a`: its debit, then at most one closing entry, then at most one late
charge. The entries of an account sum to what the reservation costs.
-/
namespace MetriEngine.Quota

inductive EntryKind
  | debit
  | rollback
  | reconciled
  | refunded
  | late
deriving DecidableEq

namespace EntryKind

/-- The entries made under the settlement key. -/
def isFinal : EntryKind → Bool
  | rollback => true
  | reconciled => true
  | refunded => true
  | _ => false

/-- The closing entries that give the estimate back. -/
def isReturn : EntryKind → Bool
  | rollback => true
  | refunded => true
  | _ => false

/-- The entries that charge for consumption. -/
def isCharge : EntryKind → Bool
  | reconciled => true
  | late => true
  | _ => false

@[simp] theorem isFinal_debit : isFinal debit = false := rfl
@[simp] theorem isFinal_reconciled : isFinal reconciled = true := rfl
@[simp] theorem isFinal_late : isFinal late = false := rfl
@[simp] theorem isCharge_debit : isCharge debit = false := rfl
@[simp] theorem isCharge_reconciled : isCharge reconciled = true := rfl
@[simp] theorem isCharge_late : isCharge late = true := rfl

end EntryKind

/-- The entries of one reservation, in order. -/
abbrev History := List (EntryKind × ℤ)

namespace History

def hasDebit (h : History) : Prop := .debit ∈ h.map Prod.fst

def final (h : History) : Option ℤ := (h.find? fun e => e.1.isFinal).map Prod.snd

def late (h : History) : Option ℤ := (h.find? fun e => e.1 = .late).map Prod.snd

def net (h : History) : ℤ := (h.map Prod.snd).sum

end History

/-- The histories of a reservation that is settled at most once. -/
inductive Accounted (e a : ℤ) : History → Prop
  | untouched : Accounted e a []
  | debited : Accounted e a [(.debit, e)]
  | returned {k : EntryKind} (hk : k.isReturn = true) : Accounted e a [(.debit, e), (k, -e)]
  | settled (ha : 0 ≤ a) : Accounted e a [(.debit, e), (.reconciled, a - e)]
  | undebited (ha : 0 ≤ a) : Accounted e a [(.reconciled, a)]
  | late {k : EntryKind} (hk : k.isReturn = true) (ha : 0 < a) :
      Accounted e a [(.debit, e), (k, -e), (.late, a)]

namespace Accounted
variable {e a : ℤ} {h : History} {k : EntryKind}

theorem isFinal_of_isReturn (hk : k.isReturn = true) : k.isFinal = true := by
  cases k with
  | rollback => rfl
  | refunded => rfl
  | _ => cases hk

theorem ne_late_of_isReturn (hk : k.isReturn = true) : k ≠ .late := by
  rintro rfl
  cases hk

theorem ne_debit_of_isReturn (hk : k.isReturn = true) : k ≠ .debit := by
  rintro rfl
  cases hk

theorem isCharge_of_isReturn (hk : k.isReturn = true) : k.isCharge = false := by
  cases k with
  | rollback => rfl
  | refunded => rfl
  | _ => cases hk

/-! ### What the next entry may be -/

theorem eq_debited (hacc : Accounted e a h) (hdebit : h.hasDebit) (hfinal : h.final = none) :
    h = [(.debit, e)] := by
  cases hacc with
  | untouched => cases hdebit
  | debited => rfl
  | returned hk => simp [History.final, isFinal_of_isReturn hk] at hfinal
  | settled ha => simp [History.final] at hfinal
  | undebited ha => simp [History.final] at hfinal
  | late hk ha => simp [History.final, isFinal_of_isReturn hk] at hfinal

theorem eq_untouched (hacc : Accounted e a h) (hdebit : ¬ h.hasDebit) (hfinal : h.final = none) :
    h = [] := by
  cases hacc with
  | untouched => rfl
  | debited => simp [History.hasDebit] at hdebit
  | returned hk => simp [History.hasDebit] at hdebit
  | settled ha => simp [History.hasDebit] at hdebit
  | undebited ha => simp [History.final] at hfinal
  | late hk ha => simp [History.hasDebit] at hdebit

/-- A debit that was given back and not charged since. -/
theorem eq_returned (hacc : Accounted e a h) (he : 0 < e) (ha : 0 < a)
    (hfinal : h.final = some (-e)) (hlate : h.late = none) :
    ∃ k : EntryKind, k.isReturn = true ∧ h = [(.debit, e), (k, -e)] := by
  cases hacc with
  | untouched => cases hfinal
  | debited => simp [History.final] at hfinal
  | returned hk => exact ⟨_, hk, rfl⟩
  | settled ha' =>
    simp [History.final] at hfinal
    omega
  | undebited ha' =>
    simp [History.final] at hfinal
    omega
  | late hk ha' => simp [History.late, ne_late_of_isReturn hk] at hlate

/-! ### What an account comes to -/

/-- The reservation was settled and costs its consumption. -/
def Charged (a : ℤ) (h : History) : Prop := h.final.isSome = true ∧ h.net = a

theorem charged_of_late (hacc : Accounted e a h) (hlate : h.late.isSome = true) :
    Charged a h := by
  cases hacc with
  | untouched => cases hlate
  | debited => cases hlate
  | returned hk => simp [History.late, ne_late_of_isReturn hk] at hlate
  | settled ha => simp [History.late] at hlate
  | undebited ha => simp [History.late] at hlate
  | late hk ha =>
    exact ⟨by simp [History.final, isFinal_of_isReturn hk],
      by simp [History.net]⟩

theorem charged_of_debited_final (hacc : Accounted e a h) (hdebit : h.hasDebit)
    (hfinal : h.final = some (a - e)) : Charged a h := by
  refine ⟨by rw [hfinal]; rfl, ?_⟩
  cases hacc with
  | untouched => cases hdebit
  | debited => simp [History.final] at hfinal
  | returned hk =>
    simp [History.final, isFinal_of_isReturn hk] at hfinal
    simp [History.net]
    omega
  | settled ha => simp [History.net]
  | undebited ha => simp [History.hasDebit] at hdebit
  | late hk ha =>
    simp [History.final, isFinal_of_isReturn hk] at hfinal
    omega

theorem charged_of_undebited_final (hacc : Accounted e a h) (he : 0 < e) (ha : 0 ≤ a)
    (hfinal : h.final = some a) : Charged a h := by
  refine ⟨by rw [hfinal]; rfl, ?_⟩
  cases hacc with
  | untouched => cases hfinal
  | debited => simp [History.final] at hfinal
  | returned hk =>
    simp [History.final, isFinal_of_isReturn hk] at hfinal
    omega
  | settled ha' =>
    simp [History.final] at hfinal
    omega
  | undebited ha' => simp [History.net]
  | late hk ha' =>
    simp [History.final, isFinal_of_isReturn hk] at hfinal
    omega

/-- A closed account of a reservation that consumed nothing. -/
theorem charged_of_zero (hacc : Accounted e 0 h) (hdebit : h.hasDebit)
    (hfinal : h.final.isSome = true) : Charged 0 h := by
  refine ⟨hfinal, ?_⟩
  cases hacc with
  | untouched => cases hdebit
  | debited => simp [History.final] at hfinal
  | returned hk => simp [History.net]
  | settled ha => simp [History.net]
  | undebited ha => simp [History.hasDebit] at hdebit
  | late hk ha => exact absurd ha (lt_irrefl 0)

theorem net_nonneg (hacc : Accounted e a h) (he : 0 < e) : 0 ≤ h.net := by
  cases hacc with
  | untouched => simp [History.net]
  | debited =>
    simp [History.net]
    omega
  | returned hk => simp [History.net]
  | settled ha => simpa [History.net] using ha
  | undebited ha => simpa [History.net] using ha
  | late hk ha =>
    simp [History.net]
    omega

/-- A debit that was closed without any charge costs nothing. -/
theorem net_eq_zero (hacc : Accounted e a h) (hclosed : h.hasDebit → h.final.isSome = true)
    (hcharge : ∀ entry ∈ h, entry.1.isCharge = false) : h.net = 0 := by
  cases hacc with
  | untouched => rfl
  | debited =>
    have hdebit : History.hasDebit [(EntryKind.debit, e)] := by simp [History.hasDebit]
    have hfinal := hclosed hdebit
    simp [History.final] at hfinal
  | returned hk => simp [History.net]
  | settled ha => exact absurd (hcharge (.reconciled, a - e) (by simp)) (by simp)
  | undebited ha => exact absurd (hcharge (.reconciled, a) (by simp)) (by simp)
  | late hk ha => exact absurd (hcharge (.late, a) (by simp)) (by simp)

/-- At most one debit, one charge and one return; nothing is returned without a debit. -/
theorem once (hacc : Accounted e a h) (he : 0 < e) :
    h.countP (fun entry => entry.1 = .debit) ≤ 1 ∧
      h.countP (fun entry => entry.1.isCharge) ≤ 1 ∧
      h.countP (fun entry => entry.2 < 0) ≤ 1 ∧
      ((∃ entry ∈ h, entry.2 < 0) → h.hasDebit) := by
  have hpos : ¬ e < 0 := not_lt.mpr he.le
  cases hacc with
  | untouched => simp
  | debited => simp [History.hasDebit, hpos]
  | returned hk =>
    simp [History.hasDebit, isCharge_of_isReturn hk, ne_debit_of_isReturn hk, hpos, he]
  | settled ha =>
    refine ⟨by simp, by simp [List.countP_cons], ?_, ?_⟩
    · simp only [List.countP_cons, List.countP_nil, hpos]
      split <;> simp
    · intro _
      simp [History.hasDebit]
  | undebited ha => simp [List.countP_cons, not_lt.mpr ha]
  | late hk ha =>
    simp [History.hasDebit, List.countP_cons, isCharge_of_isReturn hk, ne_debit_of_isReturn hk,
      hpos, he, not_lt.mpr ha.le]

end Accounted
end MetriEngine.Quota

import Mathlib

/-!
# Guarded runs of a deterministic step function

A system is a partial step function on states; a schedule is a list of the
actions it takes. A guard restricts the runs that are looked at: a guarded run
takes an action only in a state that meets the guard.
-/
namespace MetriEngine.Foundation

universe u v
variable {σ : Type u} {α : Type v} {step : σ → α → Option σ} {guard : σ → α → Prop}

/-- One step whose guard holds in the state it leaves. -/
def Moves (step : σ → α → Option σ) (guard : σ → α → Prop) (s t : σ) : Prop :=
  ∃ a, guard s a ∧ step s a = some t

/-- The states that guarded steps reach from `s`. -/
abbrev Run (step : σ → α → Option σ) (guard : σ → α → Prop) : σ → σ → Prop :=
  Relation.ReflTransGen (Moves step guard)

/-- What holds at the start and survives each guarded step holds along the run. -/
theorem Run.invariant {I : σ → Prop}
    (hstep : ∀ s a t, I s → guard s a → step s a = some t → I t) {s t : σ}
    (hrun : Run step guard s t) (hs : I s) : I t := by
  induction hrun with
  | refl => exact hs
  | tail _ hmove ih =>
    obtain ⟨a, hg, ha⟩ := hmove
    exact hstep _ a _ ih hg ha

/-- Takes a schedule as long as its actions are enabled and meet the guard. -/
def exec (step : σ → α → Option σ) (guard : σ → α → Prop) [∀ s a, Decidable (guard s a)] :
    σ → List α → Option σ
  | s, [] => some s
  | s, a :: as => if guard s a then (step s a).bind fun t => exec step guard t as else none

theorem run_of_exec [∀ s a, Decidable (guard s a)] {s t : σ} {as : List α}
    (h : exec step guard s as = some t) : Run step guard s t := by
  induction as generalizing s with
  | nil =>
    cases h
    exact Relation.ReflTransGen.refl
  | cons a as ih =>
    rw [exec] at h
    split_ifs at h with hg
    obtain ⟨u, hu, ht⟩ := Option.bind_eq_some_iff.mp h
    exact Relation.ReflTransGen.head ⟨a, hg, hu⟩ (ih ht)

/-- A schedule that can be taken to a state with `p` is a run to such a state. -/
theorem exists_run_of_exec [∀ s a, Decidable (guard s a)] {s : σ} {as : List α} {p : σ → Bool}
    (h : (exec step guard s as).any p = true) : ∃ t, Run step guard s t ∧ p t = true := by
  cases ht : exec step guard s as with
  | none => simp [ht] at h
  | some t =>
    rw [ht] at h
    exact ⟨t, run_of_exec ht, h⟩

end MetriEngine.Foundation

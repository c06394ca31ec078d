import Mathlib

/-!
# Binary search

A search for the place where a predicate turns false halves a window over a list. In a list that
the predicate cuts in two it finds the cut; anywhere else it answers what its probes meet.
-/
namespace MetriEngine.Foundation

/-- The last place of the window from `base` that the probes leave; a probe that holds moves the
window up. -/
def bisect (holds : ℕ → Bool) : ℕ → ℕ → ℕ → ℕ
  | 0, base, _ => base
  | fuel + 1, base, size =>
    if size ≤ 1 then base
    else
      let half := size / 2
      bisect holds fuel (if holds (base + half) then base + half else base) (size - half)

/-- `partition_point` -/
def partitionPoint {α : Type*} (p : α → Bool) (l : List α) : ℕ :=
  let holds i := l[i]?.any p
  let base := bisect holds l.length 0 l.length
  if holds base then base + 1 else base

/-- The probes keep the cut within the window, or right behind it. -/
theorem bisect_spec {holds : ℕ → Bool} {cut : ℕ} (hcut : ∀ i, holds i = true ↔ i < cut)
    {fuel base size : ℕ} (hfuel : size ≤ fuel + 1) (hlow : base < cut ∨ base = 0)
    (hhigh : cut ≤ base + size) :
    (bisect holds fuel base size < cut ∨ bisect holds fuel base size = 0) ∧
      cut ≤ bisect holds fuel base size + 1 := by
  induction fuel generalizing base size with
  | zero => exact ⟨hlow, by rw [bisect]; omega⟩
  | succ fuel ih =>
    rw [bisect]
    split_ifs with hsize
    · exact ⟨hlow, by omega⟩
    · dsimp only
      by_cases hprobe : holds (base + size / 2) = true
      · rw [if_pos hprobe]
        apply ih
        · omega
        · exact .inl ((hcut _).mp hprobe)
        · omega
      · have hout : ¬ base + size / 2 < cut := fun h => hprobe ((hcut _).mpr h)
        rw [if_neg hprobe]
        apply ih
        · omega
        · exact hlow
        · omega

theorem partitionPoint_eq {α : Type*} {p : α → Bool} {l : List α} {cut : ℕ} (hlen : cut ≤ l.length)
    (hcut : ∀ i a, l[i]? = some a → (p a = true ↔ i < cut)) : partitionPoint p l = cut := by
  have hholds : ∀ i, l[i]?.any p = true ↔ i < cut := by
    intro i
    cases hi : l[i]? with
    | none =>
      have := List.getElem?_eq_none_iff.mp hi
      simp only [Option.any_none, Bool.false_eq_true, false_iff]
      omega
    | some a => exact hcut i a hi
  obtain ⟨hlow, hhigh⟩ := bisect_spec hholds (Nat.le_succ l.length) (.inr rfl)
    (show cut ≤ 0 + l.length by omega)
  rw [partitionPoint]
  simp only [hholds]
  split_ifs with hlt
  · omega
  · omega

/-- A predicate that holds everywhere. -/
theorem partitionPoint_of_all {α : Type*} {p : α → Bool} {l : List α} (h : ∀ a ∈ l, p a = true) :
    partitionPoint p l = l.length := by
  apply partitionPoint_eq le_rfl
  intro i a hi
  have hlt := (List.getElem?_eq_some_iff.mp hi).1
  simp [hlt, h a (List.mem_of_getElem? hi)]

/-- A list in order of its keys is cut in two by every bound. -/
theorem exists_cut {α β : Type*} [LinearOrder β] {key : α → β} {l : List α}
    (hsorted : l.Pairwise fun a b => key a ≤ key b) (bound : β) :
    ∃ cut ≤ l.length, ∀ i a, l[i]? = some a → (key a ≤ bound ↔ i < cut) := by
  induction l with
  | nil => exact ⟨0, le_rfl, by simp⟩
  | cons b l ih =>
    obtain ⟨hb, hsorted⟩ := List.pairwise_cons.mp hsorted
    by_cases hle : key b ≤ bound
    · obtain ⟨cut, hlen, hcut⟩ := ih hsorted
      refine ⟨cut + 1, by simpa using hlen, ?_⟩
      intro i a hi
      cases i with
      | zero =>
        cases hi
        exact ⟨fun _ => by omega, fun _ => hle⟩
      | succ i =>
        rw [hcut i a hi]
        omega
    · refine ⟨0, Nat.zero_le _, ?_⟩
      intro i a hi
      have hba : key b ≤ key a := by
        cases i with
        | zero =>
          cases hi
          exact le_rfl
        | succ i => exact hb a (List.mem_of_getElem? hi)
      exact ⟨fun h => absurd (hba.trans h) hle, fun h => absurd h (Nat.not_lt_zero i)⟩

end MetriEngine.Foundation

import Mathlib

/-!
# Truncating to a scale

A scale is a strictly increasing sequence of marks, without a first or a last one. A value is
truncated to the greatest mark that is not after it.
-/
namespace MetriEngine.Foundation

variable {α : Type*} [LinearOrder α]

/-- The greatest mark not after a value. -/
def IsTruncation (marks : ℤ → α) (t s : α) : Prop :=
  IsGreatest {m | m ∈ Set.range marks ∧ m ≤ t} s

variable {marks : ℤ → α} {t t' s s' : α}

theorem isTruncation_of_between (h : StrictMono marks) {i : ℤ} (hle : marks i ≤ t)
    (hlt : t < marks (i + 1)) : IsTruncation marks t (marks i) := by
  refine ⟨⟨⟨i, rfl⟩, hle⟩, ?_⟩
  rintro _ ⟨⟨j, rfl⟩, hj⟩
  have hbefore : j < i + 1 := h.lt_iff_lt.mp (hj.trans_lt hlt)
  exact h.monotone (Int.lt_add_one_iff.mp hbefore)

/-- A mark is a value's truncation where the value is before the next mark. -/
theorem isTruncation_mark_iff (h : StrictMono marks) {i : ℤ} :
    IsTruncation marks t (marks i) ↔ marks i ≤ t ∧ t < marks (i + 1) := by
  refine ⟨fun htrunc => ⟨htrunc.1.2, ?_⟩, fun ⟨hle, hlt⟩ => isTruncation_of_between h hle hlt⟩
  by_contra hnext
  have hgreatest := htrunc.2 ⟨⟨i + 1, rfl⟩, not_lt.mp hnext⟩
  exact absurd (h (lt_add_one i)) (not_lt.mpr hgreatest)

theorem IsTruncation.le (h : IsTruncation marks t s) : s ≤ t := h.1.2

theorem IsTruncation.mark_le (h : IsTruncation marks t s) {i : ℤ} (hi : marks i ≤ t) :
    marks i ≤ s := h.2 ⟨⟨i, rfl⟩, hi⟩

/-- A truncation is truncated already. -/
theorem IsTruncation.self (h : IsTruncation marks t s) : IsTruncation marks s s :=
  ⟨⟨h.1.1, le_rfl⟩, fun _ hm => hm.2⟩

theorem IsTruncation.mono (h : IsTruncation marks t s) (h' : IsTruncation marks t' s')
    (hle : t ≤ t') : s ≤ s' :=
  h'.2 ⟨h.1.1, h.1.2.trans hle⟩

/-- Values with no mark between them have one truncation. -/
theorem IsTruncation.eq_of_no_mark (h : IsTruncation marks t s) (h' : IsTruncation marks t' s')
    (hle : t ≤ t') (hnone : ∀ i, marks i ≤ t' → marks i ≤ t) : s = s' := by
  obtain ⟨⟨i, rfl⟩, hi⟩ := h'.1
  exact le_antisymm (h.mono h' hle) (h.mark_le (hnone i hi))

/-- Marks at equal steps. -/
theorem strictMono_steps {step : ℤ} (hstep : 0 < step) (origin : ℤ) :
    StrictMono fun i : ℤ => step * i + origin :=
  fun _ _ hlt => add_lt_add_left (mul_lt_mul_of_pos_left hlt hstep) origin

theorem strictMono_every {marks : ℤ → ℤ} (h : StrictMono marks) {k scale : ℤ} (hk : 0 < k)
    (hscale : 0 < scale) : StrictMono fun i : ℤ => marks (k * i) * scale :=
  fun _ _ hlt => mul_lt_mul_of_pos_right (h (mul_lt_mul_of_pos_left hlt hk)) hscale

end MetriEngine.Foundation

/-!
## Cycles of a calendar

A key that never falls cuts an order into cycles, those elements that have one key. A cycle runs
from its least element to the least element of a later key; two cycles with the same bounds are
the same cycle.
-/
namespace MetriEngine.Foundation

universe u v
variable {δ : Type u} {κ : Type v} [LinearOrder δ] [LinearOrder κ] {key : δ → κ}

/-- The cycle of `t` runs from `first` to `next`. -/
structure KeyCycle (key : δ → κ) (t first next : δ) : Prop where
  first : IsLeast {d | key d = key t} first
  next : IsLeast {d | key t < key d} next

namespace KeyCycle
variable {t u first next first' next' : δ}

theorem first_le (h : KeyCycle key t first next) : first ≤ t := h.first.2 rfl

theorem lt_next (hmono : Monotone key) (h : KeyCycle key t first next) : t < next := by
  by_contra hle
  exact absurd (hmono (not_lt.mp hle)) (not_le.mpr h.next.1)

/-- The bounds do not depend on the day within the cycle. -/
theorem congr (h : KeyCycle key t first next) (hkey : key t = key u) : KeyCycle key u first next := by
  have hfirst := h.first
  have hnext := h.next
  rw [hkey] at hfirst hnext
  exact ⟨hfirst, hnext⟩

theorem key_first (h : KeyCycle key t first next) : key first = key t := h.first.1

theorem key_lt_next (h : KeyCycle key t first next) : key t < key next := h.next.1

theorem key_eq (h : KeyCycle key t first next) (h' : KeyCycle key u first next') : key t = key u :=
  h.key_first.symm.trans h'.key_first

theorem unique (h : KeyCycle key t first next) (h' : KeyCycle key t first' next') :
    first = first' ∧ next = next' :=
  ⟨h.first.unique h'.first, h.next.unique h'.next⟩

/-- Bounds that are least among all elements from their keys on. -/
theorem of_le (hfirst : key first = key t) (hfirstLe : ∀ d, key t ≤ key d → first ≤ d)
    (hnext : key t < key next) (hnextLe : ∀ d, key t < key d → next ≤ d) :
    KeyCycle key t first next where
  first := ⟨hfirst, fun _ hd => hfirstLe _ (le_of_eq (Eq.symm hd))⟩
  next := ⟨hnext, fun _ hd => hnextLe _ hd⟩

end KeyCycle
end MetriEngine.Foundation

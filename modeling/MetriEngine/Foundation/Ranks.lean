import Mathlib

/-!
# Nearest ranks

The element of rank `p` is the least one with at least the fraction `p` of the elements at or
below it. In the sorted list it stands behind the elements below it, so where an index points is
told by counting.
-/
namespace MetriEngine.Foundation.Ranks

variable {α : Type*} [LinearOrder α]

/-- How many elements are at or below a value. -/
def atMost (xs : List α) (v : α) : ℕ := xs.countP fun x => x ≤ v

/-- The element of rank `p`: enough elements are at or below it, and too few at or below any
smaller one. -/
structure IsNearestRank (p : ℚ) (xs : List α) (v : α) : Prop where
  mem : v ∈ xs
  enough : p * xs.length ≤ atMost xs v
  least : ∀ w ∈ xs, w < v → (atMost xs w : ℚ) < p * xs.length

theorem atMost_perm {xs ys : List α} (h : xs.Perm ys) (v : α) : atMost xs v = atMost ys v :=
  h.countP_eq _

theorem atMost_mono (xs : List α) {v w : α} (h : v ≤ w) : atMost xs v ≤ atMost xs w := by
  apply List.countP_mono_left
  intro x _ hx
  rw [decide_eq_true_eq] at hx ⊢
  exact hx.trans h

theorem isNearestRank_perm {p : ℚ} {xs ys : List α} (h : xs.Perm ys) {v : α}
    (hv : IsNearestRank p xs v) : IsNearestRank p ys v := by
  refine ⟨h.mem_iff.mp hv.mem, ?_, fun w hw hlt => ?_⟩
  · rw [← atMost_perm h, ← h.length_eq]
    exact hv.enough
  · rw [← atMost_perm h, ← h.length_eq]
    exact hv.least w (h.mem_iff.mpr hw) hlt

section Sorted
variable {xs : List α} (h : xs.Pairwise (· ≤ ·)) {i : ℕ} (hi : i < xs.length)
include h

/-- What stands in front of an element is at or below it. -/
theorem succ_le_atMost : i + 1 ≤ atMost xs xs[i] := by
  have hfront : ∀ x ∈ xs.take (i + 1), x ≤ xs[i] := by
    intro x hx
    obtain ⟨j, hj, rfl⟩ := List.mem_take_iff_getElem.mp hx
    rcases (by omega : j < i ∨ j = i) with hlt | rfl
    · exact List.pairwise_iff_getElem.mp h j i (by omega) hi hlt
    · exact le_rfl
  have hcount : (xs.take (i + 1)).countP (fun x => decide (x ≤ xs[i])) = i + 1 := by
    rw [List.countP_eq_length.mpr fun x hx => decide_eq_true (hfront x hx), List.length_take]
    omega
  calc i + 1 = (xs.take (i + 1)).countP fun x => decide (x ≤ xs[i]) := hcount.symm
    _ ≤ atMost xs xs[i] := (List.take_sublist _ _).countP_le

/-- What stands behind an element, and the element, is above all that is below it. -/
theorem atMost_le_of_lt {w : α} (hw : w < xs[i]) : atMost xs w ≤ i := by
  have hback : (xs.drop i).countP (fun x => decide (x ≤ w)) = 0 := by
    rw [List.countP_eq_zero]
    intro x hx hle
    rw [decide_eq_true_eq] at hle
    obtain ⟨j, hj, rfl⟩ := List.mem_drop_iff_getElem.mp hx
    have hge : xs[i] ≤ xs[i + j] := by
      rcases Nat.eq_zero_or_pos j with rfl | hpos
      · exact le_rfl
      · exact List.pairwise_iff_getElem.mp h i (i + j) hi (by omega) (by omega)
    exact absurd (hge.trans hle) (not_le.mpr hw)
  unfold atMost
  rw [← List.take_append_drop i xs, List.countP_append, hback, Nat.add_zero]
  exact List.countP_le_length.trans (by rw [List.length_take]; omega)

/-- The element behind `⌊p n⌋` others has rank `p`, unless there is a value with exactly `p n`
elements at or below it. -/
theorem isNearestRank_iff {p : ℚ} (h0 : 0 < p) (h1 : p ≤ 1)
    (hindex : i = min ⌊p * xs.length⌋₊ (xs.length - 1)) :
    IsNearestRank p xs xs[i] ↔ ∀ w ∈ xs, (atMost xs w : ℚ) = p * xs.length → p = 1 := by
  have hlength : (0 : ℚ) < xs.length := by exact_mod_cast Nat.zero_lt_of_lt hi
  have hall : ∀ w, (atMost xs w : ℚ) ≤ xs.length := fun w => by exact_mod_cast List.countP_le_length
  have hsucc : ((i : ℚ) + 1) ≤ atMost xs xs[i] := by exact_mod_cast succ_le_atMost h hi
  rcases eq_or_lt_of_le h1 with rfl | hlt
  · refine iff_of_true ⟨List.getElem_mem hi, ?_, fun w hw hlt => ?_⟩ fun _ _ _ => rfl
    · rw [one_mul, Nat.floor_natCast] at hindex
      rw [one_mul]
      exact_mod_cast (by omega : xs.length ≤ i + 1).trans (succ_le_atMost h hi)
    · rw [one_mul]
      exact_mod_cast (atMost_le_of_lt h hi hlt).trans_lt hi
  · have hbelow : p * xs.length < xs.length := by nlinarith
    have hfloor : i = ⌊p * xs.length⌋₊ := by
      have : ⌊p * xs.length⌋₊ < xs.length := (Nat.floor_lt (by positivity)).mpr hbelow
      omega
    have hle : (i : ℚ) ≤ p * xs.length := hfloor ▸ Nat.floor_le (by positivity)
    have hgt : p * xs.length < i + 1 := hfloor ▸ Nat.lt_floor_add_one _
    constructor
    · intro hrank w hw heq
      have hsmaller : w < xs[i] := by
        by_contra hge
        have := (hsucc.trans (by exact_mod_cast atMost_mono xs (not_lt.mp hge)) : (i : ℚ) + 1 ≤ atMost xs w)
        linarith
      exact absurd heq (hrank.least w hw hsmaller).ne
    · intro hnone
      refine ⟨List.getElem_mem hi, by linarith, fun w hw hsmaller => ?_⟩
      have hcount : (atMost xs w : ℚ) ≤ i := by exact_mod_cast atMost_le_of_lt h hi hsmaller
      refine lt_of_le_of_ne (hcount.trans hle) fun heq => ?_
      exact absurd (hnone w hw heq) hlt.ne

end Sorted
end MetriEngine.Foundation.Ranks

/-!
## Linear interpolation of a sequence

The value at a place between two entries of a sequence is on the line through them. Over a growing
sequence it grows with the place, and it is the same at two places only where the sequence stands
still between them.
-/
namespace MetriEngine.Foundation

universe u

variable {K : Type u} [Field K] [LinearOrder K] [FloorSemiring K]

def interpolate (f : ℕ → K) (x : K) : K :=
  f ⌊x⌋₊ * (1 - (x - ⌊x⌋₊)) + f ⌈x⌉₊ * (x - ⌊x⌋₊)

variable {f g : ℕ → K} {x y : K}

/-- The line from the entry below the place to the next one. -/
theorem interpolate_eq_up (f : ℕ → K) (hx : 0 ≤ x) :
    interpolate f x = f ⌊x⌋₊ + (x - ⌊x⌋₊) * (f (⌊x⌋₊ + 1) - f ⌊x⌋₊) := by
  rw [interpolate]
  rcases eq_or_ne (⌊x⌋₊ : K) x with heq | hne
  · rw [heq]
    ring
  · have hceil : ⌈x⌉₊ = ⌊x⌋₊ + 1 := by
      apply le_antisymm (Nat.ceil_le_floor_add_one x)
      rw [Nat.succ_le_iff, Nat.lt_ceil]
      exact lt_of_le_of_ne (Nat.floor_le hx) hne
    rw [hceil]
    ring

variable [IsStrictOrderedRing K]

theorem interpolate_natCast (f : ℕ → K) (i : ℕ) : interpolate f i = f i := by
  simp [interpolate]

/-- The same line from the entry above the place. -/
theorem interpolate_eq_down (f : ℕ → K) (hx : 0 < x) :
    interpolate f x = f ⌈x⌉₊ - (⌈x⌉₊ - x) * (f ⌈x⌉₊ - f (⌈x⌉₊ - 1)) := by
  have hfloor := Nat.floor_le hx.le
  rw [interpolate]
  rcases eq_or_ne (⌊x⌋₊ : K) x with heq | hne
  · have hceil : ⌈x⌉₊ = ⌊x⌋₊ := by
      rw [← heq, Nat.ceil_natCast, heq]
    rw [hceil, heq]
    ring
  · have hceil : ⌈x⌉₊ = ⌊x⌋₊ + 1 := by
      apply le_antisymm (Nat.ceil_le_floor_add_one x)
      rw [Nat.succ_le_iff, Nat.lt_ceil]
      exact lt_of_le_of_ne hfloor hne
    rw [hceil, Nat.add_sub_cancel, Nat.cast_add, Nat.cast_one]
    ring

variable (hf : Monotone f)
include hf

theorem le_interpolate (hx : 0 ≤ x) : f ⌊x⌋₊ ≤ interpolate f x := by
  rw [interpolate_eq_up f hx, le_add_iff_nonneg_right]
  exact mul_nonneg (sub_nonneg.mpr (Nat.floor_le hx)) (sub_nonneg.mpr (hf (Nat.le_succ _)))

theorem interpolate_le (hx : 0 < x) : interpolate f x ≤ f ⌈x⌉₊ := by
  rw [interpolate_eq_down f hx, sub_le_self_iff]
  exact mul_nonneg (sub_nonneg.mpr (Nat.le_ceil x)) (sub_nonneg.mpr (hf (Nat.sub_le _ _)))

theorem interpolate_le_next (hx : 0 ≤ x) : interpolate f x ≤ f (⌊x⌋₊ + 1) := by
  rcases hx.eq_or_lt with rfl | hpos
  · simpa [interpolate] using hf (Nat.zero_le 1)
  · exact (interpolate_le hf hpos).trans (hf (Nat.ceil_le_floor_add_one x))

theorem interpolate_mono (hx : 0 ≤ x) (hxy : x ≤ y) : interpolate f x ≤ interpolate f y := by
  have hy := hx.trans hxy
  rcases (Nat.floor_le_floor hxy).eq_or_lt with heq | hlt
  · have hslope : 0 ≤ f (⌊y⌋₊ + 1) - f ⌊y⌋₊ := sub_nonneg.mpr (hf (Nat.le_succ _))
    rw [interpolate_eq_up f hx, interpolate_eq_up f hy, heq]
    gcongr
  · calc interpolate f x ≤ f (⌊x⌋₊ + 1) := interpolate_le_next hf hx
      _ ≤ f ⌊y⌋₊ := hf hlt
      _ ≤ interpolate f y := le_interpolate hf hy

/-- Where the sequence steps up behind a place, every later place has more. -/
theorem interpolate_lt_of_step_up (hx : 0 ≤ x) (hxy : x < y) (hstep : f ⌊x⌋₊ < f (⌊x⌋₊ + 1)) :
    interpolate f x < interpolate f y := by
  have hy := hx.trans hxy.le
  rcases (Nat.floor_le_floor hxy.le).eq_or_lt with heq | hlt
  · rw [interpolate_eq_up f hx, interpolate_eq_up f hy, ← heq]
    have hslope := sub_pos.mpr hstep
    gcongr
  · have hfrac : x - ⌊x⌋₊ < 1 := sub_lt_iff_lt_add'.mpr (by simpa [add_comm] using Nat.lt_floor_add_one x)
    calc interpolate f x = f ⌊x⌋₊ + (x - ⌊x⌋₊) * (f (⌊x⌋₊ + 1) - f ⌊x⌋₊) := interpolate_eq_up f hx
      _ < f ⌊x⌋₊ + 1 * (f (⌊x⌋₊ + 1) - f ⌊x⌋₊) := by
        have hslope := sub_pos.mpr hstep
        gcongr
      _ = f (⌊x⌋₊ + 1) := by ring
      _ ≤ f ⌊y⌋₊ := hf hlt
      _ ≤ interpolate f y := le_interpolate hf hy

/-- Where the sequence steps up before a place, every earlier place has less. -/
theorem interpolate_lt_of_step_down (hx : 0 ≤ x) (hxy : x < y) (hstep : f (⌈y⌉₊ - 1) < f ⌈y⌉₊) :
    interpolate f x < interpolate f y := by
  have hy := hx.trans_lt hxy
  have hslope := sub_pos.mpr hstep
  by_cases hsame : ((⌈y⌉₊ - 1 : ℕ) : K) < x
  · have hceil : ⌈x⌉₊ = ⌈y⌉₊ := by
      apply le_antisymm (Nat.ceil_mono hxy.le)
      have hlt := Nat.lt_ceil.mpr hsame
      omega
    rw [interpolate_eq_down f hy, interpolate_eq_down f (lt_of_le_of_lt (Nat.cast_nonneg _) hsame),
      hceil]
    gcongr
  · have hpos : 0 < ⌈y⌉₊ := Nat.ceil_pos.mpr hy
    have hcast : ((⌈y⌉₊ - 1 : ℕ) : K) = ⌈y⌉₊ - 1 := by
      rw [Nat.cast_sub hpos, Nat.cast_one]
    have hbefore : interpolate f x ≤ f (⌈y⌉₊ - 1) := by
      rw [← interpolate_natCast f (⌈y⌉₊ - 1)]
      exact interpolate_mono hf hx (not_lt.mp hsame)
    have hlast : ((⌈y⌉₊ - 1 : ℕ) : K) < y := Nat.lt_ceil.mp (Nat.sub_lt hpos one_pos)
    calc interpolate f x ≤ f (⌈y⌉₊ - 1) := hbefore
      _ = f ⌈y⌉₊ - 1 * (f ⌈y⌉₊ - f (⌈y⌉₊ - 1)) := by ring
      _ < f ⌈y⌉₊ - (⌈y⌉₊ - y) * (f ⌈y⌉₊ - f (⌈y⌉₊ - 1)) := by
        have : (⌈y⌉₊ : K) - y < 1 := by
          rw [hcast] at hlast
          linarith
        gcongr
      _ = interpolate f y := (interpolate_eq_down f hy).symm

/-- Two places have the same value exactly where the sequence is level from one to the other. -/
theorem interpolate_eq_iff (hx : 0 ≤ x) (hxy : x < y) :
    interpolate f x = interpolate f y ↔ f ⌊x⌋₊ = f ⌈y⌉₊ := by
  have hy := hx.trans_lt hxy
  constructor
  · intro heq
    have hup : f (⌊x⌋₊ + 1) = f ⌊x⌋₊ := by
      by_contra hne
      exact absurd heq (interpolate_lt_of_step_up hf hx hxy
        (lt_of_le_of_ne (hf (Nat.le_succ _)) (Ne.symm hne))).ne
    have hdown : f ⌈y⌉₊ = f (⌈y⌉₊ - 1) := by
      by_contra hne
      exact absurd heq (interpolate_lt_of_step_down hf hx hxy
        (lt_of_le_of_ne (hf (Nat.sub_le _ _)) (Ne.symm hne))).ne
    rwa [interpolate_eq_up f hx, interpolate_eq_down f hy, hup, ← hdown, sub_self, mul_zero,
      sub_self, mul_zero, add_zero, sub_zero] at heq
  · intro heq
    apply le_antisymm (interpolate_mono hf hx hxy.le)
    calc interpolate f y ≤ f ⌈y⌉₊ := interpolate_le hf hy
      _ = f ⌊x⌋₊ := heq.symm
      _ ≤ interpolate f x := le_interpolate hf hx

end MetriEngine.Foundation

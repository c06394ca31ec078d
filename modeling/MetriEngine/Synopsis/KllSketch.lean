import MetriEngine.Foundation.Ranks
import Mathlib.Data.List.Sort

/-!
# Quantile sketches

A sketch keeps the interpolated quantiles of its observations at the thirtieths: cut `i` is the one
at `(i + 1) / 30`. A query rounds `29 p` to the index of a cut. The two conventions differ by up to
a whole cut for small `p`, so that a query meets its error bound there only where the observations
are level. Numbers are exact here.
-/
namespace MetriEngine.Synopsis
open Foundation

structure CompactKllSketch where
  count : ℕ
  minVal : ℚ
  maxVal : ℚ
  quantiles30 : List ℚ

namespace CompactKllSketch

def zeroed : CompactKllSketch := ⟨0, 0, 0, List.replicate 29 0⟩

/-- The cut of one index over the sorted values. -/
def slot (sorted : List ℚ) (i : ℕ) : ℚ :=
  let p := ((i : ℚ) + 1) / 30
  let pos := p * (sorted.length - 1 : ℕ)
  let lo := ⌊pos⌋₊
  let hi := ⌈pos⌉₊
  let frac := pos - lo
  sorted.getD lo 0 * (1 - frac) + sorted.getD hi 0 * frac

def fromValues (values : List ℚ) : CompactKllSketch :=
  if values = [] then zeroed
  else
    let sorted := values.insertionSort (· ≤ ·)
    { count := sorted.length
      minVal := sorted.getD 0 0
      maxVal := sorted.getD (sorted.length - 1) 0
      quantiles30 := (List.range 29).map (slot sorted) }

def queryQuantile (s : CompactKllSketch) (p : ℚ) : ℚ :=
  if s.count = 0 then 0
  else
    let clamped := max 0 (min p 1)
    if clamped ≤ 0 then s.minVal
    else if 1 ≤ clamped then s.maxVal
    else
      -- `round` is away from zero at a half
      let idx := min ⌊clamped * 29 + 1 / 2⌋₊ 28
      s.quantiles30.getD idx 0

/-! ### Interpolated quantiles -/

/-- The entry of the sorted observations at an index, the last one behind their end. -/
def ordered (xs : List ℚ) (i : ℕ) : ℚ := (xs.insertionSort (· ≤ ·)).getD (min i (xs.length - 1)) 0

/-- The linearly interpolated quantile of a list. -/
def quantile (xs : List ℚ) (p : ℚ) : ℚ := interpolate (ordered xs) (p * (xs.length - 1 : ℕ))

variable {xs : List ℚ} {p q : ℚ}

theorem ordered_mono (xs : List ℚ) : Monotone (ordered xs) := by
  intro i j hij
  have hlength : (xs.insertionSort (· ≤ ·)).length = xs.length := List.length_insertionSort _ _
  rcases List.eq_nil_or_concat xs with rfl | ⟨l, x, rfl⟩
  · simp [ordered]
  · have hi : min i ((l.concat x).length - 1) < ((l.concat x).insertionSort (· ≤ ·)).length := by
      rw [hlength, List.length_concat]
      omega
    have hj : min j ((l.concat x).length - 1) < ((l.concat x).insertionSort (· ≤ ·)).length := by
      rw [hlength, List.length_concat]
      omega
    rw [ordered, ordered, List.getD_eq_getElem _ _ hi, List.getD_eq_getElem _ _ hj]
    have hle : min i ((l.concat x).length - 1) ≤ min j ((l.concat x).length - 1) :=
      min_le_min_right _ hij
    rcases hle.eq_or_lt with heq | hlt
    · exact (getElem_congr_idx heq).le
    · exact List.pairwise_iff_getElem.mp (List.pairwise_insertionSort (· ≤ ·) _) _ _ hi hj hlt

theorem place_le (h1 : p ≤ 1) : p * (xs.length - 1 : ℕ) ≤ (xs.length - 1 : ℕ) :=
  mul_le_of_le_one_left (Nat.cast_nonneg _) h1

theorem ordered_of_le {i : ℕ} (hi : i ≤ xs.length - 1) :
    ordered xs i = (xs.insertionSort (· ≤ ·)).getD i 0 := by
  rw [ordered, min_eq_left hi]

theorem quantile_mono (xs : List ℚ) (h0 : 0 ≤ p) (hpq : p ≤ q) : quantile xs p ≤ quantile xs q := by
  apply interpolate_mono (ordered_mono xs)
  · exact mul_nonneg h0 (Nat.cast_nonneg _)
  · exact mul_le_mul_of_nonneg_right hpq (Nat.cast_nonneg _)

/-- A stored cut is the quantile of its thirtieth. -/
theorem slot_eq {i : ℕ} (hi : i < 29) :
    slot (xs.insertionSort (· ≤ ·)) i = quantile xs (((i : ℚ) + 1) / 30) := by
  have hp : ((i : ℚ) + 1) / 30 ≤ 1 := by
    have : (i : ℚ) + 1 ≤ 30 := by exact_mod_cast (by omega : i + 1 ≤ 30)
    linarith
  have hplace := @place_le xs _ hp
  rw [slot, quantile, interpolate, List.length_insertionSort,
    ordered_of_le (Nat.floor_le_of_le hplace), ordered_of_le (Nat.ceil_le.mpr hplace)]

theorem count_ne_zero (hne : xs ≠ []) : (fromValues xs).count ≠ 0 := by
  rw [fromValues, if_neg hne]
  simpa using hne

theorem quantiles30_eq (hne : xs ≠ []) {i : ℕ} (hi : i < 29) :
    (fromValues xs).quantiles30[i]? = some (quantile xs (((i : ℚ) + 1) / 30)) := by
  rw [fromValues, if_neg hne, List.getElem?_map, List.getElem?_range hi, Option.map_some,
    slot_eq hi]

/-- The index that a query between the ends rounds to. -/
def cutIndex (p : ℚ) : ℕ := min ⌊p * 29 + 1 / 2⌋₊ 28

/-- The fraction whose quantile a query answers with. -/
def cutAt (p : ℚ) : ℚ := if p ≤ 0 then 0 else if 1 ≤ p then 1 else ((cutIndex p : ℚ) + 1) / 30

theorem queryQuantile_eq (hne : xs ≠ []) (h0 : 0 ≤ p) (h1 : p ≤ 1) :
    queryQuantile (fromValues xs) p = quantile xs (cutAt p) := by
  have hclamped : max 0 (min p 1) = p := by
    rw [min_eq_left h1, max_eq_right h0]
  rw [queryQuantile, if_neg (count_ne_zero hne), cutAt, hclamped]
  dsimp only
  split_ifs with hzero hone
  · simp [fromValues, hne, quantile, interpolate, ordered]
  · rw [quantile, one_mul, interpolate_natCast, ordered_of_le le_rfl]
    simp [fromValues, hne]
  · rw [List.getD_eq_getElem?_getD, quantiles30_eq hne (by omega), Option.getD_some, cutIndex]

theorem cutIndex_mono (hpq : p ≤ q) : cutIndex p ≤ cutIndex q := by
  apply min_le_min_right
  apply Nat.floor_le_floor
  linarith

theorem cutIndex_le (p : ℚ) : (cutIndex p : ℚ) ≤ 28 := by
  exact_mod_cast min_le_right _ _

theorem cutAt_bounds (p : ℚ) : 0 ≤ cutAt p ∧ cutAt p ≤ 1 := by
  have hle := cutIndex_le p
  have hnonneg : (0 : ℚ) ≤ cutIndex p := Nat.cast_nonneg _
  rw [cutAt]
  split_ifs
  · norm_num
  · norm_num
  · constructor <;> linarith

theorem cutAt_mono (hpq : p ≤ q) : cutAt p ≤ cutAt q := by
  by_cases hp : p ≤ 0
  · rw [cutAt, if_pos hp]
    exact (cutAt_bounds q).1
  · by_cases hq : 1 ≤ q
    · rw [show cutAt q = 1 by rw [cutAt, if_neg (by linarith), if_pos hq]]
      exact (cutAt_bounds p).2
    · rw [cutAt, cutAt, if_neg hp, if_neg (by linarith), if_neg (by linarith), if_neg hq]
      have hindex : (cutIndex p : ℚ) ≤ cutIndex q := by exact_mod_cast cutIndex_mono hpq
      linarith

theorem cutAt_between (h0 : 0 < p) (h1 : p < 1) : cutAt p = ((cutIndex p : ℚ) + 1) / 30 := by
  rw [cutAt, if_neg (not_le.mpr h0), if_neg (not_le.mpr h1)]

/-- The cut that a query rounds to is never far below. -/
theorem sub_le_cutAt (hp : 1 / 60 ≤ p) (hp' : p ≤ 59 / 60) : p - 1 / 60 ≤ cutAt p := by
  rw [cutAt_between (by linarith) (by linarith)]
  rcases Nat.lt_or_ge ⌊p * 29 + 1 / 2⌋₊ 28 with hlt | hge
  · have hindex : cutIndex p = ⌊p * 29 + 1 / 2⌋₊ := min_eq_left hlt.le
    have hnext := Nat.lt_floor_add_one (p * 29 + 1 / 2)
    have hsmall : (⌊p * 29 + 1 / 2⌋₊ : ℚ) ≤ 28 := by exact_mod_cast hlt.le
    rw [hindex]
    linarith
  · have hindex : cutIndex p = 28 := min_eq_right hge
    rw [hindex]
    norm_num
    linarith

/-- Where a cut is too far above, the fraction lies between the two conventions for its index. -/
theorem add_lt_cutAt_iff (hp : 1 / 60 ≤ p) (hp' : p ≤ 59 / 60) :
    p + 1 / 60 < cutAt p ↔
      1 ≤ cutIndex p ∧ (2 * (cutIndex p : ℚ) - 1) / 58 ≤ p ∧ p < (2 * (cutIndex p : ℚ) + 1) / 60 := by
  rw [cutAt_between (by linarith) (by linarith)]
  have hfloor : (cutIndex p : ℚ) ≤ p * 29 + 1 / 2 :=
    (Nat.cast_le.mpr (min_le_left _ _)).trans (Nat.floor_le (by linarith))
  constructor
  · intro hlt
    refine ⟨?_, by linarith, by linarith⟩
    rw [Nat.one_le_iff_ne_zero]
    intro hzero
    rw [hzero, Nat.cast_zero] at hlt
    linarith
  · rintro ⟨-, -, hlt⟩
    linarith

/-- Between the two conventions for an index the query rounds to it. -/
theorem cutIndex_eq {k : ℕ} (h28 : k ≤ 28) (hlow : (2 * (k : ℚ) - 1) / 58 ≤ p)
    (hhigh : p < (2 * (k : ℚ) + 1) / 60) : cutIndex p = k := by
  have hk : (0 : ℚ) ≤ k := Nat.cast_nonneg _
  have hfloor : ⌊p * 29 + 1 / 2⌋₊ = k := by
    rw [Nat.floor_eq_iff (by linarith)]
    constructor <;> linarith
  rw [cutIndex, hfloor, min_eq_left h28]

/-! ### Accuracy -/

/-- The observations are level between two fractions: from the rank below the first to the rank
above the second. -/
def Level (xs : List ℚ) (s t : ℚ) : Prop :=
  ordered xs ⌊s * (xs.length - 1 : ℕ)⌋₊ = ordered xs ⌈t * (xs.length - 1 : ℕ)⌉₊

instance (xs : List ℚ) (s t : ℚ) : Decidable (Level xs s t) := inferInstanceAs (Decidable (_ = _))

theorem quantile_eq_iff (xs : List ℚ) {s t : ℚ} (h0 : 0 ≤ s) (hst : s < t) :
    quantile xs s = quantile xs t ↔ Level xs s t := by
  rcases Nat.eq_zero_or_pos (xs.length - 1) with hzero | hpos
  · simp [quantile, Level, hzero]
  · have hpos : (0 : ℚ) < (xs.length - 1 : ℕ) := Nat.cast_pos.mpr hpos
    exact interpolate_eq_iff (ordered_mono xs) (mul_nonneg h0 hpos.le) (mul_lt_mul_of_pos_right hst hpos)

/-- What a query at a fraction promises: no less at a greater one, half a cut from the quantile,
and at a thirtieth the cut that is stored for it. -/
structure AccurateAt (xs : List ℚ) (p : ℚ) : Prop where
  mono : ∀ q, p ≤ q → q ≤ 1 → queryQuantile (fromValues xs) p ≤ queryQuantile (fromValues xs) q
  within : 1 / 60 ≤ p → p ≤ 59 / 60 →
    quantile xs (p - 1 / 60) ≤ queryQuantile (fromValues xs) p ∧
      queryQuantile (fromValues xs) p ≤ quantile xs (p + 1 / 60)
  cut : ∀ k : ℕ, 1 ≤ k → k ≤ 29 → p = k / 30 →
    (fromValues xs).quantiles30[k - 1]? = some (queryQuantile (fromValues xs) p)

theorem queryQuantile_mono (hne : xs ≠ []) (h0 : 0 ≤ p) (hpq : p ≤ q) (h1 : q ≤ 1) :
    queryQuantile (fromValues xs) p ≤ queryQuantile (fromValues xs) q := by
  rw [queryQuantile_eq hne h0 (hpq.trans h1), queryQuantile_eq hne (h0.trans hpq) h1]
  exact quantile_mono xs (cutAt_bounds p).1 (cutAt_mono hpq)

/-- The bounds hold unless the cut is too far above and the observations rise up to it. -/
theorem within_iff (hne : xs ≠ []) (hp : 1 / 60 ≤ p) (hp' : p ≤ 59 / 60) :
    (quantile xs (p - 1 / 60) ≤ queryQuantile (fromValues xs) p ∧
      queryQuantile (fromValues xs) p ≤ quantile xs (p + 1 / 60)) ↔
      (p + 1 / 60 < cutAt p → Level xs (p + 1 / 60) (cutAt p)) := by
  rw [queryQuantile_eq hne (by linarith) (by linarith)]
  have hlow := quantile_mono xs (by linarith : (0 : ℚ) ≤ p - 1 / 60) (sub_le_cutAt hp hp')
  constructor
  · rintro ⟨-, hle⟩ hlt
    rw [← quantile_eq_iff xs (by linarith) hlt]
    exact (quantile_mono xs (by linarith) hlt.le).antisymm hle
  · intro hlevel
    refine ⟨hlow, ?_⟩
    rcases lt_or_ge (p + 1 / 60) (cutAt p) with hlt | hge
    · rw [(quantile_eq_iff xs (by linarith) hlt).mpr (hlevel hlt)]
    · exact quantile_mono xs (cutAt_bounds p).1 hge

theorem Level.later {s s' t : ℚ} (h : Level xs s t) (h0 : 0 ≤ s) (hs : s ≤ s') (ht : s' < t) :
    Level xs s' t := by
  have heq := (quantile_eq_iff xs h0 (hs.trans_lt ht)).mpr h
  rw [← quantile_eq_iff xs (h0.trans hs) ht]
  apply (quantile_mono xs (h0.trans hs) ht.le).antisymm
  rw [← heq]
  exact quantile_mono xs h0 hs

/-- From the sixteenth thirtieth on the two conventions agree. -/
theorem cutAt_thirtieth {k : ℕ} (h16 : 16 ≤ k) (h29 : k ≤ 29) : cutAt ((k : ℚ) / 30) = k / 30 := by
  have hlow : (16 : ℚ) ≤ k := by exact_mod_cast h16
  have hhigh : (k : ℚ) ≤ 29 := by exact_mod_cast h29
  have hpred : ((k - 1 : ℕ) : ℚ) = k - 1 := by
    rw [Nat.cast_sub (by omega), Nat.cast_one]
  have hindex : cutIndex ((k : ℚ) / 30) = k - 1 := by
    have hfloor : ⌊(k : ℚ) / 30 * 29 + 1 / 2⌋₊ = k - 1 := by
      rw [Nat.floor_eq_iff (by linarith), hpred]
      constructor <;> linarith
    rw [cutIndex, hfloor, min_eq_left (by omega)]
  rw [cutAt_between (by linarith) (by linarith), hindex, hpred]
  ring

/-- Up to the fifteenth thirtieth a query answers with the cut behind the one stored for it, so
that it is exact only where the observations are level between the two. -/
theorem cut_iff (hne : xs ≠ []) {k : ℕ} (h1 : 1 ≤ k) (h29 : k ≤ 29) (hp : p = k / 30) :
    (fromValues xs).quantiles30[k - 1]? = some (queryQuantile (fromValues xs) p) ↔
      (k ≤ 15 → Level xs p (((k : ℚ) + 1) / 30)) := by
  have hlow : (1 : ℚ) ≤ k := by exact_mod_cast h1
  have hhigh : (k : ℚ) ≤ 29 := by exact_mod_cast h29
  have hstored : (((k - 1 : ℕ) : ℚ) + 1) / 30 = p := by
    rw [hp, Nat.cast_sub h1, Nat.cast_one, sub_add_cancel]
  rw [quantiles30_eq hne (by omega), hstored, Option.some_inj,
    queryQuantile_eq hne (by linarith) (by linarith)]
  rcases Nat.lt_or_ge 15 k with hlt | hle
  · rw [hp, cutAt_thirtieth hlt h29]
    simp [Nat.not_le.mpr hlt]
  · have h15 : (k : ℚ) ≤ 15 := by exact_mod_cast hle
    have hindex : cutIndex p = k := cutIndex_eq (by omega) (by linarith) (by linarith)
    rw [cutAt_between (by linarith) (by linarith), hindex, quantile_eq_iff xs (by linarith)
      (by linarith)]
    simp [hle]

/-- A query is accurate exactly where its fraction does not lie between the two conventions for an
index, or the observations are level up to the cut that it answers with. -/
theorem accurateAt_iff (hne : xs ≠ []) (h0 : 0 ≤ p) :
    AccurateAt xs p ↔ ∀ k : ℕ, 1 ≤ k → k ≤ 28 → (2 * (k : ℚ) - 1) / 58 ≤ p →
      p < (2 * (k : ℚ) + 1) / 60 →
        Level xs (if 30 * p = k then p else p + 1 / 60) (((k : ℚ) + 1) / 30) := by
  constructor
  · intro h k hk h28 hlow hhigh
    have hone : (1 : ℚ) ≤ k := by exact_mod_cast hk
    have hlast : (k : ℚ) ≤ 28 := by exact_mod_cast h28
    have hindex := cutIndex_eq h28 hlow hhigh
    have hcut : cutAt p = ((k : ℚ) + 1) / 30 := by
      rw [cutAt_between (by linarith) (by linarith), hindex]
    split_ifs with hthirtieth
    · have hp : p = k / 30 := by linarith
      apply (cut_iff hne hk (by omega) hp).mp (h.cut k hk (by omega) hp)
      have h15 : (k : ℚ) ≤ 15 := by linarith
      exact_mod_cast h15
    · rw [← hcut]
      apply (within_iff hne (by linarith) (by linarith)).mp (h.within (by linarith) (by linarith))
      rw [hcut]
      linarith
  · intro h
    refine ⟨fun q hpq hq => queryQuantile_mono hne h0 hpq hq, ?_, ?_⟩
    · intro hp hp'
      rw [within_iff hne hp hp']
      intro hlt
      obtain ⟨hk, hlow, hhigh⟩ := (add_lt_cutAt_iff hp hp').mp hlt
      have hlevel := h (cutIndex p) hk (min_le_right _ _) hlow hhigh
      rw [← cutAt_between (by linarith) (by linarith)] at hlevel
      apply hlevel.later _ _ hlt
      · split_ifs <;> linarith
      · split_ifs <;> linarith
    · intro k hk h29 hp
      rw [cut_iff hne hk h29 hp]
      intro h15
      have hone : (1 : ℚ) ≤ k := by exact_mod_cast hk
      have hlast : (k : ℚ) ≤ 15 := by exact_mod_cast h15
      have hlevel := h k hk (by omega) (by linarith) (by linarith)
      rwa [if_pos (by linarith)] at hlevel

/-- Three observations of which the lower two are equal: a small fraction is answered exactly. -/
theorem level_observations : AccurateAt [7, 1, 1] (1 / 30) :=
  (accurateAt_iff (by simp) (by norm_num)).mpr (by
    intro k hk h28 hlow hhigh
    have hone : (k : ℚ) < 2 := by linarith
    have hk' : k < 2 := by exact_mod_cast hone
    obtain rfl : k = 1 := by omega
    decide +kernel)

/-- Of two observations at 0 and 60 the first thirtieth has the cut 2 and is answered with 4. -/
theorem first_thirtieth_is_missed : queryQuantile (fromValues [0, 60]) (1 / 30) = 4 ∧
    (fromValues [0, 60]).quantiles30[0]? = some 2 ∧
      ¬ ∀ (xs : List ℚ) (p : ℚ), xs ≠ [] → 0 ≤ p → p ≤ 1 → AccurateAt xs p := by
  have hanswer : queryQuantile (fromValues [0, 60]) (1 / 30) = 4 := by decide +kernel
  have hstored : (fromValues [0, 60]).quantiles30[0]? = some 2 := by decide +kernel
  refine ⟨hanswer, hstored, ?_⟩
  intro h
  have hcut := (h [0, 60] (1 / 30) (by simp) (by norm_num) (by norm_num)).cut 1 le_rfl
    (by norm_num) (by norm_num)
  rw [hanswer, hstored] at hcut
  norm_num at hcut

end CompactKllSketch
end MetriEngine.Synopsis

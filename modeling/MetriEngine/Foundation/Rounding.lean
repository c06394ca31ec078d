import Mathlib

/-!
# Rounding to the nearest integer, halves to the even one

The quotient is the truncated one of the machine, corrected by one towards the sign of the
fraction. It is never further from the fraction than a half.
-/
namespace MetriEngine.Foundation

def roundHalfEven (numerator denominator : ℤ) : ℤ :=
  let q := numerator.tdiv denominator
  let r := numerator.tmod denominator
  let sign := if numerator < 0 ∧ 0 < denominator ∨ 0 ≤ numerator ∧ denominator < 0 then -1 else 1
  if |denominator| < |r| * 2 then q + sign
  else if |r| * 2 < |denominator| then q
  else if |q| % 2 = 1 then q + sign
  else q

/-- The nearest integer to a fraction, the even one of two that are as near. -/
structure IsNearestEven (numerator denominator v : ℤ) : Prop where
  near : |2 * (denominator * v - numerator)| ≤ |denominator|
  even : |2 * (denominator * v - numerator)| = |denominator| → v % 2 = 0

section Quotients
variable {n d : ℤ}

/-- The direction in which the quotient was cut. -/
def cutSign (n d : ℤ) : ℤ := if n < 0 ∧ 0 < d ∨ 0 ≤ n ∧ d < 0 then -1 else 1

theorem abs_tmod_lt (hd : d ≠ 0) : |n.tmod d| < |d| := by
  rw [Int.abs_eq_natAbs, Int.abs_eq_natAbs, Int.natAbs_tmod]
  exact_mod_cast Nat.mod_lt _ (Int.natAbs_pos.mpr hd)

/-- The cut quotient is as far from the fraction as the remainder says. -/
theorem abs_cut_sub (n d : ℤ) : |2 * (d * n.tdiv d - n)| = 2 * |n.tmod d| := by
  have hsplit : d * n.tdiv d + n.tmod d = n := Int.mul_tdiv_add_tmod n d
  rw [show d * n.tdiv d - n = -n.tmod d by omega, abs_mul, abs_neg]
  rfl

/-- The next integer is as far from the fraction as what is left of the divisor. -/
theorem abs_next_sub (hd : d ≠ 0) :
    |2 * (d * (n.tdiv d + cutSign n d) - n)| = 2 * (|d| - |n.tmod d|) := by
  have hsplit : d * n.tdiv d + n.tmod d = n := Int.mul_tdiv_add_tmod n d
  have hlt := abs_tmod_lt (n := n) hd
  have hnext : d * (n.tdiv d + cutSign n d) - n = d * cutSign n d - n.tmod d := by
    rw [mul_add]
    omega
  rw [hnext, abs_mul, abs_two]
  congr 1
  -- the remainder has the sign of the numerator, and so has the divisor times the direction
  rcases lt_or_ge n 0 with hneg | hpos
  · have hr : n.tmod d ≤ 0 := by
      have := Int.tmod_nonneg d (by omega : 0 ≤ -n)
      rw [Int.neg_tmod] at this
      omega
    have hside : d * cutSign n d = -|d| := by
      unfold cutSign
      rcases lt_or_gt_of_ne hd with hdneg | hdpos
      · rw [if_neg (by omega), abs_of_neg hdneg]
        omega
      · rw [if_pos (Or.inl ⟨hneg, hdpos⟩), abs_of_pos hdpos]
        omega
    rw [abs_of_nonpos hr] at hlt ⊢
    rw [hside, abs_of_nonpos (by omega)]
    omega
  · have hr : 0 ≤ n.tmod d := Int.tmod_nonneg d hpos
    have hside : d * cutSign n d = |d| := by
      unfold cutSign
      rcases lt_or_gt_of_ne hd with hdneg | hdpos
      · rw [if_pos (Or.inr ⟨hpos, hdneg⟩), abs_of_neg hdneg]
        omega
      · rw [if_neg (by omega), abs_of_pos hdpos]
        omega
    rw [abs_of_nonneg hr] at hlt ⊢
    rw [hside, abs_of_nonneg (by omega)]

theorem isNearestEven_cut_iff : IsNearestEven n d (n.tdiv d) ↔
    2 * |n.tmod d| ≤ |d| ∧ (2 * |n.tmod d| = |d| → n.tdiv d % 2 = 0) := by
  constructor
  · rintro ⟨hnear, heven⟩
    rw [abs_cut_sub] at hnear heven
    exact ⟨hnear, heven⟩
  · rintro ⟨hnear, heven⟩
    constructor
    · rwa [abs_cut_sub]
    · rwa [abs_cut_sub]

theorem isNearestEven_next_iff (hd : d ≠ 0) : IsNearestEven n d (n.tdiv d + cutSign n d) ↔
    |d| ≤ 2 * |n.tmod d| ∧ (2 * |n.tmod d| = |d| → n.tdiv d % 2 ≠ 0) := by
  have hparity : (n.tdiv d + cutSign n d) % 2 = 0 ↔ n.tdiv d % 2 ≠ 0 := by
    unfold cutSign
    split_ifs <;> omega
  constructor
  · rintro ⟨hnear, heven⟩
    rw [abs_next_sub hd] at hnear heven
    rw [hparity] at heven
    exact ⟨by omega, fun htie => heven (by omega)⟩
  · rintro ⟨hnear, heven⟩
    constructor
    · rw [abs_next_sub hd]
      omega
    · rw [abs_next_sub hd, hparity]
      exact fun htie => heven (by omega)

/-- Rounding halves to even is to the nearest integer. -/
theorem roundHalfEven_isNearestEven (hd : d ≠ 0) : IsNearestEven n d (roundHalfEven n d) := by
  have hodd : |n.tdiv d| % 2 = 1 ↔ n.tdiv d % 2 ≠ 0 := by
    rcases abs_cases (n.tdiv d) with ⟨h, _⟩ | ⟨h, _⟩ <;> omega
  unfold roundHalfEven
  dsimp only
  change IsNearestEven n d (if |d| < |n.tmod d| * 2 then n.tdiv d + cutSign n d
    else if |n.tmod d| * 2 < |d| then n.tdiv d
    else if |n.tdiv d| % 2 = 1 then n.tdiv d + cutSign n d else n.tdiv d)
  split_ifs with hmore hless hparity
  · exact (isNearestEven_next_iff hd).mpr ⟨by omega, fun _ => by omega⟩
  · exact isNearestEven_cut_iff.mpr ⟨by omega, fun _ => by omega⟩
  · exact (isNearestEven_next_iff hd).mpr ⟨by omega, fun _ => hodd.mp hparity⟩
  · exact isNearestEven_cut_iff.mpr ⟨by omega, fun _ => by rw [hodd] at hparity; omega⟩

end Quotients

theorem abs_two_mul_roundHalfEven_sub_le (n : ℤ) {d : ℤ} (hd : 0 < d) :
    |2 * (d * roundHalfEven n d - n)| ≤ d := by
  have hnear := (roundHalfEven_isNearestEven (n := n) hd.ne').near
  rwa [abs_of_pos hd] at hnear

/-! ### Rounding a rational -/

/-- No integer is nearer, and of two that are as near it is the even one. -/
structure RoundsTo (x : ℚ) (v : ℤ) : Prop where
  near : ∀ w : ℤ, |x - v| ≤ |x - w|
  even : ∀ w : ℤ, w ≠ v → |x - w| = |x - v| → v % 2 = 0

theorem one_sub_le_abs_sub {x : ℚ} {v w : ℤ} (hne : w ≠ v) : 1 - |x - v| ≤ |x - w| := by
  have hgap : (1 : ℚ) ≤ |(w : ℚ) - v| := by
    rw [← Int.cast_sub, ← Int.cast_abs]
    exact_mod_cast Int.one_le_abs (sub_ne_zero.mpr hne)
  have htriangle : |(w : ℚ) - v| ≤ |(w : ℚ) - x| + |x - v| := abs_sub_le ..
  rw [abs_sub_comm (w : ℚ) x] at htriangle
  linarith

theorem roundsTo_iff {x : ℚ} {v : ℤ} :
    RoundsTo x v ↔ |x - v| ≤ 1 / 2 ∧ (|x - v| = 1 / 2 → v % 2 = 0) := by
  constructor
  · rintro ⟨hnear, heven⟩
    refine ⟨(hnear (round x)).trans (abs_sub_round x), fun htie => ?_⟩
    -- the other side of a half is as near
    rcases abs_cases (x - v) with ⟨hside, _⟩ | ⟨hside, _⟩
    · apply heven (v + 1) (by omega)
      rw [htie, show x - ((v + 1 : ℤ) : ℚ) = -(1 / 2) by push_cast; linarith, abs_neg]
      norm_num
    · apply heven (v - 1) (by omega)
      rw [htie, show x - ((v - 1 : ℤ) : ℚ) = 1 / 2 by push_cast; linarith]
      norm_num
  · rintro ⟨hnear, heven⟩
    constructor
    · intro w
      by_cases hw : w = v
      · rw [hw]
      · linarith [one_sub_le_abs_sub (x := x) hw]
    · intro w hw hsame
      apply heven
      linarith [one_sub_le_abs_sub (x := x) hw]

/-- The nearest integer to a fraction is what the rational rounds to. -/
theorem roundsTo_div_iff {n d v : ℤ} (hd : d ≠ 0) :
    RoundsTo (n / d) v ↔ IsNearestEven n d v := by
  have hpos : (0 : ℚ) < |(d : ℚ)| := abs_pos.mpr (Int.cast_ne_zero.mpr hd)
  have hscaled : ((|2 * (d * v - n)| : ℤ) : ℚ) = |(d : ℚ)| * (2 * |(n / d : ℚ) - v|) := by
    push_cast
    rw [abs_sub_comm (n / d : ℚ), abs_mul, abs_two, mul_left_comm, ← abs_mul, mul_sub,
      mul_div_cancel₀ _ (Int.cast_ne_zero.mpr hd)]
  have hle : |(n / d : ℚ) - v| ≤ 1 / 2 ↔ |2 * (d * v - n)| ≤ |d| := by
    rw [← Int.cast_le (R := ℚ), hscaled, Int.cast_abs]
    constructor
    · intro h
      nlinarith
    · intro h
      by_contra hmore
      nlinarith
  have heq : |(n / d : ℚ) - v| = 1 / 2 ↔ |2 * (d * v - n)| = |d| := by
    rw [← Int.cast_inj (α := ℚ), hscaled, Int.cast_abs, mul_eq_left₀ hpos.ne']
    constructor <;> intro h <;> linarith
  rw [roundsTo_iff, hle, heq]
  exact ⟨fun h => ⟨h.1, h.2⟩, fun h => ⟨h.near, h.even⟩⟩

end MetriEngine.Foundation

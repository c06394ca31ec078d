import Mathlib

/-!
# The lowest set bit of a machine word

A positive number is a power of two times an odd number; the power is its lowest set bit. Words
reach it with masks. Trees of prefix sums step by it: the node `j` covers the places from
`j - lowBit j` up to `j`.
-/
namespace MetriEngine.Foundation

/-- `i` without what it keeps under the mask `i - 1`. -/
def lowBit (i : ℕ) : ℕ := i - (i &&& (i - 1))

/-! ### Masks -/

theorem exists_odd {i : ℕ} (hi : 0 < i) : ∃ k m, i = 2 ^ k * (2 * m + 1) := by
  obtain ⟨k, n, hodd, rfl⟩ := Nat.exists_eq_two_pow_mul_odd hi.ne'
  obtain ⟨m, rfl⟩ := hodd
  exact ⟨k, m, rfl⟩

theorem eq_of_half {a b : ℕ} (hdiv : a / 2 = b / 2) (hmod : a % 2 = b % 2) : a = b := by omega

theorem land_pred (k m : ℕ) :
    2 ^ k * (2 * m + 1) &&& (2 ^ k * (2 * m + 1) - 1) = 2 ^ k * (2 * m) := by
  induction k with
  | zero =>
    rw [pow_zero, one_mul, one_mul, Nat.add_sub_cancel]
    apply eq_of_half
    · rw [Nat.and_div_two, show (2 * m + 1) / 2 = m by omega, Nat.mul_div_cancel_left _ two_pos,
        Nat.and_self]
    · have hmod := @Nat.and_mod_two_eq_one (2 * m + 1) (2 * m)
      omega
  | succ k ih =>
    set x := 2 ^ k * (2 * m + 1) with hx
    have hpos : 0 < x := by positivity
    have hdouble : 2 ^ (k + 1) * (2 * m + 1) = 2 * x := by
      rw [hx]
      ring
    have hright : 2 ^ (k + 1) * (2 * m) = 2 * (2 ^ k * (2 * m)) := by ring
    rw [hdouble, hright, ← ih]
    apply eq_of_half
    · rw [Nat.and_div_two, Nat.mul_div_cancel_left _ two_pos, Nat.mul_div_cancel_left _ two_pos,
        show (2 * x - 1) / 2 = x - 1 by omega]
    · have hmod := @Nat.and_mod_two_eq_one (2 * x) (2 * x - 1)
      omega

theorem lowBit_two_pow_mul (k m : ℕ) : lowBit (2 ^ k * (2 * m + 1)) = 2 ^ k := by
  rw [lowBit, land_pred, ← Nat.mul_sub, Nat.add_sub_cancel_left, mul_one]

theorem land_pred_eq (i : ℕ) : i &&& (i - 1) = i - lowBit i := by
  have hle : i &&& (i - 1) ≤ i := Nat.and_le_left
  rw [lowBit]
  omega

/-- An odd number meets its complement plus one in the last bit only. -/
theorem land_neg_odd {w m : ℕ} (h : 2 * m + 1 < 2 ^ w) : (2 * m + 1) &&& (2 ^ w - (2 * m + 1)) = 1 := by
  apply Nat.eq_of_testBit_eq
  intro j
  rw [Nat.testBit_and, Nat.testBit_two_pow_sub_succ (by omega)]
  cases j with
  | zero =>
    have hw : 0 < w := by
      rcases Nat.eq_zero_or_pos w with rfl | hw
      · simp at h
      · exact hw
    simp [Nat.testBit_zero, hw]
  | succ j =>
    rw [Nat.testBit_succ, Nat.testBit_succ, Nat.testBit_succ, show (2 * m + 1) / 2 = m by omega,
      Nat.mul_div_cancel_left _ two_pos]
    simp
    intro h _
    exact h

/-- `i & (!i + 1)` -/
theorem land_neg {w i : ℕ} (hi : 0 < i) (h : i < 2 ^ w) : i &&& (2 ^ w - i) = lowBit i := by
  obtain ⟨k, m, rfl⟩ := exists_odd hi
  rw [lowBit_two_pow_mul]
  clear hi
  induction k generalizing w with
  | zero =>
    rw [pow_zero, one_mul] at h ⊢
    exact land_neg_odd h
  | succ k ih =>
    set x := 2 ^ k * (2 * m + 1) with hx
    have hpos : 0 < x := by positivity
    have hdouble : 2 ^ (k + 1) * (2 * m + 1) = 2 * x := by
      rw [hx]
      ring
    rw [hdouble] at h ⊢
    cases w with
    | zero => omega
    | succ w =>
      rw [pow_succ, mul_comm (2 ^ w)] at h ⊢
      rw [pow_succ, ← @ih w (by omega)]
      apply eq_of_half
      · rw [Nat.and_div_two, Nat.mul_div_cancel_left _ two_pos, Nat.mul_div_cancel _ two_pos,
          ← Nat.mul_sub, Nat.mul_div_cancel_left _ two_pos]
      · have hmod := @Nat.and_mod_two_eq_one (2 * x) (2 * 2 ^ w - 2 * x)
        omega

theorem lowBit_pos {i : ℕ} (hi : 0 < i) : 0 < lowBit i := by
  obtain ⟨k, m, rfl⟩ := exists_odd hi
  rw [lowBit_two_pow_mul]
  positivity

theorem lowBit_le (i : ℕ) : lowBit i ≤ i := Nat.sub_le _ _

/-! ### What a node covers -/

/-- The node `j` covers the place `p`, counted from one. -/
def Covers (j p : ℕ) : Prop := j - lowBit j < p ∧ p ≤ j

instance (j p : ℕ) : Decidable (Covers j p) := inferInstanceAs (Decidable (_ ∧ _))

/-- Inside a block of a power of two the lowest set bit is that of the place in the block. -/
theorem lowBit_block {k m r : ℕ} (hr : 0 < r) (hlt : r < 2 ^ k) :
    lowBit (2 ^ k * m + r) = lowBit r := by
  obtain ⟨e, o, rfl⟩ := exists_odd hr
  have he : 2 ^ e < 2 ^ k := lt_of_le_of_lt (Nat.le_mul_of_pos_right _ (by omega)) hlt
  have hek : e < k := (Nat.pow_lt_pow_iff_right (by norm_num)).mp he
  obtain ⟨d, rfl⟩ := Nat.exists_eq_add_of_lt hek
  have hsplit : 2 ^ (e + d + 1) * m + 2 ^ e * (2 * o + 1) = 2 ^ e * (2 * (2 ^ d * m + o) + 1) := by
    ring
  rw [hsplit, lowBit_two_pow_mul, lowBit_two_pow_mul]

theorem add_lowBit_le {k r : ℕ} (hr : 0 < r) (hlt : r < 2 ^ k) : r + lowBit r ≤ 2 ^ k := by
  obtain ⟨e, o, rfl⟩ := exists_odd hr
  have he : 2 ^ e < 2 ^ k := lt_of_le_of_lt (Nat.le_mul_of_pos_right _ (by omega)) hlt
  have hek : e < k := (Nat.pow_lt_pow_iff_right (by norm_num)).mp he
  obtain ⟨d, rfl⟩ := Nat.exists_eq_add_of_lt hek
  have hpow : 2 ^ (e + d + 1) = 2 ^ e * (2 * 2 ^ d) := by ring
  rw [hpow] at hlt ⊢
  rw [lowBit_two_pow_mul]
  have hodd : 2 * o + 1 < 2 * 2 ^ d := Nat.lt_of_mul_lt_mul_left hlt
  calc 2 ^ e * (2 * o + 1) + 2 ^ e = 2 ^ e * (2 * o + 2) := by ring
    _ ≤ 2 ^ e * (2 * 2 ^ d) := Nat.mul_le_mul_left _ (by omega)

theorem covers_self {p : ℕ} (hp : 0 < p) : Covers p p := by
  have hpos := lowBit_pos hp
  exact ⟨by omega, le_rfl⟩

theorem Covers.next {j p : ℕ} (hp : 0 < p) (h : Covers j p) (hne : j ≠ p) :
    Covers j (p + lowBit p) := by
  obtain ⟨hlow, hhigh⟩ := h
  obtain ⟨k, m, rfl⟩ := exists_odd (hp.trans_le hhigh)
  rw [lowBit_two_pow_mul] at hlow
  rw [Covers, lowBit_two_pow_mul]
  have hsplit : 2 ^ k * (2 * m + 1) = 2 ^ k * (2 * m) + 2 ^ k := by ring
  obtain ⟨r, rfl⟩ := Nat.exists_eq_add_of_lt (show 2 ^ k * (2 * m) < p by omega)
  -- `p` lies in the block of `j`, so its lowest bit is that of its place there
  rw [add_assoc] at hlow hhigh hne
  rw [add_assoc _ r 1, lowBit_block (by omega) (by omega)]
  have hle := @add_lowBit_le k (r + 1) (by omega) (by omega)
  omega

theorem Covers.of_next {j p : ℕ} (hp : 0 < p) (h : Covers j (p + lowBit p)) : Covers j p := by
  obtain ⟨hlow, hhigh⟩ := h
  obtain ⟨k, m, rfl⟩ := exists_odd (show 0 < j by omega)
  obtain ⟨e, o, rfl⟩ := exists_odd hp
  rw [lowBit_two_pow_mul] at hlow hhigh
  rw [lowBit_two_pow_mul] at hlow
  rw [Covers, lowBit_two_pow_mul]
  have hsplit : 2 ^ k * (2 * m + 1) = 2 ^ k * (2 * m) + 2 ^ k := by ring
  have hnext : 2 ^ e * (2 * o + 1) + 2 ^ e = 2 ^ e * 2 * (o + 1) := by ring
  obtain ⟨s, hs⟩ := Nat.exists_eq_add_of_le (show 2 ^ k * (2 * m) ≤ 2 ^ e * (2 * o + 1) + 2 ^ e by
    omega)
  -- the smaller of the two powers, doubled, divides what the next place is past the block
  have hdvd : 2 ^ (min e k + 1) ∣ s := by
    have hleft : 2 ^ (min e k + 1) ∣ 2 ^ k * (2 * m) := by
      rw [← mul_assoc, ← pow_succ]
      exact Dvd.dvd.mul_right (pow_dvd_pow 2 (by omega)) m
    have hboth : 2 ^ (min e k + 1) ∣ 2 ^ k * (2 * m) + s := by
      rw [← hs, hnext, ← pow_succ]
      exact Dvd.dvd.mul_right (pow_dvd_pow 2 (by omega)) (o + 1)
    exact (Nat.dvd_add_right hleft).mp hboth
  have hspos : 0 < s := by omega
  have hle := Nat.le_of_dvd hspos hdvd
  rcases le_total e k with hek | hke
  · rw [min_eq_left hek, pow_succ] at hle
    have := Nat.two_pow_pos e
    omega
  · rw [min_eq_right hke, pow_succ] at hle
    have := Nat.two_pow_pos k
    omega

/-- A node that covers a place is the place itself, or covers the next place up from it. -/
theorem covers_iff_next {j p : ℕ} (hp : 0 < p) :
    Covers j p ↔ j = p ∨ Covers j (p + lowBit p) := by
  constructor
  · intro h
    by_cases hne : j = p
    · exact .inl hne
    · exact .inr (h.next hp hne)
  · rintro (rfl | h)
    · exact covers_self hp
    · exact h.of_next hp

theorem not_covers_next {p : ℕ} (hp : 0 < p) : ¬ Covers p (p + lowBit p) := by
  have hpos := lowBit_pos hp
  rintro ⟨-, h⟩
  omega

end MetriEngine.Foundation

import MetriEngine.Eav.Value
import MetriEngine.Storage.FinancialLedger

/-!
# Where the decimals round to the nearest integer

The remainder is doubled in 128 bits. From `2 ^ 126` on its double wraps below zero and the quotient
is only cut, but for the least divisor, whose absolute value wraps to itself: there the comparison
is right exactly where both wrap. A product that wraps is never mended by the rounding.
-/
namespace MetriEngine.Storage.FinancialLedger.FixedDecimal128
open Foundation Eav

/-! ### The machine's operations -/

/-- The quotient; nothing where the machine's division traps. -/
def checkedDivBankersRaw (numerator denominator : ℤ) : Option ℤ :=
  if denominator = 0 ∨ numerator = -2 ^ 127 ∧ denominator = -1 then none
  else some (divBankersRaw numerator denominator)

def checkedMulBankers (a b : ℤ) : Option ℤ :=
  checkedDivBankersRaw (wrapI128 (a * b)) scale

def checkedDivBankers (a divisor : ℤ) : Option (Except DomainError ℤ) :=
  if divisor = 0 then some (.error (ledgerUnbalanced "Division by zero in FixedDecimal128"))
  else (checkedDivBankersRaw (wrapI128 (a * scale)) divisor).map .ok

theorem checkedMulBankers_eq (a b : ℤ) : checkedMulBankers a b = some (mulBankers a b) := by
  rw [checkedMulBankers, checkedDivBankersRaw, if_neg (by simp [scale]), mulBankers]

/-- The integers of 128 bits. -/
def Fits (z : ℤ) : Prop := -2 ^ 127 ≤ z ∧ z < 2 ^ 127

instance (z : ℤ) : Decidable (Fits z) := inferInstanceAs (Decidable (_ ∧ _))

theorem fits_signed (z : Signed 128) : Fits z.val := z.property

theorem wrapI128_of_fits {z : ℤ} (h : Fits z) : wrapI128 z = z := by
  rw [wrapI128, Int.emod_eq_of_lt (by have := h.1; omega) (by have := h.2; omega)]
  omega

theorem fits_wrapI128 (z : ℤ) : Fits (wrapI128 z) := by
  have hlo := Int.emod_nonneg (z + 2 ^ 127) (by norm_num : (2 ^ 128 : ℤ) ≠ 0)
  have hhi := Int.emod_lt_of_pos (z + 2 ^ 127) (by norm_num : (0 : ℤ) < 2 ^ 128)
  rw [wrapI128]
  exact ⟨by omega, by omega⟩

/-- What does not fit is far from what it wraps to. -/
theorem two_pow_le_abs_wrapI128_sub {z : ℤ} (h : ¬Fits z) : 2 ^ 128 ≤ |wrapI128 z - z| := by
  have hfits := fits_wrapI128 z
  have hne : wrapI128 z ≠ z := fun heq => h (heq ▸ hfits)
  have hsplit := Int.emod_add_mul_ediv (z + 2 ^ 127) (2 ^ 128)
  rw [wrapI128] at hne ⊢
  rcases abs_cases ((z + 2 ^ 127) % 2 ^ 128 - 2 ^ 127 - z) with ⟨habs, _⟩ | ⟨habs, _⟩ <;>
    rw [habs] <;> omega

/-! ### The quotient -/

/-- The comparison of the doubled remainder with the divisor comes out as it would without the
width of the word. -/
def Compares (numerator denominator : ℤ) : Prop :=
  if denominator = -2 ^ 127 then 2 ^ 126 ≤ |numerator.tmod denominator|
  else |numerator.tmod denominator| < 2 ^ 126

instance (n d : ℤ) : Decidable (Compares n d) := by
  unfold Compares
  infer_instance

section Quotients
variable {n d : ℤ}

theorem abs_le_of_fits (hd : Fits d) : |d| ≤ 2 ^ 127 := by
  rw [abs_le]
  exact ⟨hd.1, by have := hd.2; omega⟩

theorem abs_lt_of_fits (hd : Fits d) (hleast : d ≠ -2 ^ 127) : |d| < 2 ^ 127 := by
  rw [abs_lt]
  exact ⟨by have := hd.1; omega, hd.2⟩

theorem divBankersRaw_eq_ite (n d : ℤ) : divBankersRaw n d =
    if wrapI128 |d| < wrapI128 (|n.tmod d| * 2) then n.tdiv d + cutSign n d
    else if wrapI128 (|n.tmod d| * 2) < wrapI128 |d| then n.tdiv d
    else if |n.tdiv d| % 2 = 1 then n.tdiv d + cutSign n d else n.tdiv d := rfl

/-- The quotient is cut, or goes one on. -/
theorem divBankersRaw_eq_or (n d : ℤ) :
    divBankersRaw n d = n.tdiv d ∨ divBankersRaw n d = n.tdiv d + cutSign n d := by
  rw [divBankersRaw_eq_ite]
  split_ifs
  · exact Or.inr rfl
  · exact Or.inl rfl
  · exact Or.inr rfl
  · exact Or.inl rfl

/-- Whatever is compared, the quotient is off by less than one. -/
theorem abs_divBankersRaw_sub_le (hd : d ≠ 0) :
    |2 * (d * divBankersRaw n d - n)| ≤ 2 * |d| := by
  have hlt := abs_tmod_lt (n := n) hd
  rcases divBankersRaw_eq_or n d with h | h
  · rw [h, abs_cut_sub]
    omega
  · rw [h, abs_next_sub hd]
    have := abs_nonneg (n.tmod d)
    omega

/-- Where both sides of the comparison wrap, or neither does, the rounding is the exact one. -/
theorem divBankersRaw_of_compares (hfits : Fits d) (hd : d ≠ 0) (h : Compares n d) :
    divBankersRaw n d = roundHalfEven n d := by
  have hlt := abs_tmod_lt (n := n) hd
  have hnonneg := abs_nonneg (n.tmod d)
  rw [Compares] at h
  split_ifs at h with hleast
  · have habs : |d| = 2 ^ 127 := by
      rw [hleast]
      rfl
    have hdivisor : wrapI128 |d| = |d| - 2 ^ 128 := by
      rw [habs]
      rfl
    have hdouble : wrapI128 (|n.tmod d| * 2) = |n.tmod d| * 2 - 2 ^ 128 := by
      rw [wrapI128]
      omega
    rw [divBankersRaw, roundHalfEven, hdivisor, hdouble]
    simp only [sub_lt_sub_iff_right]
  · have hdivisor : wrapI128 |d| = |d| :=
      wrapI128_of_abs_lt (by rw [abs_abs]; exact abs_lt_of_fits hfits hleast)
    have hdouble : wrapI128 (|n.tmod d| * 2) = |n.tmod d| * 2 :=
      wrapI128_of_abs_lt (by rw [abs_of_nonneg (by omega)]; omega)
    rw [divBankersRaw, roundHalfEven, hdivisor, hdouble]

/-- Otherwise the quotient goes the wrong way. -/
theorem not_isNearestEven_of_not_compares (hfits : Fits d) (hd : d ≠ 0) (h : ¬Compares n d) :
    ¬IsNearestEven n d (divBankersRaw n d) := by
  have hlt := abs_tmod_lt (n := n) hd
  have hnonneg := abs_nonneg (n.tmod d)
  rw [Compares] at h
  split_ifs at h with hleast
  · have habs : |d| = 2 ^ 127 := by
      rw [hleast]
      rfl
    have hdivisor : wrapI128 |d| = -2 ^ 127 := by
      rw [habs]
      rfl
    have hdouble : wrapI128 (|n.tmod d| * 2) = |n.tmod d| * 2 :=
      wrapI128_of_abs_lt (by rw [abs_of_nonneg (by omega)]; omega)
    have hnext : divBankersRaw n d = n.tdiv d + cutSign n d := by
      rw [divBankersRaw_eq_ite, hdivisor, hdouble, if_pos (by omega)]
    rw [hnext, isNearestEven_next_iff hd, habs]
    omega
  · have habs := abs_lt_of_fits hfits hleast
    have hdivisor : wrapI128 |d| = |d| := wrapI128_of_abs_lt (by rwa [abs_abs])
    have hdouble : wrapI128 (|n.tmod d| * 2) = |n.tmod d| * 2 - 2 ^ 128 := by
      rw [wrapI128]
      omega
    have hcut : divBankersRaw n d = n.tdiv d := by
      rw [divBankersRaw_eq_ite, hdivisor, hdouble, if_neg (by omega), if_pos (by omega)]
    rw [hcut, isNearestEven_cut_iff]
    omega

theorem isNearestEven_divBankersRaw_iff (hfits : Fits d) (hd : d ≠ 0) :
    IsNearestEven n d (divBankersRaw n d) ↔ Compares n d := by
  constructor
  · intro hnear
    by_contra h
    exact not_isNearestEven_of_not_compares hfits hd h hnear
  · intro h
    rw [divBankersRaw_of_compares hfits hd h]
    exact roundHalfEven_isNearestEven hd

/-- A quotient of what a numerator wraps to is not the quotient of the numerator. -/
theorem fits_of_isNearestEven (hfits : Fits d) (hd : d ≠ 0)
    (h : IsNearestEven n d (divBankersRaw (wrapI128 n) d)) : Fits n := by
  by_contra hout
  have hwrapped := abs_divBankersRaw_sub_le (n := wrapI128 n) hd
  have hbound := abs_le_of_fits hfits
  have hgap := two_pow_le_abs_wrapI128_sub hout
  have hnear := h.near
  generalize divBankersRaw (wrapI128 n) d = v at hwrapped hnear
  have htriangle : |2 * (wrapI128 n - n)| ≤ |2 * (d * v - n)| + |2 * (d * v - wrapI128 n)| := by
    rw [show 2 * (wrapI128 n - n) = 2 * (d * v - n) - 2 * (d * v - wrapI128 n) by ring]
    exact abs_sub _ _
  rw [abs_mul 2 (wrapI128 n - n), abs_two] at htriangle
  omega

end Quotients

/-! ### The three operations -/

/-- The division of an integer of 128 bits does not trap, and its comparison is right. -/
def RoundsRight (numerator denominator : ℤ) : Prop :=
  ¬(numerator = -2 ^ 127 ∧ denominator = -1) ∧ Compares numerator denominator

instance (n d : ℤ) : Decidable (RoundsRight n d) := inferInstanceAs (Decidable (_ ∧ _))

theorem checkedDivBankersRaw_iff {n d : ℤ} (hfits : Fits d) (hd : d ≠ 0) :
    (∃ v, checkedDivBankersRaw n d = some v ∧ RoundsTo (n / d) v) ↔ RoundsRight n d := by
  rw [checkedDivBankersRaw, RoundsRight]
  simp only [hd, false_or]
  split_ifs with htrap
  · simp [htrap]
  · simp only [Option.some.injEq, exists_eq_left', roundsTo_div_iff hd,
      isNearestEven_divBankersRaw_iff hfits hd]
    tauto

theorem checkedMulBankers_iff (a b : ℤ) :
    (∃ v, checkedMulBankers a b = some v ∧ RoundsTo ((a * b : ℤ) / scale) v) ↔ Fits (a * b) := by
  have hscale : Fits scale := by decide
  have hne : scale ≠ 0 := by decide
  simp only [checkedMulBankers_eq, Option.some.injEq, exists_eq_left', mulBankers]
  rw [roundsTo_div_iff hne]
  constructor
  · exact fits_of_isNearestEven hscale hne
  · intro h
    rw [wrapI128_of_fits h, isNearestEven_divBankersRaw_iff hscale hne, Compares,
      if_neg (by decide)]
    have hlt := abs_tmod_lt (n := a * b) hne
    have habs : |scale| = 10000 := rfl
    omega

/-- A decimal divided by zero is an error; else it is right where the scaled numerator fits, and
the quotient rounds as it should. -/
theorem checkedDivBankers_iff {a d : ℤ} (hfits : Fits d) :
    (∃ r, checkedDivBankers a d = some r ∧ ∀ v, r = .ok v → RoundsTo ((a * scale : ℤ) / d) v) ↔
      d = 0 ∨ Fits (a * scale) ∧ RoundsRight (a * scale) d := by
  rw [checkedDivBankers]
  split_ifs with hd
  · simp [hd]
  · simp only [hd, false_or]
    rw [← checkedDivBankersRaw_iff hfits hd]
    constructor
    · rintro ⟨r, hr, hright⟩
      obtain ⟨v, hv, rfl⟩ := Option.map_eq_some_iff.mp hr
      have hround := hright v rfl
      have hv' := hv
      rw [checkedDivBankersRaw] at hv'
      split_ifs at hv'
      cases hv'
      have hin := fits_of_isNearestEven hfits hd ((roundsTo_div_iff hd).mp hround)
      rw [wrapI128_of_fits hin] at hv hround
      exact ⟨hin, _, hv, hround⟩
    · rintro ⟨hin, v, hv, hround⟩
      rw [wrapI128_of_fits hin, hv]
      refine ⟨.ok v, rfl, fun w hw => ?_⟩
      cases hw
      exact hround

/-- Exactly where the raw quotient, the product and the quotient of two decimals are the rational
ones rounded to the nearest integer, halves to the even one. -/
theorem bankers_rounding_iff (a b : Signed 128) :
    (b.val ≠ 0 → ((∃ v, checkedDivBankersRaw a.val b.val = some v ∧
      RoundsTo ((a.val : ℚ) / b.val) v) ↔ RoundsRight a.val b.val)) ∧
    ((∃ v, checkedMulBankers a.val b.val = some v ∧
      RoundsTo ((a.val * b.val : ℤ) / scale) v) ↔ Fits (a.val * b.val)) ∧
    ((∃ r, checkedDivBankers a.val b.val = some r ∧
      ∀ v, r = .ok v → RoundsTo ((a.val * scale : ℤ) / b.val) v) ↔
        b.val = 0 ∨ Fits (a.val * scale) ∧ RoundsRight (a.val * scale) b.val) :=
  ⟨checkedDivBankersRaw_iff (fits_signed b), checkedMulBankers_iff a.val b.val,
    checkedDivBankers_iff (fits_signed b)⟩

theorem halves_of_five :
    (∃ v, checkedDivBankersRaw 5 (-2) = some v ∧ RoundsTo (((5 : ℤ) : ℚ) / ((-2 : ℤ) : ℚ)) v) ∧
      checkedDivBankersRaw 5 (-2) = some (-2) :=
  ⟨((bankers_rounding_iff ⟨5, by decide⟩ ⟨-2, by decide⟩).1 (by decide)).mpr (by decide),
    by decide⟩

/-- A quotient of almost one is cut to zero, zero by the least divisor is minus one, and a product
of `2 ^ 128` scaled units is zero. -/
theorem wrapped_quotients :
    (checkedDivBankersRaw (2 ^ 126) (2 ^ 126 + 1) = some 0 ∧
      ¬RoundsTo (((2 ^ 126 : ℤ) : ℚ) / ((2 ^ 126 + 1 : ℤ) : ℚ)) 0) ∧
    (checkedDivBankersRaw 0 (-2 ^ 127) = some (-1) ∧
      ¬RoundsTo (((0 : ℤ) : ℚ) / ((-2 ^ 127 : ℤ) : ℚ)) (-1)) ∧
    (checkedMulBankers (2 ^ 64) (2 ^ 64) = some 0 ∧
      ¬RoundsTo (((2 ^ 64 * 2 ^ 64 : ℤ) : ℚ) / scale) 0) := by
  refine ⟨⟨by decide, ?_⟩, ⟨by decide, ?_⟩, by decide, ?_⟩
  · rw [roundsTo_div_iff (by decide)]
    exact fun h => absurd h.near (by decide)
  · rw [roundsTo_div_iff (by decide)]
    exact fun h => absurd h.near (by decide)
  · rw [roundsTo_div_iff (by decide)]
    exact fun h => absurd h.near (by decide)

end MetriEngine.Storage.FinancialLedger.FixedDecimal128

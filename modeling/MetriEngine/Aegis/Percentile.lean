import MetriEngine.Aegis.Aggregation
import MetriEngine.Foundation.Ranks

/-!
# Percentiles

A percentile is the sorted value at the index `⌊p n⌋`. The nearest rank is one place lower where
`p n` is an integer, so the two differ where a value has exactly the fraction `p` of the values
at or below it. Numbers are exact here.
-/
namespace MetriEngine.Aegis
open Foundation Ranks Eav

section Any
variable {V : Type} [Doubles V]
open Doubles

/-- `percentile_nearest_rank`, at a fraction that need not be a double. -/
def nearestRank (sorted : List V) (p : V) : Option V :=
  sorted[Nat.min (floor (mul p (ofNat sorted.length) : V)) (sorted.length - 1)]?

/-- `PercentileStrategy::compute` -/
def percentileAt (p : V) (vals : List V) : V := (nearestRank (sortedValues vals) p).getD (ofNat 0)

end Any

/-- The number that a finite double stands for. -/
def exactValue (d : F64) : ℚ :=
  (if d.bits.msb then -1 else 1) * d.mantissa * 2 ^ ((max d.exponent 1 : ℤ) - 1075)

/-- Exact arithmetic; roots are taken of integers only. -/
@[reducible] def rationals : Doubles ℚ where
  ofF64 := exactValue
  ofNat n := n
  emptySum := 0
  add := (· + ·)
  sub := (· - ·)
  mul := (· * ·)
  div := (· / ·)
  square x := x * x
  sqrt x := x.num.toNat.sqrt
  lt a b := decide (a < b)
  le a b := decide (a ≤ b)
  eq a b := decide (a = b)
  floor x := ⌊x⌋₊
  toJson _ := .null

attribute [local instance] rationals

theorem sortedValues_pairwise (vals : List ℚ) : (sortedValues vals).Pairwise (· ≤ ·) := by
  have hle : ∀ a b : ℚ, decide (b < a) = false ↔ a ≤ b := by simp
  have htotal : Std.Total fun a b : ℚ => decide (b < a) = false :=
    ⟨fun a b => by simpa only [hle] using le_total a b⟩
  have htrans : IsTrans ℚ fun a b => decide (b < a) = false :=
    ⟨fun a b c hab hbc => (hle a c).mpr (((hle a b).mp hab).trans ((hle b c).mp hbc))⟩
  have hsorted := List.pairwise_insertionSort (fun a b : ℚ => decide (b < a) = false) vals
  exact hsorted.imp fun hab => (hle _ _).mp hab

theorem sortedValues_perm (vals : List ℚ) : (sortedValues vals).Perm vals :=
  List.perm_insertionSort _ _

/-- The index at which a percentile stands. -/
def rankIndex (p : ℚ) (vals : List ℚ) : ℕ := min ⌊p * vals.length⌋₊ (vals.length - 1)

theorem rankIndex_lt (p : ℚ) {vals : List ℚ} (hne : vals ≠ []) :
    rankIndex p vals < (sortedValues vals).length := by
  have hpos := List.length_pos_iff.mpr hne
  rw [(sortedValues_perm vals).length_eq, rankIndex]
  omega

theorem percentileAt_eq {p : ℚ} {vals : List ℚ}
    (hindexed : rankIndex p vals < (sortedValues vals).length) :
    percentileAt p vals = (sortedValues vals)[rankIndex p vals] := by
  have hlength := (sortedValues_perm vals).length_eq
  have hindex : Nat.min ⌊p * (sortedValues vals).length⌋₊ ((sortedValues vals).length - 1) =
      rankIndex p vals := by
    rw [hlength]
    rfl
  change ((sortedValues vals)[Nat.min ⌊p * (sortedValues vals).length⌋₊
    ((sortedValues vals).length - 1)]?).getD 0 = _
  rw [hindex, List.getElem?_eq_getElem hindexed, Option.getD_some]

/-- What the name of the aggregation promises at a fraction: the nearest rank, a value that grows
with the fraction, and the same one for every order of the rows. -/
structure NearestRankAt (p : ℚ) (vals : List ℚ) : Prop where
  rank : IsNearestRank p vals (percentileAt p vals)
  mono : ∀ q, p ≤ q → q ≤ 1 → percentileAt p vals ≤ percentileAt q vals
  order : ∀ rows : List ℚ, rows.Perm vals → percentileAt p rows = percentileAt p vals

theorem percentileAt_mono {p q : ℚ} (h : p ≤ q) {vals : List ℚ} (hne : vals ≠ []) :
    percentileAt p vals ≤ percentileAt q vals := by
  have hproduct : p * vals.length ≤ q * vals.length :=
    mul_le_mul_of_nonneg_right h (Nat.cast_nonneg _)
  have hindex : rankIndex p vals ≤ rankIndex q vals :=
    min_le_min_right _ (Nat.floor_le_floor hproduct)
  rw [percentileAt_eq (rankIndex_lt p hne), percentileAt_eq (rankIndex_lt q hne)]
  rcases eq_or_lt_of_le hindex with heq | hlt
  · exact (getElem_congr_idx heq).le
  · exact List.pairwise_iff_getElem.mp (sortedValues_pairwise vals) _ _ _ _ hlt

theorem percentileAt_perm (p : ℚ) {rows vals : List ℚ} (h : rows.Perm vals) :
    percentileAt p rows = percentileAt p vals := by
  have hsorted : sortedValues rows = sortedValues vals := by
    refine List.Perm.eq_of_pairwise' (sortedValues_pairwise rows) (sortedValues_pairwise vals) ?_
    exact ((sortedValues_perm rows).trans h).trans (sortedValues_perm vals).symm
  unfold percentileAt
  rw [hsorted]

end MetriEngine.Aegis

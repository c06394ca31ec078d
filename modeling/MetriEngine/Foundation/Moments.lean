import Mathlib.Algebra.BigOperators.Group.List.Basic
import Mathlib.Data.Nat.Choose.Sum
import Mathlib.Algebra.Order.Field.Basic
import Mathlib.Data.Rat.Cast.CharZero
import Mathlib.Tactic.FieldSimp
import Mathlib.Tactic.Linarith
import Mathlib.Tactic.Ring

/-!
# Moments of lists

A moment sums powers of deviations from a mean, or products of two deviations. Power sums
determine the moments and add up over a concatenation, so the moments of two lists give those
of the whole, and one element more changes them by what it deviates.
-/
namespace MetriEngine.Foundation

variable {α K : Type*} [Field K]

/-! ### Sums -/

def total (f : α → K) (xs : List α) : K := (xs.map f).sum

@[simp] theorem total_nil (f : α → K) : total f [] = 0 := rfl

@[simp] theorem total_cons (f : α → K) (a : α) (xs : List α) : total f (a :: xs) = f a + total f xs :=
  List.sum_cons

@[simp] theorem total_append (f : α → K) (xs ys : List α) :
    total f (xs ++ ys) = total f xs + total f ys := by
  rw [total, List.map_append, List.sum_append, total, total]

/-- Deviations from any two numbers, multiplied out. -/
theorem total_deviations (f g : α → K) (c d : K) (xs : List α) :
    total (fun a => (f a - c) * (g a - d)) xs =
      total (fun a => f a * g a) xs - c * total g xs - d * total f xs + xs.length * (c * d) := by
  induction xs with
  | nil => simp
  | cons a xs ih =>
    rw [total_cons, total_cons, total_cons, total_cons, ih, List.length_cons]
    push_cast
    ring

theorem total_one (xs : List α) : total (fun _ => (1 : K)) xs = xs.length := by
  simp [total]

/-- A power of the deviations from any number, multiplied out. -/
theorem total_pow_deviations (f : α → K) (c : K) (p : ℕ) (xs : List α) :
    total (fun a => (f a - c) ^ p) xs =
      ∑ i ∈ Finset.range (p + 1), total (fun a => f a ^ i) xs * ((-c) ^ (p - i) * p.choose i) := by
  induction xs with
  | nil => simp
  | cons a xs ih =>
    rw [total_cons, ih, sub_eq_add_neg, add_pow, ← Finset.sum_add_distrib]
    simp only [total_cons, add_mul, mul_assoc]

/-- A fold of an associative operation that starts from its identity splits. -/
theorem foldl_append_of_assoc {β : Type*} {op : β → β → β} {e : β}
    (hassoc : ∀ a b c, op (op a b) c = op a (op b c)) (hid : ∀ b, op b e = b) (h : α → β)
    (xs ys : List α) :
    (xs ++ ys).foldl (fun b a => op b (h a)) e =
      op (xs.foldl (fun b a => op b (h a)) e) (ys.foldl (fun b a => op b (h a)) e) := by
  induction ys using List.reverseRecOn with
  | nil => rw [List.append_nil, List.foldl_nil, hid]
  | append_singleton ys a ih =>
    rw [← List.append_assoc, List.foldl_concat, ih, List.foldl_concat, hassoc]

/-! ### Means and products of deviations -/

/-- The mean of no elements is zero. -/
def mean (f : α → K) (xs : List α) : K := total f xs / xs.length

@[simp] theorem mean_nil (f : α → K) : mean f [] = 0 := by simp [mean]

def coMoment (f g : α → K) (xs : List α) : K :=
  total (fun a => (f a - mean f xs) * (g a - mean g xs)) xs

@[simp] theorem coMoment_nil (f g : α → K) : coMoment f g [] = 0 := rfl

theorem coMoment_comm (f g : α → K) (xs : List α) : coMoment f g xs = coMoment g f xs := by
  unfold coMoment
  congr 1
  funext a
  exact mul_comm _ _

section CharZero
variable [CharZero K]

theorem length_mul_mean (f : α → K) (xs : List α) : xs.length * mean f xs = total f xs := by
  cases xs with
  | nil => simp
  | cons a xs =>
    have hne : (((a :: xs).length : ℕ) : K) ≠ 0 := Nat.cast_ne_zero.mpr (Nat.succ_ne_zero _)
    rw [mean, mul_div_cancel₀ _ hne]

theorem coMoment_eq (f g : α → K) (xs : List α) :
    coMoment f g xs = total (fun a => f a * g a) xs - xs.length * (mean f xs * mean g xs) := by
  rw [coMoment, total_deviations, ← length_mul_mean f, ← length_mul_mean g]
  ring

/-- A number of two summands is zero only where both are. -/
theorem cast_add_ne_zero {m n : ℕ} (h : m ≠ 0) : (m : K) + n ≠ 0 := by
  rw [← Nat.cast_add]
  exact Nat.cast_ne_zero.mpr (by omega)

theorem mean_append (f : α → K) {xs : List α} (hne : xs ≠ []) (ys : List α) :
    mean f (xs ++ ys) = mean f xs + (mean f ys - mean f xs) * (ys.length / (xs.length + ys.length)) := by
  have hlength : (xs.length : K) + ys.length ≠ 0 :=
    cast_add_ne_zero fun h => hne (List.length_eq_zero_iff.mp h)
  rw [mean, total_append, ← length_mul_mean f xs, ← length_mul_mean f ys, List.length_append,
    Nat.cast_add]
  field_simp
  ring

/-- The products of deviations of two lists, with the distance of their means weighed in. -/
theorem coMoment_append (f g : α → K) {xs : List α} (hne : xs ≠ []) (ys : List α) :
    coMoment f g (xs ++ ys) = coMoment f g xs + coMoment f g ys +
      (mean f ys - mean f xs) * (mean g ys - mean g xs) *
        (xs.length * ys.length / (xs.length + ys.length)) := by
  have hlength : (xs.length : K) + ys.length ≠ 0 :=
    cast_add_ne_zero fun h => hne (List.length_eq_zero_iff.mp h)
  rw [coMoment_eq, coMoment_eq, coMoment_eq, mean_append f hne, mean_append g hne, total_append,
    List.length_append, Nat.cast_add]
  field_simp
  ring

theorem mean_concat (f : α → K) (xs : List α) (a : α) :
    mean f (xs ++ [a]) = mean f xs + (f a - mean f xs) / (xs.length + 1) := by
  have hlength : (xs.length : K) + 1 ≠ 0 := Nat.cast_add_one_ne_zero _
  rw [mean, total_append, ← length_mul_mean f xs, List.length_append, Nat.cast_add,
    List.length_singleton, Nat.cast_one, total_cons, total_nil]
  field_simp
  ring

/-- One element more adds its deviation from the old mean times its deviation from the new. -/
theorem coMoment_concat (f g : α → K) (xs : List α) (a : α) :
    coMoment f g (xs ++ [a]) =
      coMoment f g xs + (f a - mean f xs) * (g a - mean g (xs ++ [a])) := by
  have hlength : (xs.length : K) + 1 ≠ 0 := Nat.cast_add_one_ne_zero _
  rw [coMoment_eq, coMoment_eq, mean_concat f, mean_concat g, total_append, List.length_append,
    Nat.cast_add, List.length_singleton, Nat.cast_one, total_cons, total_nil]
  field_simp
  ring

end CharZero

/-! ### Two groups in one -/

/-- The mean of two groups from their sizes and means. -/
def combinedMean (m n : ℕ) (x y : K) : K := x + (y - x) * (n / (m + n))

/-- The products of deviations of two groups in one, from those of either and the means. -/
def combinedCoMoment (m n : ℕ) (x y u v p q : K) : K :=
  p + q + (y - x) * (v - u) * (m * n / (m + n))

section Combined
variable [CharZero K] {l m n : ℕ}

theorem combinedMean_assoc (hl : l ≠ 0) (hm : m ≠ 0) (x y z : K) :
    combinedMean (l + m) n (combinedMean l m x y) z =
      combinedMean l (m + n) x (combinedMean m n y z) := by
  have hlm : (l : K) + m ≠ 0 := cast_add_ne_zero hl
  have hmn : (m : K) + n ≠ 0 := cast_add_ne_zero hm
  have hlmn : (l : K) + m + n ≠ 0 := by
    rw [← Nat.cast_add]
    exact cast_add_ne_zero (by omega)
  have hlmn' : (l : K) + (m + n) ≠ 0 := by rwa [← add_assoc]
  simp only [combinedMean, Nat.cast_add]
  field_simp
  ring

theorem combinedCoMoment_assoc (hl : l ≠ 0) (hm : m ≠ 0) (x y z u v w p q r : K) :
    combinedCoMoment (l + m) n (combinedMean l m x y) z (combinedMean l m u v) w
        (combinedCoMoment l m x y u v p q) r =
      combinedCoMoment l (m + n) x (combinedMean m n y z) u (combinedMean m n v w) p
        (combinedCoMoment m n y z v w q r) := by
  have hlm : (l : K) + m ≠ 0 := cast_add_ne_zero hl
  have hmn : (m : K) + n ≠ 0 := cast_add_ne_zero hm
  have hlmn : (l : K) + m + n ≠ 0 := by
    rw [← Nat.cast_add]
    exact cast_add_ne_zero (by omega)
  have hlmn' : (l : K) + (m + n) ≠ 0 := by rwa [← add_assoc]
  simp only [combinedCoMoment, combinedMean, Nat.cast_add]
  field_simp
  ring

end Combined

/-! ### Powers of deviations -/

/-- How many numbers, their mean, and the sums of the powers of their deviations. -/
@[ext] structure CentralMoments (K : Type*) where
  count : ℕ
  mean : K
  m2 : K
  m3 : K
  m4 : K
deriving DecidableEq

/-- The sums of the powers of the numbers themselves. -/
@[ext] structure PowerSums (K : Type*) where
  count : ℕ
  s1 : K
  s2 : K
  s3 : K
  s4 : K

namespace PowerSums

def add (p q : PowerSums K) : PowerSums K where
  count := p.count + q.count
  s1 := p.s1 + q.s1
  s2 := p.s2 + q.s2
  s3 := p.s3 + q.s3
  s4 := p.s4 + q.s4

theorem add_assoc (p q r : PowerSums K) : (p.add q).add r = p.add (q.add r) := by
  ext <;> simp only [add, AddSemigroup.add_assoc]

theorem add_comm (p q : PowerSums K) : p.add q = q.add p := by
  ext <;> simp only [add, AddCommMagma.add_comm]

def ofList (xs : List K) : PowerSums K where
  count := xs.length
  s1 := total (fun x => x) xs
  s2 := total (fun x => x ^ 2) xs
  s3 := total (fun x => x ^ 3) xs
  s4 := total (fun x => x ^ 4) xs

theorem ofList_append (xs ys : List K) : ofList (xs ++ ys) = (ofList xs).add (ofList ys) := by
  ext <;> simp [ofList, add]

end PowerSums

namespace CentralMoments

def ofList (xs : List K) : CentralMoments K where
  count := xs.length
  mean := Foundation.mean (fun x => x) xs
  m2 := total (fun x => (x - Foundation.mean (fun x => x) xs) ^ 2) xs
  m3 := total (fun x => (x - Foundation.mean (fun x => x) xs) ^ 3) xs
  m4 := total (fun x => (x - Foundation.mean (fun x => x) xs) ^ 4) xs

/-- The power sums that have these moments. -/
def powerSums (m : CentralMoments K) : PowerSums K where
  count := m.count
  s1 := m.count * m.mean
  s2 := m.m2 + m.count * m.mean ^ 2
  s3 := m.m3 + 3 * m.mean * m.m2 + m.count * m.mean ^ 3
  s4 := m.m4 + 4 * m.mean * m.m3 + 6 * m.mean ^ 2 * m.m2 + m.count * m.mean ^ 4

/-- The moments of two lists in one. -/
def combine (a b : CentralMoments K) : CentralMoments K where
  count := a.count + b.count
  mean := a.mean + (b.mean - a.mean) * (b.count / (a.count + b.count))
  m2 := a.m2 + b.m2 + (b.mean - a.mean) ^ 2 * (a.count * b.count / (a.count + b.count))
  m3 := a.m3 + b.m3 +
    (b.mean - a.mean) ^ 3 * (a.count * b.count * (a.count - b.count) / (a.count + b.count) ^ 2) +
    3 * (b.mean - a.mean) * ((a.count * b.m2 - b.count * a.m2) / (a.count + b.count))
  m4 := a.m4 + b.m4 +
    (b.mean - a.mean) ^ 4 * (a.count * b.count *
      (a.count ^ 2 - a.count * b.count + b.count ^ 2) / (a.count + b.count) ^ 3) +
    6 * (b.mean - a.mean) ^ 2 *
      ((a.count ^ 2 * b.m2 + b.count ^ 2 * a.m2) / (a.count + b.count) ^ 2) +
    4 * (b.mean - a.mean) * ((a.count * b.m3 - b.count * a.m3) / (a.count + b.count))

/-- The moments with one number more. -/
def push (m : CentralMoments K) (x : K) : CentralMoments K :=
  let k : K := m.count + 1
  let delta := x - m.mean
  let step := delta / k
  { count := m.count + 1
    mean := m.mean + step
    m2 := m.m2 + delta * step * (k - 1)
    m3 := m.m3 + delta * step * (k - 1) * step * (k - 2) - 3 * step * m.m2
    m4 := m.m4 + delta * step * (k - 1) * step ^ 2 * (k ^ 2 - 3 * k + 3) + 6 * step ^ 2 * m.m2 -
      4 * step * m.m3 }

theorem combine_count_ne_zero {a : CentralMoments K} (ha : a.count ≠ 0) (b : CentralMoments K) :
    (a.combine b).count ≠ 0 :=
  Nat.ne_of_gt (Nat.add_pos_left (Nat.pos_of_ne_zero ha) _)

section CharZero
variable [CharZero K]

theorem powerSums_ofList (xs : List K) : (ofList xs).powerSums = PowerSums.ofList xs := by
  have hmean := length_mul_mean (fun x : K => x) xs
  ext
  · rfl
  · exact hmean
  all_goals
    simp only [powerSums, ofList, PowerSums.ofList, total_pow_deviations, Finset.sum_range_succ,
      Finset.sum_range_zero, pow_zero, pow_one, total_one, ← hmean]
    norm_num [Nat.choose]
    ring

/-- Of some numbers at least, the power sums determine the moments. -/
theorem eq_of_powerSums {a b : CentralMoments K} (hne : a.count ≠ 0)
    (h : a.powerSums = b.powerSums) : a = b := by
  obtain ⟨n, mean, m2, m3, m4⟩ := a
  obtain ⟨n', mean', m2', m3', m4'⟩ := b
  simp only [powerSums, PowerSums.mk.injEq] at h
  obtain ⟨rfl, h1, h2, h3, h4⟩ := h
  have hn : (n : K) ≠ 0 := Nat.cast_ne_zero.mpr hne
  obtain rfl : mean = mean' := mul_left_cancel₀ hn h1
  obtain rfl : m2 = m2' := add_right_cancel h2
  obtain rfl : m3 = m3' := add_right_cancel (add_right_cancel h3)
  obtain rfl : m4 = m4' := add_right_cancel (add_right_cancel (add_right_cancel h4))
  rfl

theorem powerSums_combine {a b : CentralMoments K} (hne : a.count ≠ 0) :
    (a.combine b).powerSums = a.powerSums.add b.powerSums := by
  have hcount : (a.count : K) + b.count ≠ 0 := cast_add_ne_zero hne
  ext
  · rfl
  all_goals
    simp only [powerSums, combine, PowerSums.add]
    push_cast
    field_simp
    ring

theorem powerSums_push (m : CentralMoments K) (x : K) :
    (m.push x).powerSums = m.powerSums.add (PowerSums.ofList [x]) := by
  have hcount : (m.count : K) + 1 ≠ 0 := Nat.cast_add_one_ne_zero _
  ext
  · rfl
  all_goals
    simp only [powerSums, push, PowerSums.add, PowerSums.ofList, total_cons, total_nil]
    push_cast
    field_simp
    ring

theorem combine_assoc {a b : CentralMoments K} (ha : a.count ≠ 0) (hb : b.count ≠ 0)
    (c : CentralMoments K) : (a.combine b).combine c = a.combine (b.combine c) := by
  have hab := combine_count_ne_zero ha b
  apply eq_of_powerSums (combine_count_ne_zero hab c)
  rw [powerSums_combine hab, powerSums_combine ha, powerSums_combine ha, powerSums_combine hb,
    PowerSums.add_assoc]

theorem combine_comm {a b : CentralMoments K} (ha : a.count ≠ 0) (hb : b.count ≠ 0) :
    a.combine b = b.combine a := by
  apply eq_of_powerSums (combine_count_ne_zero ha b)
  rw [powerSums_combine ha, powerSums_combine hb, PowerSums.add_comm]

/-- The moments of a concatenation are those of its parts, combined. -/
theorem ofList_append {xs : List K} (hne : xs ≠ []) (ys : List K) :
    ofList (xs ++ ys) = (ofList xs).combine (ofList ys) := by
  have hcount : (ofList xs).count ≠ 0 := fun h => hne (List.length_eq_zero_iff.mp h)
  have hwhole : (ofList (xs ++ ys)).count ≠ 0 := fun h =>
    hne (List.append_eq_nil_iff.mp (List.length_eq_zero_iff.mp h)).1
  apply eq_of_powerSums hwhole
  rw [powerSums_combine hcount, powerSums_ofList, powerSums_ofList, powerSums_ofList,
    PowerSums.ofList_append]

theorem ofList_concat (xs : List K) (x : K) : ofList (xs ++ [x]) = (ofList xs).push x := by
  have hwhole : (ofList (xs ++ [x])).count ≠ 0 := fun h =>
    List.cons_ne_nil x [] (List.append_eq_nil_iff.mp (List.length_eq_zero_iff.mp h)).2
  apply eq_of_powerSums hwhole
  rw [powerSums_push, powerSums_ofList, powerSums_ofList, PowerSums.ofList_append]

/-- One number after the other, starting from none. -/
theorem foldl_push (xs : List K) : xs.foldl push (ofList []) = ofList xs := by
  induction xs using List.reverseRecOn with
  | nil => rfl
  | append_singleton xs x ih => rw [List.foldl_concat, ih, ofList_concat]

end CharZero
end CentralMoments

/-! ### Means in an order -/

section Ordered
variable [LinearOrder K] [IsStrictOrderedRing K]

theorem mean_le {f : α → K} {xs : List α} {c : K} (hne : xs ≠ []) (h : ∀ a ∈ xs, f a ≤ c) :
    mean f xs ≤ c := by
  have hlength : (0 : K) < xs.length := Nat.cast_pos.mpr (List.length_pos_iff.mpr hne)
  have hsum := List.sum_le_card_nsmul (xs.map f) c fun y hy => by
    obtain ⟨a, ha, rfl⟩ := List.mem_map.mp hy
    exact h a ha
  rw [List.length_map, nsmul_eq_mul, mul_comm] at hsum
  exact (div_le_iff₀ hlength).mpr hsum

theorem le_mean {f : α → K} {xs : List α} {c : K} (hne : xs ≠ []) (h : ∀ a ∈ xs, c ≤ f a) :
    c ≤ mean f xs := by
  have hlength : (0 : K) < xs.length := Nat.cast_pos.mpr (List.length_pos_iff.mpr hne)
  have hsum := List.card_nsmul_le_sum (xs.map f) c fun y hy => by
    obtain ⟨a, ha, rfl⟩ := List.mem_map.mp hy
    exact h a ha
  rw [List.length_map, nsmul_eq_mul, mul_comm] at hsum
  exact (le_div_iff₀ hlength).mpr hsum

/-- Of two lists one above the other, so are the means. -/
theorem mean_lt_mean {f : α → K} {xs ys : List α} (hx : xs ≠ []) (hy : ys ≠ [])
    (h : ∀ a ∈ xs, ∀ b ∈ ys, f a < f b) : mean f xs < mean f ys := by
  obtain ⟨a, ha, hgreatest⟩ := Multiset.exists_max_image f (s := ↑xs) (by simpa using hx)
  obtain ⟨b, hb, hleast⟩ := Multiset.exists_min_image f (s := ↑ys) (by simpa using hy)
  calc mean f xs ≤ f a := mean_le hx hgreatest
    _ < f b := h a ha b hb
    _ ≤ mean f ys := le_mean hy hleast

theorem coMoment_self_nonneg (f : α → K) (xs : List α) : 0 ≤ coMoment f f xs := by
  apply List.sum_nonneg
  intro y hy
  obtain ⟨a, _, rfl⟩ := List.mem_map.mp hy
  exact mul_self_nonneg _

/-- Elements with another mean add to the squares of the deviations. -/
theorem coMoment_self_lt_append {f : α → K} {xs ys : List α} (hx : xs ≠ []) (hy : ys ≠ [])
    (hmean : mean f xs ≠ mean f ys) : coMoment f f xs < coMoment f f (xs ++ ys) := by
  have hxs : (0 : K) < xs.length := Nat.cast_pos.mpr (List.length_pos_iff.mpr hx)
  have hys : (0 : K) < ys.length := Nat.cast_pos.mpr (List.length_pos_iff.mpr hy)
  have hdelta : 0 < (mean f ys - mean f xs) * (mean f ys - mean f xs) :=
    mul_self_pos.mpr (sub_ne_zero.mpr hmean.symm)
  have hweight : (0 : K) < xs.length * ys.length / (xs.length + ys.length) := by positivity
  have hcross := mul_pos hdelta hweight
  have hrest := coMoment_self_nonneg f ys
  rw [coMoment_append f f hx]
  linarith

end Ordered

end MetriEngine.Foundation

import MetriEngine.Foundation.LargestRemainder
import MetriEngine.Storage.FinancialLedger

/-!
# Costs spread over weights

The absolute total is apportioned by largest remainders and the sign is put back. Products are
unsigned and 128 bits wide.
-/
namespace MetriEngine.Storage.FinancialLedger.FixedDecimal128
open Foundation LargestRemainder

/-! ### The allocation -/

def signOf (total : ℤ) : ℤ := if total < 0 then -1 else 1

def quotaNumerator (absTotal w : ℕ) : ℕ := absTotal * w % 2 ^ 128

def hamiltonRemainders (absTotal : ℕ) (weights : List ℕ) : List (ℕ × ℕ) :=
  weights.zipIdx.map fun p => (p.2, quotaNumerator absTotal p.1 % weights.sum)

/-- Where no product wraps it is at most the number of weights; it is not narrowed here. -/
def hamiltonLeftover (absTotal : ℕ) (weights : List ℕ) : ℕ :=
  absTotal - (weights.map fun w => quotaNumerator absTotal w / weights.sum).sum

def allocateHamilton (total : ℤ) (weights : List ℕ) : Except DomainError (List ℤ) :=
  if weights.sum = 0 then
    .error (ledgerUnbalanced "Cannot allocate cost across zero total weights")
  else
    let sign := signOf total
    let absTotal := total.natAbs
    let shares := weights.map fun w =>
      wrapI128 (wrapI128 (quotaNumerator absTotal w / weights.sum : ℕ) * sign)
    let raised := (inOrder (hamiltonRemainders absTotal weights)).take
      (hamiltonLeftover absTotal weights)
    .ok (raised.foldl (fun shares r => shares.modify r.1 fun s => wrapI128 (s + sign)) shares)

/-! ### What it gives -/

/-- What is promised of the shares. -/
structure HamiltonShares (total : ℤ) (weights : List ℕ) (shares : List ℤ) : Prop where
  length : shares.length = weights.length
  sum : shares.sum = total
  near : ∀ (i w : ℕ) (s : ℤ), weights[i]? = some w → shares[i]? = some s →
    |s * weights.sum - total * w| < weights.sum
  sign : ∀ s ∈ shares, s = 0 ∨ s.sign = total.sign
  zero : ∀ (i : ℕ) (s : ℤ), weights[i]? = some 0 → shares[i]? = some s → s = 0
  ties : ∀ (i j w : ℕ) (s t : ℤ), i < j → weights[i]? = some w → weights[j]? = some w →
    shares[i]? = some s → shares[j]? = some t → |t| ≤ |s|

theorem getElem?_foldl_modify {α : Type*} (f : α → α) {places : List ℕ} (hnodup : places.Nodup)
    (l : List α) (i : ℕ) :
    (places.foldl (fun l p => l.modify p f) l)[i]? =
      if i ∈ places then l[i]?.map f else l[i]? := by
  induction places generalizing l with
  | nil => simp
  | cons p places ih =>
    obtain ⟨hp, hnodup⟩ := List.nodup_cons.mp hnodup
    rw [List.foldl_cons, ih hnodup, List.getElem?_modify]
    by_cases hi : i = p
    · subst hi
      simp [hp]
    · simp [hi, Ne.symm hi]

theorem signOf_eq (total : ℤ) : signOf total = -1 ∨ signOf total = 1 := by
  unfold signOf
  split_ifs <;> simp

theorem signOf_mul_natAbs (total : ℤ) : signOf total * total.natAbs = total := by
  unfold signOf
  split_ifs <;> omega

theorem sign_eq_signOf {total : ℤ} (h : total ≠ 0) : total.sign = signOf total := by
  unfold signOf
  split_ifs with hneg
  · exact Int.sign_eq_neg_one_of_neg hneg
  · exact Int.sign_eq_one_of_pos (by omega)

theorem abs_mul_signOf (z total : ℤ) : |z * signOf total| = |z| := by
  cases signOf_eq total with
  | inl h => rw [h, mul_neg_one, abs_neg]
  | inr h => rw [h, mul_one]

/-- Signed shares add up to the total as soon as their absolute values do. -/
theorem sum_mul_signOf {total : ℤ} {ns : List ℕ} (h : ns.sum = total.natAbs) :
    (ns.map fun n : ℕ => (n : ℤ) * signOf total).sum = total := by
  rw [List.sum_map_mul_right, ← Nat.cast_list_sum, h, mul_comm, signOf_mul_natAbs]

/-- A share near its quota is so with its sign. -/
theorem near_mul_signOf {total : ℤ} {n w W : ℕ} (hup : total.natAbs * w < W * (n + 1))
    (hdown : W * n < total.natAbs * w + W) : |(n : ℤ) * signOf total * W - total * w| < W := by
  have hsplit : (n : ℤ) * signOf total * W - total * w =
      (W * n - (total.natAbs : ℤ) * w) * signOf total := by
    have htotal := signOf_mul_natAbs total
    linear_combination (w : ℤ) * htotal
  have hup' : (total.natAbs : ℤ) * w < W * (n + 1) := by exact_mod_cast hup
  have hdown' : (W : ℤ) * n < total.natAbs * w + W := by exact_mod_cast hdown
  rw [hsplit, abs_mul_signOf, abs_lt]
  constructor <;> linarith

theorem sign_mul_signOf {total : ℤ} {n : ℕ} (hn : n ≤ total.natAbs) :
    (n : ℤ) * signOf total = 0 ∨ ((n : ℤ) * signOf total).sign = total.sign := by
  cases n with
  | zero => exact .inl (by simp)
  | succ n =>
    have hne : total ≠ 0 := by
      rintro rfl
      exact absurd hn (by simp)
    right
    rw [Int.sign_mul, Int.sign_eq_one_of_pos (by omega), one_mul, sign_eq_signOf hne]
    cases signOf_eq total with
    | inl h =>
      rw [h]
      rfl
    | inr h =>
      rw [h]
      rfl

theorem wrapI128_mul_sign (a total : ℤ) :
    wrapI128 (wrapI128 a * signOf total) = wrapI128 (a * signOf total) := by
  unfold wrapI128
  cases signOf_eq total with
  | inl h =>
    rw [h]
    omega
  | inr h =>
    rw [h]
    omega

/-- No part of a total leaves its range. -/
theorem wrapI128_part {total : ℤ} (hlow : -2 ^ 127 ≤ total) (hhigh : total < 2 ^ 127) {n : ℕ}
    (hn : n ≤ total.natAbs) : wrapI128 (n * signOf total) = n * signOf total := by
  unfold wrapI128 signOf
  split_ifs <;> omega

section Fits
variable {absTotal : ℕ} {weights : List ℕ} (hfits : ∀ w ∈ weights, absTotal * w < 2 ^ 128)
include hfits

theorem hamiltonRemainders_eq : hamiltonRemainders absTotal weights = entries absTotal weights := by
  apply List.map_congr_left
  intro p hp
  have hw : p.1 ∈ weights := List.mem_of_getElem? (List.mem_zipIdx_iff_getElem?.mp hp)
  rw [quotaNumerator, Nat.mod_eq_of_lt (hfits p.1 hw), remainder]

theorem hamiltonLeftover_eq : hamiltonLeftover absTotal weights = leftover absTotal weights := by
  rw [hamiltonLeftover, leftover]
  congr 2
  apply List.map_congr_left
  intro w hw
  rw [quotaNumerator, Nat.mod_eq_of_lt (hfits w hw), floorShare]

end Fits

/-- The shares are those of the apportionment, with the sign of the total. -/
theorem allocateHamilton_eq {total : ℤ} (hlow : -2 ^ 127 ≤ total) (hhigh : total < 2 ^ 127)
    {weights : List ℕ} (hsum : weights.sum ≠ 0)
    (hfits : ∀ w ∈ weights, total.natAbs * w < 2 ^ 128) :
    allocateHamilton total weights = .ok (weights.zipIdx.map fun p =>
      (share total.natAbs weights p.2 p.1 : ℤ) * signOf total) := by
  rw [allocateHamilton, if_neg hsum]
  simp only [hamiltonRemainders_eq hfits, hamiltonLeftover_eq hfits, Except.ok.injEq]
  refine (@List.foldl_map _ _ _ Prod.fst
    (fun (l : List ℤ) p => l.modify p fun s => wrapI128 (s + signOf total)) _ _).symm.trans ?_
  apply List.ext_getElem?
  intro i
  change ((raised total.natAbs weights).foldl _ _)[i]? = _
  rw [getElem?_foldl_modify _ raised_nodup, List.getElem?_map, List.getElem?_map,
    List.getElem?_zipIdx]
  cases hw : weights[i]? with
  | none => simp
  | some w =>
    have hquota : quotaNumerator total.natAbs w / weights.sum = floorShare total.natAbs weights w := by
      rw [quotaNumerator, Nat.mod_eq_of_lt (hfits w (List.mem_of_getElem? hw)), floorShare]
    have hle := share_le (n := total.natAbs) hsum hw
    simp only [Option.map_some, hquota, Nat.zero_add, wrapI128_mul_sign]
    unfold share at hle ⊢
    split_ifs at hle ⊢ with hraised
    · have hone : (floorShare total.natAbs weights w : ℤ) * signOf total + signOf total =
          (floorShare total.natAbs weights w + 1 : ℕ) * signOf total := by
        push_cast
        ring
      rw [wrapI128_part hlow hhigh (by omega), hone, wrapI128_part hlow hhigh hle]
    · rw [Nat.add_zero] at hle ⊢
      rw [wrapI128_part hlow hhigh hle]

/-- The shares of a total whose products fit 128 bits are those of the method, and there is a
remainder for each unit that the floors leave. -/
theorem allocateHamilton_shares {total : ℤ} (hlow : -2 ^ 127 ≤ total) (hhigh : total < 2 ^ 127)
    {weights : List ℕ} (hsum : weights.sum ≠ 0)
    (hfits : ∀ w ∈ weights, total.natAbs * w < 2 ^ 128) :
    (∃ shares, allocateHamilton total weights = .ok shares ∧ HamiltonShares total weights shares) ∧
      hamiltonLeftover total.natAbs weights ≤
        (hamiltonRemainders total.natAbs weights).countP fun r => r.2 ≠ 0 := by
  have hget : ∀ {i w : ℕ} {s : ℤ}, weights[i]? = some w →
      (weights.zipIdx.map fun p =>
        (share total.natAbs weights p.2 p.1 : ℤ) * signOf total)[i]? = some s →
      s = share total.natAbs weights i w * signOf total := by
    intro i w s hw hs
    rw [List.getElem?_map, List.getElem?_zipIdx, hw] at hs
    simpa using hs.symm
  refine ⟨⟨_, allocateHamilton_eq hlow hhigh hsum hfits, ?_⟩, ?_⟩
  · constructor
    · simp
    · have hsigned := sum_mul_signOf (sum_share (n := total.natAbs) hsum)
      rwa [List.map_map] at hsigned
    · intro i w s hw hs
      obtain ⟨hup, hdown⟩ := share_near (n := total.natAbs) hsum hw
      rw [hget hw hs]
      exact near_mul_signOf hup hdown
    · intro s hs
      obtain ⟨⟨w, i⟩, hp, rfl⟩ := List.mem_map.mp hs
      exact sign_mul_signOf (share_le hsum (List.mem_zipIdx_iff_getElem?.mp hp))
    · intro i s hw hs
      rw [hget hw hs, share_zero hsum hw]
      simp
    · intro i j w s t hij hi hj hs ht
      rw [hget hi hs, hget hj ht, abs_mul_signOf, abs_mul_signOf, Nat.abs_cast, Nat.abs_cast,
        Nat.cast_le]
      exact share_of_equal hij hi hj
  · rw [hamiltonLeftover_eq hfits, hamiltonRemainders_eq hfits]
    exact leftover_le hsum

/-- A debt of 10 over the weights 1, 1, 0 and 1. -/
theorem allocateHamilton_debt :
    (∃ shares, allocateHamilton (-10) [1, 1, 0, 1] = .ok shares ∧
      HamiltonShares (-10) [1, 1, 0, 1] shares) ∧
        hamiltonLeftover 10 [1, 1, 0, 1] ≤
          (hamiltonRemainders 10 [1, 1, 0, 1]).countP fun r => r.2 ≠ 0 :=
  @allocateHamilton_shares (-10) (by decide) (by decide) [1, 1, 0, 1] (by decide) (by decide)

example : allocateHamilton (-10) [1, 1, 0, 1] = .ok [-4, -3, 0, -3] := by decide

end MetriEngine.Storage.FinancialLedger.FixedDecimal128

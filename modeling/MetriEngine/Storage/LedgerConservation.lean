import MetriEngine.Foundation.Transition
import MetriEngine.Storage.FinancialLedger

/-!
# The book value over an issue

An issue lowers the book value by the cost it reports, but for the rounding of each layer it takes
from, as long as it prices a layer as the book does: at the layer's own unit cost. The average
price does so only where every layer in stock costs the average.
-/
namespace MetriEngine.Storage.FinancialLedger
open Foundation

/-! ### Exact products -/

theorem mulBankers_spec {a b : ℤ} (h : |a * b| < 2 ^ 127) :
    |2 * (10000 * FixedDecimal128.mulBankers a b - a * b)| ≤ 10000 := by
  rw [FixedDecimal128.mulBankers, wrapI128_of_abs_lt h,
    FixedDecimal128.divBankersRaw_eq _ (by decide) (by decide)]
  exact abs_two_mul_roundHalfEven_sub_le (a * b) (by decide : (0 : ℤ) < 10000)

theorem divBankers_spec {a d w : ℤ} (hd : 0 < d) (hfits : 2 * d ≤ 2 ^ 127)
    (h : |a * 10000| < 2 ^ 127) (hw : FixedDecimal128.divBankers a d = .ok w) :
    |2 * (d * w - a * 10000)| ≤ d := by
  rw [FixedDecimal128.divBankers, if_neg hd.ne', FixedDecimal128.scale,
    wrapI128_of_abs_lt h, FixedDecimal128.divBankersRaw_eq _ hd hfits] at hw
  cases hw
  exact abs_two_mul_roundHalfEven_sub_le (a * 10000) hd

/-! ### What the layers hold -/

/-- A layer that still holds something. -/
def Held (b : Batch) : Prop := 0 < b.1.remainingQtyScaled

instance (b : Batch) : Decidable (Held b) := inferInstanceAs (Decidable (_ < _))

def layerQty (b : Batch) : ℤ := if Held b then b.1.remainingQtyScaled else 0

def layerValue (b : Batch) : ℤ :=
  if Held b then FixedDecimal128.mulBankers b.1.remainingQtyScaled b.2 else 0

/-- A bound on what a layer adds to the sums of a checkpoint. -/
def layerWeight (b : Batch) : ℤ := layerQty b * (|b.2| + 1)

def quantity (batches : List Batch) : ℤ := (batches.map layerQty).sum

def bookValue (batches : List Batch) : ℤ := (batches.map layerValue).sum

def weight (batches : List Batch) : ℤ := (batches.map layerWeight).sum

theorem layerQty_eq_max (b : Batch) : layerQty b = max b.1.remainingQtyScaled 0 := by
  rw [layerQty]
  split_ifs with h
  · exact (max_eq_left (le_of_lt h)).symm
  · exact (max_eq_right (le_of_not_gt h)).symm

theorem layerQty_nonneg (b : Batch) : 0 ≤ layerQty b := by
  rw [layerQty_eq_max]
  exact le_max_right ..

theorem layerWeight_nonneg (b : Batch) : 0 ≤ layerWeight b :=
  mul_nonneg (layerQty_nonneg b) (by positivity)

theorem layerWeight_le {batches : List Batch} {b : Batch} (hb : b ∈ batches) :
    layerWeight b ≤ weight batches := by
  apply List.single_le_sum
  · intro w hw
    obtain ⟨c, -, rfl⟩ := List.mem_map.mp hw
    exact layerWeight_nonneg c
  · exact List.mem_map_of_mem hb

theorem checkedAdd_ok {a b c : ℤ} (h : FixedDecimal128.checkedAdd a b = .ok c) : c = a + b := by
  rw [FixedDecimal128.checkedAdd] at h
  split_ifs at h
  cases h
  rfl

theorem totals_ok {batches : List Batch} {q v q' v' : ℤ}
    (h : totals batches q v = .ok (q', v')) :
    q' = q + quantity batches ∧ v' = v + bookValue batches := by
  induction batches generalizing q v with
  | nil =>
    cases h
    simp [quantity, bookValue]
  | cons b batches ih =>
    obtain ⟨layer, unitCost⟩ := b
    rw [totals] at h
    simp only [quantity, bookValue, List.map_cons, List.sum_cons, layerQty, layerValue, Held]
    split_ifs at h ⊢ with hheld
    · cases hq : FixedDecimal128.checkedAdd q layer.remainingQtyScaled with
      | error e =>
        rw [hq] at h
        cases h
      | ok q1 =>
        rw [hq] at h
        cases hv : FixedDecimal128.checkedAdd v
            (FixedDecimal128.mulBankers layer.remainingQtyScaled unitCost) with
        | error e =>
          change (FixedDecimal128.checkedAdd v _ >>= _) = _ at h
          rw [hv] at h
          cases h
        | ok v1 =>
          change (FixedDecimal128.checkedAdd v _ >>= _) = _ at h
          rw [hv] at h
          have hsum := ih h
          have := checkedAdd_ok hq
          have := checkedAdd_ok hv
          rw [quantity, bookValue] at hsum
          omega
    · have hsum := ih h
      rw [quantity, bookValue] at hsum
      omega

theorem computeCheckpoint_ok {batches : List Batch} {t : ℤ} {cp : FinancialBlockCheckpoint}
    (h : computeCheckpoint batches t = .ok cp) :
    cp.closingQty = quantity batches ∧ cp.closingBookValue = bookValue batches ∧
      averageCost (quantity batches) (bookValue batches) = .ok cp.runningWacUnitCost := by
  rw [computeCheckpoint] at h
  cases htotals : totals batches 0 0 with
  | error e =>
    rw [htotals] at h
    cases h
  | ok total =>
    obtain ⟨hq, hv⟩ := totals_ok htotals
    rw [zero_add] at hq hv
    rw [htotals] at h
    change (averageCost total.1 total.2 >>= fun wac => _) = _ at h
    rw [hq, hv] at h
    cases hw : averageCost (quantity batches) (bookValue batches) with
    | error e =>
      rw [hw] at h
      cases h
    | ok w =>
      rw [hw] at h
      cases h
      exact ⟨rfl, rfl, rfl⟩

/-! ### Taking from a layer -/

/-- How many layers differ. -/
def layersTouched (before after : List Batch) : ℕ :=
  ((Finset.range before.length).filter fun i => before[i]? ≠ after[i]?).card

/-- Three roundings that should cancel miss by one at most. -/
theorem rounding_gap {a b c x y z : ℤ} (hsum : a = b + c)
    (hx : |2 * (10000 * x - a)| ≤ 10000) (hy : |2 * (10000 * y - b)| ≤ 10000)
    (hz : |2 * (10000 * z - c)| ≤ 10000) : |x - y - z| ≤ 1 := by
  rw [abs_le] at hx hy hz ⊢
  omega

/-- The layer with `take` less. -/
def taken (b : Batch) (take : ℤ) : Batch :=
  ({ b.1 with remainingQtyScaled := b.1.remainingQtyScaled - take }, b.2)

@[simp] theorem taken_remaining (b : Batch) (take : ℤ) :
    (taken b take).1.remainingQtyScaled = b.1.remainingQtyScaled - take := rfl

@[simp] theorem taken_cost (b : Batch) (take : ℤ) : (taken b take).2 = b.2 := rfl

theorem abs_mul_le_of_le {q q' c : ℤ} (h0 : 0 ≤ q') (hle : q' ≤ q) : |q' * c| ≤ |q * c| := by
  rw [abs_mul, abs_mul, abs_of_nonneg h0, abs_of_nonneg (h0.trans hle)]
  exact mul_le_mul_of_nonneg_right hle (abs_nonneg c)

/-- What leaves the book value with a part of a layer is its cost, but for the rounding. -/
theorem layerValue_taken {b : Batch} {take : ℤ} (hheld : Held b) (h0 : 0 ≤ take)
    (hle : take ≤ b.1.remainingQtyScaled) (hfits : |b.1.remainingQtyScaled * b.2| < 2 ^ 127) :
    |layerValue b - FixedDecimal128.mulBankers take b.2 - layerValue (taken b take)| ≤ 1 := by
  have htake := mulBankers_spec ((abs_mul_le_of_le h0 hle).trans_lt hfits)
  rw [layerValue, if_pos hheld, layerValue]
  split_ifs with hleft
  · have hrest : |(taken b take).1.remainingQtyScaled * b.2| < 2 ^ 127 :=
      (abs_mul_le_of_le hleft.le (by rw [taken_remaining]; omega)).trans_lt hfits
    exact rounding_gap (by rw [taken_remaining, taken_cost]; ring) (mulBankers_spec hfits) htake (mulBankers_spec hrest)
  · have hall : take = b.1.remainingQtyScaled := by
      rw [Held, taken_remaining] at hleft
      omega
    rw [hall, sub_self, sub_zero, abs_zero]
    exact zero_le_one

theorem layerQty_taken {b : Batch} {take : ℤ} (hheld : Held b)
    (hle : take ≤ b.1.remainingQtyScaled) : layerQty (taken b take) = layerQty b - take := by
  rw [layerQty, layerQty, if_pos hheld, taken_remaining]
  split_ifs with hleft
  · rfl
  · rw [Held, taken_remaining] at hleft
    omega

theorem sum_map_set {f : Batch → ℤ} {batches : List Batch} {i : ℕ} {b : Batch}
    (hi : batches[i]? = some b) (b' : Batch) :
    ((batches.set i b').map f).sum = (batches.map f).sum - f b + f b' := by
  obtain ⟨hlen, rfl⟩ := List.getElem?_eq_some_iff.mp hi
  rw [List.map_set, List.sum_set', dif_pos (by simpa using hlen), List.getElem_map]
  ring

theorem layersTouched_set {before after : List Batch} {i : ℕ} {b b' : Batch}
    (hb : before[i]? = some b) (ha : after[i]? = some b) (hne : b' ≠ b) :
    layersTouched before (after.set i b') = layersTouched before after + 1 := by
  have hi : i < before.length := (List.getElem?_eq_some_iff.mp hb).1
  have hi' : i < after.length := (List.getElem?_eq_some_iff.mp ha).1
  rw [layersTouched, layersTouched, ← Finset.card_insert_of_notMem (a := i)]
  · congr 1
    ext j
    rw [Finset.mem_insert, Finset.mem_filter, Finset.mem_filter, List.getElem?_set]
    by_cases hj : i = j
    · subst hj
      rw [hb]
      simp [hi, hi', hne.symm]
    · simp [hj, Ne.symm hj]
  · simp [hb, ha]

/-! ### Taking from the layers of an issue -/

/-- How an issue of `issueQty` stands against the layers it began with. -/
structure Progress (orig : List Batch) (issueQty : ℤ) (s : Issuing) : Prop where
  length : s.batches.length = orig.length
  layers : ∀ (i : ℕ) (b : Batch), s.batches[i]? = some b → ∃ o, orig[i]? = some o ∧ b.2 = o.2 ∧
    0 ≤ b.1.remainingQtyScaled ∧ b.1.remainingQtyScaled ≤ o.1.remainingQtyScaled
  value : |bookValue orig - s.totalCogs - bookValue s.batches| ≤ layersTouched orig s.batches
  qty : quantity orig - quantity s.batches = issueQty - s.remainingToIssue
  left : 0 ≤ s.remainingToIssue ∧ s.remainingToIssue < 2 ^ 63

/-- The layers an issue can begin with. -/
structure Sound (batches : List Batch) : Prop where
  fits : ∀ b ∈ batches, 0 ≤ b.1.remainingQtyScaled ∧ b.1.remainingQtyScaled < 2 ^ 63

theorem Progress.start {batches : List Batch} {issueQty : ℤ} (hsound : Sound batches)
    (h0 : 0 ≤ issueQty) (hlt : issueQty < 2 ^ 63) :
    Progress batches issueQty ⟨batches, issueQty, 0⟩ where
  length := rfl
  layers := fun i b hb => ⟨b, hb, rfl, (hsound.fits b (List.mem_of_getElem? hb)).1, le_rfl⟩
  value := by simp
  qty := by simp
  left := ⟨h0, hlt⟩

/-- One layer is taken from, at its own cost. -/
theorem Progress.take {orig : List Batch} {issueQty : ℤ} {s : Issuing} (hs : Progress orig issueQty s)
    {i : ℕ} {b : Batch} (horig : orig[i]? = some b) (hb : s.batches[i]? = some b) (hheld : Held b)
    (hleft : s.remainingToIssue ≠ 0) (hfits : |b.1.remainingQtyScaled * b.2| < 2 ^ 127) :
    Progress orig issueQty
      ⟨s.batches.set i (taken b (min b.1.remainingQtyScaled s.remainingToIssue)),
        s.remainingToIssue - min b.1.remainingQtyScaled s.remainingToIssue,
        s.totalCogs +
          FixedDecimal128.mulBankers (min b.1.remainingQtyScaled s.remainingToIssue) b.2⟩ := by
  have hpos : 0 < s.remainingToIssue := lt_of_le_of_ne hs.left.1 (Ne.symm hleft)
  have hlt := hs.left.2
  set take := min b.1.remainingQtyScaled s.remainingToIssue with htake
  have h0 : 0 < take := lt_min hheld hpos
  have hle : take ≤ b.1.remainingQtyScaled := min_le_left ..
  have hle' : take ≤ s.remainingToIssue := min_le_right ..
  have hne : taken b take ≠ b := by
    intro heq
    have := congrArg (fun c : Batch => c.1.remainingQtyScaled) heq
    rw [taken_remaining] at this
    omega
  refine ⟨by rw [List.length_set, hs.length], ?_, ?_, ?_, ?_⟩
  · intro j c hc
    rw [List.getElem?_set] at hc
    split_ifs at hc with hj hlen
    · subst hj
      cases hc
      refine ⟨b, horig, rfl, ?_, ?_⟩ <;> rw [taken_remaining] <;> omega
    · exact hs.layers j c hc
  · have hlayer := layerValue_taken hheld h0.le hle hfits
    have hvalue := hs.value
    rw [layersTouched_set horig hb hne, bookValue, bookValue, sum_map_set hb, ← bookValue,
      ← bookValue]
    rw [abs_le] at hlayer hvalue ⊢
    push_cast
    constructor <;> linarith
  · have hqty := hs.qty
    rw [quantity, quantity, sum_map_set hb, ← quantity, ← quantity, layerQty_taken hheld hle]
    linarith
  · change 0 ≤ s.remainingToIssue - take ∧ s.remainingToIssue - take < 2 ^ 63
    constructor <;> omega

theorem Progress.issueLayers {unitCostOf : ℤ → ℤ} {orig : List Batch}
    {issueQty : ℤ} (hsound : Sound orig) (hcost : ∀ b ∈ orig, Held b → unitCostOf b.2 = b.2)
    (hfits : ∀ b ∈ orig, |b.1.remainingQtyScaled * b.2| < 2 ^ 127) {indices : List ℕ}
    (hnodup : indices.Nodup) {s s' : Issuing} (hs : Progress orig issueQty s)
    (hfresh : ∀ i ∈ indices, s.batches[i]? = orig[i]?)
    (h : FinancialLedger.issueLayers unitCostOf indices s = (s', none)) :
    Progress orig issueQty s' := by
  induction indices generalizing s with
  | nil =>
    cases h
    exact hs
  | cons i indices ih =>
    rw [FinancialLedger.issueLayers] at h
    have hrest := List.nodup_cons.mp hnodup
    split_ifs at h with hdone
    · cases h
      exact hs
    · cases hb : s.batches[i]? with
      | none =>
        rw [hb] at h
        cases h
        exact hs
      | some b =>
        rw [hb] at h
        have horig : orig[i]? = some b := (hfresh i List.mem_cons_self).symm.trans hb
        have hmem : b ∈ orig := List.mem_of_getElem? horig
        have hq := hsound.fits b hmem
        simp only at h
        split_ifs at h with hzero
        · exact ih hrest.2 hs (fun j hj => hfresh j (List.mem_cons_of_mem i hj)) h
        · have hheld : Held b := lt_of_le_of_ne hq.1 (Ne.symm hzero)
          have hleft := hs.left
          have hstep := hs.take horig hb hheld hdone (hfits b hmem)
          rw [hcost b hmem hheld] at h
          set take := min b.1.remainingQtyScaled s.remainingToIssue with htake
          have htake0 : 0 ≤ take := le_min hq.1 hleft.1
          have hwrap : wrapI64 (b.1.remainingQtyScaled - take) = b.1.remainingQtyScaled - take :=
            wrapI64_of_bounds (by omega) (by omega)
          have hwrap' : wrapI64 (s.remainingToIssue - take) = s.remainingToIssue - take :=
            wrapI64_of_bounds (by omega) (by omega)
          rw [hwrap, hwrap'] at h
          cases hadd : FixedDecimal128.checkedAdd s.totalCogs
              (FixedDecimal128.mulBankers take b.2) with
          | error e =>
            rw [hadd] at h
            cases h
          | ok cogs =>
            rw [hadd, checkedAdd_ok hadd] at h
            apply ih hrest.2 hstep _ h
            intro j hj
            have hne : i ≠ j := fun heq => hrest.1 (heq ▸ hj)
            rw [List.getElem?_set_ne hne]
            exact hfresh j (List.mem_cons_of_mem i hj)

/-! ### The sums stay within 128 bits -/

theorem Sound.abs_mul_le {batches : List Batch} (hsound : Sound batches) {b : Batch}
    (hb : b ∈ batches) : |b.1.remainingQtyScaled * b.2| ≤ weight batches := by
  refine le_trans ?_ (layerWeight_le hb)
  rw [layerWeight, layerQty]
  split_ifs with hheld
  · rw [abs_mul, abs_of_pos hheld]
    exact mul_le_mul_of_nonneg_left (by omega) hheld.le
  · have hzero : b.1.remainingQtyScaled = 0 := by
      have := (hsound.fits b hb).1
      rw [Held] at hheld
      omega
    rw [hzero, zero_mul, abs_zero, zero_mul]

theorem abs_layerValue_le {b : Batch} (hfits : |b.1.remainingQtyScaled * b.2| < 2 ^ 127) :
    |layerValue b| ≤ layerWeight b := by
  rw [layerWeight, layerValue, layerQty]
  split_ifs with hheld
  · have hround := mulBankers_spec hfits
    have habs : |b.1.remainingQtyScaled * b.2| = b.1.remainingQtyScaled * |b.2| := by
      rw [abs_mul, abs_of_pos hheld]
    have hpos : (1 : ℤ) ≤ b.1.remainingQtyScaled := hheld
    have hle := le_abs_self (b.1.remainingQtyScaled * b.2)
    have hge := neg_abs_le (b.1.remainingQtyScaled * b.2)
    rw [habs] at hle hge
    rw [mul_add, mul_one]
    have hnonneg : 0 ≤ b.1.remainingQtyScaled * |b.2| := mul_nonneg hheld.le (abs_nonneg _)
    rw [abs_le] at hround ⊢
    omega
  · simp

theorem abs_bookValue_le {batches : List Batch}
    (hfits : ∀ b ∈ batches, |b.1.remainingQtyScaled * b.2| < 2 ^ 127) :
    |bookValue batches| ≤ weight batches := by
  induction batches with
  | nil => simp [bookValue, weight]
  | cons b batches ih =>
    have hhead := abs_layerValue_le (hfits b List.mem_cons_self)
    have htail := ih fun c hc => hfits c (List.mem_cons_of_mem b hc)
    rw [bookValue, weight, List.map_cons, List.map_cons, List.sum_cons, List.sum_cons]
    exact (abs_add_le _ _).trans (add_le_add hhead htail)

theorem quantity_le_weight (batches : List Batch) : quantity batches ≤ weight batches := by
  induction batches with
  | nil => exact le_rfl
  | cons b batches ih =>
    rw [quantity, weight, List.map_cons, List.map_cons, List.sum_cons, List.sum_cons]
    refine add_le_add ?_ ih
    rw [layerWeight, mul_add, mul_one]
    have := mul_nonneg (layerQty_nonneg b) (abs_nonneg b.2)
    omega

theorem layerWeight_mono {b o : Batch} (hcost : b.2 = o.2)
    (hle : b.1.remainingQtyScaled ≤ o.1.remainingQtyScaled) : layerWeight b ≤ layerWeight o := by
  rw [layerWeight, layerWeight, hcost]
  apply mul_le_mul_of_nonneg_right _ (by positivity)
  rw [layerQty_eq_max, layerQty_eq_max]
  exact max_le_max_right 0 hle

/-- What is left weighs no more than what there was. -/
theorem Progress.weight_le {orig : List Batch} {issueQty : ℤ} {s : Issuing}
    (hs : Progress orig issueQty s) : weight s.batches ≤ weight orig := by
  apply List.Forall₂.sum_le_sum
  rw [List.forall₂_map_left_iff, List.forall₂_map_right_iff, List.forall₂_iff_get]
  refine ⟨hs.length, ?_⟩
  intro i hi hi'
  obtain ⟨o, ho, hcost, h0, hle⟩ := hs.layers i _ (List.getElem?_eq_getElem hi)
  obtain ⟨_, rfl⟩ := List.getElem?_eq_some_iff.mp ho
  exact layerWeight_mono hcost hle

/-! ### The average -/

/-- How many layers still hold something. -/
def layersLeft (batches : List Batch) : ℕ := batches.countP fun b => Held b

/-- Where every layer has one cost the book value is that cost, but for the rounding. -/
theorem bookValue_of_cost {batches : List Batch} {w : ℤ}
    (hcost : ∀ b ∈ batches, Held b → b.2 = w)
    (hfits : ∀ b ∈ batches, |b.1.remainingQtyScaled * b.2| < 2 ^ 127) :
    |2 * (10000 * bookValue batches - w * quantity batches)| ≤ 10000 * layersLeft batches := by
  induction batches with
  | nil => simp [bookValue, quantity, layersLeft]
  | cons b batches ih =>
    have htail := ih (fun c hc => hcost c (List.mem_cons_of_mem b hc))
      fun c hc => hfits c (List.mem_cons_of_mem b hc)
    rw [bookValue, quantity, layersLeft] at htail ⊢
    rw [List.map_cons, List.map_cons, List.sum_cons, List.sum_cons, List.countP_cons, layerValue,
      layerQty]
    by_cases hheld : Held b
    · have hround := mulBankers_spec (hfits b List.mem_cons_self)
      have hw := hcost b List.mem_cons_self hheld
      rw [if_pos hheld, if_pos hheld, if_pos (decide_eq_true hheld), mul_add w]
      rw [hw, mul_comm b.1.remainingQtyScaled w] at hround
      rw [hw]
      push_cast
      rw [abs_le] at hround htail ⊢
      omega
    · rw [if_neg hheld, if_neg hheld, if_neg (by simpa using hheld), zero_add, zero_add, add_zero]
      exact htail

/-! ### Runs of the zone -/

inductive LedgerCall
  | receiveBatch (batchId resourceRowId : ℕ) (receivedMs expiryMs : ℤ)
      (qty unitCostBase : ℤ)
  | issueInventory (txEpochMs : ℤ) (issueQty : ℤ) (method : ValuationMethod)

/-- A call changes the zone whether it succeeds or not. -/
def ledgerStep (z : FinancialLedgerZone) : LedgerCall → Option FinancialLedgerZone
  | .receiveBatch batchId resourceRowId receivedMs expiryMs qty unitCostBase =>
    some (z.receiveBatch batchId resourceRowId receivedMs expiryMs qty unitCostBase).1
  | .issueInventory txEpochMs issueQty method =>
    some (z.issueInventory txEpochMs issueQty method).1

/-- Quantities that fit the width of a layer: what is received is positive, and an issue leaves no
layer with more than it can hold. -/
def QuantitiesFit (z : FinancialLedgerZone) : LedgerCall → Prop
  | .receiveBatch _ _ _ _ qty _ => 0 < qty ∧ qty < 2 ^ 63
  | .issueInventory _ issueQty _ =>
    issueQty < 2 ^ 63 ∧ ∀ b ∈ z.batches, b.1.remainingQtyScaled - issueQty < 2 ^ 63

instance (z : FinancialLedgerZone) (call : LedgerCall) : Decidable (QuantitiesFit z call) :=
  match call with
  | .receiveBatch _ _ _ _ qty _ => inferInstanceAs (Decidable (0 < qty ∧ qty < 2 ^ 63))
  | .issueInventory _ issueQty _ => inferInstanceAs (Decidable (issueQty < 2 ^ 63 ∧
      ∀ b ∈ z.batches, b.1.remainingQtyScaled - issueQty < 2 ^ 63))

/-- A layer stays within its width along an issue, also one of a negative quantity. -/
structure Fitting (s : Issuing) : Prop where
  sound : Sound s.batches
  low : s.batches ≠ [] → -2 ^ 63 ≤ s.remainingToIssue
  high : s.remainingToIssue < 2 ^ 63
  room : ∀ b ∈ s.batches, b.1.remainingQtyScaled - s.remainingToIssue < 2 ^ 63

theorem Fitting.issueLayers {unitCostOf : ℤ → ℤ} {indices : List ℕ}
    {s : Issuing} (hs : Fitting s) :
    Sound (FinancialLedger.issueLayers unitCostOf indices s).1.batches := by
  induction indices generalizing s with
  | nil => exact hs.sound
  | cons i indices ih =>
    rw [FinancialLedger.issueLayers]
    split_ifs with hdone
    · exact hs.sound
    · cases hb : s.batches[i]? with
      | none => exact hs.sound
      | some b =>
        have hmem := List.mem_of_getElem? hb
        have hq := hs.sound.fits b hmem
        simp only
        split_ifs with hzero
        · exact ih hs
        · have hlow := hs.low (List.ne_nil_of_mem hmem)
          have hhigh := hs.high
          have hroom := hs.room b hmem
          set take := min b.1.remainingQtyScaled s.remainingToIssue with htake
          have hcases : take = s.remainingToIssue ∨ take = b.1.remainingQtyScaled ∧
              b.1.remainingQtyScaled ≤ s.remainingToIssue := by
            rcases min_cases b.1.remainingQtyScaled s.remainingToIssue with h | h
            · exact Or.inr h
            · exact Or.inl h.1
          have hle : take ≤ b.1.remainingQtyScaled := min_le_left ..
          have hle' : take ≤ s.remainingToIssue := min_le_right ..
          rw [wrapI64_of_bounds (by omega) (by omega), wrapI64_of_bounds (by omega) (by omega)]
          have hafter (cogs : ℤ) : Fitting ⟨s.batches.set i (taken b take),
              s.remainingToIssue - take, cogs⟩ := by
            have hall (c : Batch) (hc : c ∈ s.batches.set i (taken b take)) :
                (0 ≤ c.1.remainingQtyScaled ∧ c.1.remainingQtyScaled < 2 ^ 63) := by
              rcases List.mem_or_eq_of_mem_set hc with hc | rfl
              · exact hs.sound.fits c hc
              · rw [taken_remaining]
                omega
            refine ⟨⟨hall⟩, fun _ => ?_, ?_, ?_⟩
            · change -2 ^ 63 ≤ s.remainingToIssue - take
              omega
            · change s.remainingToIssue - take < 2 ^ 63
              omega
            · intro c hc
              have := hall c hc
              change c.1.remainingQtyScaled - (s.remainingToIssue - take) < 2 ^ 63
              omega
          cases FixedDecimal128.checkedAdd s.totalCogs
              (FixedDecimal128.mulBankers take (unitCostOf b.2)) with
          | error e => exact (hafter s.totalCogs).sound
          | ok cogs => exact ih (hafter cogs)

theorem finishIssue_batches (z : FinancialLedgerZone) (t : ℤ) (s : Issuing)
    (err : Option DomainError) : (z.finishIssue t s err).1.batches = s.batches := by
  cases err with
  | some e => rfl
  | none =>
    rw [FinancialLedgerZone.finishIssue]
    cases computeCheckpoint s.batches t <;> rfl

theorem fitting_start {batches : List Batch} {issueQty : ℤ} (hsound : Sound batches)
    (hhigh : issueQty < 2 ^ 63) (hroom : ∀ b ∈ batches, b.1.remainingQtyScaled - issueQty < 2 ^ 63) :
    Fitting ⟨batches, wrapI64 issueQty, 0⟩ := by
  cases batches with
  | nil => exact ⟨hsound, fun h => absurd rfl h, (wrapI64_bounds issueQty).2, by simp⟩
  | cons b batches =>
    have hb := hsound.fits b List.mem_cons_self
    have hlow := hroom b List.mem_cons_self
    rw [wrapI64_of_bounds (by omega) hhigh]
    refine ⟨hsound, fun _ => ?_, hhigh, hroom⟩
    change -2 ^ 63 ≤ issueQty
    omega

theorem sound_step {z z' : FinancialLedgerZone} {call : LedgerCall} (hz : Sound z.batches)
    (hfit : QuantitiesFit z call) (h : ledgerStep z call = some z') : Sound z'.batches := by
  cases call with
  | receiveBatch batchId resourceRowId receivedMs expiryMs qty unitCostBase =>
    cases h
    have happend : Sound (z.batches ++ [(⟨batchId, resourceRowId, receivedMs, expiryMs,
        wrapI64 qty⟩, unitCostBase)]) := by
      constructor
      intro b hb
      rcases List.mem_append.mp hb with hb | hb
      · exact hz.fits b hb
      · cases List.mem_singleton.mp hb
        obtain ⟨hpos, hlt⟩ := hfit
        rw [wrapI64_of_bounds (by omega) hlt]
        exact ⟨hpos.le, hlt⟩
    rw [FinancialLedgerZone.receiveBatch]
    split_ifs
    · exact hz
    · simp only
      split
      · exact happend
      · exact happend
  | issueInventory txEpochMs issueQty method =>
    cases h
    rw [FinancialLedgerZone.issueInventory]
    split_ifs
    · exact hz
    · split
      · exact hz
      · split_ifs
        · exact hz
        · rw [finishIssue_batches]
          exact (fitting_start hz hfit.1 hfit.2).issueLayers

theorem sound_of_run {fiscalLockEpochMs : ℤ} {z : FinancialLedgerZone}
    (hrun : Run ledgerStep QuantitiesFit (.new fiscalLockEpochMs) z) : Sound z.batches :=
  hrun.invariant (I := fun z => Sound z.batches) (fun _ _ _ hz hfit h => sound_step hz hfit h)
    ⟨fun _ hb => absurd hb List.not_mem_nil⟩

/-! ### Conservation -/

/-- An issue whose numbers fit and that prices the layers at their own cost: any method but the
average, or the average where every layer in stock costs it and the issue leaves some stock. -/
structure PricedAsBooked (z : FinancialLedgerZone) (before : FinancialBlockCheckpoint)
    (issueQty : ℤ) (method : ValuationMethod) : Prop where
  issueFits : issueQty < 2 ^ 63
  productsFit : weight z.batches < 2 ^ 113
  costs : method = .wac → ∀ b ∈ z.batches, Held b → b.2 = before.runningWacUnitCost
  leaves : method = .wac → issueQty < before.closingQty

/-- A successful issue made progress from the layers it found, and its numbers are read off. -/
theorem progress_of_issue {z z' : FinancialLedgerZone} (hsound : Sound z.batches)
    {txEpochMs issueQty cogs : ℤ} {method : ValuationMethod}
    {before after : FinancialBlockCheckpoint}
    (hbefore : computeCheckpoint z.batches txEpochMs = .ok before)
    (hissue : z.issueInventory txEpochMs issueQty method = (z', .ok (cogs, after)))
    (hpos : 0 < issueQty) (hcond : PricedAsBooked z before issueQty method) :
    ∃ s, Progress z.batches issueQty s ∧ s.totalCogs = cogs ∧ s.batches = z'.batches ∧
      computeCheckpoint z'.batches txEpochMs = .ok after := by
  have hfits (b : Batch) (hb : b ∈ z.batches) : |b.1.remainingQtyScaled * b.2| < 2 ^ 127 :=
    (hsound.abs_mul_le hb).trans_lt (hcond.productsFit.trans (by norm_num))
  have hcost (b : Batch) (hb : b ∈ z.batches) (hheld : Held b) :
      FinancialLedgerZone.unitCostUnder method before b.2 = b.2 := by
    rw [FinancialLedgerZone.unitCostUnder]
    split_ifs with hwac
    · exact (hcond.costs hwac b hb hheld).symm
    · rfl
  have hnodup : (issueOrder z.batches method).Nodup := by
    have hrange := List.nodup_range (n := z.batches.length)
    cases method <;> exact ((List.perm_insertionSort _ _).nodup_iff).mpr hrange
  rw [FinancialLedgerZone.issueInventory, hbefore,
    wrapI64_of_bounds (by omega) hcond.issueFits] at hissue
  split_ifs at hissue with hlock
  · cases hissue
  · simp only at hissue
    split_ifs at hissue with hshort
    · cases hissue
    · cases hloop : issueLayers (FinancialLedgerZone.unitCostUnder method before)
          (issueOrder z.batches method) ⟨z.batches, issueQty, 0⟩ with
      | mk s err =>
        rw [hloop] at hissue
        cases err with
        | some e => cases hissue
        | none =>
          have hprogress := (Progress.start hsound hpos.le hcond.issueFits).issueLayers hsound hcost
            hfits hnodup (fun _ _ => rfl) hloop
          rw [FinancialLedgerZone.finishIssue] at hissue
          cases hcp : computeCheckpoint s.batches txEpochMs with
          | error e =>
            rw [hcp] at hissue
            cases hissue
          | ok cp =>
            rw [hcp] at hissue
            cases hissue
            exact ⟨s, hprogress, rfl, rfl, hcp⟩

/-- In every zone that calls with fitting quantities reach, an issue priced as the layers are
booked lowers the book value by what it reports, up to a unit for each layer it touches; and under
the average price the average stays, up to its own rounding and that of the layers left. -/
theorem issue_conserves {fiscalLockEpochMs : ℤ} {z z' : FinancialLedgerZone}
    (hrun : Run ledgerStep QuantitiesFit (.new fiscalLockEpochMs) z)
    {txEpochMs issueQty cogs : ℤ} {method : ValuationMethod}
    {before after : FinancialBlockCheckpoint}
    (hbefore : computeCheckpoint z.batches txEpochMs = .ok before)
    (hissue : z.issueInventory txEpochMs issueQty method = (z', .ok (cogs, after)))
    (hpos : 0 < issueQty) (hcond : PricedAsBooked z before issueQty method) :
    |before.closingBookValue - cogs - after.closingBookValue| ≤
        layersTouched z.batches z'.batches + 1 ∧
      (method = .wac →
        2 * after.closingQty * |after.runningWacUnitCost - before.runningWacUnitCost| ≤
          after.closingQty + FixedDecimal128.scale * layersLeft z'.batches) := by
  have hsound := sound_of_run hrun
  obtain ⟨s, hprogress, rfl, hs, hafter⟩ := progress_of_issue hsound hbefore hissue hpos hcond
  obtain ⟨hq, hv, -⟩ := computeCheckpoint_ok hbefore
  obtain ⟨hq', hv', hw'⟩ := computeCheckpoint_ok hafter
  have hweight := hprogress.weight_le
  have hqty := hprogress.qty
  have hvalue := hprogress.value
  rw [hs] at hweight hqty hvalue
  refine ⟨by rw [hv, hv']; omega, fun hwac => ?_⟩
  have hleaves := hcond.leaves hwac
  have hleft := hprogress.left.1
  have hproducts := hcond.productsFit
  have hstock : 0 < quantity z'.batches := by
    rw [hq] at hleaves
    omega
  have hlayer (b : Batch) (hb : b ∈ z'.batches) : ∃ o ∈ z.batches, b.2 = o.2 ∧
      0 ≤ b.1.remainingQtyScaled ∧ b.1.remainingQtyScaled ≤ o.1.remainingQtyScaled := by
    obtain ⟨i, hi⟩ := List.mem_iff_getElem?.mp hb
    rw [← hs] at hi
    obtain ⟨o, ho, hb⟩ := hprogress.layers i b hi
    exact ⟨o, List.mem_of_getElem? ho, hb⟩
  have hfits (b : Batch) (hb : b ∈ z'.batches) : |b.1.remainingQtyScaled * b.2| < 2 ^ 127 := by
    obtain ⟨o, ho, hcost, h0, hle⟩ := hlayer b hb
    rw [hcost]
    exact (abs_mul_le_of_le h0 hle).trans_lt
      ((hsound.abs_mul_le ho).trans_lt (hproducts.trans (by norm_num)))
  have hcosts (b : Batch) (hb : b ∈ z'.batches) (hheld : Held b) :
      b.2 = before.runningWacUnitCost := by
    obtain ⟨o, ho, hcost, -, hle⟩ := hlayer b hb
    rw [hcost]
    exact hcond.costs hwac o ho (lt_of_lt_of_le hheld hle)
  have hbook := bookValue_of_cost hcosts hfits
  have hbound := abs_bookValue_le hfits
  have hstock' := quantity_le_weight z'.batches
  rw [averageCost, if_pos hstock] at hw'
  have hscaled : |bookValue z'.batches * 10000| < 2 ^ 127 := by
    rw [abs_mul, abs_of_pos (by norm_num : (0 : ℤ) < 10000)]
    omega
  have haverage := divBankers_spec hstock (by omega) hscaled hw'
  rw [hq', FixedDecimal128.scale]
  set w := before.runningWacUnitCost
  set w' := after.runningWacUnitCost
  have htwice : |2 * quantity z'.batches| = 2 * quantity z'.batches := abs_of_pos (by omega)
  have hexact : 2 * quantity z'.batches * |w' - w| =
      |2 * (quantity z'.batches * w' - w * quantity z'.batches)| := by
    calc 2 * quantity z'.batches * |w' - w|
        = |2 * quantity z'.batches * (w' - w)| := by rw [abs_mul, htwice]
      _ = |2 * (quantity z'.batches * w' - w * quantity z'.batches)| := by
        congr 1
        ring
  rw [hexact]
  rw [abs_le] at hbook haverage ⊢
  omega

/-! ### Ten units and ten more -/

def twoReceipts (firstCost secondCost : ℤ) : List LedgerCall :=
  [.receiveBatch 1 50 2000 9000 100000 firstCost, .receiveBatch 2 50 3000 5000 100000 secondCost]

/-- The two batches, with `left` of the first, and what the book says after each movement. -/
def stocked (left firstCost secondCost : ℤ) (checkpoints : List FinancialBlockCheckpoint) :
    FinancialLedgerZone :=
  ⟨1000, [(⟨1, 50, 2000, 9000, left⟩, firstCost), (⟨2, 50, 3000, 5000, 100000⟩, secondCost)],
    checkpoints⟩

/-- Both batches at 150. -/
def evenStock : FinancialLedgerZone :=
  stocked 100000 1500000 1500000
    [⟨100000, 15000000, 1500000, 2000, 0⟩, ⟨200000, 30000000, 1500000, 3000, 0⟩]

def evenStockLeft : FinancialLedgerZone :=
  stocked 50000 1500000 1500000
    [⟨100000, 15000000, 1500000, 2000, 0⟩, ⟨200000, 30000000, 1500000, 3000, 0⟩,
      ⟨150000, 22500000, 1500000, 4000, 0⟩]

theorem issue_conserves_even :
    |(30000000 : ℤ) - 7500000 - 22500000| ≤
        layersTouched evenStock.batches evenStockLeft.batches + 1 ∧
      (ValuationMethod.wac = .wac → 2 * (150000 : ℤ) * |(1500000 : ℤ) - 1500000| ≤
        150000 + FixedDecimal128.scale * layersLeft evenStockLeft.batches) := by
  have hexec : exec ledgerStep QuantitiesFit (.new 1000) (twoReceipts 1500000 1500000) =
      some evenStock := by decide +kernel
  have hbefore : computeCheckpoint evenStock.batches 4000 =
      .ok ⟨200000, 30000000, 1500000, 4000, 0⟩ := by decide +kernel
  have hissue : evenStock.issueInventory 4000 50000 .wac =
      (evenStockLeft, .ok (7500000, ⟨150000, 22500000, 1500000, 4000, 0⟩)) := by decide +kernel
  exact issue_conserves (run_of_exec hexec) hbefore hissue (by decide)
    ⟨by decide, by decide +kernel, fun _ => by decide +kernel, fun _ => by decide⟩

/-- The first batch at 100 and the second at 200. -/
def mixedStock : FinancialLedgerZone :=
  stocked 100000 1000000 2000000
    [⟨100000, 10000000, 1000000, 2000, 0⟩, ⟨200000, 30000000, 1500000, 3000, 0⟩]

def mixedStockLeft : FinancialLedgerZone :=
  stocked 50000 1000000 2000000
    [⟨100000, 10000000, 1000000, 2000, 0⟩, ⟨200000, 30000000, 1500000, 3000, 0⟩,
      ⟨150000, 25000000, 1666667, 4000, 0⟩]

/-- Five units at the average cost 750 and leave 2500 of the 3000 in the book, and the average
rises from 150 to 166.6667. -/
theorem average_issue_loses_value :
    Run ledgerStep QuantitiesFit (.new 1000) mixedStock ∧
      computeCheckpoint mixedStock.batches 4000 = .ok ⟨200000, 30000000, 1500000, 4000, 0⟩ ∧
      mixedStock.issueInventory 4000 50000 .wac =
        (mixedStockLeft, .ok (7500000, ⟨150000, 25000000, 1666667, 4000, 0⟩)) ∧
      layersTouched mixedStock.batches mixedStockLeft.batches = 1 ∧
      ¬ |(30000000 : ℤ) - 7500000 - 25000000| ≤ 1 + 1 := by
  have hexec : exec ledgerStep QuantitiesFit (.new 1000) (twoReceipts 1000000 2000000) =
      some mixedStock := by decide +kernel
  refine ⟨run_of_exec hexec, ?_, ?_, ?_, ?_⟩
  · decide +kernel
  · decide +kernel
  · decide +kernel
  · norm_num

end MetriEngine.Storage.FinancialLedger

import MetriEngine.Foundation.Columns
import MetriEngine.Aegis.Filter
import Mathlib.Data.List.Sort
import Mathlib.Data.Rat.Defs

/-!
# Aggregations

A metric of a request is computed over rows: the rows that its filter keeps give a column of
numbers for its attribute and one for its second attribute, and a statistic is taken of the
two. The arithmetic of doubles is a parameter.
-/
namespace MetriEngine.Aegis
open Foundation Storage Eav

/-- A number that is none of the functions is taken as `unspecified` is. -/
inductive AggregationFunction
  | unspecified
  | count
  | sum
  | avg
  | min
  | max
  | median
  | stdDev
  | variance
  | percentile90
  | percentile95
  | percentile99
  | correlation
  | linearRegression
  | logisticRegression
deriving DecidableEq

/-- The arithmetic that statistics are taken in. -/
class Doubles (V : Type) where
  ofF64 : F64 → V
  /-- `n as f64` -/
  ofNat : ℕ → V
  /-- The sum of nothing. -/
  emptySum : V
  add : V → V → V
  sub : V → V → V
  mul : V → V → V
  div : V → V → V
  square : V → V
  sqrt : V → V
  lt : V → V → Bool
  le : V → V → Bool
  eq : V → V → Bool
  /-- `x.floor() as usize` -/
  floor : V → ℕ
  toJson : V → JsonValue

/-! ### Statistics -/

section Statistics
variable {V : Type} [Doubles V]
open Doubles

def sumOf (nums : List V) : V := nums.foldl add emptySum

def safeMean (nums : List V) : Option V :=
  if nums.length = 0 then none else some (div (sumOf nums) (ofNat nums.length))

def varianceSample (nums : List V) : Option V :=
  if nums.length < 2 then none
  else (safeMean nums).map fun m =>
    div (sumOf (nums.map fun x => square (sub x m))) (ofNat (nums.length - 1))

def percentileNearestRank (sorted : List V) (p : F64) : Option V :=
  sorted[Nat.min (floor (mul (ofF64 p) (ofNat sorted.length) : V)) (sorted.length - 1)]?

/-- The products of the deviations of two columns from their means. -/
def deviations (xs ys : List V) (mx my : V) : List V :=
  List.zipWith (fun x y => mul (sub x mx) (sub y my)) xs ys

def pearsonR (xs ys : List V) : Option V :=
  if xs.length < 2 ∨ xs.length ≠ ys.length then none
  else do
    let mx ← safeMean xs
    let my ← safeMean ys
    let cov := div (sumOf (deviations xs ys mx my)) (ofNat (xs.length - 1))
    let vx ← varianceSample xs
    let vy ← varianceSample ys
    if le vx (ofNat 0) || le vy (ofNat 0) then none else some (div cov (sqrt (mul vx vy)))

def regrSlope (xs ys : List V) : Option V :=
  if xs.length < 2 ∨ xs.length ≠ ys.length then none
  else do
    let mx ← safeMean xs
    let my ← safeMean ys
    let ssXy := sumOf (deviations xs ys mx my)
    let ssXx := sumOf (xs.map fun x => square (sub x mx))
    if eq ssXx (ofNat 0) then none else some (div ssXy ssXx)

/-- A stable sort; what is not compared is tied. -/
def sortedValues (vals : List V) : List V := vals.insertionSort fun a b => lt b a = false

def percentile (p : F64) (vals : List V) : V :=
  (percentileNearestRank (sortedValues vals) p).getD (ofNat 0)

/-- `compute_agg` -/
def computeAgg (aggFn : AggregationFunction) (vals secVals : List V) : V :=
  match aggFn with
  | .count | .logisticRegression => ofNat vals.length
  | .unspecified | .sum => sumOf vals
  | .avg => (safeMean vals).getD (ofNat 0)
  | .min => (sortedValues vals).head?.getD (ofNat 0)
  | .max => (sortedValues vals).getLast?.getD (ofNat 0)
  | .median => percentile ⟨0x3FE0000000000000⟩ vals
  | .percentile90 => percentile ⟨0x3FECCCCCCCCCCCCD⟩ vals
  | .percentile95 => percentile ⟨0x3FEE666666666666⟩ vals
  | .percentile99 => percentile ⟨0x3FEFAE147AE147AE⟩ vals
  | .stdDev => ((varianceSample vals).map sqrt).getD (ofNat 0)
  | .variance => (varianceSample vals).getD (ofNat 0)
  | .correlation => (pearsonR vals secVals).getD (ofNat 0)
  | .linearRegression => (regrSlope secVals vals).getD (ofNat 0)

end Statistics

/-! ### Metrics -/

structure MetricDefinition where
  aggregation : AggregationFunction
  attr : Option String := none
  name : Option String := none
  secondaryAttr : Option String := none
  filter : Option FilterNode := none

def aggName : AggregationFunction → String
  | .count => "count"
  | .sum => "sum"
  | .avg => "avg"
  | .min => "min"
  | .max => "max"
  | .median => "median"
  | .stdDev => "std_dev"
  | .variance => "variance"
  | .percentile90 => "p90"
  | .percentile95 => "p95"
  | .percentile99 => "p99"
  | .correlation => "correlation"
  | .linearRegression => "linear_regression"
  | .logisticRegression => "logistic_regression"
  | .unspecified => "agg"

namespace MetricDefinition
variable (metric : MetricDefinition)

def attrKey : String := metric.attr.getD ""
def secKey : String := metric.secondaryAttr.getD ""

def aliasName : String :=
  metric.name.getD
    (if metric.attrKey = "" then aggName metric.aggregation
    else aggName metric.aggregation ++ "_" ++ metric.attrKey)

/-- The number that a row has for the attribute: one where there is no attribute. -/
def readPrimary (row : JsonMap) : Option F64 :=
  if metric.attrKey = "" then some (F64.ofInt 1)
  else ((row.lookup metric.attrKey).or (row.lookup (bareName metric.attrKey))).bind JsonValue.asF64

/-- The number that a row has for the second attribute, which is looked up under its full
name only. -/
def readSecondary (row : JsonMap) : Option F64 :=
  if metric.secKey = "" then none else (row.lookup metric.secKey).bind JsonValue.asF64

variable [TextSearch]

/-- The rows that the filter of the metric keeps. -/
def effRows (rows : List JsonMap) : List JsonMap :=
  metric.filter.elim rows fun filterNode => rows.filter fun row => evalFilterNode row filterNode

def vals (rows : List JsonMap) : List F64 := (metric.effRows rows).filterMap metric.readPrimary
def secVals (rows : List JsonMap) : List F64 := (metric.effRows rows).filterMap metric.readSecondary

section Computed
variable (V : Type) [Doubles V]

def computed (rows : List JsonMap) : V :=
  if metric.aggregation = .count ∧ (metric.vals rows = [] ∨ metric.attrKey = "") then
    Doubles.ofNat (metric.effRows rows).length
  else
    computeAgg metric.aggregation ((metric.vals rows).map Doubles.ofF64)
      ((metric.secVals rows).map Doubles.ofF64)

end Computed
end MetricDefinition

section Result
variable [TextSearch] (V : Type) [Doubles V]

/-- `apply_metrics_fbs` -/
def applyMetrics (rows : List JsonMap) (metrics : List MetricDefinition) : JsonMap :=
  metrics.foldl (fun result metric =>
    result.insert metric.aliasName (Doubles.toJson (metric.computed V rows))) ∅

/-- A count without an attribute counts the rows that its filter keeps. -/
theorem computed_count {metric : MetricDefinition} (hcount : metric.aggregation = .count)
    (hattr : metric.attrKey = "") (rows : List JsonMap) :
    metric.computed V rows = Doubles.ofNat (metric.effRows rows).length := by
  unfold MetricDefinition.computed
  rw [if_pos ⟨hcount, Or.inr hattr⟩]

end Result

/-! ### Statistics of two attributes -/

inductive Bivariate
  | correlation
  | linearRegression
deriving DecidableEq

def Bivariate.aggregation : Bivariate → AggregationFunction
  | correlation => .correlation
  | linearRegression => .linearRegression

section Pairs
variable [TextSearch] (metric : MetricDefinition) (f : Bivariate) (rows : List JsonMap)

/-- The pairs of numbers of the rows that have both. -/
def MetricDefinition.pairs : List (F64 × F64) :=
  (metric.effRows rows).filterMap (readBoth metric.readPrimary metric.readSecondary)

/-- The metric with a statistic of two attributes for its aggregation. -/
def MetricDefinition.ofTwo : MetricDefinition := { metric with aggregation := f.aggregation }

/-- In every arithmetic the statistic is that of the pairs. -/
def TakenOfPairs : Prop :=
  ∀ (V : Type) [Doubles V], (metric.ofTwo f).computed V rows =
    computeAgg f.aggregation ((metric.pairs rows).map fun p => Doubles.ofF64 p.1)
      ((metric.pairs rows).map fun p => Doubles.ofF64 p.2)

/-- Every row that the filter keeps has both numbers or neither; or there are too few pairs
for a statistic, and too few numbers or not as many of the one kind as of the other. -/
def PairedOrTooFew : Prop :=
  (∀ row ∈ metric.effRows rows,
    (metric.readPrimary row).isSome = (metric.readSecondary row).isSome) ∨
  (metric.effRows rows).countP
      (fun row => (metric.readPrimary row).isSome && (metric.readSecondary row).isSome) < 2 ∧
    ((metric.effRows rows).countP (fun row => (metric.readPrimary row).isSome) < 2 ∨
      (metric.effRows rows).countP (fun row => (metric.readPrimary row).isSome) ≠
        (metric.effRows rows).countP (fun row => (metric.readSecondary row).isSome))

end Pairs

/-! ### An arithmetic that forgets nothing -/

/-- Numbers are lists of doubles, sums and products put them one after the other, and the
rest leaves the first operand as it is. -/
@[reducible] def traces : Doubles (List F64) where
  ofF64 d := [d]
  ofNat n := [F64.ofInt n]
  emptySum := []
  add := (· ++ ·)
  sub a _ := a
  mul := (· ++ ·)
  div a _ := a
  square := id
  sqrt := id
  lt _ _ := false
  le _ _ := false
  eq _ _ := false
  floor _ := 0
  toJson _ := .null

/-- Two columns, in turns. -/
def interleave (xs ys : List F64) : List F64 := (List.zipWith (fun x y => [x, y]) xs ys).flatten

theorem sumOf_traces (nums : List (List F64)) : @sumOf _ traces nums = nums.flatten := by
  have hfold : ∀ acc : List F64, nums.foldl (· ++ ·) acc = acc ++ nums.flatten := by
    induction nums with
    | nil => exact fun acc => (List.append_nil acc).symm
    | cons a nums ih =>
      intro acc
      rw [List.foldl_cons, ih, List.flatten_cons, List.append_assoc]
  exact hfold []

theorem deviations_traces (xs ys : List F64) (mx my : List F64) :
    (@deviations _ traces (xs.map fun d => [d]) (ys.map fun d => [d]) mx my).flatten =
      interleave xs ys := by
  unfold deviations interleave
  rw [List.zipWith_map]
  rfl

theorem interleave_length {xs ys : List F64} (h : xs.length = ys.length) :
    (interleave xs ys).length = 2 * xs.length := by
  induction xs generalizing ys with
  | nil => rfl
  | cons x xs ih =>
    cases ys with
    | nil => cases h
    | cons y ys =>
      have hrest := ih (Nat.succ.inj h)
      unfold interleave at hrest ⊢
      simp only [List.zipWith_cons_cons, List.flatten_cons, List.length_append, hrest,
        List.length_cons, List.length_nil]
      omega

theorem interleave_inj {xs ys xs' ys' : List F64} (h : xs.length = ys.length)
    (h' : xs'.length = ys'.length) (heq : interleave xs ys = interleave xs' ys') :
    xs = xs' ∧ ys = ys' := by
  have hlength : xs.length = xs'.length := by
    have := congrArg List.length heq
    rw [interleave_length h, interleave_length h'] at this
    omega
  induction xs generalizing ys xs' ys' with
  | nil =>
    have hys := List.eq_nil_of_length_eq_zero h.symm
    have hxs' := List.eq_nil_of_length_eq_zero hlength.symm
    subst hxs'
    exact ⟨rfl, hys.trans (List.eq_nil_of_length_eq_zero h'.symm).symm⟩
  | cons x xs ih =>
    cases ys with
    | nil => cases h
    | cons y ys =>
      cases xs' with
      | nil => cases hlength
      | cons x' xs' =>
        cases ys' with
        | nil => cases h'
        | cons y' ys' =>
          unfold interleave at heq
          simp only [List.zipWith_cons_cons, List.flatten_cons, List.cons_append, List.nil_append,
            List.cons.injEq] at heq
          obtain ⟨hx, hy, hrest⟩ := heq
          obtain ⟨hxs, hys⟩ := ih (Nat.succ.inj h) (Nat.succ.inj h') hrest (Nat.succ.inj hlength)
          exact ⟨by rw [hx, hxs], by rw [hy, hys]⟩

/-- Two columns are too short for a statistic of two, or not of one length. -/
def FallsBack {α : Type} (xs ys : List α) : Prop := xs.length < 2 ∨ xs.length ≠ ys.length

theorem computeAgg_fallsBack {V : Type} [Doubles V] (f : Bivariate) {xs ys : List V}
    (h : FallsBack xs ys) : computeAgg f.aggregation xs ys = Doubles.ofNat 0 := by
  cases f with
  | correlation =>
    have hnone : pearsonR xs ys = none := if_pos h
    change (pearsonR xs ys).getD _ = _
    rw [hnone]
    rfl
  | linearRegression =>
    have hback : ys.length < 2 ∨ ys.length ≠ xs.length := by
      unfold FallsBack at h
      omega
    have hnone : regrSlope ys xs = none := if_pos hback
    change (regrSlope ys xs).getD _ = _
    rw [hnone]
    rfl

theorem safeMean_isSome {V : Type} [Doubles V] {xs : List V} (h : 2 ≤ xs.length) :
    ∃ m, safeMean xs = some m := by
  refine ⟨_, if_neg ?_⟩
  omega

theorem varianceSample_isSome {V : Type} [Doubles V] {xs : List V} (h : 2 ≤ xs.length) :
    ∃ v, varianceSample xs = some v := by
  obtain ⟨m, hm⟩ := safeMean_isSome h
  unfold varianceSample
  rw [if_neg (by omega), hm]
  exact ⟨_, rfl⟩

theorem pearsonR_traces {xs ys : List F64} (h : ¬ FallsBack xs ys) :
    @pearsonR _ traces (xs.map fun d => [d]) (ys.map fun d => [d]) = some (interleave xs ys) := by
  obtain ⟨hlong, hsame⟩ : 2 ≤ xs.length ∧ xs.length = ys.length := by
    unfold FallsBack at h
    omega
  obtain ⟨mx, hmx⟩ := @safeMean_isSome _ traces (xs.map fun d => [d]) (by rwa [List.length_map])
  obtain ⟨my, hmy⟩ := @safeMean_isSome _ traces (ys.map fun d => [d]) (by rwa [List.length_map, ← hsame])
  obtain ⟨vx, hvx⟩ :=
    @varianceSample_isSome _ traces (xs.map fun d => [d]) (by rwa [List.length_map])
  obtain ⟨vy, hvy⟩ :=
    @varianceSample_isSome _ traces (ys.map fun d => [d]) (by rwa [List.length_map, ← hsame])
  unfold pearsonR
  rw [if_neg (by simpa [FallsBack] using h), hmx, hmy, hvx, hvy]
  change some (@sumOf _ traces (@deviations _ traces _ _ mx my)) = _
  rw [sumOf_traces, deviations_traces]

theorem regrSlope_traces {xs ys : List F64} (h : ¬ FallsBack xs ys) :
    @regrSlope _ traces (xs.map fun d => [d]) (ys.map fun d => [d]) = some (interleave xs ys) := by
  obtain ⟨hlong, hsame⟩ : 2 ≤ xs.length ∧ xs.length = ys.length := by
    unfold FallsBack at h
    omega
  obtain ⟨mx, hmx⟩ := @safeMean_isSome _ traces (xs.map fun d => [d]) (by rwa [List.length_map])
  obtain ⟨my, hmy⟩ := @safeMean_isSome _ traces (ys.map fun d => [d]) (by rwa [List.length_map, ← hsame])
  unfold regrSlope
  rw [if_neg (by simpa [FallsBack] using h), hmx, hmy]
  change some (@sumOf _ traces (@deviations _ traces _ _ mx my)) = _
  rw [sumOf_traces, deviations_traces]

/-- The two columns in the order in which the statistic reads them. -/
def Bivariate.ordered (f : Bivariate) (xs ys : List F64) : List F64 :=
  match f with
  | correlation => interleave xs ys
  | linearRegression => interleave ys xs

/-- The statistic in the arithmetic that forgets nothing. -/
def traced (f : Bivariate) (xs ys : List F64) : List F64 :=
  @computeAgg _ traces f.aggregation (xs.map fun d => [d]) (ys.map fun d => [d])

theorem fallsBack_map {V : Type} {g : F64 → V} {xs ys : List F64} :
    FallsBack (xs.map g) (ys.map g) ↔ FallsBack xs ys := by
  simp only [FallsBack, List.length_map]

theorem traced_of_fallsBack (f : Bivariate) {xs ys : List F64} (h : FallsBack xs ys) :
    traced f xs ys = [F64.ofInt 0] :=
  @computeAgg_fallsBack _ traces f _ _ (fallsBack_map.mpr h)

theorem traced_eq_ordered (f : Bivariate) {xs ys : List F64} (h : ¬ FallsBack xs ys) :
    traced f xs ys = f.ordered xs ys := by
  cases f with
  | correlation =>
    change (@pearsonR _ traces _ _).getD _ = _
    rw [pearsonR_traces h]
    rfl
  | linearRegression =>
    have hback : ¬ FallsBack ys xs := by
      unfold FallsBack at h ⊢
      omega
    change (@regrSlope _ traces _ _).getD _ = _
    rw [regrSlope_traces hback]
    rfl

theorem ordered_length (f : Bivariate) {xs ys : List F64} (h : xs.length = ys.length) :
    (f.ordered xs ys).length = 2 * xs.length := by
  cases f with
  | correlation => exact interleave_length h
  | linearRegression => exact (interleave_length h.symm).trans (by rw [h])

theorem ordered_inj (f : Bivariate) {xs ys xs' ys' : List F64} (h : xs.length = ys.length)
    (h' : xs'.length = ys'.length) (heq : f.ordered xs ys = f.ordered xs' ys') :
    xs = xs' ∧ ys = ys' := by
  cases f with
  | correlation => exact interleave_inj h h' heq
  | linearRegression => exact (interleave_inj h.symm h'.symm heq).symm

/-- What falls back is one double, and what does not is four of them or more. -/
theorem traced_length (f : Bivariate) {xs ys : List F64} (h : ¬ FallsBack xs ys) :
    4 ≤ (traced f xs ys).length := by
  rw [traced_eq_ordered f h]
  unfold FallsBack at h
  rw [ordered_length f (by omega)]
  omega

theorem traced_inj (f : Bivariate) {xs ys xs' ys' : List F64}
    (heq : traced f xs ys = traced f xs' ys') :
    xs = xs' ∧ ys = ys' ∨ FallsBack xs ys ∧ FallsBack xs' ys' := by
  by_cases hback : FallsBack xs ys
  · by_cases hback' : FallsBack xs' ys'
    · exact Or.inr ⟨hback, hback'⟩
    · have hlong := traced_length f hback'
      rw [← heq, traced_of_fallsBack f hback] at hlong
      exact absurd hlong (by decide)
  · by_cases hback' : FallsBack xs' ys'
    · have hlong := traced_length f hback
      rw [heq, traced_of_fallsBack f hback'] at hlong
      exact absurd hlong (by decide)
    · left
      rw [traced_eq_ordered f hback, traced_eq_ordered f hback'] at heq
      unfold FallsBack at hback hback'
      exact ordered_inj f (by omega) (by omega) heq

/-- Statistics of two pairs of columns agree in every arithmetic exactly where the columns do,
or where both pairs fall back. -/
theorem computeAgg_eq_iff (f : Bivariate) (xs ys xs' ys' : List F64) :
    (∀ (V : Type) [Doubles V],
      (computeAgg f.aggregation (xs.map Doubles.ofF64) (ys.map Doubles.ofF64) : V) =
        computeAgg f.aggregation (xs'.map Doubles.ofF64) (ys'.map Doubles.ofF64)) ↔
    xs = xs' ∧ ys = ys' ∨ FallsBack xs ys ∧ FallsBack xs' ys' := by
  constructor
  · intro h
    exact traced_inj f (@h _ traces)
  · rintro (⟨rfl, rfl⟩ | ⟨hback, hback'⟩)
    · intro V _
      rfl
    · intro V _
      rw [computeAgg_fallsBack f (fallsBack_map.mpr hback),
        computeAgg_fallsBack f (fallsBack_map.mpr hback')]

/-! ### Pairs -/

section Aligned
variable [TextSearch]

theorem computed_ofTwo (metric : MetricDefinition) (f : Bivariate) (rows : List JsonMap) (V : Type)
    [Doubles V] : (metric.ofTwo f).computed V rows =
      computeAgg f.aggregation ((metric.vals rows).map Doubles.ofF64)
        ((metric.secVals rows).map Doubles.ofF64) := by
  have hcount : f.aggregation ≠ .count := by
    cases f <;> intro h <;> cases h
  unfold MetricDefinition.computed
  rw [if_neg fun h => hcount h.1]
  rfl

/-- The statistics of two attributes are those of the pairs exactly where the rows have both
numbers or neither, or where there is none of either. -/
theorem takenOfPairs_iff (metric : MetricDefinition) (f : Bivariate) (rows : List JsonMap) :
    TakenOfPairs metric f rows ↔ PairedOrTooFew metric rows := by
  have hpairs : (metric.pairs rows).length = (metric.effRows rows).countP fun row =>
      (metric.readPrimary row).isSome && (metric.readSecondary row).isSome := by
    simp only [MetricDefinition.pairs, List.length_filterMap_eq_countP, isSome_readBoth]
  have hfalls : FallsBack (metric.vals rows) (metric.secVals rows) ↔
      (metric.effRows rows).countP (fun row => (metric.readPrimary row).isSome) < 2 ∨
      (metric.effRows rows).countP (fun row => (metric.readPrimary row).isSome) ≠
        (metric.effRows rows).countP (fun row => (metric.readSecondary row).isSome) := by
    simp only [FallsBack, MetricDefinition.vals, MetricDefinition.secVals,
      List.length_filterMap_eq_countP]
  have hagree : metric.vals rows = (metric.pairs rows).map Prod.fst ∧
      metric.secVals rows = (metric.pairs rows).map Prod.snd ↔
      ∀ row ∈ metric.effRows rows,
        (metric.readPrimary row).isSome = (metric.readSecondary row).isSome := by
    constructor
    · rintro ⟨hfirst, hsecond⟩
      apply agree_of_length
      · exact (congrArg List.length hfirst).trans (List.length_map _)
      · exact (congrArg List.length hsecond).trans (List.length_map _)
    · exact columns_eq_pairs
  have hfew : FallsBack ((metric.pairs rows).map Prod.fst) ((metric.pairs rows).map Prod.snd) ↔
      (metric.pairs rows).length < 2 := by
    simp [FallsBack]
  have hcolumns := computeAgg_eq_iff f (metric.vals rows) (metric.secVals rows)
    ((metric.pairs rows).map Prod.fst) ((metric.pairs rows).map Prod.snd)
  rw [hagree, hfalls, hfew, hpairs] at hcolumns
  unfold TakenOfPairs PairedOrTooFew
  rw [and_comm] at hcolumns
  simp only [computed_ofTwo]
  simpa only [List.map_map, Function.comp_def] using hcolumns

end Aligned

/-! ### Four rows, each with one number -/

/-- Exact arithmetic on the integers that doubles cut to; the root is the one of integers. -/
@[reducible] def exact : Doubles ℚ where
  ofF64 d := d.toI64
  ofNat n := n
  emptySum := 0
  add := (· + ·)
  sub := (· - ·)
  mul := (· * ·)
  div := (· / ·)
  square x := x * x
  sqrt x := x.num.toNat.sqrt
  lt a b := decide (a < b)
  le a b := decide (a ≤ b)
  eq a b := decide (a = b)
  floor x := x.num.toNat / x.den
  toJson _ := .null

def pointRow (field : String) (d : F64) : JsonMap := (∅ : JsonMap).insert field (.number (.float d))

def priceByArea : MetricDefinition where
  aggregation := .linearRegression
  attr := some "price"
  secondaryAttr := some "area"

/-- Two rows with a price and two with an area, zero and two. -/
def separateRows : List JsonMap :=
  [pointRow "price" (.ofInt 0), pointRow "area" (.ofInt 0), pointRow "price" (.ofInt 2),
    pointRow "area" (.ofInt 2)]

/-- No row has a price and an area, and yet the slope is one. -/
theorem slope_of_separate_rows : ¬ ∀ [TextSearch] (metric : MetricDefinition) (f : Bivariate)
    (rows : List JsonMap), TakenOfPairs metric f rows := by
  intro h
  have hslope := @h plainSearch priceByArea .linearRegression separateRows ℚ exact
  revert hslope
  decide +kernel

end MetriEngine.Aegis

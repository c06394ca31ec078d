import MetriEngine.Aegis.Aggregation
import MetriEngine.Eav.EntityIds

/-!
# The key of a metric, three times

A computed metric is stored under its name, or under a key made of its function and its attribute.
The comparison of periods and the cast to a KPI make that key anew, each with its own names for the
functions and its own way with a missing attribute.
-/
namespace MetriEngine.Aegis
open Foundation Storage Eav

/-! ### Numbers of functions -/

/-- The function of a number that is one's. -/
def aggregationOf : ℤ → Option AggregationFunction
  | 0 => some .unspecified
  | 1 => some .count
  | 2 => some .sum
  | 3 => some .avg
  | 4 => some .min
  | 5 => some .max
  | 6 => some .median
  | 7 => some .stdDev
  | 8 => some .variance
  | 9 => some .percentile90
  | 10 => some .percentile95
  | 11 => some .percentile99
  | 12 => some .correlation
  | 13 => some .linearRegression
  | 14 => some .logisticRegression
  | _ => none

def variantName : AggregationFunction → String
  | .unspecified => "AGGREGATION_FUNCTION_UNSPECIFIED"
  | .count => "COUNT"
  | .sum => "SUM"
  | .avg => "AVG"
  | .min => "MIN"
  | .max => "MAX"
  | .median => "MEDIAN"
  | .stdDev => "STD_DEV"
  | .variance => "VARIANCE"
  | .percentile90 => "PERCENTILE_90"
  | .percentile95 => "PERCENTILE_95"
  | .percentile99 => "PERCENTILE_99"
  | .correlation => "CORRELATION"
  | .linearRegression => "LINEAR_REGRESSION"
  | .logisticRegression => "LOGISTIC_REGRESSION"

/-- How a number is shown: `{:?}`, in lower case. -/
def fnStr (n : ℤ) : String :=
  let shown := match aggregationOf n with
    | some f => variantName f
    | none => "<UNKNOWN " ++ toString n ++ ">"
  String.ofList (shown.toList.map Char.toLower)

/-- The names of the functions in a KPI. -/
def kpiName : ℤ → String
  | 1 => "count"
  | 2 => "sum"
  | 3 => "avg"
  | 4 => "min"
  | 5 => "max"
  | _ => "agg"

/-! ### The three keys -/

/-- A metric as the request has it, with the number of its function. -/
structure MetricDefinitionT where
  aggregation : Signed 32
  attr : Option String := none
  name : Option String := none
  secondaryAttr : Option String := none
  filter : Option FilterNode := none

namespace MetricDefinitionT
variable (m : MetricDefinitionT)

/-- The metric as it is computed. -/
def metric : MetricDefinition where
  aggregation := (aggregationOf m.aggregation.val).getD .unspecified
  attr := m.attr
  name := m.name
  secondaryAttr := m.secondaryAttr
  filter := m.filter

def buildMetricAlias : String :=
  match m.name.filter (· ≠ "") with
  | some name => name
  | none => fnStr m.aggregation.val ++ "_" ++ bareName (m.attr.getD "total")

/-- The key of the previous value in a KPI. -/
def firstAlias : Option String :=
  m.name.or (m.attr.map fun a => kpiName m.aggregation.val ++ "_" ++ bareName a)

end MetricDefinitionT

/-! ### Names that diverge -/

/-- Two texts differ at a place that both have. -/
def Diverge (s t : String) : Prop :=
  ∃ i < min s.toList.length t.toList.length, s.toList[i]? ≠ t.toList[i]?

instance (s t : String) : Decidable (Diverge s t) :=
  inferInstanceAs (Decidable (∃ i < _, _))

theorem Diverge.append_ne {s t : String} (h : Diverge s t) (x y : String) : s ++ x ≠ t ++ y := by
  obtain ⟨i, hi, hne⟩ := h
  intro heq
  have hlist : s.toList ++ x.toList = t.toList ++ y.toList := by
    rw [← String.toList_append, heq, String.toList_append]
  have hleft : (s.toList ++ x.toList)[i]? = s.toList[i]? :=
    List.getElem?_append_left (by omega)
  have hright : (t.toList ++ y.toList)[i]? = t.toList[i]? :=
    List.getElem?_append_left (by omega)
  rw [← hleft, ← hright, hlist] at hne
  exact hne rfl

theorem ne_append_underscore {s t : String} (h : t.toList.length ≤ s.toList.length) (x : String) :
    s ++ "_" ++ x ≠ t := by
  intro heq
  have hlen := congrArg (fun t : String => t.toList.length) heq
  simp only [String.toList_append, List.length_append] at hlen
  have : "_".toList.length = 1 := rfl
  omega

/-- The name of the function in the key of a computed metric. -/
def storedName (n : ℤ) : String := aggName ((aggregationOf n).getD .unspecified)

/-- The functions that the comparison of periods names as they are stored. -/
def namedInComparison (n : ℤ) : Prop := 1 ≤ n ∧ n ≤ 8 ∨ 12 ≤ n ∧ n ≤ 14

/-- The functions that a KPI names as they are stored. -/
def namedInKpi (n : ℤ) : Prop := n < 6 ∨ 14 < n

theorem aggregationOf_eq_none {n : ℤ} (h : n < 0 ∨ 14 < n) : aggregationOf n = none := by
  unfold aggregationOf
  split <;> first | omega | rfl

theorem length_storedName_le (n : ℤ) : (storedName n).toList.length ≤ (fnStr n).toList.length := by
  by_cases hknown : 0 ≤ n ∧ n ≤ 14
  · obtain ⟨hlow, hhigh⟩ := hknown
    interval_cases n <;> decide +kernel
  · have hnone := aggregationOf_eq_none (n := n) (by omega)
    simp [fnStr, hnone, storedName, aggName]

theorem fnStr_cases (n : ℤ) :
    (namedInComparison n ∧ fnStr n = storedName n) ∨
      (¬namedInComparison n ∧ Diverge (fnStr n ++ "_") (storedName n ++ "_")) := by
  by_cases hknown : 0 ≤ n ∧ n ≤ 14
  · obtain ⟨hlow, hhigh⟩ := hknown
    interval_cases n
    all_goals unfold namedInComparison
    all_goals decide +kernel
  · have hnone := aggregationOf_eq_none (n := n) (by omega)
    refine Or.inr ⟨by unfold namedInComparison; omega, 0, ?_, ?_⟩
    · simp [fnStr, hnone, storedName, aggName]
    · simp [fnStr, hnone, storedName, aggName]

theorem kpiName_cases (n : ℤ) :
    (namedInKpi n ∧ kpiName n = storedName n) ∨
      (¬namedInKpi n ∧ Diverge (kpiName n) (storedName n)) := by
  by_cases hknown : 0 ≤ n ∧ n ≤ 14
  · obtain ⟨hlow, hhigh⟩ := hknown
    interval_cases n
    all_goals unfold namedInKpi
    all_goals decide +kernel
  · have hnone := aggregationOf_eq_none (n := n) (by omega)
    refine Or.inl ⟨by unfold namedInKpi; omega, ?_⟩
    have hkpi : kpiName n = "agg" := by
      unfold kpiName
      split <;> first | omega | rfl
    rw [hkpi, storedName, hnone]
    rfl

/-! ### Where the keys are one -/

namespace MetricDefinitionT
variable (m : MetricDefinitionT)

/-- The metric has a name that says something. -/
def Named : Prop := ∃ s, m.name = some s ∧ s ≠ ""

/-- The metric has no name, and its attribute has no namespace. -/
def Plain : Prop := m.name = none ∧ ∃ a, m.attr = some a ∧ a ≠ "" ∧ '/' ∉ a.toList

/-- The part of the stored key after the function and the underscore. -/
theorem metric_aliasName (hname : m.name = none) : m.metric.aliasName =
    if m.attr.getD "" = "" then storedName m.aggregation.val
    else storedName m.aggregation.val ++ "_" ++ m.attr.getD "" := by
  rw [MetricDefinition.aliasName, MetricDefinition.attrKey, metric, hname]
  rfl

theorem append_bareName_inj {s a : String} : s ++ "_" ++ bareName a = s ++ "_" ++ a ↔
    '/' ∉ a.toList := by
  rw [String.append_right_inj, bareName_eq_self_iff]

theorem metric_aliasName_of_name {s : String} (hname : m.name = some s) :
    m.metric.aliasName = s := by
  rw [MetricDefinition.aliasName, metric, hname]
  rfl

theorem buildMetricAlias_of_unnamed (hname : ∀ s, m.name = some s → s = "") :
    m.buildMetricAlias = fnStr m.aggregation.val ++ "_" ++ bareName (m.attr.getD "total") := by
  have hfilter : m.name.filter (· ≠ "") = none := by
    cases h : m.name with
    | none => rfl
    | some s => simp [hname s h]
  rw [buildMetricAlias, hfilter]

/-- The comparison of periods looks the metric up under its key. -/
theorem buildMetricAlias_iff : m.buildMetricAlias = m.metric.aliasName ↔
    m.Named ∨ m.Plain ∧ namedInComparison m.aggregation.val := by
  cases hname : m.name with
  | some s =>
    rw [m.metric_aliasName_of_name hname]
    by_cases hs : s = ""
    · have hempty : ∀ t, m.name = some t → t = "" := by
        rw [hname, hs]
        exact fun t ht => (Option.some.inj ht).symm
      rw [m.buildMetricAlias_of_unnamed hempty]
      constructor
      · intro h
        exact absurd h (ne_append_underscore (by rw [hs]; exact Nat.zero_le _) _)
      · rintro (⟨t, ht, hne⟩ | ⟨⟨hnone, _⟩, _⟩)
        · exact absurd (hempty t ht) hne
        · rw [hname] at hnone
          cases hnone
    · have hfilter : m.name.filter (· ≠ "") = some s := by
        rw [hname, Option.filter_some, if_pos (by simpa using hs)]
      have hkept : m.buildMetricAlias = s := by rw [buildMetricAlias, hfilter]
      exact ⟨fun _ => Or.inl ⟨s, hname, hs⟩, fun _ => hkept⟩
  | none =>
    rw [m.metric_aliasName hname, m.buildMetricAlias_of_unnamed (by simp [hname])]
    have hnamed : ¬m.Named := by simp [Named, hname]
    have hlength := length_storedName_le m.aggregation.val
    by_cases ha : m.attr.getD "" = ""
    · -- the stored key is the function alone
      rw [if_pos ha]
      constructor
      · intro h
        exact absurd h (ne_append_underscore hlength _)
      · rintro (h | ⟨⟨_, a, hattr, hne, _⟩, _⟩)
        · exact absurd h hnamed
        · rw [hattr] at ha
          exact absurd ha hne
    · rw [if_neg ha]
      obtain ⟨a, hattr⟩ : ∃ a, m.attr = some a := by
        cases h : m.attr with
        | none => simp [h] at ha
        | some a => exact ⟨a, rfl⟩
      simp only [hattr, Option.getD_some] at ha ⊢
      have hplain : m.Plain ↔ '/' ∉ a.toList := by simp [Plain, hname, hattr, ha]
      rw [hplain]
      rcases fnStr_cases m.aggregation.val with ⟨hlisted, hsame⟩ | ⟨hunlisted, hdiverge⟩
      · rw [hsame, append_bareName_inj]
        simp [hnamed, hlisted]
      · simp [hnamed, hunlisted, hdiverge.append_ne]

/-- A KPI looks the metric up under its key. -/
theorem firstAlias_iff : m.firstAlias = some m.metric.aliasName ↔
    m.name ≠ none ∨ m.Plain ∧ namedInKpi m.aggregation.val := by
  cases hname : m.name with
  | some s =>
    rw [m.metric_aliasName_of_name hname]
    simp [firstAlias, hname]
  | none =>
    rw [m.metric_aliasName hname]
    cases hattr : m.attr with
    | none => simp [firstAlias, hname, hattr, Plain]
    | some a =>
      have hfirst : m.firstAlias = some (kpiName m.aggregation.val ++ "_" ++ bareName a) := by
        simp [firstAlias, hname, hattr]
      rw [hfirst, Option.some.injEq, Option.getD_some]
      have hplain : m.Plain ↔ a ≠ "" ∧ '/' ∉ a.toList := by simp [Plain, hname, hattr]
      rw [hplain]
      rcases kpiName_cases m.aggregation.val with ⟨hlisted, hsame⟩ | ⟨hunlisted, hdiverge⟩
      · rw [hsame]
        by_cases ha : a = ""
        · rw [if_pos ha]
          simp [ha, ne_append_underscore]
        · rw [if_neg ha, append_bareName_inj]
          simp [ha, hlisted]
      · -- the function is told apart before the attribute is reached
        have hne : ∀ x y : String,
            kpiName m.aggregation.val ++ "_" ++ x ≠ storedName m.aggregation.val ++ y := by
          intro x y
          rw [String.append_assoc]
          exact hdiverge.append_ne _ _
        split_ifs with ha
        · have hshort := hne (bareName a) ""
          rw [String.append_empty] at hshort
          simp [hshort, hunlisted]
        · have hlong := hne (bareName a) ("_" ++ a)
          rw [← String.append_assoc] at hlong
          simp [hlong, hunlisted]

/-- Both look the metric up under its key. -/
def KeysAgree : Prop :=
  m.buildMetricAlias = m.metric.aliasName ∧ m.firstAlias = some m.metric.aliasName

theorem keysAgree_iff : m.KeysAgree ↔
    m.Named ∨ m.Plain ∧ 1 ≤ m.aggregation.val ∧ m.aggregation.val ≤ 5 := by
  rw [KeysAgree, buildMetricAlias_iff, firstAlias_iff]
  have hnamed : m.Named → m.name ≠ none := by
    rintro ⟨s, hs, _⟩
    simp [hs]
  have hplain : m.Plain → m.name = none := fun h => h.1
  have hlisted : namedInComparison m.aggregation.val ∧ namedInKpi m.aggregation.val ↔
      1 ≤ m.aggregation.val ∧ m.aggregation.val ≤ 5 := by
    unfold namedInComparison namedInKpi
    omega
  tauto

end MetricDefinitionT

/-! ### Computed metrics are found -/

section Computed
variable [TextSearch] (V : Type) [Doubles V] (rows : List JsonMap)

theorem contains_applyMetrics {metrics : List MetricDefinition} {metric : MetricDefinition}
    (h : metric ∈ metrics) : (applyMetrics V rows metrics).contains metric.aliasName = true := by
  have hfold : ∀ (l : List MetricDefinition) (result : JsonMap),
      (metric ∈ l ∨ result.contains metric.aliasName = true) →
      (l.foldl (fun result metric =>
        result.insert metric.aliasName (Doubles.toJson (metric.computed V rows))) result).contains
          metric.aliasName = true := by
    intro l
    induction l with
    | nil =>
      rintro result (hmem | hres)
      · cases hmem
      · exact hres
    | cons other rest ih =>
      intro result hmem
      rw [List.foldl_cons]
      apply ih
      rw [OrdMap.contains, OrdMap.lookup_insert]
      split_ifs with hkey
      · exact Or.inr rfl
      · rcases hmem with hmem | hres
        · rcases List.mem_cons.mp hmem with rfl | hrest
          · exact absurd rfl hkey
          · exact Or.inl hrest
        · exact Or.inr hres
  exact hfold metrics ∅ (Or.inl h)

/-- The three keys of a metric are one exactly where it has a name that says something, or it is a
count, a sum, an average, a minimum or a maximum of an attribute without a namespace. In a request
of such metrics no computed metric is missed. -/
theorem metricNames_iff (metrics : List MetricDefinitionT) :
    (∀ m ∈ metrics, m.KeysAgree ↔
      m.Named ∨ m.Plain ∧ 1 ≤ m.aggregation.val ∧ m.aggregation.val ≤ 5) ∧
    ((∀ m ∈ metrics, m.KeysAgree) → ∀ m ∈ metrics, ∃ key, m.firstAlias = some key ∧
      (applyMetrics V rows (metrics.map MetricDefinitionT.metric)).contains key = true ∧
      (applyMetrics V rows (metrics.map MetricDefinitionT.metric)).contains
        m.buildMetricAlias = true) := by
  refine ⟨fun m _ => m.keysAgree_iff, fun hagree m hm => ?_⟩
  obtain ⟨hbuilt, hfirst⟩ := hagree m hm
  have hmem : m.metric ∈ metrics.map MetricDefinitionT.metric := List.mem_map_of_mem hm
  have hfound := contains_applyMetrics V rows hmem
  exact ⟨_, hfirst, hfound, hbuilt ▸ hfound⟩

end Computed

/-- The sum of a plain attribute. -/
def sumOfHours : MetricDefinitionT where
  aggregation := ⟨2, by decide⟩
  attr := some "hours"

/-- An unnamed percentile. -/
def percentileOfHours : MetricDefinitionT where
  aggregation := ⟨9, by decide⟩
  attr := some "work/hours"

theorem sumOfHours_is_found : ∃ key, sumOfHours.firstAlias = some key ∧
    (@applyMetrics plainSearch _ traces [] ([sumOfHours].map MetricDefinitionT.metric)).contains key =
      true ∧
    (@applyMetrics plainSearch _ traces [] ([sumOfHours].map MetricDefinitionT.metric)).contains
      sumOfHours.buildMetricAlias = true := by
  have hagree : ∀ m ∈ [sumOfHours], m.KeysAgree := by
    intro m hm
    rw [List.mem_singleton.mp hm]
    exact ⟨by decide +kernel, by decide +kernel⟩
  exact (@metricNames_iff plainSearch _ traces [] [sumOfHours]).2 hagree sumOfHours
    List.mem_cons_self

/-- A percentile has three keys. -/
theorem percentileOfHours_keys :
    percentileOfHours.metric.aliasName = "p90_work/hours" ∧
    percentileOfHours.buildMetricAlias = "percentile_90_hours" ∧
    percentileOfHours.firstAlias = some "agg_hours" ∧ ¬percentileOfHours.KeysAgree := by
  refine ⟨by decide +kernel, by decide +kernel, by decide +kernel, fun h => ?_⟩
  exact absurd h.1 (by decide +kernel)

end MetriEngine.Aegis

import MetriEngine.Foundation.Joined
import MetriEngine.Foundation.Grouping
import MetriEngine.Aegis.Aggregation
import MetriEngine.Temporal.TimeFrame

/-!
# Charts that group

Pies and bubbles, tables and exports, and time series gather rows into groups and compute their
metrics group by group. The key of a group is the text of the dimensions of its rows: the
values that print, joined by bars. In a time series it is the interval of the row's time, and
the dimensions that are texts.
-/
namespace MetriEngine.Aegis
open Foundation Storage Eav Temporal

structure DimensionDefinition where
  attr : Option String := none
  interval : Option String := none
deriving DecidableEq

/-! ### Keys -/

section Keys
variable [F64Text]

/-- The text of a value in a key. Every number is a double, so integers are printed as such
never. -/
def printed : JsonValue → Option String
  | .string s => some s
  | .number n => some (F64Text.display n.asF64)
  | _ => none

/-- The values of a row that print, in the order of the dimensions. -/
def printedParts (value : String → JsonMap → Option JsonValue) (dimKeys : List String)
    (row : JsonMap) : List String :=
  dimKeys.filterMap fun k => (value k row).bind printed

def joinedKey (value : String → JsonMap → Option JsonValue) (dimKeys : List String)
    (row : JsonMap) : String :=
  (String.singleton '|').intercalate (printedParts value dimKeys row)

/-- The value of a dimension in a pie. -/
def pieValue (k : String) (row : JsonMap) : Option JsonValue := row.lookup k

/-- The value of a dimension in a table, under its full or its bare name. -/
def tableValue (k : String) (row : JsonMap) : Option JsonValue :=
  (row.lookup k).or (row.lookup (bareName k))

/-- A row with an empty key is in no slice. -/
def pieKey (dimKeys : List String) (row : JsonMap) : Option String :=
  if joinedKey pieValue dimKeys row = "" then none else some (joinedKey pieValue dimKeys row)

def tableKey (dimKeys : List String) (row : JsonMap) : Option String :=
  some (joinedKey tableValue dimKeys row)

end Keys

section Buckets
variable [TextSearch]

/-- `str::parse` of a unit, which never fails. -/
def calUnitOf (s : String) : CalUnit :=
  let name := TextSearch.lowercase s
  if name = "minute" then .minute
  else if name = "hour" then .hour
  else if name = "week" then .week
  else if name = "month" then .month
  else if name = "quarter" then .quarter
  else if name = "year" then .year
  else .day

/-- In UTC. -/
def truncateToInterval (epochSecs : ℤ) (interval : String) : ℤ :=
  truncateToUnit epochSecs (calUnitOf interval) (.fixed 0)

end Buckets

section Series
variable (dimensions : List DimensionDefinition)

def DimensionDefinition.hasInterval (d : DimensionDefinition) : Bool :=
  d.interval.any fun i => i ≠ ""

def timeDim : Option DimensionDefinition := dimensions.find? DimensionDefinition.hasInterval

def seriesInterval : String := ((timeDim dimensions).bind DimensionDefinition.interval).getD "day"

def bucketAttr : String := ((timeDim dimensions).bind DimensionDefinition.attr).getD "bucket"

/-- The dimensions without an interval. -/
def otherDims : List String :=
  (dimensions.filter fun d => !d.hasInterval).filterMap DimensionDefinition.attr

/-- The text of a dimension in a time series. -/
def dimText (row : JsonMap) (k : String) : String := textOf (row.lookup k)

def seriesTexts (row : JsonMap) : List String := (otherDims dimensions).map (dimText row)

variable [TextSearch]

def seriesBucket (row : JsonMap) : ℤ :=
  truncateToInterval (rowSeconds row).val (seriesInterval dimensions)

def seriesKey (row : JsonMap) : Option (ℤ ×ₗ List String) :=
  some (toLex (seriesBucket dimensions row, seriesTexts dimensions row))

end Series

/-! ### Charts -/

section Charts
variable [TextSearch] [F64Text] (V : Type) [Doubles V]

/-- The metrics of a group, with the dimensions of its first row. -/
def groupRow (metrics : List MetricDefinition) (value : String → JsonMap → Option JsonValue)
    (dimKeys : List String) (groupRows : List JsonMap) : JsonMap :=
  dimKeys.foldl (fun obj dk =>
    ((groupRows.head?.bind (value dk)).map fun v => obj.insert dk v).getD obj)
    (applyMetrics V groupRows metrics)

/-- The double of the first value of a row. -/
def firstNumber (row : JsonMap) : F64 :=
  ((row.entries.head?.map Prod.snd).bind JsonValue.asF64).getD (F64.ofInt 0)

variable (metrics : List MetricDefinition) (rows : List JsonMap)

/-- The slices of a pie, the groups of the hash map in the order `groups`. -/
def pieRows (dimKeys : List String) (groups : List (List JsonMap)) : List JsonMap :=
  (groups.map (groupRow V metrics pieValue dimKeys)).insertionSort fun a b =>
    (firstNumber a).lt (firstNumber b) = false

/-- The rows of a table, the groups of the hash map in the order `groups`. -/
def tableRows (dimKeys : List String) (groups : List (List JsonMap)) : List JsonMap :=
  groups.map (groupRow V metrics tableValue dimKeys)

/-- The points of a time series, each with its bucket and the texts of its first row. -/
def seriesRows (dimensions : List DimensionDefinition) (groups : List (List JsonMap)) :
    List JsonMap :=
  groups.map fun groupRows =>
    let first := groupRows.head?.getD ∅
    (otherDims dimensions).foldl (fun obj k => obj.insert k (.string (dimText first k)))
      ((applyMetrics V groupRows metrics).insert (bucketAttr dimensions)
        (.number (.ofSigned (seconds (seriesBucket dimensions first)))))

end Charts

/-! ### What grouping is for -/

/-- Rows agree on every dimension. -/
def AgreeOn (value : String → JsonMap → Option JsonValue) (dimKeys : List String)
    (r r' : JsonMap) : Prop := ∀ k ∈ dimKeys, value k r = value k r'

/-- Rows agree on every dimension of a time series: on an interval if their times lie in the
same one. -/
def AgreeInSeries [TextSearch] (dimensions : List DimensionDefinition) (r r' : JsonMap) : Prop :=
  ∀ d ∈ dimensions,
    if d.hasInterval then
      truncateToInterval (rowSeconds r).val (d.interval.getD "") =
        truncateToInterval (rowSeconds r').val (d.interval.getD "")
    else ∀ k ∈ d.attr, r.lookup k = r'.lookup k

/-- Counts without an attribute add up to the count of all rows. -/
def CountsAdd [TextSearch] (rows : List JsonMap) (groups : List (List JsonMap)) : Prop :=
  ∀ metric : MetricDefinition, metric.aggregation = .count → metric.attrKey = "" →
    ∀ (V : Type) [Doubles V], ∃ counts : List ℕ,
      groups.map (metric.computed V) = counts.map Doubles.ofNat ∧
      metric.computed V rows = Doubles.ofNat counts.sum

/-- In whatever order the groups come, they are a partition of the rows by their dimensions,
and counts add up. -/
def GroupsRight [TextSearch] (agree : JsonMap → JsonMap → Prop) (rows : List JsonMap)
    (groups : List (List JsonMap)) : Prop :=
  ∀ ordered, ordered.Perm groups → PartitionsBy agree rows ordered ∧ CountsAdd rows ordered

section Counts
variable [TextSearch]

theorem effRows_append (metric : MetricDefinition) (rows rows' : List JsonMap) :
    metric.effRows (rows ++ rows') = metric.effRows rows ++ metric.effRows rows' := by
  unfold MetricDefinition.effRows
  cases metric.filter with
  | none => rfl
  | some filterNode => exact List.filter_append rows rows'

theorem length_effRows_flatten (metric : MetricDefinition) (groups : List (List JsonMap)) :
    (metric.effRows groups.flatten).length =
      (groups.map fun group => (metric.effRows group).length).sum := by
  induction groups with
  | nil =>
    unfold MetricDefinition.effRows
    cases metric.filter <;> rfl
  | cons group groups ih =>
    rw [List.flatten_cons, effRows_append, List.length_append, ih, List.map_cons, List.sum_cons]

theorem effRows_perm (metric : MetricDefinition) {rows rows' : List JsonMap}
    (h : rows.Perm rows') : (metric.effRows rows).Perm (metric.effRows rows') := by
  unfold MetricDefinition.effRows
  cases metric.filter with
  | none => exact h
  | some filterNode => exact h.filter _

theorem countsAdd_of_perm {rows : List JsonMap} {groups : List (List JsonMap)}
    (h : groups.flatten.Perm rows) : CountsAdd rows groups := by
  intro metric hcount hattr V _
  refine ⟨groups.map fun group => (metric.effRows group).length, ?_, ?_⟩
  · rw [List.map_map]
    apply List.map_congr_left
    intro group _
    exact computed_count V hcount hattr group
  · rw [computed_count V hcount hattr rows, ← length_effRows_flatten,
      (effRows_perm metric h).length_eq]

theorem groupsRight_iff {κ : Type} [LinearOrder κ] {key : JsonMap → Option κ}
    {agree : JsonMap → JsonMap → Prop} {rows : List JsonMap} :
    GroupsRight agree rows (groupsOf key rows) ↔
      (∀ r ∈ rows, (key r).isSome) ∧ ∀ r ∈ rows, ∀ r' ∈ rows, (key r = key r' ↔ agree r r') := by
  rw [← partitionsBy_groupsOf_iff]
  constructor
  · intro h
    exact (h _ (List.Perm.refl _)).1
  · intro h ordered hperm
    have hpartition := h.of_perm hperm
    exact ⟨hpartition, countsAdd_of_perm hpartition.perm⟩

end Counts

/-! ### When keys tell rows apart -/

section Apart
variable [F64Text] (value : String → JsonMap → Option JsonValue) (dimKeys : List String)

/-- The pieces of the printed values of a row between bars. -/
def keyPieces (row : JsonMap) : List String := Text.pieces '|' (printedParts value dimKeys row)

/-- Rows that do not agree have other pieces. -/
def PiecesApart (rows : List JsonMap) : Prop :=
  ∀ r ∈ rows, ∀ r' ∈ rows, keyPieces value dimKeys r = keyPieces value dimKeys r' →
    AgreeOn value dimKeys r r'

variable {value} {dimKeys}

theorem joinedKey_eq_iff (r r' : JsonMap) :
    joinedKey value dimKeys r = joinedKey value dimKeys r' ↔
      keyPieces value dimKeys r = keyPieces value dimKeys r' :=
  Text.intercalate_eq_iff_pieces '|' _ _

theorem joinedKey_eq_empty_iff (r : JsonMap) :
    joinedKey value dimKeys r = "" ↔ keyPieces value dimKeys r = [""] := by
  have hnil := Text.intercalate_eq_iff_pieces '|' (printedParts value dimKeys r) []
  rw [String.intercalate_nil] at hnil
  exact hnil

theorem keyPieces_of_agree {r r' : JsonMap} (h : AgreeOn value dimKeys r r') :
    keyPieces value dimKeys r = keyPieces value dimKeys r' := by
  have hparts : printedParts value dimKeys r = printedParts value dimKeys r' := by
    apply List.filterMap_congr
    intro k hk
    rw [h k hk]
  unfold keyPieces
  rw [hparts]

end Apart

section Laws
variable [TextSearch] [F64Text]

theorem table_groups_iff (dimKeys : List String) (rows : List JsonMap) :
    GroupsRight (AgreeOn tableValue dimKeys) rows (groupsOf (tableKey dimKeys) rows) ↔
      PiecesApart tableValue dimKeys rows := by
  rw [groupsRight_iff]
  constructor
  · rintro ⟨_, h⟩ r hr r' hr' hpieces
    exact (h r hr r' hr').mp (congrArg some ((joinedKey_eq_iff r r').mpr hpieces))
  · intro h
    refine ⟨fun _ _ => rfl, ?_⟩
    intro r hr r' hr'
    constructor
    · intro hkey
      exact h r hr r' hr' ((joinedKey_eq_iff r r').mp (Option.some.inj hkey))
    · intro hagree
      exact congrArg some ((joinedKey_eq_iff r r').mpr (keyPieces_of_agree hagree))

omit [TextSearch] in
theorem pieKey_isSome_iff (dimKeys : List String) (r : JsonMap) :
    (pieKey dimKeys r).isSome ↔ keyPieces pieValue dimKeys r ≠ [""] := by
  rw [ne_eq, ← joinedKey_eq_empty_iff]
  unfold pieKey
  split_ifs with h
  · simp [h]
  · simp [h]

theorem pie_groups_iff (dimKeys : List String) (rows : List JsonMap) :
    GroupsRight (AgreeOn pieValue dimKeys) rows (groupsOf (pieKey dimKeys) rows) ↔
      (∀ r ∈ rows, keyPieces pieValue dimKeys r ≠ [""]) ∧ PiecesApart pieValue dimKeys rows := by
  rw [groupsRight_iff]
  simp only [pieKey_isSome_iff]
  constructor
  · rintro ⟨hsome, h⟩
    refine ⟨hsome, ?_⟩
    intro r hr r' hr' hpieces
    apply (h r hr r' hr').mp
    unfold pieKey
    rw [(joinedKey_eq_iff r r').mpr hpieces]
  · rintro ⟨hsome, h⟩
    refine ⟨hsome, ?_⟩
    intro r hr r' hr'
    constructor
    · intro hkey
      have hfull : joinedKey pieValue dimKeys r ≠ "" := fun hempty =>
        hsome r hr ((joinedKey_eq_empty_iff r).mp hempty)
      have hfull' : joinedKey pieValue dimKeys r' ≠ "" := fun hempty =>
        hsome r' hr' ((joinedKey_eq_empty_iff r').mp hempty)
      unfold pieKey at hkey
      rw [if_neg hfull, if_neg hfull'] at hkey
      exact h r hr r' hr' ((joinedKey_eq_iff r r').mp (Option.some.inj hkey))
    · intro hagree
      unfold pieKey
      rw [(joinedKey_eq_iff r r').mpr (keyPieces_of_agree hagree)]

/-- Rows of one interval with one text for each dimension agree, and rows that agree are of one
interval. -/
structure SeriesApart (dimensions : List DimensionDefinition) (rows : List JsonMap) : Prop where
  told : ∀ r ∈ rows, ∀ r' ∈ rows, seriesBucket dimensions r = seriesBucket dimensions r' →
    seriesTexts dimensions r = seriesTexts dimensions r' → AgreeInSeries dimensions r r'
  together : ∀ r ∈ rows, ∀ r' ∈ rows, AgreeInSeries dimensions r r' →
    seriesBucket dimensions r = seriesBucket dimensions r'

omit [F64Text] in
theorem seriesTexts_of_agree {dimensions : List DimensionDefinition} {r r' : JsonMap}
    (h : AgreeInSeries dimensions r r') : seriesTexts dimensions r = seriesTexts dimensions r' := by
  apply List.map_congr_left
  intro k hk
  obtain ⟨d, hd, hattr⟩ := List.mem_filterMap.mp hk
  obtain ⟨hmem, hinterval⟩ := List.mem_filter.mp hd
  have hdim := h d hmem
  rw [if_neg (by simpa using hinterval)] at hdim
  rw [dimText, dimText, hdim k hattr]

omit [F64Text] in
theorem seriesKey_eq_iff (dimensions : List DimensionDefinition) (r r' : JsonMap) :
    seriesKey dimensions r = seriesKey dimensions r' ↔
      seriesBucket dimensions r = seriesBucket dimensions r' ∧
        seriesTexts dimensions r = seriesTexts dimensions r' := by
  unfold seriesKey
  rw [Option.some.injEq, toLex_inj, Prod.mk.injEq]

omit [F64Text] in
theorem series_groups_iff (dimensions : List DimensionDefinition) (rows : List JsonMap) :
    GroupsRight (AgreeInSeries dimensions) rows (groupsOf (seriesKey dimensions) rows) ↔
      SeriesApart dimensions rows := by
  rw [groupsRight_iff]
  simp only [seriesKey_eq_iff]
  constructor
  · rintro ⟨_, h⟩
    constructor
    · intro r hr r' hr' hbucket htexts
      exact (h r hr r' hr').mp ⟨hbucket, htexts⟩
    · intro r hr r' hr' hagree
      exact ((h r hr r' hr').mpr hagree).1
  · intro h
    refine ⟨fun _ _ => rfl, ?_⟩
    intro r hr r' hr'
    constructor
    · rintro ⟨hbucket, htexts⟩
      exact h.told r hr r' hr' hbucket htexts
    · intro hagree
      exact ⟨h.together r hr r' hr' hagree, seriesTexts_of_agree hagree⟩

/-- Charts group rows by their dimensions exactly where the printed pieces, and in a time series
the interval and the texts, tell apart what does not agree; a pie leaves out a row without
anything printed. -/
theorem grouping_iff (rows : List JsonMap) (dimKeys : List String)
    (dimensions : List DimensionDefinition) :
    (GroupsRight (AgreeOn pieValue dimKeys) rows (groupsOf (pieKey dimKeys) rows) ↔
      (∀ r ∈ rows, keyPieces pieValue dimKeys r ≠ [""]) ∧ PiecesApart pieValue dimKeys rows) ∧
    (GroupsRight (AgreeOn tableValue dimKeys) rows (groupsOf (tableKey dimKeys) rows) ↔
      PiecesApart tableValue dimKeys rows) ∧
    (GroupsRight (AgreeInSeries dimensions) rows (groupsOf (seriesKey dimensions) rows) ↔
      SeriesApart dimensions rows) :=
  ⟨pie_groups_iff dimKeys rows, table_groups_iff dimKeys rows, series_groups_iff dimensions rows⟩

end Laws

/-! ### A bar in a text -/

def flatRow (street flat : String) : JsonMap :=
  ((∅ : JsonMap).insert "street" (.string street)).insert "flat" (.string flat)

/-- Two rows that agree on neither dimension have one key. -/
theorem bar_in_a_text : ¬ ∀ [TextSearch] [F64Text] (rows : List JsonMap) (dimKeys : List String),
    GroupsRight (AgreeOn tableValue dimKeys) rows (groupsOf (tableKey dimKeys) rows) := by
  intro h
  have hgroups := @h plainSearch bitsText [flatRow "x|y" "z", flatRow "x" "y|z"] ["street", "flat"]
  have hapart := (@table_groups_iff plainSearch bitsText _ _).mp hgroups
  have hstreet := hapart (flatRow "x|y" "z") (by simp) (flatRow "x" "y|z") (by simp)
    (by decide +kernel) "street" (by simp)
  exact absurd hstreet (by decide +kernel)

end MetriEngine.Aegis

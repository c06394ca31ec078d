import MetriEngine.Aegis.Filter
import MetriEngine.Aegis.Hydrator

/-!
# Tables

The page of a table: the ids of the plan are hydrated, filtered, laid into their time
window, sorted and cut. Where nothing filters and nothing sorts, the ids are cut before
they are hydrated; where something does, only so many of them are.
-/
namespace MetriEngine.Eav.F64

/-! ### Doubles -/

/-- `d as i64` -/
def asSigned (d : F64) : Signed 64 := ⟨d.toI64, toI64_bounds d⟩

/-- `(d / 1000.0) as i64` of a double beyond `1e11`. -/
def milliToSeconds (d : F64) : Signed 64 :=
  (ofRatio (d.mantissa * 2 ^ (max d.exponent 1 - 1075))
    (1000 * 2 ^ (1075 - max d.exponent 1))).asSigned

/-- `v > 1e11` -/
def isMilliseconds (d : F64) : Bool := (ofInt 100000000000).lt d

example : (ofInt 1700000000123).isMilliseconds = true ∧
    (ofInt 1700000000123).milliToSeconds.val = 1700000000 := by decide +kernel

end MetriEngine.Eav.F64

namespace MetriEngine.Aegis
open Foundation Storage Eav

/-! ### Times -/

structure TimeRange where
  startTs : Option (Signed 64)
  endTs : Option (Signed 64)
deriving DecidableEq

def TimeRange.isBounded (range : TimeRange) : Bool := range.startTs.isSome || range.endTs.isSome

def tsFields : List String :=
  ["created_at", "updated_at", "deleted_at", "ingested_at", "timestamp", "meta/created_at"]

def tsCandidates : List String :=
  ["created_at", "meta/created_at", "timestamp", "updated_at", "ingested_at"]

def normalizeField (row : JsonMap) (field : String) : JsonMap :=
  match row.lookup field with
  | some (.number n) =>
    if n.asF64.isMilliseconds then row.insert field (.number (.ofSigned n.asF64.milliToSeconds))
    else row
  | _ => row

/-- Times in milliseconds become times in seconds. -/
def normalizeTimestamps (row : JsonMap) : JsonMap := tsFields.foldl normalizeField row

def inTimeWindow (range : TimeRange) (row : JsonMap) : Bool :=
  let tsRaw := (tsCandidates.findSome? fun f => (row.lookup f).bind JsonValue.asF64).getD (F64.ofInt 0)
  let tsSecs := if tsRaw.isMilliseconds then tsRaw.milliToSeconds else tsRaw.asSigned
  (range.startTs.all fun start => start.val ≤ tsSecs.val) &&
    range.endTs.all fun stop => tsSecs.val ≤ stop.val

def retainInTimeWindow (range : TimeRange) (rows : List JsonMap) : List JsonMap :=
  if range.isBounded then rows.filter (inTimeWindow range) else rows

/-! ### Order -/

structure SortDefinition where
  field : Option String
  descending : Bool
deriving DecidableEq

def compareJsonValues : JsonValue → JsonValue → Ordering
  | .number a, .number b =>
    if a.asF64.lt b.asF64 then .lt else if b.asF64.lt a.asF64 then .gt else .eq
  | .string a, .string b => compare a b
  | _, _ => .eq

/-- The first sort definition under which two rows differ decides. -/
def compareRows (sortDefs : List SortDefinition) (a b : JsonMap) : Ordering :=
  sortDefs.foldr (fun spec rest =>
    let field := spec.field.getD ""
    let order := compareJsonValues ((a.lookup field).getD .null) ((b.lookup field).getD .null)
    (if spec.descending then order.swap else order).then rest) .eq

/-- A stable sort. -/
def applySort (sortDefs : List SortDefinition) (rows : List JsonMap) : List JsonMap :=
  if sortDefs = [] then rows else rows.insertionSort fun a b => compareRows sortDefs a b ≠ .gt

/-! ### Cursors -/

/-- Base64 of texts; what is read and is not UTF-8 is the empty text. -/
class CursorCodec where
  encode : String → String
  decode : String → Option String

section Cursors
variable [CursorCodec]

/-- The offset and the limit that a cursor asks for. -/
def decodeCursor (cursor : Option String) (fallbackLimit : ℕ) : ℕ × ℕ :=
  match (cursor.filter fun s => s ≠ "").bind CursorCodec.decode with
  | none => (0, fallbackLimit)
  | some decoded =>
    match Text.splitOnce ":" decoded with
    | none => ((parseUnsigned decoded).getD 0, fallbackLimit)
    | some (offset, limit) => ((parseUnsigned offset).getD 0, (parseUnsigned limit).getD fallbackLimit)

theorem decodeCursor_lt {cursor : Option String} {fallbackLimit : ℕ} (h : fallbackLimit < 2 ^ 64) :
    (decodeCursor cursor fallbackLimit).1 < 2 ^ 64 ∧ (decodeCursor cursor fallbackLimit).2 < 2 ^ 64 := by
  have hparse (s : String) {other : ℕ} (hother : other < 2 ^ 64) :
      (parseUnsigned s).getD other < 2 ^ 64 := by
    cases hs : parseUnsigned s with
    | none => exact hother
    | some n => exact parseUnsigned_lt hs
  unfold decodeCursor
  split
  · exact ⟨by norm_num, h⟩
  · split
    · exact ⟨hparse _ (by norm_num), h⟩
    · exact ⟨hparse _ (by norm_num), hparse _ h⟩

def encodeCursor (offset limit : ℕ) : String :=
  CursorCodec.encode (toString offset ++ ":" ++ toString limit)

structure Pagination where
  pageSize : ℕ
  hasNext : Bool
  hasPrevious : Bool
  nextCursor : Option String
  previousCursor : Option String
deriving DecidableEq

def buildPagination (offset limit total : ℕ) : Pagination :=
  let nextOffset := (offset + limit) % 2 ^ 64
  { pageSize := limit
    hasNext := nextOffset < total
    hasPrevious := 0 < offset
    nextCursor := if nextOffset < total then some (encodeCursor nextOffset limit) else none
    previousCursor := if 0 < offset then some (encodeCursor (offset - limit) limit) else none }

end Cursors

/-! ### Requests -/

/-- A request for a table: its output is cast to a table, to a CSV export, or to nothing
and it has no metrics. -/
structure TableRequest where
  tenantId : String
  entity : Option String
  filters : List FilterNode
  hierarchy : Option HierarchyContext
  search : Option String
  sort : List SortDefinition
  limit : Signed 32
  cursor : Option String

namespace TableRequest
variable (request : TableRequest)

/-- `limit as usize`, a hundred where it is zero. -/
def effectiveLimit : ℕ :=
  if request.limit.val = 0 then 100 else (request.limit.val % 2 ^ 64).toNat

def hasFilters (range : TimeRange) : Bool :=
  !(businessFilters request.filters).isEmpty || request.hierarchy.isSome ||
    (request.search.any fun s => s ≠ "") || range.isBounded

def needsLargeScan (range : TimeRange) : Bool :=
  request.hasFilters range || !request.sort.isEmpty

end TableRequest

structure TablePage where
  data : List JsonMap
  total : ℕ
  pagination : Pagination
deriving DecidableEq

/-! ### The table -/

section Table
variable [Codecs] [MapOrder] [TextSearch] [CursorCodec]
variable (registry : CodeRegistry) (cache : EavCache) (pullOf : String → EntityMap)
variable (request : TableRequest) (range : TimeRange) (resolvedAttrs allEntityIds : List String)

def TableRequest.passes : JsonMap → Bool :=
  rowPassesFilters registry request.filters request.hierarchy request.search request.entity

def TableRequest.offset : ℕ := (decodeCursor request.cursor request.effectiveLimit).1

def TableRequest.pageLimit : ℕ := (decodeCursor request.cursor request.effectiveLimit).2

def TableRequest.targetMatches : ℕ := (request.offset + request.pageLimit) % 2 ^ 64

/-- The most ids that are hydrated. -/
def TableRequest.maxHydrations : ℕ :=
  max (request.targetMatches * 5 % 2 ^ 64) (if request.needsLargeScan range then 10000 else 250)

/-- Where the ids of the page begin and end among all. -/
def TableRequest.sliceStart : ℕ := min request.offset allEntityIds.length
def TableRequest.sliceEnd : ℕ := min request.targetMatches allEntityIds.length

/-- The ids that are hydrated; a slice that ends before it begins is none. -/
def TableRequest.candidates : Option (List String) :=
  if request.needsLargeScan range then some allEntityIds
  else if request.sliceStart allEntityIds ≤ request.sliceEnd allEntityIds then
    some ((allEntityIds.drop (request.sliceStart allEntityIds)).take
      (request.sliceEnd allEntityIds - request.sliceStart allEntityIds))
  else none

def TableRequest.hydrateCall (candidates : List String) : HydrateCall where
  tenantId := request.tenantId
  entityIds := candidates
  resolvedAttrs := resolvedAttrs
  maxHydrations := request.maxHydrations range
  targetBreak := if request.needsLargeScan range then request.targetMatches else request.pageLimit
  shouldBreakEarly := !request.needsLargeScan range

/-- The part of `run_oltp_query_fbs` that answers a table, the ids of the plan at hand. -/
def runTable (completed : List (String × ℕ) → List (String × ℕ)) : Option TablePage :=
  (request.candidates range allEntityIds).map fun candidates =>
    let hydrated := hydrateEntities registry (request.passes registry) cache pullOf
      (request.hydrateCall range resolvedAttrs candidates) completed
    let matchingRows := retainInTimeWindow range (hydrated.map normalizeTimestamps)
    let total := if request.needsLargeScan range then matchingRows.length else allEntityIds.length
    let sorted := applySort request.sort matchingRows
    let rows :=
      if request.needsLargeScan range then (sorted.drop request.offset).take request.pageLimit
      else sorted.take request.pageLimit
    ⟨rows, total, buildPagination request.offset request.pageLimit total⟩

/-- The row of an entity that passes the filters, as hydrating it alone gives it. -/
def TableRequest.rowOf (id : String) : Option JsonMap :=
  ownRow registry (request.passes registry) cache pullOf
    (request.hydrateCall range resolvedAttrs allEntityIds) id

/-- What a table is for: all ids are hydrated, and the rows cut at the end. -/
def referenceTable : TablePage :=
  let hydrated := allEntityIds.filterMap
    (request.rowOf registry cache pullOf range resolvedAttrs allEntityIds)
  let matchingRows := retainInTimeWindow range (hydrated.map normalizeTimestamps)
  let sorted := applySort request.sort matchingRows
  ⟨(sorted.drop request.offset).take request.pageLimit, matchingRows.length,
    buildPagination request.offset request.pageLimit matchingRows.length⟩

/-! ### Rows in the window -/

/-- What is left of a row in the window of a request. -/
def shownRow (range : TimeRange) (row : Option JsonMap) : Option JsonMap :=
  (row.map normalizeTimestamps).filter fun row => !range.isBounded || inTimeWindow range row

omit [Codecs] [MapOrder] [TextSearch] [CursorCodec] in
theorem retain_filterMap (f : String → Option JsonMap) (ids : List String) :
    retainInTimeWindow range ((ids.filterMap f).map normalizeTimestamps) =
      ids.filterMap fun id => shownRow range (f id) := by
  rw [List.map_filterMap]
  unfold retainInTimeWindow
  split_ifs with hbounded
  · rw [List.filter_filterMap]
    congr 1
    funext id
    cases h : f id with
    | none => rfl
    | some row => simp only [shownRow, hbounded, Option.map_some, Bool.not_true, Bool.false_or]
  · congr 1
    funext id
    cases h : f id with
    | none => rfl
    | some row =>
      simp only [shownRow, hbounded, Option.map_some, Bool.not_false, Bool.true_or]
      rfl

/-! ### Scans -/

/-- Where a scan keeps every row: rows are still wanted after the cache was seen, or no
other entity has one in the window, and none beyond the cap has one. -/
structure ScanWhole : Prop where
  wanted : (hitRows registry (request.passes registry) cache
      (request.hydrateCall range resolvedAttrs allEntityIds)).length < request.targetMatches ∨
    ∀ id ∈ allEntityIds.take (request.maxHydrations range),
      cachedEntry cache (request.hydrateCall range resolvedAttrs allEntityIds) id = none →
        shownRow range (pulledRow registry (request.passes registry) pullOf id) = none
  capped : ∀ id ∈ allEntityIds.drop (request.maxHydrations range),
    shownRow range (request.rowOf registry cache pullOf range resolvedAttrs allEntityIds id) = none

section Scan
variable {registry} {cache} {pullOf} {request} {range} {resolvedAttrs} {allEntityIds}

/-- The rows of a scan, before they are sorted. -/
theorem scanned_eq (hscan : request.needsLargeScan range = true)
    {completed : List (String × ℕ) → List (String × ℕ)}
    (hcompleted : ∀ misses, (completed misses).Perm misses) :
    retainInTimeWindow range ((hydrateEntities registry (request.passes registry) cache pullOf
      (request.hydrateCall range resolvedAttrs allEntityIds) completed).map normalizeTimestamps) =
      (allEntityIds.take (request.maxHydrations range)).filterMap fun id =>
        shownRow range (hydratedRow registry (request.passes registry) cache pullOf
          (request.hydrateCall range resolvedAttrs allEntityIds) id) := by
  have hbreak : (request.hydrateCall range resolvedAttrs allEntityIds).shouldBreakEarly = false := by
    simp [TableRequest.hydrateCall, hscan]
  rw [hydrateEntities_eq hbreak hcompleted, ← retain_filterMap]
  rfl

/-- A hydrated row is the one of the entity alone, or it is lost. -/
theorem hydratedRow_eq_or (id : String) :
    shownRow range (hydratedRow registry (request.passes registry) cache pullOf
        (request.hydrateCall range resolvedAttrs allEntityIds) id) =
      shownRow range (request.rowOf registry cache pullOf range resolvedAttrs allEntityIds id) ∨
    shownRow range (hydratedRow registry (request.passes registry) cache pullOf
        (request.hydrateCall range resolvedAttrs allEntityIds) id) = none := by
  unfold hydratedRow TableRequest.rowOf ownRow
  cases cachedEntry cache (request.hydrateCall range resolvedAttrs allEntityIds) id with
  | some entry => exact Or.inl rfl
  | none =>
    dsimp only
    split_ifs with hwanted
    · exact Or.inl rfl
    · exact Or.inr rfl

/-- Within the cap every row is kept exactly where rows are wanted or none is missing. -/
theorem hydratedRow_eq_iff (hscan : request.needsLargeScan range = true) :
    (∀ id ∈ allEntityIds.take (request.maxHydrations range),
      shownRow range (hydratedRow registry (request.passes registry) cache pullOf
        (request.hydrateCall range resolvedAttrs allEntityIds) id) =
      shownRow range (request.rowOf registry cache pullOf range resolvedAttrs allEntityIds id)) ↔
    ((hitRows registry (request.passes registry) cache
      (request.hydrateCall range resolvedAttrs allEntityIds)).length < request.targetMatches ∨
    ∀ id ∈ allEntityIds.take (request.maxHydrations range),
      cachedEntry cache (request.hydrateCall range resolvedAttrs allEntityIds) id = none →
        shownRow range (pulledRow registry (request.passes registry) pullOf id) = none) := by
  have htarget : (request.hydrateCall range resolvedAttrs allEntityIds).targetBreak =
      request.targetMatches := by
    simp [TableRequest.hydrateCall, hscan]
  by_cases hwanted : (hitRows registry (request.passes registry) cache
      (request.hydrateCall range resolvedAttrs allEntityIds)).length < request.targetMatches
  · rw [eq_true hwanted, true_or, iff_true]
    intro id _
    unfold hydratedRow TableRequest.rowOf ownRow
    rw [htarget, if_pos hwanted]
  · rw [eq_false hwanted, false_or]
    apply forall₂_congr
    intro id _
    unfold hydratedRow TableRequest.rowOf ownRow
    rw [htarget, if_neg hwanted]
    cases cachedEntry cache (request.hydrateCall range resolvedAttrs allEntityIds) id with
    | some entry => simp
    | none =>
      dsimp only
      constructor
      · intro h _
        exact h.symm
      · intro h
        exact (h rfl).symm

theorem scan_eq_reference_iff (hscan : request.needsLargeScan range = true)
    {completed : List (String × ℕ) → List (String × ℕ)}
    (hcompleted : ∀ misses, (completed misses).Perm misses) :
    runTable registry cache pullOf request range resolvedAttrs allEntityIds completed =
      some (referenceTable registry cache pullOf request range resolvedAttrs allEntityIds) ↔
    ScanWhole registry cache pullOf request range resolvedAttrs allEntityIds := by
  have hcandidates : request.candidates range allEntityIds = some allEntityIds := by
    simp [TableRequest.candidates, hscan]
  unfold runTable referenceTable
  rw [hcandidates, Option.map_some]
  dsimp only
  rw [scanned_eq hscan hcompleted, retain_filterMap, hscan]
  simp only [if_true]
  -- the reference takes the rows within the cap, and then those beyond it
  have hparts : allEntityIds.filterMap (fun id => shownRow range
        (request.rowOf registry cache pullOf range resolvedAttrs allEntityIds id)) =
      (allEntityIds.take (request.maxHydrations range)).filterMap (fun id => shownRow range
        (request.rowOf registry cache pullOf range resolvedAttrs allEntityIds id)) ++
      (allEntityIds.drop (request.maxHydrations range)).filterMap (fun id => shownRow range
        (request.rowOf registry cache pullOf range resolvedAttrs allEntityIds id)) := by
    rw [← List.filterMap_append, List.take_append_drop]
  constructor
  · intro h
    have htotal := congrArg TablePage.total (Option.some.inj h)
    dsimp only at htotal
    rw [hparts, List.length_append] at htotal
    have hlost : ∀ id ∈ allEntityIds.take (request.maxHydrations range), _ := fun id _ =>
      @hydratedRow_eq_or _ _ _ _ registry cache pullOf request range resolvedAttrs allEntityIds id
    have hle := length_filterMap_le_of_lost hlost
    constructor
    · apply (hydratedRow_eq_iff hscan).mp
      apply eq_of_length_filterMap hlost
      omega
    · apply List.filterMap_eq_nil_iff.mp
      apply List.eq_nil_of_length_eq_zero
      omega
  · intro h
    have hcap := List.filterMap_eq_nil_iff.mpr h.capped
    rw [hparts, hcap, List.append_nil,
      List.filterMap_congr ((hydratedRow_eq_iff hscan).mpr h.wanted)]

end Scan

/-! ### Slices -/

/-- Where a slice keeps every row: it does not end before it begins, all of it is hydrated,
and every id of the plan has a row. -/
structure SliceWhole : Prop where
  ordered : request.sliceStart allEntityIds ≤ request.sliceEnd allEntityIds
  hydrated : request.sliceEnd allEntityIds - request.sliceStart allEntityIds ≤
    request.maxHydrations range
  rows : ∀ id ∈ allEntityIds,
    (request.rowOf registry cache pullOf range resolvedAttrs allEntityIds id).isSome = true

section Slice
variable {registry} {cache} {pullOf} {request} {range} {resolvedAttrs} {allEntityIds}

omit [Codecs] [MapOrder] [TextSearch] in
theorem request_lt (request : TableRequest) : request.offset < 2 ^ 64 ∧ request.pageLimit < 2 ^ 64 := by
  apply decodeCursor_lt
  unfold TableRequest.effectiveLimit
  split_ifs
  · norm_num
  · omega

omit [Codecs] [MapOrder] [TextSearch] in
/-- The slice is the part of the page, wherever it does not end before it begins. -/
theorem slice_eq (h : request.sliceStart allEntityIds ≤ request.sliceEnd allEntityIds) :
    (allEntityIds.drop (request.sliceStart allEntityIds)).take
        (request.sliceEnd allEntityIds - request.sliceStart allEntityIds) =
      (allEntityIds.drop request.offset).take request.pageLimit := by
  obtain ⟨hoffset, hlimit⟩ := request_lt request
  unfold TableRequest.sliceStart TableRequest.sliceEnd TableRequest.targetMatches at *
  rcases Nat.le_total request.offset allEntityIds.length with hle | hge
  · rw [Nat.min_eq_left hle, List.take_eq_take_iff, List.length_drop]
    omega
  · rw [Nat.min_eq_right hge, List.drop_length, List.drop_eq_nil_of_le hge]
    simp

theorem slice_eq_reference_iff (hslice : request.needsLargeScan range = false)
    {completed : List (String × ℕ) → List (String × ℕ)}
    (hcompleted : ∀ misses, (completed misses).Perm misses) :
    runTable registry cache pullOf request range resolvedAttrs allEntityIds completed =
      some (referenceTable registry cache pullOf request range resolvedAttrs allEntityIds) ↔
    SliceWhole registry cache pullOf request range resolvedAttrs allEntityIds := by
  have hrange : range.isBounded = false := by
    simp only [TableRequest.needsLargeScan, TableRequest.hasFilters, Bool.or_eq_false_iff] at hslice
    exact hslice.1.2
  have hsort : request.sort = [] := by
    simp only [TableRequest.needsLargeScan, Bool.or_eq_false_iff] at hslice
    simpa using hslice.2
  let rowOf := request.rowOf registry cache pullOf range resolvedAttrs allEntityIds
  let start := request.sliceStart allEntityIds
  let stop := request.sliceEnd allEntityIds
  by_cases horder : start ≤ stop
  swap
  · -- the slice is none
    have hnone : runTable registry cache pullOf request range resolvedAttrs allEntityIds completed =
        none := by
      unfold runTable TableRequest.candidates
      rw [if_neg (by simp [hslice]), if_neg horder]
      rfl
    rw [hnone]
    constructor
    · intro h
      cases h
    · intro h
      exact absurd h.ordered horder
  -- no early end: there are no more candidates than rows on a page
  have hhydrated (slice : List String) (hle : slice.length ≤ request.pageLimit) :
      hydrateEntities registry (request.passes registry) cache pullOf
        (request.hydrateCall range resolvedAttrs slice) completed =
        (slice.take (request.maxHydrations range)).filterMap rowOf := by
    apply hydrateEntities_of_length_le _ hcompleted
    have hbreak : (request.hydrateCall range resolvedAttrs slice).targetBreak = request.pageLimit := by
      simp [TableRequest.hydrateCall, hslice]
    rw [hbreak]
    exact (List.length_take_le' _ _).trans hle
  let slice := (allEntityIds.drop request.offset).take request.pageLimit
  have hrun : runTable registry cache pullOf request range resolvedAttrs allEntityIds completed =
      some ⟨(((slice.take (request.maxHydrations range)).filterMap rowOf).map
          normalizeTimestamps).take request.pageLimit, allEntityIds.length,
        buildPagination request.offset request.pageLimit allEntityIds.length⟩ := by
    unfold runTable TableRequest.candidates
    rw [if_neg (by simp [hslice]), if_pos horder, slice_eq horder, Option.map_some, hhydrated _
      (List.length_take_le _ _)]
    simp [retainInTimeWindow, hrange, applySort, hsort, hslice, slice]
  have hreference : referenceTable registry cache pullOf request range resolvedAttrs allEntityIds =
      ⟨(((allEntityIds.filterMap rowOf).map normalizeTimestamps).drop request.offset).take
          request.pageLimit, (allEntityIds.filterMap rowOf).length,
        buildPagination request.offset request.pageLimit (allEntityIds.filterMap rowOf).length⟩ := by
    simp [referenceTable, retainInTimeWindow, hrange, applySort, hsort, rowOf]
  -- where every id has a row, cutting the ids cuts the rows
  have hrows (h : ∀ id ∈ allEntityIds, (rowOf id).isSome = true) (ids : List String)
      (hids : ids ⊆ allEntityIds) : (ids.filterMap rowOf).map normalizeTimestamps =
        ids.map fun id => normalizeTimestamps ((rowOf id).getD ∅) := by
    rw [List.map_filterMap, ← List.filterMap_eq_map']
    apply List.filterMap_congr
    intro id hid
    obtain ⟨row, hrow⟩ := Option.isSome_iff_exists.mp (h id (hids hid))
    rw [hrow]
    rfl
  have hslice_mem : slice ⊆ allEntityIds :=
    List.Subset.trans (List.take_subset _ _) (List.drop_subset _ _)
  have hlength : slice.length = stop - start := by
    rw [show slice = _ from (slice_eq horder).symm, List.length_take, List.length_drop]
    unfold start stop TableRequest.sliceStart TableRequest.sliceEnd
    omega
  rw [hrun, hreference]
  constructor
  · intro h
    have hpage := Option.some.inj h
    have hsome := List.filterMap_length_eq_length.mp (congrArg TablePage.total hpage).symm
    have hdata := congrArg (fun page => page.data.length) hpage
    dsimp only at hdata
    rw [hrows hsome _ (List.Subset.trans (List.take_subset _ _) hslice_mem),
      hrows hsome _ (List.Subset.refl _), ← List.map_drop, ← List.map_take, ← List.map_take,
      List.length_map, List.length_map, List.length_take, List.length_take, hlength] at hdata
    refine ⟨horder, ?_, hsome⟩
    have hle : stop - start ≤ request.pageLimit := by
      rw [← hlength]
      exact List.length_take_le _ _
    change stop - start ≤ request.maxHydrations range
    omega
  · intro h
    have hwhole : slice.take (request.maxHydrations range) = slice := by
      apply List.take_of_length_le
      rw [hlength]
      exact h.hydrated
    have htotal := List.filterMap_length_eq_length.mpr h.rows
    rw [hwhole, hrows h.rows _ hslice_mem, hrows h.rows _ (List.Subset.refl _), htotal,
      ← List.map_drop, ← List.map_take, ← List.map_take]
    congr 3
    rw [List.take_take, Nat.min_self]

end Slice

/-- A table answers as the reference does exactly where neither the slice nor the scan that
it takes loses a row. -/
theorem runTable_eq_reference_iff {completed : List (String × ℕ) → List (String × ℕ)}
    (hcompleted : ∀ misses, (completed misses).Perm misses) :
    runTable registry cache pullOf request range resolvedAttrs allEntityIds completed =
      some (referenceTable registry cache pullOf request range resolvedAttrs allEntityIds) ↔
    if request.needsLargeScan range then
      ScanWhole registry cache pullOf request range resolvedAttrs allEntityIds
    else SliceWhole registry cache pullOf request range resolvedAttrs allEntityIds := by
  split_ifs with hscan
  · exact scan_eq_reference_iff hscan hcompleted
  · exact slice_eq_reference_iff (by simpa using hscan) hcompleted

end Table

/-! ### Tables of notes -/

/-- Cursors that are not encoded. -/
@[reducible] def plainCursors : CursorCodec := ⟨id, some⟩

def notesRequest (filters : List FilterNode) : TableRequest where
  tenantId := "t"
  entity := some "note"
  filters := filters
  hierarchy := none
  search := none
  sort := []
  limit := ⟨1, by norm_num⟩
  cursor := some "1:1"

def untilForever : TimeRange := ⟨none, none⟩

abbrev runNotes (w : EavHistory) (filters : List FilterNode) (ids : List String) : Option TablePage :=
  @runTable plainCodecs keyOrder plainSearch plainCursors noteRegistry ∅ (noteState w)
    (notesRequest filters) untilForever [] ids List.reverse

abbrev referenceNotes (w : EavHistory) (filters : List FilterNode) (ids : List String) : TablePage :=
  @referenceTable plainCodecs keyOrder plainSearch plainCursors noteRegistry ∅ (noteState w)
    (notesRequest filters) untilForever [] ids

/-- The second of two notes is the second page of one row. -/
theorem second_note_page : ∃ w, Run noteStep EavHistory.Successive EavHistory.start w ∧
    runNotes w [] ["e", "f"] = some (referenceNotes w [] ["e", "f"]) := by
  have hexec : (exec noteStep EavHistory.Successive EavHistory.start
      [noteCall .create "e" "a" 1, noteCall .create "f" "b" 2]).any (fun w => decide (∀ id ∈ ["e", "f"],
        (@TableRequest.rowOf plainCodecs keyOrder plainSearch plainCursors noteRegistry ∅ (noteState w)
          (notesRequest []) untilForever [] ["e", "f"] id).isSome = true)) = true := by
    decide +kernel
  obtain ⟨w, hrun, hw⟩ := exists_run_of_exec hexec
  refine ⟨w, hrun, ?_⟩
  apply (@runTable_eq_reference_iff plainCodecs keyOrder plainSearch plainCursors noteRegistry ∅
    (noteState w) (notesRequest []) untilForever [] ["e", "f"] List.reverse List.reverse_perm).mpr
  have hslice : @TableRequest.needsLargeScan (notesRequest []) untilForever = false := by decide
  rw [hslice, if_neg (by decide)]
  apply @SliceWhole.mk plainCodecs keyOrder plainSearch plainCursors
  · decide +kernel
  · decide +kernel
  · exact of_decide_eq_true hw

/-- The lookup of an entity by its id. -/
def lookupFilter (id : String) : FilterNode :=
  .leaf ⟨some "entity/ulid", some { stringVal := some id }, .eq⟩

/-- An id that no entity has is counted, though no row is shown for it. -/
theorem missing_note_is_counted : ∃ page, runNotes EavHistory.start [lookupFilter "x"] ["x"] = some page ∧
    page.total = 1 ∧ (referenceNotes EavHistory.start [lookupFilter "x"] ["x"]).total = 0 := by
  have hpage : (runNotes EavHistory.start [lookupFilter "x"] ["x"]).any (fun page =>
      decide (page.total = 1 ∧
        (referenceNotes EavHistory.start [lookupFilter "x"] ["x"]).total = 0)) = true := by
    decide +kernel
  obtain ⟨page, hrun, htotals⟩ := Option.any_eq_true _ _ |>.mp hpage
  exact ⟨page, hrun, of_decide_eq_true htotals⟩

end MetriEngine.Aegis

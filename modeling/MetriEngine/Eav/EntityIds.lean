import MetriEngine.Eav.DatomStore
import MetriEngine.Foundation.Grouping

/-!
# Entity ids out of partition keys

Three readers take the id of an entity out of the partition key of its datoms, as the fourth part
between the `#`s, and judge each entity by its datoms.
-/
namespace MetriEngine.Eav
open Foundation Storage

/-! ### The readers -/

/-- `pk_str.split('#').nth(3)` -/
def entityOfPk (pk : String) : Option String := (Text.split pk '#')[3]?

def entityOfItem (item : Item) : Option String :=
  ((item.lookup "PK").bind avString).bind entityOfPk

/-- Whether a row asserts, also where its sort key is not one of the log. -/
def rowAsserts (item : Item) : Bool :=
  (((item.lookup "SK").bind avBytes).bind fun sk =>
    if sk.length = 11 then some (decide ((sk.drop 10).headD 0 ≠ 0)) else none).getD true

def typeRow (item : Item) : Option (String × Bool × String) :=
  (entityOfItem item).map fun entityId =>
    (entityId, rowAsserts item, ((item.lookup "v").bind avString).getD "")

/-- What `execute_aevt_scan_by_type` makes of the rows of its scan: the last row of an entity
counts. -/
def aevtScanByType (raw : List Item) (entityType : String) : List String :=
  (Grouped.gather (fun _ row => some row) (raw.filterMap typeRow)).select fun row =>
    row.1 && row.2 = entityType

/-- The exact value of a row against the value looked for. -/
def valueMatches (expectedV : String) : Option AttributeValue → Bool
  | some (.s s) => s = expectedV
  | some (.n n) => n = expectedV
  | some (.bool b) => expectedV = if b then "true" else "false"
  | _ => false

/-- The transaction and the operation of a row. -/
def rowVersion (item : Item) : Option (U64 × Bool) :=
  (((item.lookup "SK").bind avBytes).bind decodeEavtSk).map fun sk => (sk.2.1, sk.2.2)

/-- `(prev_tx, prev_op) >= (tx, op)` -/
def notBefore (previous version : U64 × Bool) : Bool :=
  version.1 < previous.1 || version.1 = previous.1 && (!version.2 || previous.2)

/-- A row replaces what is kept of its entity if it is of a later version. -/
def keepLatest {ν : Type} (version : ν → U64 × Bool) (kept : Option ν) (row : ν) : Option ν :=
  match kept with
  | none => some row
  | some previous => if notBefore (version previous) (version row) then none else some row

def valueRow (expectedV : String) (item : Item) : Option (String × (U64 × Bool) × Bool) :=
  (entityOfItem item).bind fun entityId =>
    (rowVersion item).map fun version =>
      (entityId, version, valueMatches expectedV (item.lookup "v"))

def dedupLatestAssertedByValue (raw : List Item) (expectedV : String) : List String :=
  (Grouped.gather (keepLatest Prod.fst) (raw.filterMap (valueRow expectedV))).select fun row =>
    row.1.2 && row.2

def rangeRow (item : Item) : Option (String × U64 × Bool) :=
  (entityOfItem item).bind fun entityId => (rowVersion item).map fun version => (entityId, version)

def dedupLatestAssertedInRange (raw : List Item) : List String :=
  (Grouped.gather (keepLatest id) (raw.filterMap rangeRow)).select fun row => row.2

/-! ### Parts of a partition key -/

theorem notMem_of_mem_splitOnSep {α : Type*} [DecidableEq α] {sep : α} {l part : List α}
    (h : part ∈ splitOnSep sep l) : sep ∉ part := by
  induction l generalizing part with
  | nil =>
    rw [splitOnSep, List.mem_singleton] at h
    rw [h]
    exact List.not_mem_nil
  | cons x xs ih =>
    rw [splitOnSep] at h
    split_ifs at h with hx
    · rcases List.mem_cons.mp h with rfl | h
      · exact List.not_mem_nil
      · exact ih h
    · cases hsplit : splitOnSep sep xs with
      | nil =>
        rw [hsplit, List.mem_singleton] at h
        rw [h, List.mem_singleton]
        exact Ne.symm hx
      | cons y ys =>
        rw [hsplit] at h ih
        rcases List.mem_cons.mp h with rfl | h
        · rw [List.mem_cons, not_or]
          exact ⟨Ne.symm hx, ih List.mem_cons_self⟩
        · exact ih (List.mem_cons_of_mem _ h)

theorem splitOnSep_ne_nil {α : Type*} [DecidableEq α] (sep : α) (l : List α) :
    splitOnSep sep l ≠ [] := by
  cases l with
  | nil => simp [splitOnSep]
  | cons x xs =>
    rw [splitOnSep]
    split_ifs
    · simp
    · cases splitOnSep sep xs <;> simp

/-- The part after the last slash holds none. -/
theorem slash_notMem_bareName (name : String) : '/' ∉ (bareName name).toList := by
  have hne : Text.split name '/' ≠ [] := by
    rw [Text.split, Ne, List.map_eq_nil_iff]
    exact splitOnSep_ne_nil '/' name.toList
  rw [bareName, List.getLastD_eq_getLast?, List.getLast?_eq_some_getLast hne, Option.getD_some]
  obtain ⟨chars, hchars, hpart⟩ := List.mem_map.mp (List.getLast_mem hne)
  rw [← hpart, String.toList_ofList]
  exact notMem_of_mem_splitOnSep hchars

/-- A name is its own last part where it has no slash. -/
theorem bareName_eq_self_iff {name : String} : bareName name = name ↔ '/' ∉ name.toList := by
  constructor
  · intro h
    rw [← h]
    exact slash_notMem_bareName name
  · intro h
    rw [bareName, Text.split, splitOnSep_of_notMem h]
    simp

theorem notMem_of_entityOfPk {pk entityId : String} (h : entityOfPk pk = some entityId) :
    '#' ∉ entityId.toList := by
  obtain ⟨part, hpart, rfl⟩ := List.mem_map.mp (List.mem_of_getElem? h)
  rw [String.toList_ofList]
  exact notMem_of_mem_splitOnSep hpart

theorem entityOfPk_eavtPk {tenantId entityId : String} (ht : '#' ∉ tenantId.toList)
    (he : '#' ∉ entityId.toList) : entityOfPk (eavtPk tenantId entityId) = some entityId := by
  have hlist : (eavtPk tenantId entityId).toList =
      ['T'] ++ '#' :: (tenantId.toList ++ '#' :: (['E'] ++ '#' :: entityId.toList)) := by
    simp [eavtPk]
  rw [entityOfPk, Text.split, hlist, splitOnSep_append (by decide), splitOnSep_append ht,
    splitOnSep_append (by decide), splitOnSep_of_notMem he]
  simp

/-- No reader names an entity whose id has a `#`. -/
theorem notMem_of_mem_inRange {raw : List Item} {entityId : String}
    (h : entityId ∈ dedupLatestAssertedInRange raw) : '#' ∉ entityId.toList := by
  obtain ⟨row, hrow, rfl⟩ := List.mem_map.mp (Grouped.mem_rows_of_mem_select h)
  obtain ⟨item, -, hitem⟩ := List.mem_filterMap.mp hrow
  obtain ⟨found, hfound, hmap⟩ := Option.bind_eq_some_iff.mp hitem
  obtain ⟨version, -, rfl⟩ := Option.map_eq_some_iff.mp hmap
  obtain ⟨pk, -, hpk⟩ := Option.bind_eq_some_iff.mp hfound
  exact notMem_of_entityOfPk hpk

/-! ### The rows of one entity -/

def Datom.version (d : Datom) : U64 × Bool := (d.txId, d.op)

/-- The latest of some datoms, the first of those of one version. -/
def latestDatom (own : List Datom) : Option Datom :=
  own.foldl (fun best d => (keepLatest Datom.version best d).or best) none

theorem filter_rows {ν : Type} (datoms : List Datom) (f : Datom → ν) (entityId : String) :
    (((datoms.map fun d => (d.entityId, f d)).filter fun row => row.1 = entityId).map Prod.snd) =
      (datoms.filter (·.entityId = entityId)).map f := by
  rw [List.filter_map, List.map_map]
  rfl

/-- The last of some rows is the row of the last datom. -/
theorem foldl_last {ν : Type} (f : Datom → ν) (own : List Datom) :
    (own.map f).foldl (fun kept row => (some row).or kept) none = own.getLast?.map f := by
  induction own using List.reverseRecOn with
  | nil => rfl
  | append_singleton own d ih => simp

/-- The row kept of some is the row of the latest datom. -/
theorem foldl_keepLatest {ν : Type} {version : ν → U64 × Bool} {f : Datom → ν}
    (h : ∀ d : Datom, version (f d) = d.version) (own : List Datom) :
    (own.map f).foldl (fun kept row => (keepLatest version kept row).or kept) none =
      (latestDatom own).map f := by
  have hfold : ∀ best : Option Datom,
      (own.map f).foldl (fun kept row => (keepLatest version kept row).or kept) (best.map f) =
        (own.foldl (fun best d => (keepLatest Datom.version best d).or best) best).map f := by
    induction own with
    | nil => exact fun best => rfl
    | cons d own ih =>
      intro best
      have hstep : (keepLatest version (best.map f) (f d)).or (best.map f) =
          ((keepLatest Datom.version best d).or best).map f := by
        cases best with
        | none => rfl
        | some b =>
          rw [Option.map_some, keepLatest, keepLatest, h, h]
          cases notBefore b.version d.version <;> rfl
      rw [List.map_cons, List.foldl_cons, hstep, ih, List.foldl_cons]
  exact hfold none

/-! ### What they are for -/

section Datoms
variable [F64Text]

/-- The last of the entity's datoms asserts the type. -/
def hasType (entityType : String) (own : List Datom) : Bool :=
  own.getLast?.any fun d => d.op && (avString d.value.stored).getD "" = entityType

/-- The latest of the entity's datoms asserts the value. -/
def hasValue (expectedV : String) (own : List Datom) : Bool :=
  (latestDatom own).any fun d => d.op && valueMatches expectedV (some d.value.stored)

/-- The latest of the entity's datoms asserts something. -/
def isPresent (own : List Datom) : Bool := (latestDatom own).any Datom.op

/-- The ids are those of the entities that their own datoms make out, each once. -/
def ExactlyOf (verdict : List Datom → Bool) (datoms : List Datom) (ids : List String) : Prop :=
  ids.Nodup ∧ ∀ entityId, entityId ∈ ids ↔ verdict (datoms.filter (·.entityId = entityId)) = true

/-- The three readers name the entities that the datoms are of. -/
structure NamesEntities (datoms : List Datom) : Prop where
  byType : ∀ entityType,
    ExactlyOf (hasType entityType) datoms (aevtScanByType (datoms.map eavtItem) entityType)
  byValue : ∀ expectedV,
    ExactlyOf (hasValue expectedV) datoms
      (dedupLatestAssertedByValue (datoms.map eavtItem) expectedV)
  inRange : ExactlyOf isPresent datoms (dedupLatestAssertedInRange (datoms.map eavtItem))

/-! ### What the readers see of a datom -/

theorem entityOfItem_eavtItem (d : Datom) : entityOfItem (eavtItem d) = entityOfPk d.eavtPk := by
  rw [entityOfItem, eavtItem_PK]
  rfl

theorem rowVersion_eavtItem (d : Datom) : rowVersion (eavtItem d) = some d.version := by
  rw [rowVersion, eavtItem_SK, Option.bind_some, avBytes, Option.bind_some, Datom.eavtSk,
    decodeEavtSk_buildEavtSk]
  rfl

theorem rowAsserts_eavtItem (d : Datom) : rowAsserts (eavtItem d) = d.op := by
  have hdecode := decodeEavtSk_buildEavtSk d.attrId d.txId d.op
  rw [decodeEavtSk, if_neg (by simp)] at hdecode
  simp only [Option.some.injEq, Prod.mk.injEq] at hdecode
  rw [rowAsserts, eavtItem_SK, Option.bind_some, avBytes, Option.bind_some, Datom.eavtSk,
    if_pos (buildEavtSk_length _ _ _), Option.getD_some]
  exact hdecode.2.2

theorem typeRow_eavtItem {d : Datom} (h : entityOfPk d.eavtPk = some d.entityId) :
    typeRow (eavtItem d) =
      some (d.entityId, d.op, (avString d.value.stored).getD "") := by
  rw [typeRow, entityOfItem_eavtItem, h, Option.map_some, rowAsserts_eavtItem, eavtItem_v,
    Option.bind_some]

theorem valueRow_eavtItem {d : Datom} (h : entityOfPk d.eavtPk = some d.entityId)
    (expectedV : String) :
    valueRow expectedV (eavtItem d) =
      some (d.entityId, d.version, valueMatches expectedV (some d.value.stored)) := by
  rw [valueRow, entityOfItem_eavtItem, h, Option.bind_some, rowVersion_eavtItem, Option.map_some,
    eavtItem_v]

theorem rangeRow_eavtItem {d : Datom} (h : entityOfPk d.eavtPk = some d.entityId) :
    rangeRow (eavtItem d) = some (d.entityId, d.version) := by
  rw [rangeRow, entityOfItem_eavtItem, h, Option.bind_some, rowVersion_eavtItem, Option.map_some]

/-- The rows of datoms whose ids are told are the datoms under their ids. -/
theorem filterMap_eavtItem {ν : Type} {row : Item → Option (String × ν)} {f : Datom → ν}
    {datoms : List Datom} (h : ∀ d ∈ datoms, row (eavtItem d) = some (d.entityId, f d)) :
    (datoms.map eavtItem).filterMap row = datoms.map fun d => (d.entityId, f d) := by
  rw [List.filterMap_map, ← List.filterMap_eq_map]
  apply List.filterMap_congr
  exact h

/-! ### The readers name the entities of the datoms -/

theorem NamesEntities.of_told {datoms : List Datom}
    (h : ∀ d ∈ datoms, entityOfPk d.eavtPk = some d.entityId) : NamesEntities datoms where
  byType entityType := by
    refine ⟨Grouped.nodup_select _ _, fun entityId => ?_⟩
    rw [aevtScanByType, Grouped.mem_select_gather,
      filterMap_eavtItem fun d hd => typeRow_eavtItem (h d hd), filter_rows, foldl_last, hasType,
      Option.any_map]
  byValue expectedV := by
    refine ⟨Grouped.nodup_select _ _, fun entityId => ?_⟩
    have hkept := fun own => @foldl_keepLatest _ Prod.fst
      (fun d : Datom => (d.version, valueMatches expectedV (some d.value.stored))) (fun _ => rfl) own
    rw [dedupLatestAssertedByValue, Grouped.mem_select_gather,
      filterMap_eavtItem fun d hd => valueRow_eavtItem (h d hd) expectedV, filter_rows,
      hkept, hasValue, Option.any_map]
    rfl
  inRange := by
    refine ⟨Grouped.nodup_select _ _, fun entityId => ?_⟩
    have hkept := fun own => @foldl_keepLatest _ id Datom.version (fun _ => rfl) own
    rw [dedupLatestAssertedInRange, Grouped.mem_select_gather,
      filterMap_eavtItem fun d hd => rangeRow_eavtItem (h d hd), filter_rows,
      hkept, isPresent, Option.any_map]
    rfl

/-- The readers name the entities of the datoms, of whichever of some ids, exactly if none of the
ids has a `#`. -/
theorem names_entities_iff {tenantId : String} (ht : '#' ∉ tenantId.toList)
    (ids : String → Prop) :
    (∀ datoms : List Datom, (∀ d ∈ datoms, d.tenantId = tenantId ∧ ids d.entityId) →
      NamesEntities datoms) ↔ ∀ entityId, ids entityId → '#' ∉ entityId.toList := by
  constructor
  · intro h entityId hid
    let d : Datom := ⟨tenantId, entityId, "entity/type", 1, .str "document_chunk", 1, true⟩
    have hnames := h [d] fun u hu => by rw [List.mem_singleton.mp hu]; exact ⟨rfl, hid⟩
    have hmem : entityId ∈ dedupLatestAssertedInRange ([d].map eavtItem) := by
      apply (hnames.inRange.2 entityId).mpr
      simp [d, isPresent, latestDatom, keepLatest]
    exact notMem_of_mem_inRange hmem
  · intro h datoms hdatoms
    apply NamesEntities.of_told
    intro d hd
    obtain ⟨hd1, hd2⟩ := hdatoms d hd
    rw [Datom.eavtPk, hd1]
    exact entityOfPk_eavtPk ht (h _ hd2)

end Datoms

theorem names_entities_iff_node :
    (∀ datoms : List Datom, (∀ d ∈ datoms, d.tenantId = "t1" ∧ d.entityId = "n1") →
      @NamesEntities bitsText datoms) ↔
      ∀ entityId : String, entityId = "n1" → '#' ∉ entityId.toList :=
  @names_entities_iff bitsText "t1" (by decide) (· = "n1")

/-- Two chunks of a file, the second one removed. -/
def chunkDatoms : List Datom :=
  [⟨"t1", "F1#chunk-0", "parent_file", 7, .str "F1", 1, true⟩,
    ⟨"t1", "F1#chunk-1", "parent_file", 7, .str "F1", 1, true⟩,
    ⟨"t1", "F1#chunk-1", "parent_file", 7, .str "F1", 2, false⟩]

/-- The readers take both chunks for one entity of another id, and its removal for that of both. -/
theorem chunks_taken_for_one :
    @dedupLatestAssertedByValue (chunkDatoms.map (@eavtItem bitsText)) "F1" = [] ∧
      @dedupLatestAssertedByValue ((chunkDatoms.take 2).map (@eavtItem bitsText)) "F1" = ["F1"] ∧
      @hasValue bitsText "F1" (chunkDatoms.filter (·.entityId = "F1#chunk-0")) = true ∧
      ¬ @NamesEntities bitsText chunkDatoms := by
  have hnone : dedupLatestAssertedByValue (chunkDatoms.map (@eavtItem bitsText)) "F1" = [] := by
    decide +kernel
  have hasserted :
      @hasValue bitsText "F1" (chunkDatoms.filter (·.entityId = "F1#chunk-0")) = true := by
    decide +kernel
  refine ⟨hnone, by decide +kernel, hasserted, fun h => ?_⟩
  have hmem := ((@NamesEntities.byValue bitsText _ h "F1").2 "F1#chunk-0").mpr hasserted
  rw [hnone] at hmem
  cases hmem

end MetriEngine.Eav

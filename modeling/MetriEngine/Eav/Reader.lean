import MetriEngine.Eav.Codice
import MetriEngine.Storage.Query

/-!
# Reading an entity

A reader folds the datoms of an entity's partition into its current state: under each
attribute name the assertion of the latest transaction, unless that transaction
retracts the attribute.
-/
namespace MetriEngine.Eav
open Foundation Storage

abbrev EntityMap := OrdMap String DatomValue

theorem eavtPk_inj {tenantId entityId entityId' : String} :
    eavtPk tenantId entityId = eavtPk tenantId entityId' ↔ entityId = entityId' := by
  simp [eavtPk]

/-! ### Filters -/

/-- Whether an attribute is asked for, by its name or by its bare name. -/
def asksFor (attrs : Option (List String)) (name : String) : Bool :=
  attrs.all fun filter => decide (name ∈ filter) || decide (bareName name ∈ filter)

/-! ### The fold -/

/-- Attribute id, transaction and operation of an item that is a datom. -/
def datomKey (item : Item) : Option (U16 × U64 × Bool) :=
  ((item.lookup "SK").bind avBytes).bind decodeEavtSk

section Fold
variable {α : Type}

/-- What a datom makes of the latest value of its attribute. One that is no newer
than it changes nothing; an assertion without a value does not either. -/
def supersede (latest : Option (U64 × α)) (txId : U64) (op : Bool) (val : Option α) :
    Option (U64 × α) :=
  if latest.all fun prev => decide (prev.1 < txId) then
    if op then (val.map fun v => (txId, v)).or latest else none
  else latest

/-- The latest values by attribute name, with their transactions. -/
abbrev Latest (α : Type) := OrdMap String (U64 × α)

def Latest.put (latest : Latest α) (attrName : String) : Option (U64 × α) → Latest α
  | some v => latest.insert attrName v
  | none => latest.erase attrName

def Latest.supersede (latest : Latest α) (attrName : String) (txId : U64) (op : Bool)
    (val : Option α) : Latest α :=
  latest.put attrName (Eav.supersede (latest.lookup attrName) txId op val)

@[simp] theorem Latest.lookup_put (latest : Latest α) (attrName name : String)
    (v : Option (U64 × α)) :
    (latest.put attrName v).lookup name = if name = attrName then v else latest.lookup name := by
  cases v with
  | some v => exact OrdMap.lookup_insert _ _ _ _
  | none => exact OrdMap.lookup_erase _ _ _

/-- What a datom says of an attribute, as a reader takes it. -/
structure Change (α : Type) where
  name : String
  txId : U64
  op : Bool
  val : Option α

def Change.over (c : Change α) (latest : Option (U64 × α)) : Option (U64 × α) :=
  Eav.supersede latest c.txId c.op c.val

/-- The latest value that a fold of changes leaves. -/
def latestOf (changes : List (Change α)) : Option (U64 × α) :=
  changes.foldl (fun v c => c.over v) none

def Latest.take (latest : Latest α) (c : Change α) : Latest α :=
  latest.supersede c.name c.txId c.op c.val

/-- A fold touches each name by the changes under that name only. -/
theorem Latest.lookup_foldl_take (changes : List (Change α)) (latest : Latest α) (name : String) :
    (changes.foldl Latest.take latest).lookup name =
      (changes.filter fun c => c.name = name).foldl (fun v c => c.over v) (latest.lookup name) := by
  induction changes generalizing latest with
  | nil => rfl
  | cons c rest ih =>
    rw [List.foldl_cons, ih, Latest.take, Latest.supersede, Latest.lookup_put]
    by_cases hc : c.name = name
    · rw [List.filter_cons_of_pos (by simpa using hc), List.foldl_cons, if_pos hc.symm, hc]
      rfl
    · rw [List.filter_cons_of_neg (by simpa using hc), if_neg (Ne.symm hc)]

end Fold

section Reader
variable [F64Text] (registry : CodeRegistry)

def assembleItem (attrFilter : Option (List String)) (latest : Latest DatomValue) (item : Item) :
    Latest DatomValue :=
  match datomKey item with
  | none => latest
  | some (attrId, txId, op) =>
    let attrName := registry.shownName attrId
    if asksFor attrFilter attrName then
      latest.supersede attrName txId op (extractDatomValue item)
    else latest

def assembleCurrentState (items : List Item) (attrFilter : Option (List String)) : EntityMap :=
  (items.foldl (assembleItem registry attrFilter) ∅).mapValues Prod.snd

/-- `filter_exact_entity_partition` -/
def filterExactEntityPartition (items : List Item) (expectedPk : String) : List Item :=
  items.filter fun item => item.lookup "PK" = some (.s expectedPk)

variable (st : MbfPartitionStore) (tenantId entityId : String)

/-- The query for a whole partition of the primary tree. -/
def partitionItems (pk : String) : List Item :=
  st.query none "#pk = :pk" ((∅ : Item).insert ":pk" (.s pk)) true none

/-- The items of a partition up to a sort key. -/
def partitionItemsUpTo (pk : String) (skMax : List Byte) : List Item :=
  st.query none "#pk = :pk AND #sk <= :sk_max"
    (((∅ : Item).insert ":pk" (.s pk)).insert ":sk_max" (.b skMax)) true none

def entityItems : List Item :=
  filterExactEntityPartition (partitionItems st (eavtPk tenantId entityId))
    (eavtPk tenantId entityId)

/-- What `pull` reads in storage, unless the partition is empty. -/
def readEntity : Option EntityMap :=
  if entityItems st tenantId entityId = [] then none
  else some (assembleCurrentState registry (entityItems st tenantId entityId) none)

/-- `pull`, when the cache has no answer. -/
def pull (attrs : Option (List String)) : EntityMap :=
  ((readEntity registry st tenantId entityId).getD ∅).filterKeys (asksFor attrs)

def pullAsOf (asOfTx : U64) (attrs : Option (List String)) : EntityMap :=
  let pk := eavtPk tenantId entityId
  -- the cap is one key for all attributes: the largest attribute id, then the transaction
  let rawItems := partitionItemsUpTo st pk (eavtSkAsOf 0xFFFF asOfTx)
  assembleCurrentState registry (filterExactEntityPartition rawItems pk) attrs

/-! ### What the writer reads -/

/-- The name that the writer knows an attribute id by. -/
def activeName (attrId : U16) : String := (nameOf attrId).getD (registry.shownName attrId)

def activeItem (active : Latest (U16 × DatomValue)) (item : Item) : Latest (U16 × DatomValue) :=
  match datomKey item with
  | none => active
  | some (attrId, txId, op) =>
    active.supersede (activeName registry attrId) txId op
      (some (attrId, (extractDatomValue item).getD .null))

def getActiveAttributes : OrdMap String (U16 × DatomValue) :=
  ((partitionItems st (eavtPk tenantId entityId)).foldl (activeItem registry) ∅).mapValues Prod.snd

end Reader

/-! ### The folds as changes -/

section Changes
variable [F64Text] (registry : CodeRegistry)

/-- What a pull takes from an item with a decoded key. -/
def shownTake (key : U16 × U64 × Bool) (item : Item) : Change DatomValue :=
  ⟨registry.shownName key.1, key.2.1, key.2.2, extractDatomValue item⟩

/-- What the writer takes from an item with a decoded key. -/
def activeTake (key : U16 × U64 × Bool) (item : Item) : Change (U16 × DatomValue) :=
  ⟨activeName registry key.1, key.2.1, key.2.2,
    some (key.1, (extractDatomValue item).getD .null)⟩

/-- The changes of items that are datoms. -/
def changesOf {α : Type} (take : U16 × U64 × Bool → Item → Change α) (items : List Item) :
    List (Change α) :=
  items.filterMap fun item => (datomKey item).map fun key => take key item

theorem foldl_assembleItem (attrFilter : Option (List String)) (items : List Item)
    (latest : Latest DatomValue) :
    items.foldl (assembleItem registry attrFilter) latest =
      ((changesOf (shownTake registry) items).filter
        fun c => asksFor attrFilter c.name).foldl Latest.take latest := by
  induction items generalizing latest with
  | nil => rfl
  | cons item rest ih =>
    rw [List.foldl_cons, ih, changesOf, changesOf]
    cases hkey : datomKey item with
    | none => simp [assembleItem, hkey]
    | some key =>
      rw [List.filterMap_cons, hkey, Option.map_some, List.filter_cons, shownTake]
      dsimp only
      split_ifs with hasks
      · rw [List.foldl_cons]
        simp [assembleItem, hkey, hasks, Latest.take]
      · simp [assembleItem, hkey, hasks]

theorem foldl_activeItem (items : List Item) (active : Latest (U16 × DatomValue)) :
    items.foldl (activeItem registry) active =
      (changesOf (activeTake registry) items).foldl Latest.take active := by
  induction items generalizing active with
  | nil => rfl
  | cons item rest ih =>
    rw [List.foldl_cons, ih, changesOf, changesOf]
    cases hkey : datomKey item with
    | none => simp [activeItem, hkey]
    | some key => simp [activeItem, activeTake, hkey, Latest.take]

/-- What the fold shows under a name that is asked for. -/
theorem assembleCurrentState_lookup (items : List Item) (attrFilter : Option (List String))
    (name : String) :
    (assembleCurrentState registry items attrFilter).lookup name =
      if asksFor attrFilter name then
        (latestOf ((changesOf (shownTake registry) items).filter fun c => c.name = name)).map
          Prod.snd
      else none := by
  rw [assembleCurrentState, OrdMap.lookup_mapValues, foldl_assembleItem,
    Latest.lookup_foldl_take, List.filter_filter, OrdMap.lookup_empty]
  split_ifs with hasks
  · rw [latestOf]
    congr 2
    apply List.filter_congr
    intro c _
    by_cases hc : c.name = name
    · simp [hc, hasks]
    · simp [hc]
  · have hnil : ((changesOf (shownTake registry) items).filter
        fun c => decide (c.name = name) && asksFor attrFilter c.name) = [] := by
      apply List.filter_eq_nil_iff.mpr
      intro c _
      by_cases hc : c.name = name
      · simp [hc, hasks]
      · simp [hc]
    rw [hnil]
    rfl

theorem getActiveAttributes_lookup (st : MbfPartitionStore) (tenantId entityId name : String) :
    (getActiveAttributes registry st tenantId entityId).lookup name =
      (latestOf ((changesOf (activeTake registry)
        (partitionItems st (eavtPk tenantId entityId))).filter fun c => c.name = name)).map
          Prod.snd := by
  rw [getActiveAttributes, OrdMap.lookup_mapValues, foldl_activeItem, Latest.lookup_foldl_take,
    OrdMap.lookup_empty]
  rfl

theorem pull_lookup (st : MbfPartitionStore) (tenantId entityId : String)
    (attrs : Option (List String)) (name : String) :
    (pull registry st tenantId entityId attrs).lookup name =
      (assembleCurrentState registry (entityItems st tenantId entityId) attrs).lookup name := by
  rw [pull, OrdMap.lookup_filterKeys, assembleCurrentState_lookup, readEntity]
  split_ifs with hasks hnil
  · rw [hnil]
    rfl
  · rw [Option.getD_some, assembleCurrentState_lookup]
    simp [asksFor]
  · rfl

end Changes

/-! ### The two queries as filters -/

section Queries
variable (st : MbfPartitionStore) (pk : String)

theorem partitionItems_eq :
    partitionItems st pk =
      (st.items.entries.filter fun e => decide (e.1.pk = pk)).map Prod.snd := by
  have hbounds : Expresses (scanBounds "#pk = :pk" ((∅ : Item).insert ":pk" (.s pk))) pk
      .partition := by
    have hlte : (Text.contains "#pk = :pk" "<=" || Text.contains "#pk = :pk" "BETWEEN") = false := by
      decide
    have hprefix : Text.contains "#pk = :pk" "begins_with" = false := by decide
    refine ⟨?_, hlte, hprefix, ?_⟩
    · simp [scanBounds, avString]
    · simp [scanBounds]
  have hpk : (scanBounds "#pk = :pk" ((∅ : Item).insert ":pk" (.s pk))).targetPk = pk := hbounds.1
  have hscan := scan_eq_filter st.items hbounds primary_mono
    ⟨pk, (scanBounds "#pk = :pk" ((∅ : Item).insert ":pk" (.s pk))).initialSk⟩
    (fun k => by rw [PrimaryKey.le_iff])
  simp only [partitionItems, MbfPartitionStore.query, MbfPartitionStore.matchedItems,
    MbfSecondaryIndex.fromIndexName, if_true, hpk]
  rw [hscan]
  simp [KeyCondition.Matches]

theorem partitionItemsUpTo_eq (skMax : List Byte) :
    partitionItemsUpTo st pk skMax =
      (st.items.entries.filter fun e => decide (e.1.pk = pk ∧ e.1.sk ≤ skMax)).map Prod.snd := by
  have hscan : ∀ key : PrimaryKey, (scanBounds "#pk = :pk AND #sk <= :sk_max"
      (((∅ : Item).insert ":pk" (.s pk)).insert ":sk_max" (.b skMax))).inScan key.pk key.sk =
        decide (key.pk = pk ∧ key.sk ≤ skMax) := by
    intro key
    have hlte : (Text.contains "#pk = :pk AND #sk <= :sk_max" "<=" ||
        Text.contains "#pk = :pk AND #sk <= :sk_max" "BETWEEN") = true := by decide
    have hprefix : Text.contains "#pk = :pk AND #sk <= :sk_max" "begins_with" = false := by decide
    rw [Bool.eq_iff_iff]
    simp [ScanBounds.inScan, scanBounds, avString, avBytes, hlte, hprefix]
  have hstart : (scanBounds "#pk = :pk AND #sk <= :sk_max"
      (((∅ : Item).insert ":pk" (.s pk)).insert ":sk_max" (.b skMax))).initialSk = [] := by
    have hprefix : Text.contains "#pk = :pk AND #sk <= :sk_max" "begins_with" = false := by decide
    simp [ScanBounds.initialSk, scanBounds, hprefix]
  have hpk : (scanBounds "#pk = :pk AND #sk <= :sk_max"
      (((∅ : Item).insert ":pk" (.s pk)).insert ":sk_max" (.b skMax))).targetPk = pk := by
    simp [scanBounds, avString]
  simp only [partitionItemsUpTo, MbfPartitionStore.query, MbfPartitionStore.matchedItems,
    MbfSecondaryIndex.fromIndexName, if_true, hpk, hstart, hscan]
  have hbot (k : PrimaryKey) : (⟨pk, []⟩ : PrimaryKey) ≤ k ↔ pk ≤ k.pk := by
    rw [PrimaryKey.le_iff]
    constructor
    · rintro (hlt | ⟨heq, _⟩)
      · exact hlt.le
      · exact heq.le
    · intro hle
      exact hle.lt_or_eq.imp_right fun heq => ⟨heq, le_of_prefix List.nil_prefix⟩
  rw [OrdMap.takeWhile_eq_filter (st.items.rangeFrom_sorted _), OrdMap.rangeFrom_eq_filter,
    List.filter_filter]
  · congr 1
    apply List.filter_congr
    intro e _
    rw [Bool.eq_iff_iff]
    simp only [Bool.and_eq_true, decide_eq_true_eq, hbot]
    constructor
    · exact fun h => h.1
    · exact fun h => ⟨h, h.1.ge⟩
  · intro a ha b _ hab hb
    rw [OrdMap.rangeFrom_eq_filter, List.mem_filter, decide_eq_true_eq, hbot] at ha
    simp only [decide_eq_true_eq] at hb ⊢
    rcases PrimaryKey.lt_iff.mp hab with hlt | ⟨heq, hlt⟩
    · exact absurd (hb.1 ▸ hlt) (not_lt.mpr ha.2)
    · exact ⟨heq.trans hb.1, hlt.le.trans hb.2⟩

end Queries

end MetriEngine.Eav

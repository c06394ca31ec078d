import MetriEngine.Aegis.Hydrator
import MetriEngine.Eav.AvetExact
import MetriEngine.Eda.Moira

/-!
# What an emission fetches

An emission asks the value index for the events that wait and for those that have failed, and
takes the first hundred of either answer before it looks at retries and times. The answers come
in the order of the index, so an event that can be sent is left out while a hundred others stand
before it, also where none of these can be sent.
-/
namespace MetriEngine.Eda
open Foundation Storage Eav Aegis

/-! ### A query for one text -/

/-- The type of a column that a filter is on: the declared one, or time where the name says so. -/
def resolveAttrType (registry : CodeRegistry) (entityType attrName : String) : Option AttrType :=
  if attrName = "meta/created_at" ∨ attrName = "meta/updated_at" then some .epoch
  else
    let bare := bareName attrName
    match registry.getAttribute entityType bare with
    | some desc => some desc.attrType
    | none =>
      if Text.endsWith bare "_date" || Text.endsWith bare "_at" || Text.endsWith bare "_time" ||
          Text.startsWith bare "scheduled_" || Text.startsWith bare "actual_" ||
          bare = "timestamp" then some .epoch
      else none

/-- `coerce_datom_value_for_attr`, of a text. -/
def coerceText (registry : CodeRegistry) (entityType attrName s : String) : DatomValue :=
  match resolveAttrType registry entityType attrName with
  | some .epoch => (Signed.parse 64 s).elim (.str s) .instant
  | some .uuid => .uuid s
  | _ => .str s

/-- A query whose only filter asks for a text in a column, without an order and without a tree;
its plan goes over the value index. -/
structure TextQuery where
  entity : String
  select : List String
  attrName : String
  text : String
  limit : ℕ

/-- The columns that are pulled, with the type of the entity; all where none are named. -/
def TextQuery.pulled (q : TextQuery) : Option (List String) :=
  if q.select = [] ∨ q.select.head? = some "*" then none else some (q.select ++ ["entity/type"])

section Query
variable [F64Text] [Codecs] [MapOrder] (registry : CodeRegistry) (st : MbfPartitionStore)
  (masterTenantId : String) (tenants : List String) (tenantId : String)

/-- The row of an entity, where it has attributes and is of the type asked for. -/
def TextQuery.rowOf (q : TextQuery) (id : String) : Option JsonMap :=
  let map := pull registry st tenantId id q.pulled
  if map.isEmpty then none
  else
    let row := entityMapToJson registry (map.insert "id" (.str id))
    let rowEntityType := ((row.lookup "entity/type").bind JsonValue.asStr).getD ""
    if q.entity = "" ∨ rowEntityType = q.entity then
      if q.pulled.isSome ∧ "entity/type" ∉ q.select then some (row.erase "entity/type")
      else some row
    else none

/-- The entities that the index lists. -/
def TextQuery.plan (q : TextQuery) : List String :=
  executeAvetSingle st masterTenantId tenants tenantId q.attrName
    (coerceText registry q.entity q.attrName q.text) (some q.entity)

/-- `run_oltp_query`; the limit is on the entities that the index lists. -/
def runOltpQuery (q : TextQuery) : List JsonMap :=
  ((q.plan registry st masterTenantId tenants tenantId).take q.limit).filterMap
    (q.rowOf registry st tenantId)

/-! ### The fetch -/

def statusQuery (status : String) : TextQuery where
  entity := "outbox_event"
  select := ["id", "status", "detail_type", "payload", "retry_count", "retry_at", "claimed_at",
    "created_at"]
  attrName := "status"
  text := status
  limit := 100

/-- `row.get(name).and_then(|v| v.as_i64()).unwrap_or(0)` -/
def rowI64 (row : JsonMap) (name : String) : ℤ :=
  match row.lookup name with
  | some (.number n) => n.asI64.elim 0 Subtype.val
  | _ => 0

/-- Neither out of retries nor put off. -/
def RetryDue (now : ℤ) (row : JsonMap) : Prop :=
  rowI64 row "retry_count" < maxRetries ∧ rowI64 row "retry_at" ≤ now

instance (now : ℤ) (row : JsonMap) : Decidable (RetryDue now row) :=
  inferInstanceAs (Decidable (_ ∧ _))

def createdAt (row : JsonMap) : ℤ := rowI64 row "created_at"

def fetchPendingEvents (now : ℤ) : List JsonMap :=
  let pendingRows := runOltpQuery registry st masterTenantId tenants tenantId (statusQuery "PENDING")
  let failedRows := runOltpQuery registry st masterTenantId tenants tenantId (statusQuery "FAILED")
  (pendingRows ++ failedRows.filter (RetryDue now)).insertionSort fun a b =>
    createdAt a ≤ createdAt b

/-! ### The property -/

/-- The event of an id as queries show it. -/
def eventRow (id : String) : Option JsonMap := (statusQuery "PENDING").rowOf registry st tenantId id

/-- An event that can be sent. -/
def Eligible (now : ℤ) (row : JsonMap) : Prop :=
  (row.lookup "status").bind JsonValue.asStr = some "PENDING" ∨
    (row.lookup "status").bind JsonValue.asStr = some "FAILED" ∧ RetryDue now row

instance (now : ℤ) (row : JsonMap) : Decidable (Eligible now row) :=
  inferInstanceAs (Decidable (_ ∨ _))

/-- An event of the tenant that can be sent, and none that can be is older. -/
def IsOldest (now : ℤ) (row : JsonMap) : Prop :=
  Eligible now row ∧ ∀ id other, eventRow registry st tenantId id = some other →
    Eligible now other → createdAt row ≤ createdAt other

/-- The events in the order of their age, all of them such that can be sent, and an oldest one
of these among them if there is one. -/
structure FairFetch (now : ℤ) : Prop where
  sorted : (fetchPendingEvents registry st masterTenantId tenants tenantId now).Pairwise fun a b =>
    createdAt a ≤ createdAt b
  eligible : ∀ row ∈ fetchPendingEvents registry st masterTenantId tenants tenantId now,
    Eligible now row
  oldest : ∀ id row, eventRow registry st tenantId id = some row → Eligible now row →
    ∃ first ∈ fetchPendingEvents registry st masterTenantId tenants tenantId now,
      IsOldest registry st tenantId now first

/-- The first hundred entities of a status, in the order of the index. -/
def listed (status : String) : List String :=
  ((statusQuery status).plan registry st masterTenantId tenants tenantId).take 100

/-- An event is among the first of those that wait, or among the first of the failed ones and
due. -/
def InReach (now : ℤ) (id : String) (row : JsonMap) : Prop :=
  id ∈ listed registry st masterTenantId tenants tenantId "PENDING" ∨
    id ∈ listed registry st masterTenantId tenants tenantId "FAILED" ∧ RetryDue now row

/-- The events in reach can be sent, and where one can be sent an oldest one is in reach. -/
structure ReachFair (now : ℤ) : Prop where
  current : ∀ id row, eventRow registry st tenantId id = some row →
    InReach registry st masterTenantId tenants tenantId now id row → Eligible now row
  oldest : ∀ id row, eventRow registry st tenantId id = some row → Eligible now row →
    ∃ id' first, eventRow registry st tenantId id' = some first ∧
      InReach registry st masterTenantId tenants tenantId now id' first ∧
      IsOldest registry st tenantId now first

variable {registry st masterTenantId tenants tenantId} {now : ℤ}

theorem mem_runOltpQuery {status : String} {row : JsonMap} :
    row ∈ runOltpQuery registry st masterTenantId tenants tenantId (statusQuery status) ↔
      ∃ id ∈ listed registry st masterTenantId tenants tenantId status,
        eventRow registry st tenantId id = some row := List.mem_filterMap

theorem mem_fetchPendingEvents {row : JsonMap} :
    row ∈ fetchPendingEvents registry st masterTenantId tenants tenantId now ↔
      ∃ id, eventRow registry st tenantId id = some row ∧
        InReach registry st masterTenantId tenants tenantId now id row := by
  rw [fetchPendingEvents, List.mem_insertionSort, List.mem_append, List.mem_filter,
    mem_runOltpQuery, mem_runOltpQuery]
  simp only [decide_eq_true_eq, InReach]
  constructor
  · rintro (⟨id, hid, hrow⟩ | ⟨⟨id, hid, hrow⟩, hdue⟩)
    · exact ⟨id, hrow, .inl hid⟩
    · exact ⟨id, hrow, .inr ⟨hid, hdue⟩⟩
  · rintro ⟨id, hrow, hid | ⟨hid, hdue⟩⟩
    · exact .inl ⟨id, hid, hrow⟩
    · exact .inr ⟨⟨id, hid, hrow⟩, hdue⟩

end Query

def statusModel : EntityModel where
  entity := "outbox_event"
  attributes := [{ name := "status", attrType := .string }]

def outboxRegistry : CodeRegistry where
  byEntity := (∅ : OrdMap String EntityModel).insert "outbox_event" statusModel
  byAttrId := ((∅ : OrdMap U16 String).insertList systemAttrs).insert (hashAttrName "status")
    "status"

def eventCall (status : String) (txId : U64) : TransactCall :=
  { noteCall .create "e" "" txId with
    payload := {
      tenantId := "t"
      entityId := some "e"
      entityType := "outbox_event"
      attrs := ⟨[("status", .str status)], by simp⟩
      op := .create
      suppressEvents := true } }

abbrev outboxStep : EavHistory → TransactCall → Option EavHistory :=
  @EavHistory.step bitsText plainDerived plainHash outboxRegistry "metri"

end MetriEngine.Eda

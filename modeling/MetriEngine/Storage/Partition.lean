import MetriEngine.Storage.Value

/-!
# The in-memory partition store

One partition is a primary tree of items, three secondary trees kept beside it,
the quota maps, and the bookkeeping of its exchange with the shared object. The
full-text index that the same calls feed is a separate component and is left
out; so is the synopsis cache, which only the per-entity files read.
-/
namespace MetriEngine.Storage
open Foundation

/-- `(tenant_id, quota_id)`, and `(tenant_id, idem_key)`. -/
abbrev QuotaKey := String ×ₗ String

structure MbfPartitionStore where
  epochId : ℕ := 0
  lastS3Etag : Option String := none
  lastSyncMs : ℤ := 0
  bulkDepth : ℕ := 0
  dirtyEntities : Finset (String × String × String) := ∅
  transientEntities : Finset String := ∅
  outboxEntities : Finset String := ∅
  items : OrdMap PrimaryKey Item := ∅
  aevtIndex : OrdMap IndexKey Unit := ∅
  avetIndex : OrdMap IndexKey Unit := ∅
  vaetIndex : OrdMap IndexKey Unit := ∅
  quotaCounters : OrdMap QuotaKey ℤ := ∅
  quotaIdem : OrdMap QuotaKey (String × ℤ) := ∅

structure MbfPartitionWireSnapshot where
  epochId : ℕ
  items : List (PrimaryKey × Item)
  quotaCounters : List (QuotaKey × ℤ)
  quotaIdem : List (QuotaKey × (String × ℤ))

/-! ### Secondary trees -/

/-- Adds the entry that `item` has in the tree over `(pkAttr, skAttr)`. -/
def addEntry (tree : OrdMap IndexKey Unit) (pkAttr skAttr : String) (key : PrimaryKey)
    (item : Item) : OrdMap IndexKey Unit :=
  match extractIndexKey item pkAttr skAttr with
  | some (part, sort) => tree.insert ⟨part, sort, key⟩ ()
  | none => tree

/-- Removes the entry that `item` has in the tree over `(pkAttr, skAttr)`. -/
def removeEntry (tree : OrdMap IndexKey Unit) (pkAttr skAttr : String) (key : PrimaryKey)
    (item : Item) : OrdMap IndexKey Unit :=
  match extractIndexKey item pkAttr skAttr with
  | some (part, sort) => tree.erase ⟨part, sort, key⟩
  | none => tree

/-- The attribute name inside an `ap` value: after `#A#`, up to the next `#`. -/
def apAttrName (item : Item) : Option String :=
  ((item.lookup "ap").bind avString).bind fun ap =>
    (Text.splitOnce "#A#" ap).map fun r => (Text.split r.2 '#').headD r.2

/-- The tenant and entity of a primary partition key `T#tenant#E#entity`. -/
def tenantEntity (pk : String) : Option (String × String) :=
  (Text.stripPrefix "T#" pk).bind (Text.splitOnce "#E#")

namespace MbfPartitionStore

/-- Records an entity that must not be searched, and one that must not be persisted. -/
def markEntity (st : MbfPartitionStore) (pk entityType : String) : MbfPartitionStore :=
  if entityType = "outbox_event" then
    { st with
      transientEntities := insert pk st.transientEntities
      outboxEntities := insert pk st.outboxEntities }
  else if entityType = "audit_log" ∨ entityType = "domain_fault" then
    { st with transientEntities := insert pk st.transientEntities }
  else st

def indexSecondaryOnly (st : MbfPartitionStore) (key : PrimaryKey) (item : Item) :
    MbfPartitionStore :=
  let st := { st with
    aevtIndex := addEntry st.aevtIndex "ap" "as" key item
    avetIndex := addEntry st.avetIndex "vp" "vs" key item
    vaetIndex := addEntry st.vaetIndex "rp" "rs" key item }
  -- an EAVT sort key is attribute id, transaction id and the assertion byte
  if key.sk.length ≠ 11 ∨ key.pk ∈ st.transientEntities ∨ tenantEntity key.pk = none ∨
      key.sk[10]? = some 0 ∨ apAttrName item ≠ some "entity/type" then st
  else match item.lookup "v" with
    | some (.s entityType) => st.markEntity key.pk entityType
    | _ => st

def unindexItem (st : MbfPartitionStore) (key : PrimaryKey) (item : Item) : MbfPartitionStore :=
  { st with
    aevtIndex := removeEntry st.aevtIndex "ap" "as" key item
    avetIndex := removeEntry st.avetIndex "vp" "vs" key item
    vaetIndex := removeEntry st.vaetIndex "rp" "rs" key item }

def removeIndexed (st : MbfPartitionStore) (key : PrimaryKey) : MbfPartitionStore :=
  match st.items.lookup key with
  | some oldItem => { st with items := st.items.erase key }.unindexItem key oldItem
  | none => st

def insertIndexed (st : MbfPartitionStore) (key : PrimaryKey) (item : Item) :
    MbfPartitionStore :=
  let st := (st.removeIndexed key).indexSecondaryOnly key item
  { st with items := st.items.insert key item }

/-! ### Exchange with the shared object -/

/-- What the snapshot carries: neither trigram postings nor outbox entities. -/
def persists (st : MbfPartitionStore) (key : PrimaryKey) : Bool :=
  !Text.contains key.pk "#FTS#" && key.pk ∉ st.outboxEntities

def toWireSnapshot (st : MbfPartitionStore) : MbfPartitionWireSnapshot where
  epochId := st.epochId
  items := st.items.entries.filter fun e => st.persists e.1
  quotaCounters := st.quotaCounters.entries
  quotaIdem := st.quotaIdem.entries

/-- `current_value`, where it is an `i64`. -/
def currentValue (item : Item) : Option ℤ :=
  ((item.lookup "current_value").bind avNumber).bind parseI64

/-- Whether a merge takes the remote item over the local one. -/
def takesRemote (remoteIsNewer : Bool) (localItem : Option Item) (remoteItem : Item) : Bool :=
  match localItem with
  | none => true
  | some localItem =>
    match currentValue localItem, currentValue remoteItem with
    | some l, some r => r > l || (r == l && remoteIsNewer)
    | _, _ => remoteIsNewer

def applyRemoteItem (wasEmpty remoteIsNewer : Bool) (st : MbfPartitionStore)
    (e : PrimaryKey × Item) : MbfPartitionStore :=
  if Text.contains e.1.pk "#FTS#" then st
  else if wasEmpty then
    let st := st.indexSecondaryOnly e.1 e.2
    { st with items := st.items.insert e.1 e.2 }
  else if takesRemote remoteIsNewer (st.items.lookup e.1) e.2 then st.insertIndexed e.1 e.2
  else st

def applyRemoteCounter (remoteIsNewer : Bool) (counters : OrdMap QuotaKey ℤ)
    (e : QuotaKey × ℤ) : OrdMap QuotaKey ℤ :=
  let entry := (counters.lookup e.1).getD 0
  counters.insert e.1 (if remoteIsNewer then e.2 else if e.2 > entry then e.2 else entry)

def applyRemoteIdem (idem : OrdMap QuotaKey (String × ℤ)) (e : QuotaKey × (String × ℤ)) :
    OrdMap QuotaKey (String × ℤ) :=
  if idem.contains e.1 then idem else idem.insert e.1 e.2

/-- Whether the snapshot counts as newer: a tie goes to the remote side. -/
def remoteIsNewer (st : MbfPartitionStore) (snap : MbfPartitionWireSnapshot) : Bool :=
  decide (snap.epochId ≥ st.epochId)

def mergeItems (st : MbfPartitionStore) (snap : MbfPartitionWireSnapshot) : MbfPartitionStore :=
  snap.items.foldl (applyRemoteItem st.items.isEmpty (st.remoteIsNewer snap)) st

def applyWireSnapshot (st : MbfPartitionStore) (snap : MbfPartitionWireSnapshot)
    (etag : String) (nowMs : ℤ) : MbfPartitionStore :=
  { st.mergeItems snap with
    epochId := max st.epochId snap.epochId
    quotaCounters :=
      snap.quotaCounters.foldl (applyRemoteCounter (st.remoteIsNewer snap)) st.quotaCounters
    quotaIdem := snap.quotaIdem.foldl applyRemoteIdem st.quotaIdem
    lastS3Etag := some etag
    lastSyncMs := nowMs }

end MbfPartitionStore
end MetriEngine.Storage

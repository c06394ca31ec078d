import MetriEngine.Eav.Value
import MetriEngine.Foundation.Bitmap
import MetriEngine.Foundation.OrdMap
import MetriEngine.Foundation.Probing
import MetriEngine.Storage.Envelope

/-!
# The columnar zone of entity versions

An upsert ends the version an entity has, appends a row for the new one, fills up the columns,
enters the values in the secondary index and builds the entity directory anew. Reads name the
epoch they look at.

Row numbers are 32 bits wide and wrap. The compression table of the texts is left out: no read
consults it.
-/
namespace MetriEngine.Storage.PaxMvcc
open Foundation Envelope
open Eav (Signed)

inductive MbfCellValue
  | null
  | bool (b : Bool)
  | int64 (n : Signed 64)
  | float64 (bits : BitVec 64)
  | decimal128 (n : Signed 128)
  | text (s : String)
  | bytes (b : List Byte)
deriving DecidableEq

structure MvccRowVersion where
  rowId : ℕ
  txAssertEpoch : ℕ
  txRetractEpoch : ℕ
deriving DecidableEq

namespace MvccRowVersion

def activeEpoch : ℕ := 2 ^ 64 - 1

def isVisibleAt (v : MvccRowVersion) (snapshotEpoch : ℕ) : Bool :=
  v.txAssertEpoch ≤ snapshotEpoch && snapshotEpoch < v.txRetractEpoch

end MvccRowVersion

/-! ### The entity directory -/

structure EliasFanoEntityDirectory where
  mphfSeed : ℕ
  sortedEntityIds : List String
  entityRowChains : List (List ℕ)
  mphfSlots : List ℕ
deriving DecidableEq

namespace EliasFanoEntityDirectory

def emptySlot : ℕ := 2 ^ 32 - 1

def empty : EliasFanoEntityDirectory := ⟨0, [], [], []⟩

section Hashed
variable [FileDigests]

/-- The first slot of an entity; a table has a power of two of them, so the mask is a remainder. -/
def slotOf (entityId : String) (seed tableLen : ℕ) : ℕ :=
  (FileDigests.xxh64 (utf8 entityId) seed).val % tableLen

/-- Puts each entity in the first free slot from its own. -/
def placeFrom (seed : ℕ) : ℕ → List String → List ℕ → Option (List ℕ)
  | _, [], slots => some slots
  | sortedIdx, eid :: eids, slots =>
    (freeSlot emptySlot slots (slotOf eid seed slots.length) slots.length).bind fun slot =>
      placeFrom seed (sortedIdx + 1) eids (slots.set slot (sortedIdx % 2 ^ 32))

/-- Nothing when a probe for a free slot never ends. -/
def buildFromMap (index : OrdMap String (List ℕ)) : Option EliasFanoEntityDirectory :=
  if index.entries = [] then some empty
  else
    let sortedEntityIds := index.entries.map Prod.fst
    let tableLen := max (2 ^ Nat.clog 2 (index.entries.length * 2)) 8
    let mphfSeed := 0x4D455452495F4546
    (placeFrom mphfSeed 0 sortedEntityIds (List.replicate tableLen emptySlot)).map fun slots =>
      { mphfSeed := mphfSeed
        sortedEntityIds := sortedEntityIds
        entityRowChains := index.entries.map Prod.snd
        mphfSlots := slots }

/-- The chain behind the first slot that names the entity, before an empty one. -/
def probe (d : EliasFanoEntityDirectory) (entityId : String) : ℕ → ℕ → Option (List ℕ)
  | _, 0 => none
  | slot, fuel + 1 =>
    (d.mphfSlots[slot]?).bind fun idx =>
      if idx = emptySlot then none
      else if d.sortedEntityIds[idx]? = some entityId then d.entityRowChains[idx]?
      else d.probe entityId ((slot + 1) % d.mphfSlots.length) fuel

def lookupRows (d : EliasFanoEntityDirectory) (entityId : String) : Option (List ℕ) :=
  if d.mphfSlots = [] then none
  else d.probe entityId (slotOf entityId d.mphfSeed d.mphfSlots.length) d.mphfSlots.length

/-- A table with a slot for each entry is filled without an endless probe. -/
theorem placeFrom_isSome {seed : ℕ} {eids : List String} {sortedIdx : ℕ} {slots : List ℕ}
    (hroom : slots.countP (fun s => decide (s ≠ emptySlot)) + eids.length ≤ slots.length) :
    (placeFrom seed sortedIdx eids slots).isSome := by
  induction eids generalizing sortedIdx slots with
  | nil => rfl
  | cons eid eids ih =>
    rw [List.length_cons] at hroom
    have hlen : 0 < slots.length := by omega
    have hfree : emptySlot ∈ slots := mem_of_countP_lt (by omega)
    have hsome := freeSlot_isSome (Nat.mod_lt (FileDigests.xxh64 (utf8 eid) seed).val hlen) hfree
    obtain ⟨slot, hslot⟩ := Option.isSome_iff_exists.mp hsome
    rw [placeFrom, slotOf, hslot, Option.bind_some]
    apply ih
    have := countP_set_le (fun s => decide (s ≠ emptySlot)) slots slot (sortedIdx % 2 ^ 32)
    rw [List.length_set]
    omega

theorem buildFromMap_isSome (index : OrdMap String (List ℕ)) : (buildFromMap index).isSome := by
  rw [buildFromMap]
  split_ifs with hempty
  · rfl
  · rw [Option.isSome_map]
    apply placeFrom_isSome
    have hclog := Nat.le_pow_clog (b := 2) (by norm_num) (index.entries.length * 2)
    rw [List.countP_replicate, List.length_map, List.length_replicate]
    simp only [ne_eq, not_true_eq_false, decide_false, Bool.false_eq_true, if_false]
    omega

omit [FileDigests] in
theorem probe_eq_some {d : EliasFanoEntityDirectory} {entityId : String} {slot fuel : ℕ}
    {rows : List ℕ} (h : d.probe entityId slot fuel = some rows) :
    ∃ i : ℕ, i ≠ emptySlot ∧ d.sortedEntityIds[i]? = some entityId ∧
      d.entityRowChains[i]? = some rows := by
  induction fuel generalizing slot with
  | zero => exact absurd h (by simp [probe])
  | succ fuel ih =>
    rw [probe] at h
    obtain ⟨idx, -, h⟩ := Option.bind_eq_some_iff.mp h
    split_ifs at h with hfree hid
    · exact ⟨idx, hfree, hid, h⟩
    · exact ih h

/-- What the directory finds is the chain the index holds. -/
theorem lookupRows_sound {index : OrdMap String (List ℕ)} {d : EliasFanoEntityDirectory}
    (hbuild : buildFromMap index = some d) {entityId : String} {rows : List ℕ}
    (h : d.lookupRows entityId = some rows) : index.lookup entityId = some rows := by
  rw [lookupRows] at h
  split_ifs at h with hslots
  obtain ⟨i, -, hid, hrows⟩ := probe_eq_some h
  rw [buildFromMap] at hbuild
  split_ifs at hbuild with hempty
  · cases hbuild
    exact absurd rfl hslots
  · obtain ⟨slots, -, rfl⟩ := Option.map_eq_some_iff.mp hbuild
    rw [List.getElem?_map] at hid hrows
    obtain ⟨entry, hentry, rfl⟩ := Option.map_eq_some_iff.mp hid
    rw [hentry] at hrows
    cases hrows
    exact OrdMap.lookup_eq_some.mpr (List.mem_of_getElem? hentry)

theorem lookupRows_or {index : OrdMap String (List ℕ)} {d : EliasFanoEntityDirectory}
    (hbuild : buildFromMap index = some d) (entityId : String) :
    (d.lookupRows entityId).or (index.lookup entityId) = index.lookup entityId := by
  cases h : d.lookupRows entityId with
  | none => rfl
  | some rows => exact (lookupRows_sound hbuild h).symm

end Hashed
end EliasFanoEntityDirectory

/-! ### The zone -/

/-- The attributes of an upsert, in the order their map yields them. -/
structure AttributeMap where
  entries : List (String × MbfCellValue)
  distinct : (entries.map Prod.fst).Nodup

namespace AttributeMap

def get? (attributes : AttributeMap) (attrName : String) : Option MbfCellValue :=
  attributes.entries.lookup attrName

end AttributeMap

structure PaxMvccZone where
  entityType : String
  primaryKeyIndex : OrdMap String (List ℕ)
  mvccVersions : List MvccRowVersion
  columns : OrdMap String (List MbfCellValue)
  directory : EliasFanoEntityDirectory
  activeVisibilityWords : Bitmap
  avetSecondaryIndex : OrdMap (String ×ₗ String) (List ℕ)
deriving DecidableEq

def mbfRowGroupSize : ℕ := 4096

/-- How the secondary index writes a value; only texts and integers are in it. -/
def canonicalValue : MbfCellValue → Option String
  | .text s => some s
  | .int64 n => some (toString n.val)
  | _ => none

namespace PaxMvccZone

def new (entityType : String) : PaxMvccZone := ⟨entityType, ∅, [], ∅, .empty, [], ∅⟩

/-- Ends the version of a row that is active, and clears its bit. -/
def retractRow (epochId : ℕ) (z : PaxMvccZone) (r : ℕ) : PaxMvccZone :=
  if (z.mvccVersions[r]?).any fun v => v.txRetractEpoch = MvccRowVersion.activeEpoch then
    { z with
      mvccVersions := z.mvccVersions.modify r fun v => { v with txRetractEpoch := epochId }
      activeVisibilityWords := z.activeVisibilityWords.clearBit r }
  else z

def retractExisting (z : PaxMvccZone) (entityId : String) (epochId : ℕ) : PaxMvccZone :=
  match z.primaryKeyIndex.lookup entityId with
  | some existingRows => existingRows.foldl (retractRow epochId) z
  | none => z

/-- The row an upsert appends. -/
def newRowId (z : PaxMvccZone) : ℕ := z.mvccVersions.length % 2 ^ 32

/-- The column filled up to the number of rows. -/
def padColumn (totalRows : ℕ) (col : List MbfCellValue) : List MbfCellValue :=
  col ++ List.replicate (totalRows - col.length) .null

def appendRow (z : PaxMvccZone) (entityId : String) (epochId : ℕ) : PaxMvccZone :=
  let newRowId := z.newRowId
  let mvccVersions := z.mvccVersions ++ [⟨newRowId, epochId, MvccRowVersion.activeEpoch⟩]
  let requiredBlocks := max ((mvccVersions.length + mbfRowGroupSize - 1) / mbfRowGroupSize) 1
  { z with
    mvccVersions := mvccVersions
    activeVisibilityWords :=
      (z.activeVisibilityWords.grow (requiredBlocks * 64)).setBit newRowId
    primaryKeyIndex := z.primaryKeyIndex.insert entityId
      ((z.primaryKeyIndex.lookup entityId).getD [] ++ [newRowId])
    columns := z.columns.mapValues (padColumn mvccVersions.length) }

/-- One attribute of the new row: its posting in the secondary index and its cell. -/
def storeAttribute (newRowId : ℕ) (z : PaxMvccZone) (attr : String × MbfCellValue) :
    PaxMvccZone :=
  let totalRows := z.mvccVersions.length
  let avet := match canonicalValue attr.2 with
    | some value =>
      let key := toLex (attr.1, value)
      z.avetSecondaryIndex.insert key ((z.avetSecondaryIndex.lookup key).getD [] ++ [newRowId])
    | none => z.avetSecondaryIndex
  let col := (z.columns.lookup attr.1).getD (List.replicate totalRows .null)
  { z with
    avetSecondaryIndex := avet
    columns := z.columns.insert attr.1 ((padColumn totalRows col).set newRowId attr.2) }

def storeAttributes (newRowId : ℕ) (entries : List (String × MbfCellValue)) (z : PaxMvccZone) :
    PaxMvccZone :=
  entries.foldl (storeAttribute newRowId) z

section Hashed
variable [FileDigests]

/-- The zone after the upsert and the number of its row. -/
def upsertEntity (z : PaxMvccZone) (entityId : String) (epochId : ℕ)
    (attributes : AttributeMap) : Option (PaxMvccZone × ℕ) :=
  let retracted := z.retractExisting entityId epochId
  let stored := storeAttributes retracted.newRowId attributes.entries
    (retracted.appendRow entityId epochId)
  (EliasFanoEntityDirectory.buildFromMap stored.primaryKeyIndex).map fun directory =>
    ({ stored with directory := directory }, retracted.newRowId)

/-! ### Reads -/

def rowVisibleAt (z : PaxMvccZone) (snapshotEpoch r : ℕ) : Bool :=
  (z.mvccVersions[r]?).any fun v => v.isVisibleAt snapshotEpoch

/-- The cells of a row that hold a value, by column. -/
def cellsOf (z : PaxMvccZone) (r : ℕ) : OrdMap String MbfCellValue :=
  z.columns.collect fun _ values => (values[r]?).filter (· ≠ .null)

def pullAsOf (z : PaxMvccZone) (entityId : String) (snapshotEpoch : ℕ) :
    Option (OrdMap String MbfCellValue) :=
  ((z.directory.lookupRows entityId).or (z.primaryKeyIndex.lookup entityId)).bind fun rows =>
    (rows.reverse.find? (z.rowVisibleAt snapshotEpoch)).map z.cellsOf

end Hashed

def queryByAttributeValue (z : PaxMvccZone) (attrName valueStr : String) (snapshotEpoch : ℕ) :
    List ℕ :=
  ((z.avetSecondaryIndex.lookup (toLex (attrName, valueStr))).getD []).filter
    (z.rowVisibleAt snapshotEpoch)

def visibleRowsAt (z : PaxMvccZone) (snapshotEpoch : ℕ) : List ℕ :=
  (z.mvccVersions.filter (·.isVisibleAt snapshotEpoch)).map (·.rowId)

end PaxMvccZone
end MetriEngine.Storage.PaxMvcc

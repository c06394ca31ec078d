import MetriEngine.Eav.Encoding
import MetriEngine.Storage.Transact

/-!
# Datoms and the items they are written as

A datom says that an entity has, or no longer has, a value of an attribute from a
transaction on. Each is one item of the primary tree with the keys of the secondary
trees it belongs to.
-/
namespace MetriEngine.Eav
open Foundation Storage

structure Datom where
  tenantId : String
  entityId : String
  attrName : String
  attrId : U16
  value : DatomValue
  txId : U64
  op : Bool
deriving DecidableEq

/-! ### System attributes -/

/-- The reserved ids and names. -/
def systemAttrs : List (U16 × String) :=
  [(0, "entity/ulid"), (1, "entity/type"), (2, "tenant/id"), (3, "meta/created_at"),
    (4, "meta/updated_at"), (5, "meta/created_by"), (6, "meta/updated_by")]

/-- `system_attrs::name_of` -/
def nameOf (attrId : U16) : Option String :=
  (systemAttrs.find? fun e => e.1 = attrId).map Prod.snd

/-! ### Keys -/

def eavtPk (tenantId entityId : String) : String := "T#" ++ tenantId ++ "#E#" ++ entityId

def avetPk (tenantId attrName : String) : String := "T#" ++ tenantId ++ "#AV#" ++ attrName

/-- The DJB2 hash of an attribute name, folded to sixteen bits. -/
def hashAttrName (name : String) : U16 :=
  let h := (utf8 name).foldl (fun h b => (h * 33 + b.val) % 2 ^ 32) 5381
  Fin.ofNat _ (h ^^^ (h >>> 16))

namespace Datom
variable (d : Datom)

def eavtPk : String := Eav.eavtPk d.tenantId d.entityId

def eavtSk : List Byte := buildEavtSk d.attrId d.txId d.op

def key : PrimaryKey := ⟨d.eavtPk, d.eavtSk⟩

def aevtPk : String :=
  match d.value with
  | .str val =>
    if d.attrName = "entity/type" then
      "T#" ++ d.tenantId ++ "#A#" ++ d.attrName ++ "#" ++ val
    else "T#" ++ d.tenantId ++ "#A#" ++ d.attrName
  | _ => "T#" ++ d.tenantId ++ "#A#" ++ d.attrName

def avetPk : String := Eav.avetPk d.tenantId d.attrName

def vaetPk : Option String :=
  match d.value with
  | .ref refEid => some ("T#" ++ d.tenantId ++ "#V#" ++ toString refEid.val)
  | _ => none

end Datom

/-! ### Items -/

/-- The item with the keys of the attribute-value index, where its type has them. -/
def valueIndexed (d : Datom) (item : Item) : Item :=
  if d.value.valueType.isAvetIndexable then
    (item.insert "vp" (.s d.avetPk)).insert "vs" (.b (buildAvetSk d.value d.entityId))
  else item

/-- The item with the keys of the reference index, for a reference. -/
def refIndexed (d : Datom) (item : Item) : Item :=
  match d.vaetPk with
  | some vaetPk =>
    (item.insert "rp" (.s vaetPk)).insert "rs" (.b (buildVaetSk d.attrId d.entityId))
  | none => item

theorem refIndexed_lookup (d : Datom) (item : Item) {name : String} (hrp : name ≠ "rp")
    (hrs : name ≠ "rs") : (refIndexed d item).lookup name = item.lookup name := by
  unfold refIndexed
  split
  · rw [OrdMap.lookup_insert_of_ne _ _ hrs, OrdMap.lookup_insert_of_ne _ _ hrp]
  · rfl

theorem valueIndexed_lookup (d : Datom) (item : Item) {name : String} (hvp : name ≠ "vp")
    (hvs : name ≠ "vs") : (valueIndexed d item).lookup name = item.lookup name := by
  unfold valueIndexed
  split_ifs
  · rw [OrdMap.lookup_insert_of_ne _ _ hvs, OrdMap.lookup_insert_of_ne _ _ hvp]
  · rfl

section Items
variable [F64Text]

def baseDatomAttrs (d : Datom) : Item := (∅ : Item).insert "v" d.value.stored

/-- The item with its entity and attribute keys. -/
def plainItem (d : Datom) : Item :=
  ((((baseDatomAttrs d).insert "PK" (.s d.eavtPk)).insert "SK" (.b d.eavtSk)).insert
    "ap" (.s d.aevtPk)).insert "as" (.b (buildAevtSk d.entityId d.txId))

def eavtItem (d : Datom) : Item := refIndexed d (valueIndexed d (plainItem d))

/-- The condition of a log entry: its key was never written. -/
def appendOnly : String := "attribute_not_exists(PK) AND attribute_not_exists(SK)"

def buildWriteItems (table : String) (datoms : List Datom) : List TransactWriteItem :=
  datoms.map fun d => ⟨some ⟨table, eavtItem d, some appendOnly, ∅⟩⟩

/-! What the item of a datom holds. -/

@[simp] theorem eavtItem_v (d : Datom) : (eavtItem d).lookup "v" = some d.value.stored := by
  rw [eavtItem, refIndexed_lookup _ _ (by decide) (by decide),
    valueIndexed_lookup _ _ (by decide) (by decide)]
  simp [plainItem, baseDatomAttrs]

@[simp] theorem eavtItem_PK (d : Datom) : (eavtItem d).lookup "PK" = some (.s d.eavtPk) := by
  rw [eavtItem, refIndexed_lookup _ _ (by decide) (by decide),
    valueIndexed_lookup _ _ (by decide) (by decide)]
  simp [plainItem]

@[simp] theorem eavtItem_SK (d : Datom) : (eavtItem d).lookup "SK" = some (.b d.eavtSk) := by
  rw [eavtItem, refIndexed_lookup _ _ (by decide) (by decide),
    valueIndexed_lookup _ _ (by decide) (by decide)]
  simp [plainItem]

theorem eavtItem_vp (d : Datom) : (eavtItem d).lookup "vp" =
    if d.value.valueType.isAvetIndexable then some (.s d.avetPk) else none := by
  rw [eavtItem, refIndexed_lookup _ _ (by decide) (by decide), valueIndexed]
  split_ifs <;> simp [plainItem, baseDatomAttrs]

theorem eavtItem_vs (d : Datom) : (eavtItem d).lookup "vs" =
    if d.value.valueType.isAvetIndexable then some (.b (buildAvetSk d.value d.entityId))
    else none := by
  rw [eavtItem, refIndexed_lookup _ _ (by decide) (by decide), valueIndexed]
  split_ifs <;> simp [plainItem, baseDatomAttrs]

/-- The item is stored under the datom's key. -/
theorem extractPkSk_eavtItem (d : Datom) : extractPkSk (eavtItem d) = some d.key := by
  simp [extractPkSk, extractIndexKey, avString, Datom.key]

/-- The item is indexed by value under the attribute of the datom. -/
theorem extractIndexKey_avet (d : Datom) : extractIndexKey (eavtItem d) "vp" "vs" =
    if d.value.valueType.isAvetIndexable then some (d.avetPk, buildAvetSk d.value d.entityId)
    else none := by
  rw [extractIndexKey, eavtItem_vp, eavtItem_vs]
  split_ifs <;> simp [avString]

@[simp] theorem extractDatomValue_eavtItem (d : Datom) :
    extractDatomValue (eavtItem d) = d.value.shown := by
  rw [extractDatomValue, eavtItem_v]
  rfl

/-- A value read back from its datom is the value, type and content, exactly where it
survives the storage form. -/
theorem extractDatomValue_baseDatomAttrs_iff (d : Datom) (hd : d.value.hasNaN = false) :
    extractDatomValue (baseDatomAttrs d) = some d.value ↔ d.value.SurvivesStorage := by
  rw [← shown_eq_self_iff d.value hd, extractDatomValue, baseDatomAttrs, OrdMap.lookup_insert_self]
  rfl

end Items

/-- A text is read back, an instant is not. -/
def dueDatom (value : DatomValue) : Datom := ⟨"t", "e", "due", hashAttrName "due", value, 1, true⟩

theorem text_survives : (dueDatom (.str "x")).value.hasNaN = false ∧
    @extractDatomValue bitsText (@baseDatomAttrs bitsText (dueDatom (.str "x"))) =
      some (.str "x") :=
  ⟨rfl, (@extractDatomValue_baseDatomAttrs_iff bitsText (dueDatom (.str "x")) rfl).mpr trivial⟩

theorem instant_is_read_as_long :
    ∃ n : Signed 64, (DatomValue.instant n).hasNaN = false ∧
      @extractDatomValue bitsText (@baseDatomAttrs bitsText (dueDatom (.instant n))) =
        some (.long n) ∧ DatomValue.long n ≠ .instant n := by
  refine ⟨⟨100, by norm_num⟩, rfl, ?_, by simp⟩
  decide +kernel

end MetriEngine.Eav

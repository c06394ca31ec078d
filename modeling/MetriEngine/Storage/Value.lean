import MetriEngine.Foundation.OrdMap
import MetriEngine.Foundation.Text

/-!
# Attribute values, write requests and errors of the partition store

The data that crosses the storage client's interface: items as maps from
attribute names to typed values, conditional puts, and the errors with the
texts the client gives them.
-/
namespace MetriEngine.Storage
open Foundation

inductive AttributeValue
  | s (text : String)
  | n (text : String)
  | b (blob : List Byte)
  | bool (value : Bool)
  | null (value : Bool)
deriving DecidableEq, Inhabited

/-- A record: `HashMap<String, AttributeValue>`. -/
abbrev Item := OrdMap String AttributeValue

def avString : AttributeValue → Option String
  | .s text => some text
  | _ => none

def avBytes : AttributeValue → Option (List Byte)
  | .b blob => some blob
  | _ => none

def avNumber : AttributeValue → Option String
  | .n text => some text
  | _ => none

/-! ### Machine integers -/

/-- `str::parse::<i64>` -/
def parseI64 (text : String) : Option ℤ := parseInRange (-2 ^ 63) (2 ^ 63) text

/-- Two's complement reduction to `i64`: release builds wrap. -/
def wrapI64 (z : ℤ) : ℤ := (z + 2 ^ 63) % 2 ^ 64 - 2 ^ 63

theorem wrapI64_of_bounds {z : ℤ} (hlo : -2 ^ 63 ≤ z) (hhi : z < 2 ^ 63) : wrapI64 z = z := by
  rw [wrapI64, Int.emod_eq_of_lt (by omega) (by omega)]
  omega

theorem wrapI64_bounds (z : ℤ) : -2 ^ 63 ≤ wrapI64 z ∧ wrapI64 z < 2 ^ 63 := by
  have hlo := Int.emod_nonneg (z + 2 ^ 63) (by norm_num : (2 ^ 64 : ℤ) ≠ 0)
  have hhi := Int.emod_lt_of_pos (z + 2 ^ 63) (by norm_num : (0 : ℤ) < 2 ^ 64)
  rw [wrapI64]
  omega

/-- What `i64` writes out it reads back. -/
theorem parseI64_toString {z : ℤ} (hlo : -2 ^ 63 ≤ z) (hhi : z < 2 ^ 63) :
    parseI64 (toString z) = some z := parseInRange_toString hlo hhi

/-! ### Errors -/

inductive ErrorCode
  | eav001
  | eav002
  | eav004
  | eavTx004
  | cod001
  | cod002
  | mbfCorrupt001
  | mbfCasConflict001
  | mbfTenantSeal001
  | mbfFiscalClosed001
  | mbfLedgerUnbalanced001
  | infra001
  | auth403
  | janus400
  | janus403
  | jns001
  | jnsConflict001
  | janusVal001
deriving DecidableEq, Inhabited

structure DomainError where
  code : ErrorCode
  detail : String
deriving DecidableEq, Inhabited

/-- `{:?}` of a byte vector. -/
def debugBytes (bytes : List Byte) : String :=
  "[" ++ ", ".intercalate (bytes.map fun x => toString x.val) ++ "]"

/-! ### Keys -/

/-- `(PK, SK_bytes)` inside a partition. -/
structure PrimaryKey where
  pk : String
  sk : List Byte
deriving DecidableEq, Inhabited

namespace PrimaryKey

def toLexPair (k : PrimaryKey) : String ×ₗ List Byte := toLex (k.pk, k.sk)

theorem toLexPair_injective : Function.Injective toLexPair := by
  rintro ⟨p, s⟩ ⟨q, t⟩ h
  obtain ⟨rfl, rfl⟩ := Prod.mk.inj (toLex.injective h)
  rfl

instance : LinearOrder PrimaryKey := LinearOrder.lift' toLexPair toLexPair_injective

theorem lt_iff {a b : PrimaryKey} : a < b ↔ a.pk < b.pk ∨ a.pk = b.pk ∧ a.sk < b.sk :=
  Prod.Lex.toLex_lt_toLex

theorem le_iff {a b : PrimaryKey} : a ≤ b ↔ a.pk < b.pk ∨ a.pk = b.pk ∧ a.sk ≤ b.sk :=
  Prod.Lex.toLex_le_toLex

end PrimaryKey

/-- The key of a secondary tree: partition, sort bytes, primary key. -/
structure IndexKey where
  part : String
  sort : List Byte
  primary : PrimaryKey
deriving DecidableEq, Inhabited

namespace IndexKey

def toLexTriple (k : IndexKey) : String ×ₗ List Byte ×ₗ PrimaryKey :=
  toLex (k.part, toLex (k.sort, k.primary))

theorem toLexTriple_injective : Function.Injective toLexTriple := by
  rintro ⟨p, s, k⟩ ⟨q, t, l⟩ h
  obtain ⟨rfl, h⟩ := Prod.mk.inj (toLex.injective h)
  obtain ⟨rfl, rfl⟩ := Prod.mk.inj (toLex.injective h)
  rfl

instance : LinearOrder IndexKey := LinearOrder.lift' toLexTriple toLexTriple_injective

theorem lt_iff {a b : IndexKey} :
    a < b ↔ a.part < b.part ∨ a.part = b.part ∧
      (a.sort < b.sort ∨ a.sort = b.sort ∧ a.primary < b.primary) := by
  refine Prod.Lex.toLex_lt_toLex.trans (or_congr Iff.rfl (and_congr_right fun _ => ?_))
  exact Prod.Lex.toLex_lt_toLex

theorem le_iff {a b : IndexKey} :
    a ≤ b ↔ a.part < b.part ∨ a.part = b.part ∧
      (a.sort < b.sort ∨ a.sort = b.sort ∧ a.primary ≤ b.primary) := by
  refine Prod.Lex.toLex_le_toLex.trans (or_congr Iff.rfl (and_congr_right fun _ => ?_))
  exact Prod.Lex.toLex_le_toLex

end IndexKey

/-- The text attribute `pkAttr` with the bytes of `skAttr`; a missing or
otherwise typed sort attribute counts as no bytes. -/
def extractIndexKey (item : Item) (pkAttr skAttr : String) : Option (String × List Byte) :=
  ((item.lookup pkAttr).bind avString).map fun pk =>
    (pk, match item.lookup skAttr with
      | some (.b blob) => blob
      | some (.s text) => utf8 text
      | _ => [])

def extractPkSk (item : Item) : Option PrimaryKey :=
  (extractIndexKey item "PK" "SK").map fun key => ⟨key.1, key.2⟩

/-! ### Writes -/

/-- A conditional put of a transactional batch. -/
structure Put where
  tableName : String
  item : Item
  conditionExpression : Option String
  expressionAttributeValues : Item
deriving DecidableEq

structure TransactWriteItem where
  put : Option Put
deriving DecidableEq

structure PutRequest where
  item : Item
deriving DecidableEq

structure WriteRequest where
  putRequest : Option PutRequest
deriving DecidableEq

inductive MbfWriteCondition
  | unconditional
  | appendOnlyLogUnique
  | uniqueClaimKey
  | uniqueEntitySelfOrUnclaimed
deriving DecidableEq

def MbfWriteCondition.parse (expr : Option String) : MbfWriteCondition :=
  match expr.map Text.trim with
  | some "attribute_not_exists(PK) AND attribute_not_exists(SK)" => .appendOnlyLogUnique
  | some "attribute_not_exists(PK)" => .uniqueClaimKey
  | some "attribute_not_exists(PK) OR eid = :self" => .uniqueEntitySelfOrUnclaimed
  | _ => .unconditional

end MetriEngine.Storage

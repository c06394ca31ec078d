import MetriEngine.Eav.Plan

/-!
# Claims of unique keys

A unique constraint is kept by claim items: beside its datoms a mutation puts an item
under the hash of the values of the constraint, on condition that no other entity holds
that item. The claims are planned from the payload alone.
-/
namespace MetriEngine.Eav
open Foundation Storage

/-! ### The hash of a key -/

/-- The hexadecimal SHA-256 of a byte string. -/
class KeyHash where
  hexDigest : List Byte → String

def hexBytes (bytes : List Byte) : String :=
  String.join (bytes.map fun b =>
    String.singleton (Nat.digitChar (b.val / 16)) ++ String.singleton (Nat.digitChar (b.val % 16)))

/-- The bytes themselves for their hash. -/
@[reducible] def plainHash : KeyHash := ⟨hexBytes⟩

/-- A value in the text that is hashed, with its type. -/
def huellaValor : DatomValue → String
  | .null => "n:"
  | .bool b => "b:" ++ if b then "true" else "false"
  | .long i => "i:" ++ i.text
  | .bigInt i => "I:" ++ i.text
  | .instant i => "t:" ++ i.text
  | .ref r => "r:" ++ toString r.val
  | .double _ => "?:double"
  | .geo .. => "?:geo"
  | .str s => "s:" ++ s
  | .uuid s => "u:" ++ s
  | .array a => "a:" ++ (String.singleton (Char.ofNat 0x1f)).intercalate a
  | .bytes b => "y:" ++ hexBytes b

/-- One attribute in the bytes that are hashed. -/
def huellaAttr (name : String) (value : DatomValue) : List Byte :=
  0x1e :: utf8 name ++ 0x1d :: utf8 (huellaValor value)

section Claims
variable [KeyHash]

/-- The hash of the values of a constraint; nothing, where the payload lacks one. -/
def huellaClave (entity : String) (attributes : List String) (attrs : AttrMap) : Option String :=
  (attributes.mapM fun name => ((attrs.get name).filter fun v => v ≠ .null).map (huellaAttr name)).map
    fun parts => KeyHash.hexDigest (utf8 entity ++ parts.flatten)

/-! ### Planning -/

structure ConstraintContext where
  tenantId : String
  entityId : String
  model : EntityModel
  attrs : AttrMap
  op : TransactOp
  table : String

def isBlank : DatomValue → Bool
  | .str s => Text.trim s = ""
  | _ => false

def claimPk (tenantId entity : String) (scope : ConstraintScope) (huella : String) : String :=
  let ambito := match scope with
    | .tenant => tenantId
    | .global => "GLOBAL"
  "T#" ++ ambito ++ "#U#" ++ entity ++ "#" ++ huella

/-- The sort key of every claim. -/
def claimSk : List Byte := utf8 "#CLAIM"

def claimPut (ctx : ConstraintContext) (attributes : List String) (pk : String) : Put where
  tableName := ctx.table
  item := ((((∅ : Item).insert "PK" (.s pk)).insert "SK" (.b claimSk)).insert
    "eid" (.s ctx.entityId)).insert "attrs" (.s (",".intercalate attributes))
  conditionExpression := some (if ctx.op = .create then "attribute_not_exists(PK)"
    else "attribute_not_exists(PK) OR eid = :self")
  expressionAttributeValues := if ctx.op = .create then ∅
    else (∅ : Item).insert ":self" (.s ctx.entityId)

def buildClaimItem (ctx : ConstraintContext) (attributes : List String) (scope : ConstraintScope) :
    Option Put :=
  (huellaClave ctx.model.entity attributes ctx.attrs).bind fun huella =>
    if attributes.any fun a => (ctx.attrs.get a).any isBlank then none
    else some (claimPut ctx attributes (claimPk ctx.tenantId ctx.model.entity scope huella))

/-- The constraints that claim a key: the declared ones, and those of attributes that
are unique by themselves. -/
def uniqueConstraints (model : EntityModel) : List (List String × ConstraintScope) :=
  let declared := model.constraints.filter fun c => c.kind = .unique
  (declared.map fun c => (c.attributes, c.scope)) ++
    model.attributes.filterMap fun attr =>
      attr.unique.bind fun uniqueKind =>
        if declared.any fun c => c.attributes = [attr.name] then none
        else some ([attr.name],
          if uniqueKind = "identity" ∨ uniqueKind = "global" then .global else .tenant)

/-- `UniqueClaimPlanner::plan` -/
def planClaims (ctx : ConstraintContext) : List Put :=
  if ctx.op = .delete then []
  else (uniqueConstraints ctx.model).filterMap fun c => buildClaimItem ctx c.1 c.2

/-- Takes a claim, unless its key is claimed already. -/
def claimOnce (items : List Put) (put : Put) : List Put :=
  if items.any fun p => extractPkSk p.item = extractPkSk put.item then items else items ++ [put]

/-- `plan_claims_para`, for one entity. -/
def planClaimsPara (ctx : ConstraintContext) : List TransactWriteItem :=
  ((planClaims ctx).foldl claimOnce []).map fun put => ⟨some put⟩

/-! ### What a claim is -/

omit [KeyHash] in
theorem extractPkSk_claimPut (ctx : ConstraintContext) (attributes : List String) (pk : String) :
    extractPkSk (claimPut ctx attributes pk).item = some ⟨pk, claimSk⟩ := by
  simp [claimPut, extractPkSk, extractIndexKey, avString]

/-- A claim of a constraint: its key is the hash of the values that the payload has. -/
theorem buildClaimItem_eq_some {ctx : ConstraintContext} {attributes : List String}
    {scope : ConstraintScope} {put : Put}
    (h : buildClaimItem ctx attributes scope = some put) :
    ∃ huella, huellaClave ctx.model.entity attributes ctx.attrs = some huella ∧
      put = claimPut ctx attributes (claimPk ctx.tenantId ctx.model.entity scope huella) := by
  obtain ⟨huella, hhuella, hif⟩ := Option.bind_eq_some_iff.mp h
  split_ifs at hif
  exact ⟨huella, hhuella, (Option.some.inj hif).symm⟩

theorem mem_planClaims {ctx : ConstraintContext} {put : Put} (h : put ∈ planClaims ctx) :
    ctx.op ≠ .delete ∧ ∃ c ∈ uniqueConstraints ctx.model, buildClaimItem ctx c.1 c.2 = some put := by
  unfold planClaims at h
  split_ifs at h with hop
  · cases h
  · exact ⟨hop, List.mem_filterMap.mp h⟩

omit [KeyHash] in
/-- One put of each claimed key is kept, and nothing else. -/
theorem mem_foldl_claimOnce {puts items : List Put} {put : Put}
    (h : put ∈ puts.foldl claimOnce items) : put ∈ items ∨ put ∈ puts := by
  induction puts generalizing items with
  | nil => exact Or.inl h
  | cons q rest ih =>
    rcases ih h with hmem | hmem
    · unfold claimOnce at hmem
      split_ifs at hmem
      · exact Or.inl hmem
      · rcases List.mem_append.mp hmem with hmem | hmem
        · exact Or.inl hmem
        · exact Or.inr (List.mem_cons.mpr (Or.inl (List.mem_singleton.mp hmem)))
    · exact Or.inr (List.mem_cons_of_mem _ hmem)

theorem mem_planClaimsPara {ctx : ConstraintContext} {txItem : TransactWriteItem}
    (h : txItem ∈ planClaimsPara ctx) : ∃ put ∈ planClaims ctx, txItem = ⟨some put⟩ := by
  obtain ⟨put, hput, rfl⟩ := List.mem_map.mp h
  rcases mem_foldl_claimOnce hput with hput | hput
  · cases hput
  · exact ⟨put, hput, rfl⟩

end Claims
end MetriEngine.Eav

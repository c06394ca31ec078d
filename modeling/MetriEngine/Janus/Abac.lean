import MetriEngine.Aegis.Filter
import MetriEngine.Cedar.Principal

/-!
# Row filters from domain boundaries

The boundaries that the authorizer has given for an entity, their consolidation, and the two
compilers that make filters of it: the one of the requests in FlatBuffers, and the one of
`where` nodes.
-/
namespace MetriEngine.Janus
open Foundation Storage Eav Aegis Cedar

/-! ### Reading JSON -/

def member (v : JsonValue) (key : String) : Option JsonValue := v.asObject.bind fun o => o.lookup key

def asArray : JsonValue → Option (List JsonValue)
  | .array items => some items
  | _ => none

def asBool : JsonValue → Option Bool
  | .bool b => some b
  | _ => none

structure OwnershipFields where
  ownerField : Option String := none
  assigneeField : Option String := none
deriving DecidableEq

/-- The last attribute with the flag that has a name. -/
def flaggedField (entity flag : String) (attrs : List JsonValue) : Option String :=
  (attrs.filterMap fun a =>
    if ((member a flag).bind asBool).getD false then (member a "name").bind JsonValue.asStr
    else none).getLast?.map fun name => entity ++ "/" ++ name

def ownershipFields (entity : String) (schema : JsonValue) : OwnershipFields :=
  let attrs := ((member schema "attributes").bind asArray).getD []
  { ownerField := flaggedField entity "is_owner" attrs
    assigneeField := flaggedField entity "is_assignee" attrs }

/-- A boundary as the compilers read it: its scope, and the locations where it has some. -/
structure Boundary where
  scope : String
  locations : Option (List String)
deriving DecidableEq

/-- A boundary as the authorizer writes it. -/
def boundaryJson (scope : String) (locations assets : List String) : JsonValue :=
  .object [
    ("query_scope", .string scope),
    ("permitted_locations", .strings locations),
    ("permitted_assets", .strings assets)]

/-- The names under which a boundary's members are looked up, the preferred one first. -/
structure BoundaryKeys where
  scope : String × String
  locations : String × String

/-- Those of `compile_ast_fbs`. -/
def fbsKeys : BoundaryKeys :=
  ⟨("query_scope", "query-scope"), ("permitted_locations", "permitted-locations")⟩

/-- Those of `build_abac_node`. -/
def nodeKeys : BoundaryKeys :=
  ⟨("query-scope", "query_scope"), ("permitted-locations", "permitted_locations")⟩

def readBoundary (keys : BoundaryKeys) (boundary : JsonValue) : Boundary where
  scope := (((member boundary keys.scope.1).or (member boundary keys.scope.2)).bind
    JsonValue.asStr).getD "NONE"
  locations :=
    match ((member boundary keys.locations.1).or (member boundary keys.locations.2)).bind asArray with
    | some (loc :: locs) => some ((loc :: locs).filterMap JsonValue.asStr)
    | _ => none

/-- Both compilers read back what the authorizer has written. -/
theorem readBoundary_boundaryJson {keys : BoundaryKeys} (hkeys : keys = fbsKeys ∨ keys = nodeKeys)
    (scope : String) (locations assets : List String) :
    readBoundary keys (boundaryJson scope locations assets) =
      ⟨scope, if locations = [] then none else some locations⟩ := by
  have hmember (key : String) : member (boundaryJson scope locations assets) key =
      if key = "permitted_assets" then some (.strings assets)
      else if key = "permitted_locations" then some (.strings locations)
      else if key = "query_scope" then some (.string scope) else none := by
    simp [member, boundaryJson, JsonValue.asObject, OrdMap.insertList]
  have htexts (l : List String) : (l.map JsonValue.string).filterMap JsonValue.asStr = l := by
    simp [List.filterMap_map, Function.comp_def, JsonValue.asStr]
  rcases hkeys with rfl | rfl <;>
    cases locations <;>
      simp [readBoundary, hmember, fbsKeys, nodeKeys, JsonValue.strings, asArray, JsonValue.asStr, htexts]

/-! ### Consolidation -/

structure Consolidation where
  hasAll : Bool := false
  hasOwn : Bool := false
  hasAssigned : Bool := false
  hasOwnOrAssigned : Bool := false
  validScopesCount : ℕ := 0
  allPermittedLocations : List String := []
  locationRestricted : Bool := true

def noteBoundary (acc : Consolidation) (b : Boundary) : Consolidation :=
  if b.scope = "NONE" then acc
  else
    { hasAll := acc.hasAll || b.scope = "ALL"
      hasOwn := acc.hasOwn || b.scope = "OWN"
      hasAssigned := acc.hasAssigned || b.scope = "ASSIGNED"
      hasOwnOrAssigned := acc.hasOwnOrAssigned || b.scope = "OWN_OR_ASSIGNED"
      validScopesCount := acc.validScopesCount + 1
      allPermittedLocations := acc.allPermittedLocations ∪ b.locations.getD []
      locationRestricted := acc.locationRestricted && b.locations.isSome }

def consolidate (bs : List Boundary) : Consolidation := bs.foldl noteBoundary {}

inductive QueryScope
  | all
  | own
  | assigned
  | ownOrAssigned
  | none
deriving DecidableEq

/-- The scope of a list with at least one boundary that has a scope. -/
def Consolidation.scope (c : Consolidation) : QueryScope :=
  if c.hasAll then .all
  else if c.hasOwnOrAssigned || (c.hasOwn && c.hasAssigned) then .ownOrAssigned
  else if c.hasOwn then .own
  else .assigned

/-- The boundaries that have a scope. -/
def live (bs : List Boundary) : List Boundary := bs.filter fun b => b.scope ≠ "NONE"

theorem mem_live {bs : List Boundary} {b : Boundary} : b ∈ live bs ↔ b ∈ bs ∧ b.scope ≠ "NONE" := by
  simp [live]

theorem foldl_noteBoundary (bs : List Boundary) (acc : Consolidation) :
    bs.foldl noteBoundary acc =
      { hasAll := acc.hasAll || (live bs).any fun b => b.scope = "ALL"
        hasOwn := acc.hasOwn || (live bs).any fun b => b.scope = "OWN"
        hasAssigned := acc.hasAssigned || (live bs).any fun b => b.scope = "ASSIGNED"
        hasOwnOrAssigned := acc.hasOwnOrAssigned || (live bs).any fun b => b.scope = "OWN_OR_ASSIGNED"
        validScopesCount := acc.validScopesCount + (live bs).length
        allPermittedLocations :=
          (live bs).foldl (fun locs b => locs ∪ b.locations.getD []) acc.allPermittedLocations
        locationRestricted := acc.locationRestricted && (live bs).all fun b => b.locations.isSome } := by
  induction bs generalizing acc with
  | nil => simp [live]
  | cons b bs ih =>
    rw [List.foldl_cons, ih]
    by_cases hnone : b.scope = "NONE"
    · simp [noteBoundary, live, hnone]
    · simp only [noteBoundary, live, hnone, if_false, List.filter_cons, decide_not, decide_false,
        Bool.not_false, if_true, List.any_cons, List.all_cons, List.length_cons, List.foldl_cons,
        Bool.or_assoc, Bool.and_assoc]
      congr 1
      omega

theorem mem_foldl_union {bs : List Boundary} {acc : List String} {loc : String} :
    loc ∈ bs.foldl (fun locs b => locs ∪ b.locations.getD []) acc ↔
      loc ∈ acc ∨ ∃ b ∈ bs, ∃ locs ∈ b.locations, loc ∈ locs := by
  induction bs generalizing acc with
  | nil => simp
  | cons b bs ih =>
    rw [List.foldl_cons, ih, List.mem_union_iff]
    cases hlocs : b.locations <;> simp [hlocs, or_assoc]

theorem mem_allPermittedLocations {bs : List Boundary} {loc : String} :
    loc ∈ (consolidate bs).allPermittedLocations ↔ ∃ b ∈ live bs, ∃ locs ∈ b.locations, loc ∈ locs := by
  rw [consolidate, foldl_noteBoundary, mem_foldl_union]
  simp

theorem validScopesCount_eq_zero {bs : List Boundary} :
    (consolidate bs).validScopesCount = 0 ↔ live bs = [] := by
  rw [consolidate, foldl_noteBoundary]
  simp

theorem locationRestricted_iff {bs : List Boundary} :
    (consolidate bs).locationRestricted = true ↔ ∀ b ∈ live bs, b.locations ≠ none := by
  rw [consolidate, foldl_noteBoundary]
  simp [Option.isSome_iff_ne_none]

/-! ### Filters of requests -/

def fieldEquals (field value : String) : FilterNode :=
  .leaf { field := some field, opRef := .eq, value := some { stringVal := some value } }

def locationField (entity : String) : String := entity ++ "/location_id"

def fieldIn (field : String) (values : List String) : FilterNode :=
  .leaf { field := some field, opRef := .isIn, value := some { listVal := some values } }

def scopeFilters (fields : OwnershipFields) (userId : String) : QueryScope → List FilterNode
  | .own => fields.ownerField.toList.map (fieldEquals · userId)
  | .assigned => fields.assigneeField.toList.map (fieldEquals · userId)
  | .ownOrAssigned =>
    let orChildren := (fields.ownerField.toList ++ fields.assigneeField.toList).map (fieldEquals · userId)
    if orChildren.isEmpty then [] else [.group .or orChildren]
  | .none => [fieldEquals "tenant/id" "DENIED_BY_SCOPE_NONE"]
  | .all => []

/-- The filters that `compile_ast_fbs` appends for the boundaries of an entity. -/
def abacFilters (isMaster : Bool) (entity : String) (bs : List Boundary) (fields : OwnershipFields)
    (userId : String) : List FilterNode :=
  let c := consolidate bs
  let scope :=
    if c.validScopesCount = 0 then if entity = "tenant" ∧ isMaster then .all else .none else c.scope
  (if scope ≠ .none ∧ c.locationRestricted ∧ c.allPermittedLocations ≠ [] then
    [fieldIn (locationField entity) c.allPermittedLocations] else []) ++
  scopeFilters fields userId scope

structure CedarCtx where
  tenantId : String
  userId : String
  domainBoundaries : JsonValue

def domainBoundaries (ctx : CedarCtx) (entity : String) : List JsonValue :=
  ((member ctx.domainBoundaries entity).bind asArray).getD []

/-- The filters of a request as `compile_ast_fbs` leaves them. -/
def compileAstFbs (masterTenantId entity : String) (filters : List FilterNode) (ctx : CedarCtx)
    (schema : JsonValue) : List FilterNode :=
  let isMaster := isMasterTenant masterTenantId ctx.tenantId
  let tenantFilter :=
    if entity = "tenant" then
      if isMaster then [] else [fieldEquals "entity/ulid" ctx.tenantId]
    else [fieldEquals "tenant/id" ctx.tenantId]
  let base := tenantFilter ++ filters
  base.insertIdx (min 1 base.length) (fieldEquals "entity/type" entity) ++
    abacFilters isMaster entity ((domainBoundaries ctx entity).map (readBoundary fbsKeys))
      (ownershipFields entity schema) ctx.userId

/-! ### `where` nodes -/

/-- What `build_abac_node` makes of the nodes of the language. -/
inductive WhereNode
  | eq (column value : String)
  | isIn (column : String) (values : List String)
  | and (nodes : List WhereNode)
  | or (nodes : List WhereNode)

def locNode (entity : String) (c : Consolidation) : Option WhereNode :=
  if c.locationRestricted ∧ c.allPermittedLocations ≠ [] then
    some (.isIn (locationField entity) c.allPermittedLocations) else none

def scopeNode (fields : OwnershipFields) (userId : String) : QueryScope → Option WhereNode
  | .own => fields.ownerField.map (.eq · userId)
  | .assigned => fields.assigneeField.map (.eq · userId)
  | .ownOrAssigned =>
    match fields.ownerField, fields.assigneeField with
    | some own, some ass => some (.or [.eq own userId, .eq ass userId])
    | some own, none => some (.eq own userId)
    | none, some ass => some (.eq ass userId)
    | none, none => none
  | _ => none

def buildAbacNode (entity : String) (bs : List Boundary) (fields : OwnershipFields)
    (userId : String) : Except DomainError (Option WhereNode) :=
  let c := consolidate bs
  if c.validScopesCount = 0 then
    .error ⟨.janus403, s!"Scope NONE — no grant for domain: {entity}"⟩
  else
    .ok <|
      match locNode entity c, scopeNode fields userId c.scope with
      | some loc, some scope => some (.and [loc, scope])
      | some loc, none => some loc
      | none, scope => scope

end MetriEngine.Janus

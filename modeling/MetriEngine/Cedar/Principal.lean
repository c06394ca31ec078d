import MetriEngine.Eav.Json

/-!
# Principals

Who a user is to the authorizer: the roles with their perimeters and the groups, as they
are assembled from the entities of a tenant. Hash sets are lists without repetitions; the
order in them is that of insertion, and nothing below depends on it.
-/
namespace MetriEngine.Cedar
open Foundation Storage Eav

structure RoleBoundary where
  roleId : String
  grants : List JsonValue
  permittedLocations : List String
  permittedAssets : List String
deriving DecidableEq

structure TimeRestriction where
  daysOfWeek : List (Signed 32)
  startMinute : Fin (2 ^ 32)
  endMinute : Fin (2 ^ 32)
deriving DecidableEq

structure PrincipalData where
  userId : String
  tenantId : String
  status : String
  userType : String
  companyId : String
  roles : List String
  rolesBoundaries : List RoleBoundary
  timeRestrictions : List TimeRestriction
  groupAllowedLocations : List String
  groupAllowedAssets : List String
  groups : List String
deriving DecidableEq

/-- The entities of the tenants, as the authorizer reads them. `known` lists the entities that
there are in a tenant. -/
structure EntityReader where
  pull : (tenantId entityId : String) → Except DomainError EntityMap
  childrenWithAttr : (tenantId attrName : String) → DatomValue → Except DomainError (List String)
  known : String → List String
  pull_unknown : ∀ {tenantId entityId}, entityId ∉ known tenantId → pull tenantId entityId = .ok ∅

/-- The tenant `system`, the one of the configuration, and the former name. -/
def isMasterTenant (masterTenantId tenantId : String) : Bool :=
  tenantId = "system" || tenantId = "tnt_master" || tenantId = masterTenantId

/-! ### Attributes -/

def attr (map : EntityMap) (scope key : String) : Option DatomValue :=
  (map.lookup key).or (map.lookup (scope ++ "/" ++ key))

section Attributes
variable [Codecs]

/-- `serde_json::from_str::<Vec<String>>` -/
def parseStrings (s : String) : Option (List String) :=
  match Codecs.parseJson s with
  | some (.array items) => items.mapM JsonValue.asStr
  | _ => none

def idList : Option DatomValue → List String
  | some (.array arr) => arr
  | some (.str s) => if Text.startsWith s "[" then (parseStrings s).getD [s] else [s]
  | _ => []

def unwrapJsonArray (s : String) : List String :=
  if Text.startsWith (Text.trim s) "[" then (parseStrings (Text.trim s)).getD [s] else [s]

def strList : Option DatomValue → List String
  | some (.array arr) => arr.flatMap unwrapJsonArray
  | some (.str s) => unwrapJsonArray s
  | _ => []

def asText (default : String) : Option DatomValue → String
  | some (.str s) => s
  | _ => default

/-! ### Time restrictions -/

def integerIn (lo hi : ℤ) : JsonValue → Option { z : ℤ // lo ≤ z ∧ z < hi }
  | .number (.int z) => if h : lo ≤ z.val ∧ z.val < hi then some ⟨z.val, h⟩ else none
  | _ => none

def asI32 : JsonValue → Option (Signed 32) := integerIn (-2 ^ 31) (2 ^ 31)

def asU32 (v : JsonValue) : Option (Fin (2 ^ 32)) :=
  (integerIn 0 (2 ^ 32) v).map fun z => ⟨z.val.toNat, by have := z.property; omega⟩

def timeRestriction (days start fin : JsonValue) : Option TimeRestriction := do
  let items ← match days with
    | .array items => some items
    | _ => none
  return { daysOfWeek := ← items.mapM asI32, startMinute := ← asU32 start, endMinute := ← asU32 fin }

/-- A restriction is an object, with each of its members once, or an array of the three. -/
def decodeTimeRestriction : JsonValue → Option TimeRestriction
  | .object entries =>
    let member (key : String) := entries.filter fun e => e.1 = key
    match member "days_of_week", member "start_minute", member "end_minute" with
    | [days], [start], [fin] => timeRestriction days.2 start.2 fin.2
    | _, _, _ => none
  | .array [days, start, fin] => timeRestriction days start fin
  | _ => none

/-- `serde_json::from_str::<Vec<TimeRestriction>>` -/
def parseTimeRestrictions (s : String) : Option (List TimeRestriction) :=
  match Codecs.parseJson s with
  | some (.array items) => items.mapM decodeTimeRestriction
  | _ => none

/-! ### Roles -/

def parseGrants (roleMap : EntityMap) : List JsonValue :=
  match attr roleMap "role" "grants" with
  | some (.str s) =>
    match Codecs.parseJson s with
    | some (.array arr) => arr.map fun item =>
      match item with
      | .string text => (Codecs.parseJson text).getD (.string text)
      | other => other
    | _ => []
  | some (.array arr) => arr.map fun s => (Codecs.parseJson s).getD (.string s)
  | _ => []

variable (masterTenantId : String) (reader : EntityReader) (tenantId : String)

/-- A role that does not live in the tenant is one that the master tenant shares. -/
def pullRoleMap (roleId : String) : Except DomainError EntityMap := do
  let roleMap ← reader.pull tenantId roleId
  if roleMap.isEmpty && !isMasterTenant masterTenantId tenantId then
    reader.pull masterTenantId roleId
  else
    return roleMap

def roleBoundary (roleId : String) : Except DomainError RoleBoundary := do
  let roleMap ← pullRoleMap masterTenantId reader tenantId roleId
  return {
    roleId
    grants := parseGrants roleMap
    permittedLocations := strList (attr roleMap "role" "permitted_locations")
    permittedAssets := strList (attr roleMap "role" "permitted_assets") }

def assembleRoles (userMap : EntityMap) : Except DomainError (List String × List RoleBoundary) := do
  let roleIds := idList (attr userMap "user" "role_ids")
  let boundaries ← roleIds.mapM (roleBoundary masterTenantId reader tenantId)
  return (roleIds.dedup, boundaries)

/-! ### Groups -/

/-- What a walk over the groups has gathered. -/
structure GroupGraph where
  allowedLocations : List String := []
  allowedAssets : List String := []
  timeRestrictions : List TimeRestriction := []
  visited : List String := []
deriving DecidableEq

/-- The groups of a wave that no earlier one had, each once. -/
def newGroups (visited : List String) : List String → List String
  | [] => []
  | g :: queue =>
    if g ∈ visited then newGroups visited queue else g :: newGroups (g :: visited) queue

def absorbGroup (groupMap : EntityMap) (acc : GroupGraph) (nextLevel : List String) :
    GroupGraph × List String :=
  if groupMap.isEmpty then (acc, nextLevel)
  else
    ({ acc with
      allowedLocations :=
        acc.allowedLocations ∪ strList (attr groupMap "user_group" "allowed_locations")
      allowedAssets := acc.allowedAssets ∪ strList (attr groupMap "user_group" "allowed_assets")
      timeRestrictions := acc.timeRestrictions ++
        match attr groupMap "user_group" "time_restrictions" with
        | some (.str s) => (parseTimeRestrictions s).getD []
        | _ => [] },
    nextLevel ++
      match attr groupMap "user_group" "parent_user_group_id" with
      | some (.str parentId) => if parentId ≠ "" ∧ parentId ∉ acc.visited then [parentId] else []
      | _ => [])

def absorbLevel : List String → GroupGraph → List String →
    Except DomainError (GroupGraph × List String)
  | [], acc, nextLevel => .ok (acc, nextLevel)
  | g :: level, acc, nextLevel => do
    let groupMap ← reader.pull tenantId g
    let (acc, nextLevel) := absorbGroup groupMap acc nextLevel
    absorbLevel level acc nextLevel

/-- The waves of the walk, at most as many as `waves`. -/
def walkGroups : (waves : ℕ) → (queue : List String) → GroupGraph → Except DomainError GroupGraph
  | 0, _, acc => .ok acc
  | waves + 1, queue, acc =>
    let level := newGroups acc.visited queue
    if level.isEmpty then .ok acc
    else do
      let (acc, nextLevel) ←
        absorbLevel reader tenantId level { acc with visited := acc.visited ++ level } []
      walkGroups waves nextLevel acc

/-- Each wave but the last visits a group that there is: `walkGroups_stable`. -/
def assembleGroups (userMap : EntityMap) : Except DomainError GroupGraph :=
  walkGroups reader tenantId ((reader.known tenantId).length + 1)
    (idList (attr userMap "user" "group_ids")) {}

omit [Codecs] in
theorem mem_newGroups {visited queue : List String} {g : String} (h : g ∈ newGroups visited queue) :
    g ∉ visited := by
  induction queue generalizing visited with
  | nil => simp [newGroups] at h
  | cons head queue ih =>
    rw [newGroups] at h
    split_ifs at h with hhead
    · exact ih h
    · cases List.mem_cons.mp h with
      | inl heq => rwa [heq]
      | inr hmem => exact fun hv => ih hmem (List.mem_cons_of_mem _ hv)

theorem absorbGroup_visited (groupMap : EntityMap) (acc : GroupGraph) (nextLevel : List String) :
    (absorbGroup groupMap acc nextLevel).1.visited = acc.visited := by
  rw [absorbGroup]
  split_ifs <;> rfl

theorem absorbLevel_visited {level nextLevel next : List String} {acc acc' : GroupGraph}
    (h : absorbLevel reader tenantId level acc nextLevel = .ok (acc', next)) :
    acc'.visited = acc.visited := by
  induction level generalizing acc nextLevel with
  | nil =>
    cases h
    rfl
  | cons g level ih =>
    rw [absorbLevel] at h
    cases hpull : reader.pull tenantId g with
    | error e => simp [hpull, bind, Except.bind] at h
    | ok groupMap =>
      rw [hpull] at h
      exact (ih h).trans (absorbGroup_visited _ _ _)

/-- Groups that there are not lead nowhere. -/
theorem absorbLevel_unknown {level : List String} (hlevel : ∀ g ∈ level, g ∉ reader.known tenantId)
    (acc : GroupGraph) (nextLevel : List String) :
    absorbLevel reader tenantId level acc nextLevel = .ok (acc, nextLevel) := by
  induction level with
  | nil => rfl
  | cons g level ih =>
    rw [absorbLevel, reader.pull_unknown (hlevel g (List.mem_cons_self ..))]
    exact ih fun g' hg' => hlevel g' (List.mem_cons_of_mem _ hg')

/-- The entities of the tenant that a walk has not visited. -/
def unvisited (visited : List String) : ℕ :=
  ((reader.known tenantId).toFinset \ visited.toFinset).card

omit [Codecs] in
theorem unvisited_le_length (visited : List String) :
    unvisited reader tenantId visited ≤ (reader.known tenantId).length :=
  (Finset.card_le_card Finset.sdiff_subset).trans (List.toFinset_card_le _)

omit [Codecs] in
theorem unvisited_append_lt {visited level : List String} {g : String} (hg : g ∈ level)
    (hknown : g ∈ reader.known tenantId) (hnew : g ∉ visited) :
    unvisited reader tenantId (visited ++ level) < unvisited reader tenantId visited := by
  apply Finset.card_lt_card
  rw [Finset.ssubset_iff_of_subset
    (Finset.sdiff_subset_sdiff subset_rfl fun x hx => by simp_all)]
  exact ⟨g, by simp [hknown, hnew], by simp [hg]⟩

/-- More waves than there are entities left find nothing more: with those that
`assembleGroups` takes, the walk ends by itself. -/
theorem walkGroups_stable {n m : ℕ} {queue : List String} {acc : GroupGraph}
    (hn : unvisited reader tenantId acc.visited < n) (hm : unvisited reader tenantId acc.visited < m) :
    walkGroups reader tenantId n queue acc = walkGroups reader tenantId m queue acc := by
  induction n generalizing m queue acc with
  | zero => omega
  | succ n ih =>
    obtain ⟨m, rfl⟩ : ∃ k, m = k + 1 := ⟨m - 1, by omega⟩
    simp only [walkGroups]
    split_ifs with hempty
    · rfl
    · by_cases hknown : ∃ g ∈ newGroups acc.visited queue, g ∈ reader.known tenantId
      · obtain ⟨g, hg, hgk⟩ := hknown
        have hless := unvisited_append_lt reader tenantId hg hgk (mem_newGroups hg)
        cases hlevel : absorbLevel reader tenantId (newGroups acc.visited queue)
            { acc with visited := acc.visited ++ newGroups acc.visited queue } [] with
        | error e => rfl
        | ok r =>
          have hvisited := absorbLevel_visited reader tenantId hlevel
          apply ih
          · rw [hvisited]
            simp only
            omega
          · rw [hvisited]
            simp only
            omega
      · rw [absorbLevel_unknown reader tenantId fun g hg hgk => hknown ⟨g, hg, hgk⟩]
        -- a wave without groups changes nothing, whether or not it is taken
        have hstop (k : ℕ) (acc' : GroupGraph) : walkGroups reader tenantId k [] acc' = .ok acc' := by
          cases k <;> rfl
        exact (hstop n _).trans (hstop m _).symm

theorem assembleGroups_eq (userMap : EntityMap) {waves : ℕ}
    (h : (reader.known tenantId).length < waves) :
    walkGroups reader tenantId waves (idList (attr userMap "user" "group_ids")) {} =
      assembleGroups reader tenantId userMap := by
  have hless := unvisited_le_length reader tenantId []
  apply walkGroups_stable
  · exact hless.trans_lt h
  · exact hless.trans_lt (Nat.lt_succ_self _)

/-! ### The graph of a principal -/

def assemblePrincipalGraph (userId : String) (userMap : EntityMap) :
    Except DomainError PrincipalData := do
  let (roles, rolesBoundaries) ← assembleRoles masterTenantId reader tenantId userMap
  let groups ← assembleGroups reader tenantId userMap
  return {
    userId
    tenantId
    status := asText "ACTIVE" (attr userMap "user" "status")
    userType := asText "INTERNAL" (attr userMap "user" "user_type")
    companyId := asText "" (attr userMap "user" "company_id")
    roles
    rolesBoundaries
    -- the restrictions of the user replace those of the groups
    timeRestrictions :=
      match attr userMap "user" "time_restrictions" with
      | some (.str s) => (parseTimeRestrictions s).getD groups.timeRestrictions
      | _ => groups.timeRestrictions
    groupAllowedLocations := groups.allowedLocations
    groupAllowedAssets := groups.allowedAssets
    groups := groups.visited }

theorem assemblePrincipalGraph_tenantId {userId : String} {userMap : EntityMap}
    {principal : PrincipalData}
    (h : assemblePrincipalGraph masterTenantId reader tenantId userId userMap = .ok principal) :
    principal.tenantId = tenantId := by
  rw [assemblePrincipalGraph] at h
  cases hroles : assembleRoles masterTenantId reader tenantId userMap with
  | error e => simp [hroles, bind, Except.bind] at h
  | ok roles =>
    cases hgroups : assembleGroups reader tenantId userMap with
    | error e => simp [hroles, hgroups, bind, Except.bind] at h
    | ok groups =>
      rw [hroles, hgroups] at h
      cases h
      rfl

end Attributes
end MetriEngine.Cedar

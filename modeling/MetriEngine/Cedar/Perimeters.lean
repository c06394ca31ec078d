import MetriEngine.Janus.RowSecurity

/-!
# Perimeters

The perimeter of a role is expanded along the hierarchy of locations and cut with what the
groups of the user allow, and it ends up in the boundaries of the domains that the role grants.
A perimeter with nothing in it is written like no perimeter at all.
-/
namespace MetriEngine.Cedar
open Foundation Storage Eav Aegis Janus

/-! ### Expansion -/

def maxHierarchyDepth : ℕ := 10

/-- One level of the hierarchy: the ids that are new, and the children of these. -/
def expandLevel (children : String → Except DomainError (List String)) :
    (queue expanded nextLevel : List String) → Except DomainError (List String × List String)
  | [], expanded, nextLevel => .ok (expanded, nextLevel)
  | id :: queue, expanded, nextLevel =>
    if id ∈ expanded then expandLevel children queue expanded nextLevel
    else do
      let found ← children id
      expandLevel children queue (expanded ++ [id]) (nextLevel ++ found)

def expandLevels (children : String → Except DomainError (List String)) :
    (depth : ℕ) → (queue expanded : List String) → Except DomainError (List String)
  | 0, _, expanded => .ok expanded
  | depth + 1, queue, expanded =>
    if queue.isEmpty then .ok expanded
    else do
      let (expanded, nextLevel) ← expandLevel children queue expanded []
      expandLevels children depth nextLevel expanded

theorem expandLevel_contains {children : String → Except DomainError (List String)}
    {queue expanded nextLevel : List String} {r : List String × List String}
    (h : expandLevel children queue expanded nextLevel = .ok r) :
    expanded ⊆ r.1 ∧ queue ⊆ r.1 := by
  induction queue generalizing expanded nextLevel with
  | nil =>
    cases h
    exact ⟨List.Subset.refl _, List.nil_subset _⟩
  | cons id queue ih =>
    rw [expandLevel] at h
    split_ifs at h with hid
    · obtain ⟨hold, hqueue⟩ := ih h
      exact ⟨hold, List.cons_subset.mpr ⟨hold hid, hqueue⟩⟩
    · cases hfound : children id with
      | error e => simp [hfound, bind, Except.bind] at h
      | ok found =>
        rw [hfound] at h
        obtain ⟨hold, hqueue⟩ := ih h
        refine ⟨List.Subset.trans (List.subset_append_left _ _) hold, List.cons_subset.mpr ⟨hold ?_, hqueue⟩⟩
        simp

theorem expandLevels_contains {children : String → Except DomainError (List String)} {depth : ℕ}
    {queue expanded result : List String} (h : expandLevels children depth queue expanded = .ok result) :
    expanded ⊆ result := by
  induction depth generalizing queue expanded with
  | zero =>
    cases h
    exact List.Subset.refl _
  | succ depth ih =>
    rw [expandLevels] at h
    split_ifs at h with hqueue
    · cases h
      exact List.Subset.refl _
    · cases hlevel : expandLevel children queue expanded [] with
      | error e => simp [hlevel, bind, Except.bind] at h
      | ok r =>
        rw [hlevel] at h
        exact List.Subset.trans (expandLevel_contains hlevel).1 (ih h)

section Consolidation
variable (reader : EntityReader) (tenantId : String)

def expandHierarchy (roots : List String) : Except DomainError (List String) :=
  if roots.isEmpty then .ok []
  else
    expandLevels (fun id => reader.childrenWithAttr tenantId "parent_id" (.str id)) maxHierarchyDepth
      roots []

/-- An expansion contains what it starts from. -/
theorem expandHierarchy_contains {roots result : List String}
    (h : expandHierarchy reader tenantId roots = .ok result) : roots ⊆ result := by
  rw [expandHierarchy] at h
  split_ifs at h with hroots
  · rw [List.isEmpty_iff.mp hroots]
    exact List.nil_subset _
  · rw [maxHierarchyDepth, expandLevels, if_neg hroots] at h
    cases hlevel : expandLevel (fun id => reader.childrenWithAttr tenantId "parent_id" (.str id))
        roots [] [] with
    | error e => simp [hlevel, bind, Except.bind] at h
    | ok r =>
      rw [hlevel] at h
      exact List.Subset.trans (expandLevel_contains hlevel).2 (expandLevels_contains h)

/-! ### Consolidation -/

def spawnExpand (expandChildren : Bool) (roots : List String) : Except DomainError (List String) :=
  if expandChildren then expandHierarchy reader tenantId roots else .ok roots

def intersectOrInherit (role group : List String) : List String :=
  if group.isEmpty = false then
    if role.isEmpty then group else role.filter fun id => id ∈ group
  else role

theorem intersectOrInherit_of_ne_nil {role group : List String} (hrole : role ≠ [])
    (hgroup : group ≠ []) : intersectOrInherit role group = role.filter fun id => id ∈ group := by
  simp [intersectOrInherit, hrole, hgroup]

def consolidateBoundary (groupLocations groupAssets : List String) (expandChildren : Bool)
    (boundary : RoleBoundary) : Except DomainError RoleBoundary := do
  let expandedLocations ← spawnExpand reader tenantId expandChildren boundary.permittedLocations
  let expandedAssets ← spawnExpand reader tenantId expandChildren boundary.permittedAssets
  return { boundary with
    permittedLocations := intersectOrInherit expandedLocations groupLocations
    permittedAssets := intersectOrInherit expandedAssets groupAssets }

def step3Consolidate (userData : PrincipalData) (expandChildren : Bool) :
    Except DomainError PrincipalData :=
  if userData.roles.isEmpty then .error ⟨.auth403, "User has no roles assigned"⟩
  else do
    let groupLocations ← spawnExpand reader tenantId expandChildren userData.groupAllowedLocations
    let groupAssets ← spawnExpand reader tenantId expandChildren userData.groupAllowedAssets
    let consolidated ← userData.rolesBoundaries.mapM
      (consolidateBoundary reader tenantId groupLocations groupAssets expandChildren)
    return { userData with rolesBoundaries := consolidated }

theorem consolidateBoundary_ok {groupLocations groupAssets : List String}
    {boundary final : RoleBoundary}
    (h : consolidateBoundary reader tenantId groupLocations groupAssets true boundary = .ok final) :
    ∃ expanded, expandHierarchy reader tenantId boundary.permittedLocations = .ok expanded ∧
      final.permittedLocations = intersectOrInherit expanded groupLocations := by
  rw [consolidateBoundary, spawnExpand, if_pos rfl] at h
  cases hlocs : expandHierarchy reader tenantId boundary.permittedLocations with
  | error e => simp [hlocs, bind, Except.bind] at h
  | ok expanded =>
    cases hassets : spawnExpand reader tenantId true boundary.permittedAssets with
    | error e => simp [hlocs, hassets, bind, Except.bind] at h
    | ok assets =>
      rw [hlocs, hassets] at h
      cases h
      exact ⟨expanded, rfl, rfl⟩

theorem mapM_ok_zip {α β ε : Type} {f : α → Except ε β} {l : List α} {l' : List β}
    (h : l.mapM f = .ok l') {p : α × β} (hp : p ∈ l.zip l') : f p.1 = .ok p.2 := by
  induction l generalizing l' with
  | nil => simp at hp
  | cons a l ih =>
    rw [List.mapM_cons] at h
    cases ha : f a with
    | error e => simp [ha, bind, Except.bind] at h
    | ok b =>
      cases hl : l.mapM f with
      | error e => simp [ha, hl, bind, Except.bind] at h
      | ok bs =>
        rw [ha, hl] at h
        cases h
        rw [List.zip_cons_cons] at hp
        cases List.mem_cons.mp hp with
        | inl heq => rw [heq, ha]
        | inr hmem => exact ih hl hmem

/-- The locations of a boundary after the consolidation: those of the role's expansion that the
expansion of the groups' has too. -/
theorem step3Consolidate_locations {principal final : PrincipalData}
    (h : step3Consolidate reader tenantId principal true = .ok final) {b b' : RoleBoundary}
    (hb : (b, b') ∈ principal.rolesBoundaries.zip final.rolesBoundaries)
    (hrole : b.permittedLocations ≠ []) (hgroup : principal.groupAllowedLocations ≠ []) :
    ∃ role group, expandHierarchy reader tenantId b.permittedLocations = .ok role ∧
      expandHierarchy reader tenantId principal.groupAllowedLocations = .ok group ∧
      b'.permittedLocations = role.filter fun id => id ∈ group := by
  rw [step3Consolidate] at h
  split_ifs at h
  simp only [spawnExpand, if_true] at h
  cases hlocs : expandHierarchy reader tenantId principal.groupAllowedLocations with
  | error e => simp [hlocs, bind, Except.bind] at h
  | ok group =>
    cases hassets : expandHierarchy reader tenantId principal.groupAllowedAssets with
    | error e => simp [hlocs, hassets, bind, Except.bind] at h
    | ok assets =>
      cases hroles : principal.rolesBoundaries.mapM
          (consolidateBoundary reader tenantId group assets true) with
      | error e => simp [hlocs, hassets, hroles, bind, Except.bind] at h
      | ok boundaries =>
        rw [hlocs, hassets] at h
        simp only [bind, Except.bind, hroles] at h
        cases h
        obtain ⟨role, hexpand, hfinal⟩ := consolidateBoundary_ok reader tenantId (mapM_ok_zip hroles hb)
        have hne {roots expanded : List String} (hroots : roots ≠ [])
            (hexpand : expandHierarchy reader tenantId roots = .ok expanded) : expanded ≠ [] := by
          intro hnil
          subst hnil
          exact hroots (List.subset_nil.mp (expandHierarchy_contains reader tenantId hexpand))
        rw [intersectOrInherit_of_ne_nil (hne hrole hexpand) (hne hgroup hlocs)] at hfinal
        exact ⟨role, group, hexpand, rfl, hfinal⟩

end Consolidation

/-! ### Boundaries of domains -/

def grantAllowsAction (grant : JsonValue) (action : String) : Bool :=
  let check (act : String) : Bool :=
    act = "*" || act = action || (action = "BulkIngestData" && (act = "CREATE" || act = "UPDATE"))
  match member grant "actions" with
  | some (.array actions) => (actions.filterMap JsonValue.asStr).any check
  | some (.string act) => check act
  | _ => false

/-- The scopes of the grants of a role for an action on a domain. -/
def grantedScopes (boundary : RoleBoundary) (action domain : String) : List String :=
  (boundary.grants.filter fun grant =>
    let grantDomain := (member grant "domain").bind JsonValue.asStr
    (grantDomain = some domain || grantDomain = some "*") && grantAllowsAction grant action).map
      fun grant => ((member grant "scope").bind JsonValue.asStr).getD "NONE"

/-- The boundaries that a role contributes to a domain. -/
def roleBoundaries (boundary : RoleBoundary) (action domain : String) : List JsonValue :=
  (grantedScopes boundary action domain).map fun scope =>
    boundaryJson scope boundary.permittedLocations boundary.permittedAssets

/-- What `step4_analytical` puts into the dictionary for a domain. -/
def step4Analytical (masterTenantId : String) (principal : PrincipalData) (action domain : String) :
    Except DomainError (List JsonValue) :=
  let boundaries :=
    if (domain = "tenant" ∨ domain = "domain_quota" ∨ domain = "quota") ∧
        isMasterTenant masterTenantId principal.tenantId = false then
      [boundaryJson "ALL" [] []]
    else principal.rolesBoundaries.flatMap fun boundary => roleBoundaries boundary action domain
  if boundaries.isEmpty then
    .error ⟨.auth403, s!"Cedar DENY: No role authorized for action {action} on domain {domain}"⟩
  else .ok boundaries

/-! ### Perimeters that hold -/

/-- A row at a location of both expansions. -/
def WithinBoth (entity : String) (role group : List String) (row : JsonMap) : Prop :=
  ∃ loc ∈ role, loc ∈ group ∧ rowVal row (locationField entity) = some (.string loc)

/-- Boundaries that share their locations, one for each scope. -/
def sharing (scopes locations : List String) : List Boundary :=
  scopes.map fun scope => ⟨scope, if locations = [] then none else some locations⟩

theorem mem_live_sharing {scopes locations : List String} {b : Boundary} (hb : b ∈ live (sharing scopes locations)) :
    b.locations = if locations = [] then none else some locations := by
  obtain ⟨hmem, _⟩ := mem_live.mp hb
  obtain ⟨scope, _, rfl⟩ := List.mem_map.mp hmem
  rfl

theorem live_sharing_eq_nil {scopes locations : List String} :
    live (sharing scopes locations) = [] ↔ ∀ scope ∈ scopes, scope = "NONE" := by
  simp [live, sharing]

/-- Where a location is left, each row that is let through is within both expansions. -/
theorem within_of_letsThrough {entity : String} {scopes role group : List String}
    {fields : OwnershipFields} {userId : String} {row : JsonMap}
    (hleft : ∃ loc ∈ role, loc ∈ group)
    (h : LetsThrough entity (sharing scopes (role.filter fun id => id ∈ group)) fields userId row) :
    WithinBoth entity role group row := by
  have hne : (role.filter fun id => id ∈ group) ≠ [] := by
    obtain ⟨loc, hrole, hgroup⟩ := hleft
    exact List.ne_nil_of_mem (List.mem_filter.mpr ⟨hrole, by simpa⟩)
  have hlocs {b : Boundary} (hb : b ∈ live (sharing scopes (role.filter fun id => id ∈ group))) :
      b.locations = some (role.filter fun id => id ∈ group) := by
    rw [mem_live_sharing hb, if_neg hne]
  rcases h.location with ⟨b, hb, hnone⟩ | hempty | ⟨b, hb, locs, hmem, loc, hin, hval⟩
  · rw [hlocs hb] at hnone
    cases hnone
  · obtain ⟨b, hb⟩ := List.exists_mem_of_ne_nil _ h.live
    exact absurd (hempty b hb _ (hlocs hb)) hne
  · rw [hlocs hb] at hmem
    cases hmem
    obtain ⟨hrole, hgroup⟩ := List.mem_filter.mp hin
    exact ⟨loc, hrole, of_decide_eq_true hgroup, hval⟩

/-- Where no location is left, some row is let through all the same. -/
theorem exists_outside {entity : String} {scopes role group : List String}
    {fields : OwnershipFields} (hnone : ¬ ∃ loc ∈ role, loc ∈ group)
    (hlive : live (sharing scopes (role.filter fun id => id ∈ group)) ≠ []) :
    ∃ userId row, PlainRow entity (sharing scopes (role.filter fun id => id ∈ group)) fields row ∧
      LetsThrough entity (sharing scopes (role.filter fun id => id ∈ group)) fields userId row := by
  have hnil : (role.filter fun id => id ∈ group) = [] := by
    apply List.filter_eq_nil_iff.mpr
    intro loc hrole hgroup
    exact hnone ⟨loc, hrole, by simpa using hgroup⟩
  have hreal : Realizable fields fields.ownerField.isSome fields.assigneeField.isSome :=
    ⟨id, id, fun hsame => by rw [hsame]⟩
  obtain ⟨userId, row, hown, hassigned, hval, howner, hassignee⟩ := exists_row entity hreal ""
  refine ⟨userId, row, ⟨howner, hassignee, .inl ⟨_, hval⟩, fun h => absurd h hlive⟩, hlive, ?_, ?_⟩
  · rw [propext hown, propext hassigned]
    exact scope_passes_of_fields
  · obtain ⟨b, hb⟩ := List.exists_mem_of_ne_nil _ hlive
    exact .inl ⟨b, hb, by rw [mem_live_sharing hb, if_pos hnil]⟩

/-- There is a plain row of a tenant at a location of no role. -/
theorem exists_tenant_outside (bs : List Boundary) (fields : OwnershipFields) (role group : List String) :
    ∃ row, PlainRow "tenant" bs fields row ∧ ¬ WithinBoth "tenant" role group row := by
  obtain ⟨loc, hfresh⟩ := exists_fresh role
  have hentry : ((∅ : JsonMap).insert (locationField "tenant") (.string loc)).entries =
      [("tenant/location_id", .string loc)] := rfl
  have htext (f : String) : ∀ v ∈ rowVal ((∅ : JsonMap).insert (locationField "tenant") (.string loc)) f,
      v = .string loc := by
    intro v hv
    simp only [rowVal, OrdMap.lookup_insert, OrdMap.lookup_empty, hentry] at hv
    split_ifs at hv <;> simp_all
  have hval : rowVal ((∅ : JsonMap).insert (locationField "tenant") (.string loc))
      (locationField "tenant") = some (.string loc) := rowVal_of_lookup (by simp)
  refine ⟨_, ⟨?_, ?_, .inl ⟨loc, hval⟩, ?_⟩, ?_⟩
  · intro f _ v hv
    rw [htext f v hv]
    rfl
  · intro f _ v hv
    rw [htext f v hv]
    rfl
  · intro _ v hv
    have hfield : "tenant/id" ≠ locationField "tenant" ∧ bareName "tenant/id" ≠ locationField "tenant" ∧
        bareName "tenant/location_id" ≠ bareName "tenant/id" := by decide +kernel
    have hnone : rowVal ((∅ : JsonMap).insert (locationField "tenant") (.string loc)) "tenant/id" = none := by
      rw [rowVal, OrdMap.lookup_insert_of_ne _ _ hfield.1, OrdMap.lookup_insert_of_ne _ _ hfield.2.1, hentry]
      simp [hfield.2.2]
    rw [hnone] at hv
    cases hv
  · rintro ⟨loc', hrole, _, hval'⟩
    rw [hval] at hval'
    cases hval'
    exact hfresh hrole

/-- The boundaries of one role, whose perimeter and that of the user's groups are not empty: the
compiled filters keep the plain rows within both expansions exactly if some location is left in
both; without a granted scope, unless they are the tenants of the master tenant. -/
theorem perimeter_iff [TextSearch] (reader : EntityReader) (tenantId : String)
    {principal final : PrincipalData} (h : step3Consolidate reader tenantId principal true = .ok final)
    {b b' : RoleBoundary} (hb : (b, b') ∈ principal.rolesBoundaries.zip final.rolesBoundaries)
    (hrole : b.permittedLocations ≠ []) (hgroup : principal.groupAllowedLocations ≠ []) :
    ∃ role group, expandHierarchy reader tenantId b.permittedLocations = .ok role ∧
      expandHierarchy reader tenantId principal.groupAllowedLocations = .ok group ∧
      ∀ (action entity : String) (isMaster : Bool) (fields : OwnershipFields),
        ((∀ userId row,
          PlainRow entity ((roleBoundaries b' action entity).map (readBoundary fbsKeys)) fields row →
          evalAll row (abacFilters isMaster entity
            ((roleBoundaries b' action entity).map (readBoundary fbsKeys)) fields userId) = true →
          WithinBoth entity role group row) ↔
            if ∀ scope ∈ grantedScopes b' action entity, scope = "NONE" then
              ¬ (entity = "tenant" ∧ isMaster)
            else ∃ loc ∈ role, loc ∈ group) ∧
        ((∀ userId row,
          NodeAccepts (buildAbacNode entity
            ((roleBoundaries b' action entity).map (readBoundary nodeKeys)) fields userId) row →
          WithinBoth entity role group row) ↔
            (∀ scope ∈ grantedScopes b' action entity, scope = "NONE") ∨ ∃ loc ∈ role, loc ∈ group) := by
  obtain ⟨role, group, hexpandRole, hexpandGroup, hlocs⟩ :=
    step3Consolidate_locations reader tenantId h hb hrole hgroup
  refine ⟨role, group, hexpandRole, hexpandGroup, fun action entity isMaster fields => ?_⟩
  have hsharing {keys : BoundaryKeys} (hkeys : keys = fbsKeys ∨ keys = nodeKeys) :
      (roleBoundaries b' action entity).map (readBoundary keys) =
        sharing (grantedScopes b' action entity) (role.filter fun id => id ∈ group) := by
    rw [roleBoundaries, List.map_map, sharing, hlocs]
    apply List.map_congr_left
    intro scope _
    exact readBoundary_boundaryJson hkeys _ _ _
  rw [hsharing (.inl rfl), hsharing (.inr rfl)]
  by_cases hnone : ∀ scope ∈ grantedScopes b' action entity, scope = "NONE"
  · have hlive : live (sharing (grantedScopes b' action entity) (role.filter fun id => id ∈ group)) = [] :=
      live_sharing_eq_nil.mpr hnone
    rw [if_pos hnone]
    constructor
    · constructor
      · rintro hwithin ⟨rfl, hmaster⟩
        -- every tenant is let through, also one outside of the role's perimeter
        obtain ⟨row, hplain, houtside⟩ := exists_tenant_outside
          (sharing (grantedScopes b' action "tenant") (role.filter fun id => id ∈ group)) fields role group
        apply houtside
        apply hwithin "" row hplain
        rw [abacFilters_of_not_live hlive, if_pos ⟨rfl, hmaster⟩]
        rfl
      · intro hdenied userId row hplain haccepts
        exact absurd hlive (letsThrough_of_accepts (fun _ => hdenied) hplain haccepts).live
    · refine ⟨fun _ => .inl hnone, fun _ userId row haccepts => ?_⟩
      exact absurd hlive (nodeAccepts_iff.mp haccepts).live
  · have hlive : live (sharing (grantedScopes b' action entity) (role.filter fun id => id ∈ group)) ≠ [] :=
      fun hnil => hnone (live_sharing_eq_nil.mp hnil)
    rw [if_neg hnone, or_iff_right hnone]
    constructor
    · constructor
      · intro hwithin
        by_contra hempty
        obtain ⟨userId, row, hplain, hthrough⟩ := exists_outside hempty hlive
        obtain ⟨loc, hr, hg, _⟩ := hwithin userId row hplain (accepts_of_letsThrough hthrough)
        exact hempty ⟨loc, hr, hg⟩
      · intro hleft userId row hplain haccepts
        exact within_of_letsThrough hleft (letsThrough_of_accepts (fun hnil => absurd hnil hlive) hplain haccepts)
    · constructor
      · intro hwithin
        by_contra hempty
        obtain ⟨userId, row, _, hthrough⟩ := exists_outside hempty hlive
        obtain ⟨loc, hr, hg, _⟩ := hwithin userId row (nodeAccepts_iff.mpr hthrough)
        exact hempty ⟨loc, hr, hg⟩
      · intro hleft userId row haccepts
        exact within_of_letsThrough hleft (nodeAccepts_iff.mp haccepts)

/-! ### A role of the plant and a group of the dock -/

/-- Locations without children. -/
def flatReader : EntityReader where
  pull _ _ := .ok ∅
  childrenWithAttr _ _ _ := .ok []
  known _ := []
  pull_unknown := fun _ => rfl

def plantRole : RoleBoundary where
  roleId := "operator"
  grants := [.object [
    ("actions", .string "VIEW"), ("domain", .string "task"), ("scope", .string "ALL")]]
  permittedLocations := ["plant"]
  permittedAssets := []

def operator (groupLocations : List String) : PrincipalData where
  userId := "ana"
  tenantId := "acme"
  status := "ACTIVE"
  userType := "INTERNAL"
  companyId := ""
  roles := ["operator"]
  rolesBoundaries := [plantRole]
  timeRestrictions := []
  groupAllowedLocations := groupLocations
  groupAllowedAssets := []
  groups := []

def plantTask : JsonMap := (∅ : JsonMap).insert "task/location_id" (.string "plant")

theorem plant_is_kept : WithinBoth "task" ["plant"] ["dock", "plant"] plantTask := by
  have hstep : step3Consolidate flatReader "acme" (operator ["dock", "plant"]) true =
      .ok (operator ["dock", "plant"]) := by decide +kernel
  obtain ⟨role, group, hexpandRole, hexpandGroup, hiff⟩ := @perimeter_iff plainSearch flatReader "acme"
    (operator ["dock", "plant"]) (operator ["dock", "plant"]) hstep plantRole plantRole
    (by decide +kernel) (by decide) (by decide)
  have hrole : expandHierarchy flatReader "acme" plantRole.permittedLocations = .ok ["plant"] := by
    decide +kernel
  have hgroup : expandHierarchy flatReader "acme" (operator ["dock", "plant"]).groupAllowedLocations =
      .ok ["dock", "plant"] := by decide +kernel
  cases hrole.symm.trans hexpandRole
  cases hgroup.symm.trans hexpandGroup
  have hkept := (hiff "VIEW" "task" false {}).1
  have hbs : (roleBoundaries plantRole "VIEW" "task").map (readBoundary fbsKeys) =
      [⟨"ALL", some ["plant"]⟩] := by decide +kernel
  have hscopes : grantedScopes plantRole "VIEW" "task" = ["ALL"] := by decide +kernel
  rw [hbs, hscopes] at hkept
  have hplain : PlainRow "task" [⟨"ALL", some ["plant"]⟩] {} plantTask :=
    { owner := by decide
      assignee := by decide
      location := .inr (by decide)
      tenant := by decide +kernel }
  exact hkept.mpr (by decide) "ana" plantTask hplain (by decide +kernel)

/-- A group at another location takes the perimeter away: a task anywhere is let through. -/
theorem group_opens_the_perimeter : ¬ ∀ (principal final : PrincipalData) (b b' : RoleBoundary)
    (role group : List String) (userId : String) (row : JsonMap),
    step3Consolidate flatReader "acme" principal true = .ok final →
    (b, b') ∈ principal.rolesBoundaries.zip final.rolesBoundaries →
    b.permittedLocations ≠ [] → principal.groupAllowedLocations ≠ [] →
    expandHierarchy flatReader "acme" b.permittedLocations = .ok role →
    expandHierarchy flatReader "acme" principal.groupAllowedLocations = .ok group →
    @evalAll plainSearch row (abacFilters false "task"
      ((roleBoundaries b' "VIEW" "task").map (readBoundary fbsKeys)) {} userId) = true →
    WithinBoth "task" role group row := by
  intro h
  obtain ⟨loc, hrole, hgroup, _⟩ := h (operator ["dock"])
    { operator ["dock"] with rolesBoundaries := [{ plantRole with permittedLocations := [] }] }
    plantRole { plantRole with permittedLocations := [] } ["plant"] ["dock"] "ana"
    ((∅ : JsonMap).insert "task/location_id" (.string "depot"))
    (by decide +kernel) (by decide +kernel) (by decide) (by decide) (by decide +kernel)
    (by decide +kernel) (by decide +kernel)
  cases List.mem_singleton.mp hrole
  exact absurd (List.mem_singleton.mp hgroup) (by decide)

end MetriEngine.Cedar

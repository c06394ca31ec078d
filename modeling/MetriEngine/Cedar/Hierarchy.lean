import MetriEngine.Cedar.Perimeters
import MetriEngine.Foundation.Walks

/-!
# Hierarchies

The two searches of the authorizer: down the locations and assets, level by level to a bounded
depth, and up the groups of a user, wave by wave to the end. Both find exactly what their relation
reaches, whatever cycles and shared nodes it has.
-/
namespace MetriEngine.Cedar
open Foundation Storage Eav Reached

/-! ### Down the hierarchy -/

section Expansion
variable {children : String → Except DomainError (List String)} {next : String → List String}

theorem expandLevel_ok (hchildren : ∀ id, children id = .ok (next id)) (queue : List String)
    {expanded : List String} (hnodup : expanded.Nodup) (nextLevel : List String) :
    ∃ expanded' nextLevel', expandLevel children queue expanded nextLevel =
        .ok (expanded', nextLevel') ∧ expanded'.Nodup ∧
      (∀ x, x ∈ expanded' ↔ x ∈ expanded ∨ x ∈ queue) ∧
      ∀ y, y ∈ nextLevel' ↔ y ∈ nextLevel ∨ ∃ x ∈ queue, x ∉ expanded ∧ y ∈ next x := by
  induction queue generalizing expanded nextLevel with
  | nil => exact ⟨expanded, nextLevel, rfl, hnodup, by simp, by simp⟩
  | cons id queue ih =>
    rw [expandLevel]
    split_ifs with hid
    · obtain ⟨expanded', nextLevel', hlevel, hnodup', hexpanded, hnext⟩ := ih hnodup nextLevel
      refine ⟨expanded', nextLevel', hlevel, hnodup', ?_, ?_⟩
      · intro x
        rw [hexpanded, List.mem_cons]
        constructor
        · tauto
        · rintro (hx | rfl | hx)
          · exact .inl hx
          · exact .inl hid
          · exact .inr hx
      · intro y
        rw [hnext]
        simp [hid]
    · have hnodup₁ : (expanded ++ [id]).Nodup := by
        rw [List.nodup_append]
        refine ⟨hnodup, List.nodup_singleton id, ?_⟩
        rintro x hx y hy rfl
        exact hid (List.mem_singleton.mp hy ▸ hx)
      obtain ⟨expanded', nextLevel', hlevel, hnodup', hexpanded, hnext⟩ :=
        ih hnodup₁ (nextLevel ++ next id)
      refine ⟨expanded', nextLevel', ?_, hnodup', ?_, ?_⟩
      · rw [hchildren id]
        exact hlevel
      · intro x
        rw [hexpanded, List.mem_append, List.mem_singleton, List.mem_cons]
        tauto
      · intro y
        rw [hnext, List.mem_append]
        constructor
        · rintro ((hy | hy) | ⟨x, hx, hnew, hy⟩)
          · exact .inl hy
          · exact .inr ⟨id, List.mem_cons_self, hid, hy⟩
          · exact .inr ⟨x, List.mem_cons_of_mem _ hx, fun h => hnew (List.mem_append_left _ h), hy⟩
        · rintro (hy | ⟨x, hx, hnew, hy⟩)
          · exact .inl (.inl hy)
          · by_cases heq : x = id
            · subst heq
              exact .inl (.inr hy)
            · exact .inr ⟨x, (List.mem_cons.mp hx).resolve_left heq, by simp [hnew, heq], hy⟩

/-- So many levels later the search has what is so many steps further away. -/
theorem expandLevels_ok (hchildren : ∀ id, children id = .ok (next id)) {roots : List String}
    (depth : ℕ) {k : ℕ} {expanded queue : List String} (hnodup : expanded.Nodup)
    (h : Levels next roots k expanded queue) :
    ∃ result queue', expandLevels children depth queue expanded = .ok result ∧ result.Nodup ∧
      Levels next roots (k + depth) result queue' := by
  induction depth generalizing k expanded queue with
  | zero => exact ⟨expanded, queue, rfl, hnodup, h⟩
  | succ depth ih =>
    rw [expandLevels]
    split_ifs with hempty
    · rw [List.isEmpty_iff.mp hempty] at h
      exact ⟨expanded, [], rfl, hnodup, h.of_empty (Nat.le_add_right k _)⟩
    · obtain ⟨expanded', nextLevel, hlevel, hnodup', hexpanded, hnext⟩ :=
        expandLevel_ok hchildren queue hnodup []
      obtain ⟨result, queue', hlevels, hresult⟩ := ih hnodup' (h.step hexpanded (by simpa using hnext))
      refine ⟨result, queue', ?_, ?_⟩
      · rw [hlevel]
        exact hlevels
      · rwa [show k + (depth + 1) = k + 1 + depth by omega]

end Expansion

theorem expandHierarchy_ok {reader : EntityReader} {tenantId : String} {next : String → List String}
    (hchildren : ∀ id, reader.childrenWithAttr tenantId "parent_id" (.str id) = .ok (next id))
    (roots : List String) :
    ∃ result, expandHierarchy reader tenantId roots = .ok result ∧ result.Nodup ∧
      ∀ x, x ∈ result ↔ ∃ d < maxHierarchyDepth, IsLeast {n | Reached next roots n x} d := by
  rw [expandHierarchy]
  split_ifs with hroots
  · have hempty := (levels_start next roots)
    rw [List.isEmpty_iff.mp hroots] at hempty ⊢
    refine ⟨[], rfl, List.nodup_nil, ?_⟩
    intro x
    rw [← exists_lt_iff_isLeast]
    exact (hempty.of_empty (Nat.zero_le maxHierarchyDepth)).expanded_iff x
  · obtain ⟨result, queue', hlevels, hnodup, h⟩ :=
      expandLevels_ok hchildren maxHierarchyDepth List.nodup_nil (levels_start next roots)
    refine ⟨result, hlevels, hnodup, ?_⟩
    intro x
    rw [← exists_lt_iff_isLeast, h.expanded_iff x, Nat.zero_add]

/-! ### Up the groups -/

section Groups
variable [Codecs]

/-- The restrictions that a group has of its own. -/
def groupRestrictions (groupMap : EntityMap) : List TimeRestriction :=
  match attr groupMap "user_group" "time_restrictions" with
  | some (.str s) => (parseTimeRestrictions s).getD []
  | _ => []

/-- The group above a group. -/
def parentGroups (groupMap : EntityMap) : List String :=
  match attr groupMap "user_group" "parent_user_group_id" with
  | some (.str parentId) => if parentId = "" then [] else [parentId]
  | _ => []

def groupLocations (groupMap : EntityMap) : List String :=
  strList (attr groupMap "user_group" "allowed_locations")

def groupAssets (groupMap : EntityMap) : List String :=
  strList (attr groupMap "user_group" "allowed_assets")

theorem absorbGroup_eq (groupMap : EntityMap) (acc : GroupGraph) (nextLevel : List String) :
    ∃ acc', absorbGroup groupMap acc nextLevel =
        (acc', nextLevel ++ (parentGroups groupMap).filter (· ∉ acc.visited)) ∧
      acc'.visited = acc.visited ∧
      (∀ l, l ∈ acc'.allowedLocations ↔ l ∈ acc.allowedLocations ∨ l ∈ groupLocations groupMap) ∧
      (∀ a, a ∈ acc'.allowedAssets ↔ a ∈ acc.allowedAssets ∨ a ∈ groupAssets groupMap) ∧
      acc'.timeRestrictions = acc.timeRestrictions ++ groupRestrictions groupMap := by
  rw [absorbGroup]
  split_ifs with hempty
  · have hnone (scope key : String) : attr groupMap scope key = none := by
      simp [attr, OrdMap.lookup_of_isEmpty hempty]
    refine ⟨acc, ?_, rfl, ?_, ?_, ?_⟩
    · simp [parentGroups, hnone]
    · simp [groupLocations, hnone, strList]
    · simp [groupAssets, hnone, strList]
    · simp [groupRestrictions, hnone]
  · refine ⟨{ acc with
      allowedLocations := acc.allowedLocations ∪ groupLocations groupMap
      allowedAssets := acc.allowedAssets ∪ groupAssets groupMap
      timeRestrictions := acc.timeRestrictions ++ groupRestrictions groupMap }, ?_, rfl, ?_, ?_, rfl⟩
    · have hparents : (match attr groupMap "user_group" "parent_user_group_id" with
          | some (.str parentId) => if parentId ≠ "" ∧ parentId ∉ acc.visited then [parentId] else []
          | _ => []) = (parentGroups groupMap).filter (· ∉ acc.visited) := by
        rw [parentGroups]
        split
        · rename_i parentId _
          by_cases hnone : parentId = ""
          · simp [hnone]
          · by_cases hvisited : parentId ∈ acc.visited <;> simp [hnone, hvisited]
        · rfl
      rw [← hparents]
      rfl
    · simp
    · simp

variable {reader : EntityReader} {tenantId : String} {groupMap : String → EntityMap}

theorem absorbLevel_ok (hpull : ∀ g, reader.pull tenantId g = .ok (groupMap g)) (level : List String)
    (acc : GroupGraph) (nextLevel : List String) :
    ∃ acc', absorbLevel reader tenantId level acc nextLevel =
        .ok (acc', nextLevel ++ level.flatMap fun g =>
          (parentGroups (groupMap g)).filter (· ∉ acc.visited)) ∧
      acc'.visited = acc.visited ∧
      (∀ l, l ∈ acc'.allowedLocations ↔
        l ∈ acc.allowedLocations ∨ ∃ g ∈ level, l ∈ groupLocations (groupMap g)) ∧
      (∀ a, a ∈ acc'.allowedAssets ↔
        a ∈ acc.allowedAssets ∨ ∃ g ∈ level, a ∈ groupAssets (groupMap g)) ∧
      acc'.timeRestrictions =
        acc.timeRestrictions ++ level.flatMap fun g => groupRestrictions (groupMap g) := by
  induction level generalizing acc nextLevel with
  | nil => exact ⟨acc, by simp [absorbLevel], rfl, by simp, by simp, by simp⟩
  | cons g level ih =>
    obtain ⟨acc₁, habsorb, hvisited₁, hlocations₁, hassets₁, hrestrictions₁⟩ :=
      absorbGroup_eq (groupMap g) acc nextLevel
    obtain ⟨acc', hlevel, hvisited, hlocations, hassets, hrestrictions⟩ := ih acc₁
      (nextLevel ++ (parentGroups (groupMap g)).filter (· ∉ acc.visited))
    refine ⟨acc', ?_, hvisited.trans hvisited₁, ?_, ?_, ?_⟩
    · rw [absorbLevel, hpull g]
      change absorbLevel reader tenantId level (absorbGroup (groupMap g) acc nextLevel).1
        (absorbGroup (groupMap g) acc nextLevel).2 = _
      rw [habsorb]
      dsimp only
      rw [hlevel, hvisited₁, List.flatMap_cons, List.append_assoc]
    · intro l
      rw [hlocations, hlocations₁]
      simp [or_assoc]
    · intro a
      rw [hassets, hassets₁]
      simp [or_assoc]
    · rw [hrestrictions, hrestrictions₁, List.flatMap_cons, List.append_assoc]

omit [Codecs] in
theorem mem_newGroups_iff {visited queue : List String} {g : String} :
    g ∈ newGroups visited queue ↔ g ∈ queue ∧ g ∉ visited := by
  induction queue generalizing visited with
  | nil => simp [newGroups]
  | cons head queue ih =>
    rw [newGroups]
    split_ifs with hhead
    · rw [ih, List.mem_cons]
      constructor
      · rintro ⟨hg, hnew⟩
        exact ⟨.inr hg, hnew⟩
      · rintro ⟨rfl | hg, hnew⟩
        · exact absurd hhead hnew
        · exact ⟨hg, hnew⟩
    · rw [List.mem_cons, ih, List.mem_cons, List.mem_cons]
      by_cases heq : g = head
      · simp [heq, hhead]
      · simp [heq]

omit [Codecs] in
theorem nodup_newGroups (visited queue : List String) : (newGroups visited queue).Nodup := by
  induction queue generalizing visited with
  | nil => simp [newGroups]
  | cons head queue ih =>
    rw [newGroups]
    split_ifs with hhead
    · exact ih visited
    · rw [List.nodup_cons]
      refine ⟨?_, ih _⟩
      rw [mem_newGroups_iff]
      simp

/-- What a walk has gathered: the restrictions and perimeters of the groups visited, each of which
can be reached, while what is above them is visited or waits. -/
structure Gathered (groupMap : String → EntityMap) (roots : List String) (acc : GroupGraph)
    (queue : List String) : Prop where
  nodup : acc.visited.Nodup
  reached : ∀ g, g ∈ acc.visited ∨ g ∈ queue →
    ∃ n, Reached (fun g => parentGroups (groupMap g)) roots n g
  rooted : ∀ r ∈ roots, r ∈ acc.visited ∨ r ∈ queue
  closed : ∀ g ∈ acc.visited, ∀ p ∈ parentGroups (groupMap g), p ∈ acc.visited ∨ p ∈ queue
  locations : ∀ l, l ∈ acc.allowedLocations ↔ ∃ g ∈ acc.visited, l ∈ groupLocations (groupMap g)
  assets : ∀ a, a ∈ acc.allowedAssets ↔ ∃ g ∈ acc.visited, a ∈ groupAssets (groupMap g)
  restrictions : acc.timeRestrictions =
    acc.visited.flatMap fun g => groupRestrictions (groupMap g)

variable {roots queue : List String} {acc : GroupGraph}

theorem gathered_start (groupMap : String → EntityMap) (roots : List String) :
    Gathered groupMap roots {} roots where
  nodup := List.nodup_nil
  reached g h := ⟨0, .root (h.resolve_left List.not_mem_nil)⟩
  rooted _ h := .inr h
  closed := by simp
  locations := by simp
  assets := by simp
  restrictions := rfl

/-- A queue of visited groups can be forgotten. -/
theorem Gathered.forget (h : Gathered groupMap roots acc queue)
    (hqueue : ∀ g ∈ queue, g ∈ acc.visited) : Gathered groupMap roots acc [] where
  nodup := h.nodup
  reached g hg := h.reached g (.inl (hg.resolve_right List.not_mem_nil))
  rooted r hr := .inl ((h.rooted r hr).elim id (hqueue r))
  closed g hg p hp := .inl ((h.closed g hg p hp).elim id (hqueue p))
  locations := h.locations
  assets := h.assets
  restrictions := h.restrictions

/-- One wave. -/
theorem Gathered.wave (hpull : ∀ g, reader.pull tenantId g = .ok (groupMap g))
    (h : Gathered groupMap roots acc queue) :
    ∃ acc' next, absorbLevel reader tenantId (newGroups acc.visited queue)
        { acc with visited := acc.visited ++ newGroups acc.visited queue } [] = .ok (acc', next) ∧
      acc'.visited = acc.visited ++ newGroups acc.visited queue ∧
      Gathered groupMap roots acc' next := by
  obtain ⟨acc', hlevel, hvisited, hlocations, hassets, hrestrictions⟩ :=
    absorbLevel_ok hpull (newGroups acc.visited queue)
      { acc with visited := acc.visited ++ newGroups acc.visited queue } []
  have hmem (g : String) : g ∈ acc'.visited ↔ g ∈ acc.visited ∨ g ∈ queue := by
    rw [hvisited, List.mem_append, mem_newGroups_iff]
    tauto
  refine ⟨acc', _, hlevel, hvisited, ?_⟩
  constructor
  · rw [hvisited, List.nodup_append]
    refine ⟨h.nodup, nodup_newGroups _ _, ?_⟩
    rintro g hg g' hg' rfl
    exact (mem_newGroups_iff.mp hg').2 hg
  · rintro g (hg | hg)
    · exact h.reached g ((hmem g).mp hg)
    · obtain ⟨g', hg', hparent⟩ := List.mem_flatMap.mp (List.nil_append _ ▸ hg)
      obtain ⟨n, hn⟩ := h.reached g' (.inr (mem_newGroups_iff.mp hg').1)
      exact ⟨n + 1, .step hn (List.mem_filter.mp hparent).1⟩
  · intro r hr
    exact .inl ((hmem r).mpr (h.rooted r hr))
  · intro g hg p hp
    by_cases hseen : p ∈ acc'.visited
    · exact .inl hseen
    · right
      by_cases hold : g ∈ acc.visited
      · exact absurd ((hmem p).mpr (h.closed g hold p hp)) hseen
      · have hnew : g ∈ newGroups acc.visited queue :=
          mem_newGroups_iff.mpr ⟨((hmem g).mp hg).resolve_left hold, hold⟩
        rw [List.nil_append, List.mem_flatMap]
        refine ⟨g, hnew, List.mem_filter.mpr ⟨hp, ?_⟩⟩
        rw [hvisited] at hseen
        simpa using hseen
  · intro l
    rw [hlocations, h.locations, hvisited]
    simp [or_and_right, exists_or]
  · intro a
    rw [hassets, h.assets, hvisited]
    simp [or_and_right, exists_or]
  · rw [hrestrictions, h.restrictions, hvisited, List.flatMap_append]

/-- With more waves than there are groups left a walk visits all it can come to. -/
theorem walkGroups_ok (hpull : ∀ g, reader.pull tenantId g = .ok (groupMap g)) {waves : ℕ}
    (hwaves : unvisited reader tenantId acc.visited < waves) (h : Gathered groupMap roots acc queue) :
    ∃ graph, walkGroups reader tenantId waves queue acc = .ok graph ∧
      Gathered groupMap roots graph [] := by
  induction waves generalizing queue acc with
  | zero => omega
  | succ waves ih =>
    rw [walkGroups]
    dsimp only
    split_ifs with hempty
    · refine ⟨acc, rfl, h.forget ?_⟩
      intro g hg
      by_contra hnew
      have hmem : g ∈ newGroups acc.visited queue := mem_newGroups_iff.mpr ⟨hg, hnew⟩
      rw [List.isEmpty_iff.mp hempty] at hmem
      exact List.not_mem_nil hmem
    · obtain ⟨acc', next, hlevel, hvisited, h'⟩ := h.wave hpull
      by_cases hknown : ∃ g ∈ newGroups acc.visited queue, g ∈ reader.known tenantId
      · obtain ⟨g, hg, hgk⟩ := hknown
        have hless := unvisited_append_lt reader tenantId hg hgk (mem_newGroups hg)
        obtain ⟨graph, hwalk, hgraph⟩ := ih (by rw [hvisited]; omega) h'
        refine ⟨graph, ?_, hgraph⟩
        rw [hlevel]
        exact hwalk
      · -- groups that there are not lead nowhere: the walk is over
        have hunknown := absorbLevel_unknown reader tenantId
          (fun g hg hgk => hknown ⟨g, hg, hgk⟩)
          { acc with visited := acc.visited ++ newGroups acc.visited queue } []
        rw [hlevel] at hunknown
        obtain ⟨-, rfl⟩ := Prod.mk.inj (Except.ok.inj hunknown)
        refine ⟨acc', ?_, h'⟩
        rw [hlevel]
        change walkGroups reader tenantId waves [] acc' = .ok acc'
        cases waves <;> rfl

theorem assembleGroups_ok (hpull : ∀ g, reader.pull tenantId g = .ok (groupMap g))
    (userMap : EntityMap) :
    ∃ graph, assembleGroups reader tenantId userMap = .ok graph ∧
      Gathered groupMap (idList (attr userMap "user" "group_ids")) graph [] := by
  apply walkGroups_ok hpull _ (gathered_start groupMap _)
  exact (unvisited_le_length reader tenantId []).trans_lt (Nat.lt_succ_self _)

/-- Both searches come to an end with exactly what their relation reaches: the hierarchy up to its
depth, each id once; the groups without a bound, each visited once and with all it allows. -/
theorem hierarchies_are_closed (reader : EntityReader) (tenantId : String) :
    (∀ (children : String → List String) (roots : List String),
      (∀ id, reader.childrenWithAttr tenantId "parent_id" (.str id) = .ok (children id)) →
      ∃ result, expandHierarchy reader tenantId roots = .ok result ∧ result.Nodup ∧
        ∀ x, x ∈ result ↔ ∃ d < maxHierarchyDepth, IsLeast {n | Reached children roots n x} d) ∧
    ∀ (groupMap : String → EntityMap) (userMap : EntityMap),
      (∀ g, reader.pull tenantId g = .ok (groupMap g)) →
      ∃ graph,
        (∀ waves, (reader.known tenantId).length < waves →
          walkGroups reader tenantId waves (idList (attr userMap "user" "group_ids")) {} = .ok graph) ∧
        assembleGroups reader tenantId userMap = .ok graph ∧ graph.visited.Nodup ∧
        (∀ g, g ∈ graph.visited ↔ ∃ n, Reached (fun g => parentGroups (groupMap g))
          (idList (attr userMap "user" "group_ids")) n g) ∧
        (∀ l, l ∈ graph.allowedLocations ↔ ∃ g ∈ graph.visited, l ∈ groupLocations (groupMap g)) ∧
        (∀ a, a ∈ graph.allowedAssets ↔ ∃ g ∈ graph.visited, a ∈ groupAssets (groupMap g)) ∧
        graph.timeRestrictions = graph.visited.flatMap fun g => groupRestrictions (groupMap g) := by
  constructor
  · intro children roots hchildren
    exact expandHierarchy_ok hchildren roots
  · intro groupMap userMap hpull
    obtain ⟨graph, hgraph, h⟩ := assembleGroups_ok hpull userMap
    refine ⟨graph, ?_, hgraph, h.nodup, ?_, h.locations, h.assets, h.restrictions⟩
    · intro waves hwaves
      rw [assembleGroups_eq reader tenantId userMap hwaves, hgraph]
    · intro g
      exact Reached.mem_iff_of_closed (S := {g | g ∈ graph.visited})
        (fun g hg => h.reached g (.inl hg)) (by simpa using h.rooted) (by simpa using h.closed)

end Groups

/-! ### A ring of sites and two groups above each other -/

/-- Two sites below each other, and a group with itself above the group above it. -/
def ringReader : EntityReader where
  pull _ entityId :=
    .ok (if entityId = "crew" then
      (∅ : EntityMap).insert "parent_user_group_id" (.str "staff")
    else if entityId = "staff" then
      ((∅ : EntityMap).insert "parent_user_group_id" (.str "crew")).insert "allowed_locations"
        (.array ["dock"])
    else ∅)
  childrenWithAttr _ _ v := .ok (if v = .str "dock" then ["bay", "dock"] else ["dock"])
  known _ := ["crew", "staff"]
  pull_unknown := by
    intro tenantId entityId h
    simp only [List.mem_cons, List.not_mem_nil, or_false, not_or] at h
    rw [if_neg h.1, if_neg h.2]

def crewUser : EntityMap := (∅ : EntityMap).insert "group_ids" (.array ["crew", "guests"])

/-- The ring is walked once around, and so are the groups above each other; a group that there is
not is visited and allows nothing. -/
theorem ring_is_closed :
    (∃ result, expandHierarchy ringReader "acme" ["bay"] = .ok result ∧ result.Nodup ∧
      ∃ d < maxHierarchyDepth, IsLeast {n | Reached
        (fun id => if DatomValue.str id = .str "dock" then ["bay", "dock"] else ["dock"]) ["bay"] n
        "dock"} d) ∧
    ∃ graph, @assembleGroups plainCodecs ringReader "acme" crewUser = .ok graph ∧
      graph.visited.Nodup ∧ "guests" ∈ graph.visited ∧ "dock" ∈ graph.allowedLocations := by
  obtain ⟨hdown, hup⟩ := @hierarchies_are_closed plainCodecs ringReader "acme"
  constructor
  · obtain ⟨result, hresult, hnodup, hmem⟩ := hdown
      (fun id => if DatomValue.str id = .str "dock" then ["bay", "dock"] else ["dock"]) ["bay"]
      fun id => rfl
    have hring : expandHierarchy ringReader "acme" ["bay"] = .ok ["bay", "dock"] := by
      decide +kernel
    cases hring.symm.trans hresult
    exact ⟨_, hresult, hnodup, (hmem "dock").mp (by decide)⟩
  · obtain ⟨graph, -, hgraph, hnodup, -⟩ := hup _ crewUser fun g => rfl
    have hcrew : @assembleGroups plainCodecs ringReader "acme" crewUser =
        .ok ⟨["dock"], [], [], ["crew", "guests", "staff"]⟩ := by decide +kernel
    cases hcrew.symm.trans hgraph
    exact ⟨_, hgraph, hnodup, by decide, by decide⟩

end MetriEngine.Cedar

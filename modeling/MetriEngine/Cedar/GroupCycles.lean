import MetriEngine.Cedar.Principal
import MetriEngine.Foundation.Walks

/-!
# Cycles of user groups

Before a group is given a parent, the walk up from that parent must not come back, in ten groups, to
the group or to one that it has passed. Where each change is written before the next one is checked,
no group is ever among its own first ten ancestors; a ring of eleven is not noticed. The groups of one
composite request are all checked before any of them is written, and are not among these changes.
-/
namespace MetriEngine.Cedar
open Foundation Storage Eav

/-- The parent that a payload names, or the empty text. -/
def namedParent (payload : JsonValue) : String :=
  let get key := payload.asObject.bind fun o => o.lookup key
  (((get "parent_user_group_id").or (get "user_group/parent_user_group_id")).bind
    JsonValue.asStr).getD ""

/-- The parent that is stored, or the empty text: only a text counts. -/
def storedParent (groupMap : EntityMap) : String :=
  match attr groupMap "user_group" "parent_user_group_id" with
  | some (.str s) => s
  | _ => ""

def walkUp (pull : String → Except DomainError EntityMap) : ℕ → String → List String →
    Except String Unit
  | 0, _, _ => .ok ()
  | depth + 1, currentId, visited =>
    if currentId = "" then .ok ()
    else if currentId ∈ visited then .error "Circular dependency detected in user groups"
    else match pull currentId with
      | .error _ => .ok ()
      | .ok groupMap =>
        if groupMap.isEmpty then .ok ()
        else walkUp pull depth (storedParent groupMap) (currentId :: visited)

/-- `validate_user_group_hierarchy_cycle` -/
def validateHierarchy (pull : String → Except DomainError EntityMap) (entityId : String)
    (payload : JsonValue) : Except String Unit :=
  let parentId := namedParent payload
  if parentId = "" then .ok ()
  else if entityId ≠ "" ∧ parentId = entityId then
    .error "Circular dependency detected: a group cannot be its own parent"
  else walkUp pull 10 parentId [entityId]

/-! ### What is accepted -/

/-- What `pull` reads of a tenant. -/
abbrev Groups := String → EntityMap

def Groups.parent (groups : Groups) (id : String) : Option String :=
  if storedParent (groups id) = "" then none else some (storedParent (groups id))

section Walk
variable {groups : Groups}

theorem storedParent_of_isEmpty {groupMap : EntityMap} (h : groupMap.isEmpty = true) :
    storedParent groupMap = "" := by
  simp [storedParent, attr, OrdMap.lookup_of_isEmpty h]

theorem walkUp_empty (pull : String → Except DomainError EntityMap) (depth : ℕ)
    (visited : List String) : walkUp pull depth "" visited = .ok () := by
  cases depth <;> simp [walkUp]

/-- The walk passes exactly if the groups on it are different, and none was visited before. -/
theorem walkUp_ok_iff {depth : ℕ} {currentId : String} {visited : List String}
    (hcurrent : currentId ≠ "") :
    walkUp (fun id => .ok (groups id)) depth currentId visited = .ok () ↔
      (chain groups.parent depth currentId).Nodup ∧
        ∀ id ∈ chain groups.parent depth currentId, id ∉ visited := by
  induction depth generalizing currentId visited with
  | zero => simp [walkUp, chain]
  | succ depth ih =>
    rw [walkUp, if_neg hcurrent, chain]
    by_cases hvisited : currentId ∈ visited
    · simp [hvisited]
    · rw [if_neg hvisited]
      dsimp only
      by_cases hparent : storedParent (groups currentId) = ""
      · have hend : groups.parent currentId = none := by simp [Groups.parent, hparent]
        simp [hend, hparent, walkUp_empty, hvisited]
      · have hnext : groups.parent currentId = some (storedParent (groups currentId)) := by
          simp [Groups.parent, hparent]
        have hmap : ¬(groups currentId).isEmpty = true :=
          fun hempty => hparent (storedParent_of_isEmpty hempty)
        rw [if_neg hmap, ih hparent, hnext, Option.elim_some, List.nodup_cons, List.forall_mem_cons]
        simp only [List.mem_cons, not_or]
        constructor
        · rintro ⟨hnodup, hfar⟩
          exact ⟨⟨fun hmem => (hfar _ hmem).1 rfl, hnodup⟩, hvisited, fun id hid => (hfar id hid).2⟩
        · rintro ⟨⟨hfresh, hnodup⟩, -, hfar⟩
          exact ⟨hnodup, fun id hid => ⟨fun heq => hfresh (heq ▸ hid), hfar id hid⟩⟩

/-- A parent is accepted exactly if the first ten groups from it upwards are different from each other
and from the group. -/
theorem validateHierarchy_ok_iff {entityId : String} {payload : JsonValue}
    (hnamed : namedParent payload ≠ "") :
    validateHierarchy (fun id => .ok (groups id)) entityId payload = .ok () ↔
      (chain groups.parent 10 (namedParent payload)).Nodup ∧
        entityId ∉ chain groups.parent 10 (namedParent payload) := by
  have hfirst : namedParent payload ∈ chain groups.parent 10 (namedParent payload) :=
    List.mem_cons_self
  rw [validateHierarchy, if_neg hnamed]
  split_ifs with hself
  · constructor
    · intro h
      cases h
    · rintro ⟨-, hfar⟩
      exact (hfar (hself.2 ▸ hfirst)).elim
  · rw [walkUp_ok_iff hnamed]
    refine and_congr_right fun _ => ⟨fun hfar hmem => hfar _ hmem (by simp), ?_⟩
    intro hfar id hid hvisited
    rw [List.mem_singleton.mp hvisited] at hid
    exact hfar hid

end Walk

/-! ### Runs of changes -/

/-- What a write leaves of the parent: the one that the payload names; else the old one, or none. -/
def Written (payload : JsonValue) (before after : EntityMap) : Prop :=
  if namedParent payload = "" then storedParent after = "" ∨ storedParent after = storedParent before
  else storedParent after = namedParent payload

/-- An accepted change of a group, the creation of one that no group names, or a deletion. -/
inductive GroupChange : Groups → Groups → Prop
  | update {groups : Groups} {id : String} {payload : JsonValue} {after : EntityMap}
    (haccepted : validateHierarchy (fun id => .ok (groups id)) id payload = .ok ())
    (hwritten : Written payload (groups id) after) :
    GroupChange groups (Function.update groups id after)
  | create {groups : Groups} {id : String} {payload : JsonValue} {after : EntityMap}
    (haccepted : validateHierarchy (fun id => .ok (groups id)) "" payload = .ok ())
    (hfresh : ∀ other, groups.parent other ≠ some id) (hother : namedParent payload ≠ id)
    (hwritten : Written payload ∅ after) : GroupChange groups (Function.update groups id after)
  | delete {groups : Groups} (id : String) : GroupChange groups (Function.update groups id ∅)

section Changes
variable {groups groups' : Groups} {n : ℕ}

theorem parent_update (id : String) (after : EntityMap) :
    Groups.parent (Function.update groups id after) =
      Function.update groups.parent id
        (if storedParent after = "" then none else some (storedParent after)) := by
  funext other
  by_cases hother : other = id
  · subst hother
    simp [Groups.parent]
  · simp [Groups.parent, hother]

/-- Without a new parent there is no new cycle. -/
theorem noCycle_of_kept (h : NoCycle groups.parent n) {id : String} {after : EntityMap}
    (hkept : storedParent after = "" ∨ storedParent after = storedParent (groups id)) :
    NoCycle (Groups.parent (Function.update groups id after)) n := by
  apply h.mono
  intro x y hxy
  rw [parent_update] at hxy
  by_cases hx : x = id
  · subst hx
    rw [Function.update_self] at hxy
    rcases hkept with hnone | hsame
    · simp [hnone] at hxy
    · rwa [hsame] at hxy
  · rwa [Function.update_of_ne hx] at hxy

theorem noCycle_of_named (h : NoCycle groups.parent n) {id : String} {after : EntityMap}
    {payload : JsonValue} (hnamed : namedParent payload ≠ "")
    (hwritten : storedParent after = namedParent payload)
    (hfar : id ∉ chain groups.parent n (namedParent payload)) :
    NoCycle (Groups.parent (Function.update groups id after)) n := by
  rw [parent_update, hwritten, if_neg hnamed]
  exact h.update hfar

theorem GroupChange.noCycle (hchange : GroupChange groups groups') (h : NoCycle groups.parent 10) :
    NoCycle groups'.parent 10 := by
  cases hchange with
  | delete id => exact noCycle_of_kept h (.inl (storedParent_of_isEmpty rfl))
  | update haccepted hwritten =>
    rename_i id payload after
    rw [Written] at hwritten
    split_ifs at hwritten with hnamed
    · exact noCycle_of_kept h hwritten
    · exact noCycle_of_named h hnamed hwritten ((validateHierarchy_ok_iff hnamed).mp haccepted).2
  | create haccepted hfresh hother hwritten =>
    rename_i id payload after
    rw [Written] at hwritten
    split_ifs at hwritten with hnamed
    · have hnone : storedParent (∅ : EntityMap) = "" := storedParent_of_isEmpty rfl
      exact noCycle_of_kept h (.inl (hwritten.elim (fun h => h) fun hsame => hsame.trans hnone))
    · apply noCycle_of_named h hnamed hwritten
      -- no group names the new one, so no walk meets it
      intro hmem
      obtain ⟨k, -, hk⟩ := mem_chain.mp hmem
      cases k with
      | zero => exact hother (Option.some.inj hk)
      | succ k =>
        rw [ancestor_add] at hk
        obtain ⟨other, -, hlast⟩ := Option.bind_eq_some_iff.mp hk
        apply hfresh other
        obtain ⟨_, hparent, hsame⟩ := Option.bind_eq_some_iff.mp hlast
        exact hparent.trans hsame

end Changes

/-! ### Two groups, and a ring of eleven -/

def payloadNaming (parentId : String) : JsonValue := .object [("parent_user_group_id", .string parentId)]

def groupUnder (parentId : String) : EntityMap :=
  (∅ : EntityMap).insert "user_group/parent_user_group_id" (.str parentId)

def noGroups : Groups := fun _ => ∅

/-- Each of ten groups under the next one. -/
def lineOfGroups : Groups := fun id =>
  ((([("g0", "g1"), ("g1", "g2"), ("g2", "g3"), ("g3", "g4"), ("g4", "g5"), ("g5", "g6"), ("g6", "g7"),
    ("g7", "g8"), ("g8", "g9"), ("g9", "g10")] : List (String × String)).lookup id).map
      groupUnder).getD ∅

/-- The last one may be put under the first one. -/
example : validateHierarchy (fun id => .ok (lineOfGroups id)) "g10" (payloadNaming "g0") = .ok () ∧
    validateHierarchy (fun id => .ok (lineOfGroups id)) "g9" (payloadNaming "g0") =
      .error "Circular dependency detected in user groups" := by
  decide +kernel

end MetriEngine.Cedar

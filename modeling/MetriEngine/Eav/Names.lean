import MetriEngine.Eav.History

/-!
# Attribute names and their ids

An attribute is stored under sixteen bits of the hash of its name, and a stored id is
turned back into a name by one table. Where no two names share an id and none bears the
name of a system attribute, ids and names are the same thing.
-/
namespace MetriEngine.Eav
open Foundation Storage

/-! ### Names that do not collide -/

/-- The reserved names and those of the models, each with its id. -/
def idNames (models : List EntityModel) : List (U16 × String) :=
  systemAttrs ++ models.flatMap fun model =>
    (CodeRegistry.attrNames model).map fun name => (hashAttrName name, name)

/-- One id for one name. -/
def NoCollision (models : List EntityModel) : Prop :=
  ∀ e ∈ idNames models, ∀ f ∈ idNames models, e.1 = f.1 ↔ e.2 = f.2

instance (models : List EntityModel) : Decidable (NoCollision models) :=
  inferInstanceAs (Decidable (∀ e ∈ idNames models, ∀ f ∈ idNames models, e.1 = f.1 ↔ e.2 = f.2))

/-- A table that gives each name one id, and the names of its models their own. -/
structure CodeRegistry.OneName (registry : CodeRegistry) : Prop where
  unique : ∀ a b name, registry.getAttrName a = some name → registry.getAttrName b = some name → a = b
  system : ∀ e ∈ systemAttrs, registry.getAttrName e.1 = some e.2
  own : ∀ entityType model, registry.getModel entityType = some model →
    ∀ name ∈ CodeRegistry.attrNames model, registry.getAttrName (hashAttrName name) = some name

namespace CodeRegistry

theorem register_ok {registry registry' : CodeRegistry} {model : EntityModel}
    (h : registry.register model = .ok registry') :
    registry'.byEntity = registry.byEntity.insert model.entity model ∧
      registry'.byAttrId = registry.byAttrId.insertList
        ((attrNames model).map fun name => (hashAttrName name, name)) := by
  unfold register at h
  split_ifs at h
  cases h
  exact ⟨rfl, rfl⟩

/-- What was built holds the models, and the table of their names. -/
theorem build_ok {models : List EntityModel} {registry : CodeRegistry}
    (h : build models = .ok registry) :
    (∀ entityType model, registry.byEntity.lookup entityType = some model → model ∈ models) ∧
      registry.byAttrId = (∅ : OrdMap U16 String).insertList (idNames models) := by
  have hfold : ∀ (l : List EntityModel) (start : CodeRegistry), l.foldlM register start = .ok registry →
      (∀ entityType model, registry.byEntity.lookup entityType = some model →
        model ∈ l ∨ start.byEntity.lookup entityType = some model) ∧
      registry.byAttrId = start.byAttrId.insertList (l.flatMap fun model =>
        (attrNames model).map fun name => (hashAttrName name, name)) := by
    intro l
    induction l with
    | nil =>
      intro start hl
      cases hl
      exact ⟨fun _ _ h => Or.inr h, rfl⟩
    | cons model rest ih =>
      intro start hl
      rw [List.foldlM_cons] at hl
      cases hregister : start.register model with
      | error e =>
        rw [hregister] at hl
        cases hl
      | ok next =>
        rw [hregister] at hl
        obtain ⟨hmodels, hnames⟩ := ih next hl
        obtain ⟨hentity, htable⟩ := register_ok hregister
        constructor
        · intro entityType model' hlookup
          rcases hmodels entityType model' hlookup with hmem | hnext
          · exact Or.inl (List.mem_cons_of_mem _ hmem)
          · rw [hentity, OrdMap.lookup_insert] at hnext
            split_ifs at hnext
            · cases hnext
              exact Or.inl List.mem_cons_self
            · exact Or.inr hnext
        · rw [hnames, htable, List.flatMap_cons, OrdMap.insertList_append]
  obtain ⟨hmodels, hnames⟩ := hfold models initial h
  constructor
  · intro entityType model hlookup
    rcases hmodels entityType model hlookup with hmem | hinitial
    · exact hmem
    · simp [initial] at hinitial
  · rw [hnames, idNames, OrdMap.insertList_append]
    rfl

/-- Without collisions, the table is the list of names. -/
theorem getAttrName_iff {models : List EntityModel} {registry : CodeRegistry}
    (hbuild : build models = .ok registry) (hnames : NoCollision models) {attrId : U16}
    {name : String} : registry.getAttrName attrId = some name ↔ (attrId, name) ∈ idNames models := by
  have hmem : ∀ {attrId name}, registry.getAttrName attrId = some name →
      (attrId, name) ∈ idNames models := by
    intro attrId name h
    rw [getAttrName, (build_ok hbuild).2] at h
    rcases OrdMap.mem_of_lookup_insertList h with hmem | hempty
    · exact hmem
    · simp at hempty
  constructor
  · exact hmem
  · intro h
    cases hlookup : registry.getAttrName attrId with
    | none =>
      rw [getAttrName, (build_ok hbuild).2, OrdMap.lookup_insertList_eq_none] at hlookup
      exact absurd (List.mem_map_of_mem h) hlookup.2
    | some other =>
      exact congrArg some ((hnames _ (hmem hlookup) _ h).mp rfl)

theorem build_oneName {models : List EntityModel} {registry : CodeRegistry}
    (hbuild : build models = .ok registry) (hnames : NoCollision models) : registry.OneName where
  unique a b name ha hb :=
    (hnames _ ((getAttrName_iff hbuild hnames).mp ha) _ ((getAttrName_iff hbuild hnames).mp hb)).mpr
      rfl
  system e he := (getAttrName_iff hbuild hnames).mpr (List.mem_append_left _ he)
  own entityType model hmodel name hname := by
    apply (getAttrName_iff hbuild hnames).mpr
    apply List.mem_append_right
    exact List.mem_flatMap.mpr ⟨model, (build_ok hbuild).1 _ _ hmodel, List.mem_map_of_mem hname⟩

/-! ### What the table says -/

section OneName
variable {registry : CodeRegistry}

theorem shownName_of {attrId : U16} {name : String} (h : registry.getAttrName attrId = some name) :
    registry.shownName attrId = name := by
  rw [shownName, h, Option.getD_some]

theorem OneName.shownName_eq_iff (h : registry.OneName) {attrId a : U16} {name : String}
    (ha : registry.getAttrName a = some name) (hregistered : registry.getAttrName attrId ≠ none) :
    registry.shownName attrId = name ↔ attrId = a := by
  obtain ⟨other, hother⟩ := Option.ne_none_iff_exists'.mp hregistered
  rw [shownName_of hother]
  constructor
  · rintro rfl
    exact h.unique _ _ _ hother ha
  · rintro rfl
    exact Option.some.inj (hother.symm.trans ha)

/-- The writer and the readers know an id by the same name. -/
theorem OneName.activeName_eq (h : registry.OneName) (attrId : U16) :
    activeName registry attrId = registry.shownName attrId := by
  unfold activeName nameOf
  cases hfind : systemAttrs.find? fun e => e.1 = attrId with
  | none => rfl
  | some e =>
    have hid : e.1 = attrId := by simpa using List.find?_some hfind
    rw [Option.map_some, Option.getD_some, ← hid,
      shownName_of (h.system e (List.mem_of_find?_eq_some hfind))]

/-- A name under its own hash is no system name. -/
theorem OneName.not_system (h : registry.OneName) {name : String}
    (hown : registry.getAttrName (hashAttrName name) = some name) :
    ∀ e ∈ systemAttrs, e.2 ≠ name ∧ e.1 ≠ hashAttrName name := by
  have hreserved : ∀ e ∈ systemAttrs, hashAttrName e.2 ≠ e.1 := by decide
  intro e he
  constructor
  · rintro rfl
    exact hreserved e he (h.unique _ _ _ hown (h.system e he))
  · intro hid
    have hsystem := h.system e he
    rw [hid, hown] at hsystem
    have hname : name = e.2 := Option.some.inj hsystem
    exact hreserved e he (by rw [← hname, hid])

/-- The name of an attribute of a model lies under its own hash. -/
theorem OneName.own_attribute (h : registry.OneName) {entityType : String}
    {desc : AttributeDescriptor} (hdesc : desc ∈ (registry.getAttributes entityType).getD []) :
    registry.getAttrName (hashAttrName desc.name) = some desc.name := by
  unfold getAttributes at hdesc
  cases hmodel : registry.getModel entityType with
  | none => simp [hmodel] at hdesc
  | some model =>
    rw [hmodel] at hdesc
    exact h.own entityType model hmodel _ (List.mem_append_left _ (List.mem_map_of_mem hdesc))

/-- So does the name of the mirrors that an attribute asks for. -/
theorem OneName.own_mirror (h : registry.OneName) (hsound : registry.Sound) {entityType : String}
    {desc : AttributeDescriptor} (hdesc : desc ∈ (registry.getAttributes entityType).getD [])
    (hmirror : desc.historyMirror = true) :
    registry.getAttrName (hashAttrName (mirrorAttrName entityType)) =
      some (mirrorAttrName entityType) := by
  unfold getAttributes at hdesc
  cases hmodel : registry.getModel entityType with
  | none => simp [hmodel] at hdesc
  | some model =>
    rw [hmodel] at hdesc
    have hdesc : desc ∈ model.attributes := hdesc
    apply h.own entityType model hmodel
    apply List.mem_append_right
    rw [if_pos (List.any_eq_true.mpr ⟨_, hdesc, hmirror⟩), hsound.entity _ model hmodel]
    exact List.mem_singleton_self _

end OneName
end CodeRegistry

/-! ### Names that only payloads write -/

/-- Neither the name of a mirror, nor that of a vector which its model derives. -/
def CodeRegistry.Plain (registry : CodeRegistry) (name : String) : Prop :=
  ∀ entityType, ∀ desc ∈ (registry.getAttributes entityType).getD [],
    (desc.historyMirror = true → mirrorAttrName entityType ≠ name) ∧
      (desc.autoGenerateFrom ≠ [] → desc.attrType = .bytes → desc.name ≠ name ∧ bareName desc.name ≠ name)

end MetriEngine.Eav

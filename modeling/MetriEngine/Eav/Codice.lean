import MetriEngine.Eav.Datom

/-!
# The registry of models

The models that the engine starts with, each with its attributes and constraints,
and the table that turns the attribute ids of stored datoms back into names.
-/
namespace MetriEngine.Eav
open Foundation Storage

/-! ### Models -/

inductive AttrType
  | string
  | number
  | epoch
  | decimal
  | boolean
  | array
  | reference
  | uuid
  | bytes
  | enum
  | json
  | unknown (name : String)
deriving DecidableEq

/-- How an attribute gets its value where a payload has none. -/
structure AutoGenerate where
  strategy : String
  codePrefix : Option String := none
  length : Option ℕ := none
  padding : Option ℕ := none
  scopeResolution : Option String := none
deriving DecidableEq

structure AttributeDescriptor where
  name : String
  attrType : AttrType := .string
  required : Bool := false
  unique : Option String := none
  indexed : Bool := false
  historyMirror : Bool := false
  options : List String := []
  enumOpen : Bool := false
  isSequenceScope : Bool := false
  isSequenceScopeVia : Bool := false
  autoGenerate : Option AutoGenerate := none
  validationRegex : Option String := none
  defaultValue : Option String := none
  dimensions : Option ℕ := none
  autoGenerateFrom : List String := []
deriving DecidableEq

inductive ConstraintScope
  | tenant
  | global
deriving DecidableEq

inductive ConstraintKind
  | unique
  | requiresWhen
  | atMost
  | atLeast
  | requiresAny
  | refState
deriving DecidableEq

structure Constraint where
  kind : ConstraintKind
  scope : ConstraintScope
  attributes : List String
deriving DecidableEq

structure EntityModel where
  entity : String
  ftsFields : List String := []
  attributes : List AttributeDescriptor
  isSystem : Bool := false
  disableEda : Bool := false
  constraints : List Constraint := []
deriving DecidableEq

/-! ### Names -/

/-- The part of a name after its last slash. -/
def bareName (name : String) : String := (Text.split name '/').getLastD name

/-- The attribute that mirrors a relation in the partition of the owner. -/
def mirrorAttrName (childEntityType : String) : String := "_refs/" ++ childEntityType

/-! ### The registry -/

structure CodeRegistry where
  byEntity : OrdMap String EntityModel
  byAttrId : OrdMap U16 String
deriving DecidableEq

namespace CodeRegistry

/-- The registry before its first model: the reserved ids. -/
def initial : CodeRegistry := ⟨∅, (∅ : OrdMap U16 String).insertList systemAttrs⟩

/-- The names that a model registers, each under its hash: those of its attributes,
and that of its mirror where an attribute asks for one. -/
def attrNames (model : EntityModel) : List String :=
  model.attributes.map AttributeDescriptor.name ++
    if model.attributes.any AttributeDescriptor.historyMirror then [mirrorAttrName model.entity]
    else []

def register (registry : CodeRegistry) (model : EntityModel) : Except DomainError CodeRegistry :=
  if registry.byEntity.contains model.entity then
    .error ⟨.cod002, s!"COD_002: Duplicate entity in Códice: '{model.entity}'"⟩
  else .ok {
    byEntity := registry.byEntity.insert model.entity model
    byAttrId := registry.byAttrId.insertList
      ((attrNames model).map fun name => (hashAttrName name, name)) }

/-- `build`, of the models that the files hold. -/
def build (models : List EntityModel) : Except DomainError CodeRegistry :=
  models.foldlM register initial

variable (registry : CodeRegistry)

def getModel (entityType : String) : Option EntityModel := registry.byEntity.lookup entityType

def getAttributes (entityType : String) : Option (List AttributeDescriptor) :=
  (registry.getModel entityType).map EntityModel.attributes

def getAttribute (entityType attrName : String) : Option AttributeDescriptor :=
  (registry.getAttributes entityType).bind fun attrs => attrs.find? fun a => a.name = attrName

def getAttrName (attrId : U16) : Option String := registry.byAttrId.lookup attrId

/-- The name that readers show for an attribute id. -/
def shownName (attrId : U16) : String :=
  (registry.getAttrName attrId).getD s!"attr_{attrId.val}"

theorem getAttribute_name {registry : CodeRegistry} {entityType attrName : String}
    {desc : AttributeDescriptor} (h : registry.getAttribute entityType attrName = some desc) :
    desc.name = attrName := by
  obtain ⟨attrs, _, hfind⟩ := Option.bind_eq_some_iff.mp h
  have hname := List.find?_some hfind
  exact of_decide_eq_true hname

end CodeRegistry

/-! ### A small registry -/

/-- A model with one text attribute. -/
def noteModel : EntityModel where
  entity := "note"
  attributes := [{ name := "title" }]

def noteRegistry : CodeRegistry where
  byEntity := (∅ : OrdMap String EntityModel).insert "note" noteModel
  byAttrId := ((∅ : OrdMap U16 String).insertList systemAttrs).insert (hashAttrName "title") "title"

theorem CodeRegistry.build_note : build [noteModel] = .ok noteRegistry := by
  have h : (build [noteModel]).toOption = some noteRegistry := by
    decide +kernel
  cases hbuild : build [noteModel] with
  | error e =>
    rw [hbuild] at h
    cases h
  | ok registry =>
    rw [hbuild] at h
    exact congrArg Except.ok (Option.some.inj h)

end MetriEngine.Eav

import MetriEngine.Eav.Codice

/-!
# The plan of a mutation

What a create, an update or a delete writes: the datoms of the attributes it carries,
those that the engine adds of itself, the mirrors in the partitions of owners, and the
outbox row. A plan reads nothing but the payload, the registry and the active attributes.
-/
namespace MetriEngine.Eav
open Foundation Storage

/-! ### Payloads -/

/-- Attributes by name, in the order in which their map gives them. -/
structure AttrMap where
  entries : List (String × DatomValue)
  nodup : (entries.map Prod.fst).Nodup

def AttrMap.get (attrs : AttrMap) (name : String) : Option DatomValue :=
  (attrs.entries.find? fun e => e.1 = name).map Prod.snd

/-- The active attributes of an entity, each with the id that its datom carries. -/
abbrev ActiveAttrs := OrdMap String (U16 × DatomValue)

inductive TransactOp
  | create
  | update
  | delete
deriving DecidableEq

structure TransactPayload where
  tenantId : String
  entityId : Option String
  entityType : String
  attrs : AttrMap
  op : TransactOp
  suppressEvents : Bool := false

/-- What is computed from texts outside of the model: the bytes of an embedding, and
the text of an event. -/
class Derived where
  embedding : String → ℕ → List Byte
  payloadText : OrdMap String DatomValue → String

/-- No embeddings and events without a body. -/
@[reducible] def plainDerived : Derived := ⟨fun _ _ => [], fun _ => "{}"⟩

namespace Datom

def assert (tenantId entityId attrName : String) (attrId : U16) (value : DatomValue)
    (txId : U64) : Datom := ⟨tenantId, entityId, attrName, attrId, value, txId, true⟩

def retract (tenantId entityId attrName : String) (attrId : U16) (value : DatomValue)
    (txId : U64) : Datom := ⟨tenantId, entityId, attrName, attrId, value, txId, false⟩

end Datom

/-- The entity that is planned for, and the transaction. -/
structure PlanTarget where
  tenantId : String
  entityType : String
  entityId : String
  txId : U64

namespace PlanTarget
variable (t : PlanTarget)

def assert (attrName : String) (attrId : U16) (value : DatomValue) : Datom :=
  Datom.assert t.tenantId t.entityId attrName attrId value t.txId

def retract (attrName : String) (attrId : U16) (value : DatomValue) : Datom :=
  Datom.retract t.tenantId t.entityId attrName attrId value t.txId

end PlanTarget

/-! ### System attributes -/

section Enricher
variable (t : PlanTarget) (isCreate : Bool) (active : ActiveAttrs)

/-- The retraction of a system text that is about to change. -/
def retractText (name : String) (attrId : U16) (text : String) : List Datom :=
  match active.lookup name with
  | some (_, .str old) =>
    if isCreate = false ∧ old ≠ text then [t.retract name attrId (.str old)] else []
  | _ => []

/-- The retraction of the time of the last modification, where it was read as an instant. -/
def retractInstant (name : String) (attrId : U16) : List Datom :=
  match active.lookup name with
  | some (_, .instant old) => if isCreate = false then [t.retract name attrId (.instant old)] else []
  | _ => []

/-- Who created the entity, or the retraction of who changed it last. -/
def actorDatoms (actor : String) : List Datom :=
  if actor = "" then []
  else (if isCreate then [t.assert "meta/created_by" 5 (.str actor)]
    else match active.lookup "meta/updated_by" with
      | some (_, .str oldActor) => [t.retract "meta/updated_by" 6 (.str oldActor)]
      | _ => []) ++ [t.assert "meta/updated_by" 6 (.str actor)]

/-- The datoms that `enrich_datoms` adds. -/
def enrichDatoms (nowMs : Signed 64) (actor : String) : List Datom :=
  [t.assert "entity/ulid" 0 (.str t.entityId)] ++
    retractText t isCreate active "entity/type" 1 t.entityType ++
    [t.assert "entity/type" 1 (.str t.entityType)] ++
    retractText t isCreate active "tenant/id" 2 t.tenantId ++
    [t.assert "tenant/id" 2 (.str t.tenantId)] ++
    (if isCreate then [t.assert "meta/created_at" 3 (.instant nowMs)] else []) ++
    retractInstant t isCreate active "meta/updated_at" 4 ++
    [t.assert "meta/updated_at" 4 (.instant nowMs)] ++
    actorDatoms t isCreate active (Text.trim actor)

end Enricher

/-! ### Mirrors -/

def ownerIdOf : Option DatomValue → Option String
  | some (.str s) => if s = "" then none else some s
  | _ => none

/-- The attribute that tells the type of an owner: `owner_id` goes with `owner_type`. -/
def siblingTypeAttr (mirrorAttr : String) : Option String :=
  if Text.endsWith mirrorAttr "_id" then
    some (String.ofList (mirrorAttr.toList.dropLast.dropLast.dropLast) ++ "_type")
  else none

section Mirror
variable (t : PlanTarget) (attrs : AttrMap) (active : ActiveAttrs) (isDelete : Bool)

def activeOwner (name : String) : Option String := ownerIdOf ((active.lookup name).map Prod.snd)

/-- The owner after the mutation; nothing, where the payload does not carry it. -/
def newOwner (name : String) : Option (Option String) :=
  if isDelete then some none else (attrs.get name).map fun v => ownerIdOf (some v)

/-- Whether the payload or the active attributes tell the type of the owner. -/
def ownerTyped (name : String) : Bool :=
  (siblingTypeAttr name).any fun sibling =>
    (ownerIdOf (attrs.get sibling)).isSome || (activeOwner active sibling).isSome

def mirrorDatoms (desc : AttributeDescriptor) : List Datom :=
  let mirrorName := mirrorAttrName t.entityType
  let mirrorId := hashAttrName mirrorName
  let oldOwner := activeOwner active desc.name
  match newOwner attrs isDelete desc.name with
  | none => []
  | some owner =>
    if oldOwner = owner then []
    else
      (oldOwner.toList.map fun old =>
        Datom.retract t.tenantId old mirrorName mirrorId (.str t.entityId) t.txId) ++
      (owner.toList.filter fun _ => ownerTyped attrs active desc.name).map fun new =>
        Datom.assert t.tenantId new mirrorName mirrorId (.str t.entityId) t.txId

def planMirrorDatoms (registry : CodeRegistry) : List Datom :=
  match registry.getAttributes t.entityType with
  | none => []
  | some modelAttrs =>
    (modelAttrs.filter AttributeDescriptor.historyMirror).flatMap
      (mirrorDatoms t attrs active isDelete)

end Mirror

/-! ### The attributes of the payload -/

section Entity
variable (registry : CodeRegistry) (t : PlanTarget) (attrs : AttrMap) (isCreate : Bool)
  (active : ActiveAttrs)

/-- The retraction of the active value of an attribute, on an update. -/
def retractActive (name : String) (old : Option (U16 × DatomValue)) : List Datom :=
  match old with
  | some (attrId, oldValue) => if isCreate then [] else [t.retract name attrId oldValue]
  | none => []

/-- One attribute of the payload. A null retracts and asserts nothing. -/
def attrDatoms (e : String × DatomValue) : Except DomainError (List Datom) :=
  match registry.getAttribute t.entityType e.1 with
  | none => .error ⟨.eav004, s!"Atributo '{e.1}' no en registry para '{t.entityType}'"⟩
  | some desc => .ok (retractActive t isCreate e.1 (active.lookup e.1) ++
      if e.2 = .null then [] else [t.assert e.1 (hashAttrName desc.name) e.2])

/-- The trimmed text of a source of a vector, and whether the payload carries it. -/
def sourcePart (srcField : String) : Bool × Option String :=
  let written := (attrs.get (bareName srcField)).or (attrs.get srcField)
  let stored := (active.lookup (bareName srcField)).or (active.lookup srcField)
  match written, stored with
  | some (.str s), _ =>
    if Text.trim s = "" then (false, none) else (true, some (Text.trim s))
  | _, some (_, .str s) =>
    if isCreate ∨ Text.trim s = "" then (false, none) else (false, some (Text.trim s))
  | _, _ => (false, none)

/-- Whether the payload brings the vector itself. -/
def providesVector (desc : AttributeDescriptor) : Bool :=
  ((attrs.get (bareName desc.name)).or (attrs.get desc.name)).any fun v =>
    decide (v ≠ .null ∧ v ≠ .bytes [])

/-- A vector that the model derives from text attributes of the payload. -/
def vectorDatoms [Derived] (desc : AttributeDescriptor) : List Datom :=
  if desc.autoGenerateFrom = [] ∨ desc.attrType ≠ .bytes ∨ providesVector attrs desc = true then []
  else
    let bareTarget := bareName desc.name
    let parts := desc.autoGenerateFrom.map (sourcePart attrs isCreate active)
    let sourceParts := parts.filterMap Prod.snd
    if parts.any Prod.fst ∧ sourceParts ≠ [] then
      retractActive t isCreate bareTarget
          ((active.lookup bareTarget).or (active.lookup desc.name)) ++
        [t.assert bareTarget (hashAttrName desc.name)
          (.bytes (Derived.embedding (" ".intercalate sourceParts) (desc.dimensions.getD 1024)))]
    else []

def planEntityDatoms [Derived] (nowMs : Signed 64) (actor : String) :
    Except DomainError (List Datom) := do
  let datoms ← attrs.entries.mapM (attrDatoms registry t isCreate active)
  let vectors := ((registry.getAttributes t.entityType).getD []).flatMap
    (vectorDatoms t attrs isCreate active)
  return datoms.flatten ++ vectors ++ enrichDatoms t isCreate active nowMs actor ++
    planMirrorDatoms t attrs active false registry

def buildDeleteDatoms : List Datom :=
  (active.entries.map fun e => t.retract e.1 e.2.1 e.2.2) ++
    planMirrorDatoms t attrs active true registry

end Entity

/-! ### The whole payload -/

section Payload
variable [Derived] (registry : CodeRegistry)

def planPayloadDatoms (payload : TransactPayload) (entityId : String) (txId : U64)
    (active : ActiveAttrs) (nowMs : Signed 64) (actor : String) :
    Except DomainError (List Datom) :=
  let t : PlanTarget := ⟨payload.tenantId, payload.entityType, entityId, txId⟩
  if payload.op ≠ .create ∧ active.isEmpty = true then
    .error ⟨.eav002, s!"UPDATE/DELETE sobre entidad inexistente: '{entityId}' (tenant '{payload.tenantId}') — el motor no hace upsert"⟩
  else if payload.op = .delete then .ok (buildDeleteDatoms registry t payload.attrs active)
  else planEntityDatoms registry t payload.attrs (payload.op = .create) active nowMs actor

/-- The name of an operation in the type of its event. -/
def TransactOp.eventName : TransactOp → String
  | .create => "create"
  | .update => "update"
  | .delete => "delete"

/-- The attributes of an outbox row. -/
def outboxAttrs (payload : TransactPayload) (entityId : String) (nowMs : Signed 64) :
    List (String × DatomValue) :=
  let flatAttrs := ((∅ : OrdMap String DatomValue).insertList payload.attrs.entries).insert
    "id" (.str entityId)
  [("status", .str "PENDING"),
    ("detail_type", .str (payload.entityType ++ "." ++ payload.op.eventName)),
    ("payload", .str (Derived.payloadText flatAttrs)),
    ("retry_count", .long ⟨0, Signed.zero_bounds⟩), ("created_at", .instant nowMs)]

def outboxAttrDatom (t : PlanTarget) (e : String × DatomValue) : Except DomainError Datom :=
  match registry.getAttribute "outbox_event" e.1 with
  | none => .error ⟨.eav004, s!"Atributo '{e.1}' no en registry para 'outbox_event'"⟩
  | some desc => .ok (t.assert e.1 (hashAttrName desc.name) e.2)

/-- `generate_outbox_datoms`: none for an outbox row itself and for a silent model. -/
def generateOutboxDatoms (payload : TransactPayload) (entityId : String) (txId : U64)
    (mutationUlid : String) (rowMs metaMs : Signed 64) (actor : String) :
    Except DomainError (Option (List Datom)) :=
  let disableEda := ((registry.getModel payload.entityType).map EntityModel.disableEda).getD false
  if payload.entityType = "outbox_event" ∨ disableEda = true then .ok none
  else do
    let t : PlanTarget := ⟨payload.tenantId, "outbox_event", mutationUlid, txId⟩
    let row ← (outboxAttrs payload entityId rowMs).mapM (outboxAttrDatom registry t)
    return some (row ++ enrichDatoms t true ∅ metaMs actor)

end Payload

/-! ### Where the datoms of a plan come from -/

/-- A datom of the enricher, the assertion of an attribute of the model, the retraction
of an active attribute, or a mirror in the partition of an owner. -/
inductive Planned (registry : CodeRegistry) (t : PlanTarget) (active : ActiveAttrs) : Datom → Prop
  | system {attrId : U16} {name : String} (h : (attrId, name) ∈ systemAttrs) (value : DatomValue)
      (op : Bool) : Planned registry t active ⟨t.tenantId, t.entityId, name, attrId, value, t.txId, op⟩
  | asserted {desc : AttributeDescriptor}
      (h : desc ∈ (registry.getAttributes t.entityType).getD []) (name : String)
      (value : DatomValue) : Planned registry t active (t.assert name (hashAttrName desc.name) value)
  | retracted {attrId : U16} {value : DatomValue} (held : String)
      (h : active.lookup held = some (attrId, value)) (name : String) :
      Planned registry t active (t.retract name attrId value)
  | mirror {desc : AttributeDescriptor}
      (h : desc ∈ (registry.getAttributes t.entityType).getD []) (hmirror : desc.historyMirror = true)
      (owner : String) (op : Bool) : Planned registry t active ⟨t.tenantId, owner,
        mirrorAttrName t.entityType, hashAttrName (mirrorAttrName t.entityType), .str t.entityId,
        t.txId, op⟩

section Planned
variable {registry : CodeRegistry} {t : PlanTarget} {attrs : AttrMap} {isCreate isDelete : Bool}
  {active : ActiveAttrs} {d : Datom}

theorem Planned.tenantId (h : Planned registry t active d) : d.tenantId = t.tenantId := by
  cases h <;> rfl

theorem Planned.txId (h : Planned registry t active d) : d.txId = t.txId := by
  cases h <;> rfl

theorem mem_retractText {name text : String} {attrId : U16}
    (h : d ∈ retractText t isCreate active name attrId text) :
    ∃ old, d = t.retract name attrId (.str old) := by
  unfold retractText at h
  split at h
  · split_ifs at h
    · exact ⟨_, List.mem_singleton.mp h⟩
    · cases h
  · cases h

theorem mem_retractInstant {name : String} {attrId : U16}
    (h : d ∈ retractInstant t isCreate active name attrId) :
    ∃ old, d = t.retract name attrId (.instant old) := by
  unfold retractInstant at h
  split at h
  · split_ifs at h
    · exact ⟨_, List.mem_singleton.mp h⟩
    · cases h
  · cases h

theorem mem_actorDatoms {actor : String} (h : d ∈ actorDatoms t isCreate active actor) :
    (∃ value, d = t.assert "meta/created_by" 5 value) ∨
      (∃ value, d = t.assert "meta/updated_by" 6 value) ∨
      ∃ value, d = t.retract "meta/updated_by" 6 value := by
  unfold actorDatoms at h
  split_ifs at h with hactor hcreate
  · cases h
  · rcases List.mem_append.mp h with h | h
    · exact Or.inl ⟨_, List.mem_singleton.mp h⟩
    · exact Or.inr (Or.inl ⟨_, List.mem_singleton.mp h⟩)
  · rcases List.mem_append.mp h with h | h
    · split at h
      · exact Or.inr (Or.inr ⟨_, List.mem_singleton.mp h⟩)
      · cases h
    · exact Or.inr (Or.inl ⟨_, List.mem_singleton.mp h⟩)

/-- The enricher writes datoms of the entity under the reserved ids. -/
theorem enrichDatoms_system {nowMs : Signed 64} {actor : String}
    (h : d ∈ enrichDatoms t isCreate active nowMs actor) : (d.attrId, d.attrName) ∈ systemAttrs ∧
      d = ⟨t.tenantId, t.entityId, d.attrName, d.attrId, d.value, t.txId, d.op⟩ := by
  have hsystem {name : String} {attrId : U16} {value : DatomValue} {op : Bool}
      (he : (attrId, name) ∈ systemAttrs)
      (hd : d = ⟨t.tenantId, t.entityId, name, attrId, value, t.txId, op⟩) :
      (d.attrId, d.attrName) ∈ systemAttrs ∧
        d = ⟨t.tenantId, t.entityId, d.attrName, d.attrId, d.value, t.txId, d.op⟩ := by
    rw [hd]
    exact ⟨he, rfl⟩
  simp only [enrichDatoms, List.mem_append, List.mem_singleton] at h
  rcases h with (((((((h | h) | h) | h) | h) | h) | h) | h) | h
  · exact hsystem (by decide) h
  · obtain ⟨old, hd⟩ := mem_retractText h
    exact hsystem (by decide) hd
  · exact hsystem (by decide) h
  · obtain ⟨old, hd⟩ := mem_retractText h
    exact hsystem (by decide) hd
  · exact hsystem (by decide) h
  · split_ifs at h
    · exact hsystem (by decide) (List.mem_singleton.mp h)
    · cases h
  · obtain ⟨old, hd⟩ := mem_retractInstant h
    exact hsystem (by decide) hd
  · exact hsystem (by decide) h
  · rcases mem_actorDatoms h with ⟨value, hd⟩ | ⟨value, hd⟩ | ⟨value, hd⟩
    · exact hsystem (by decide) hd
    · exact hsystem (by decide) hd
    · exact hsystem (by decide) hd

theorem planned_enrichDatoms {nowMs : Signed 64} {actor : String}
    (h : d ∈ enrichDatoms t isCreate active nowMs actor) : Planned registry t active d := by
  obtain ⟨hsystem, hd⟩ := enrichDatoms_system h
  rw [hd]
  exact Planned.system hsystem d.value d.op

/-- A mirror says in the partition of an owner that the entity is one of its own. -/
theorem mem_planMirrorDatoms (h : d ∈ planMirrorDatoms t attrs active isDelete registry) :
    ∃ desc ∈ (registry.getAttributes t.entityType).getD [], desc.historyMirror = true ∧
      ∃ owner op, d = ⟨t.tenantId, owner, mirrorAttrName t.entityType,
        hashAttrName (mirrorAttrName t.entityType), .str t.entityId, t.txId, op⟩ := by
  unfold planMirrorDatoms at h
  cases hattrs : registry.getAttributes t.entityType with
  | none =>
    rw [hattrs] at h
    cases h
  | some modelAttrs =>
    rw [hattrs] at h
    obtain ⟨desc, hdesc, h⟩ := List.mem_flatMap.mp h
    obtain ⟨hmem, hmirror⟩ := List.mem_filter.mp hdesc
    refine ⟨desc, hmem, hmirror, ?_⟩
    unfold mirrorDatoms at h
    dsimp only at h
    split at h
    · cases h
    · split_ifs at h
      · cases h
      · rcases List.mem_append.mp h with h | h
        · obtain ⟨old, _, rfl⟩ := List.mem_map.mp h
          exact ⟨old, false, rfl⟩
        · obtain ⟨new, _, rfl⟩ := List.mem_map.mp h
          exact ⟨new, true, rfl⟩

theorem planned_planMirrorDatoms (h : d ∈ planMirrorDatoms t attrs active isDelete registry) :
    Planned registry t active d := by
  obtain ⟨desc, hdesc, hmirror, owner, op, rfl⟩ := mem_planMirrorDatoms h
  exact Planned.mirror hdesc hmirror owner op

theorem mem_retractActive {name : String} {old : Option (U16 × DatomValue)}
    (h : d ∈ retractActive t isCreate name old) :
    ∃ attrId value, old = some (attrId, value) ∧ isCreate = false ∧ d = t.retract name attrId value := by
  unfold retractActive at h
  split at h
  · split_ifs at h with hcreate
    · cases h
    · exact ⟨_, _, rfl, by simpa using hcreate, List.mem_singleton.mp h⟩
  · cases h

theorem mem_attributes_of_getAttribute {name : String} {desc : AttributeDescriptor}
    (h : registry.getAttribute t.entityType name = some desc) :
    desc ∈ (registry.getAttributes t.entityType).getD [] := by
  obtain ⟨modelAttrs, hattrs, hfind⟩ := Option.bind_eq_some_iff.mp h
  rw [hattrs]
  exact List.mem_of_find?_eq_some hfind

theorem planned_attrDatoms {e : String × DatomValue} {datoms : List Datom}
    (hplan : attrDatoms registry t isCreate active e = .ok datoms) (h : d ∈ datoms) :
    Planned registry t active d := by
  unfold attrDatoms at hplan
  split at hplan
  · cases hplan
  · rename_i desc hdesc
    cases hplan
    rcases List.mem_append.mp h with h | h
    · obtain ⟨attrId, value, hheld, _, rfl⟩ := mem_retractActive h
      exact Planned.retracted e.1 hheld e.1
    · split_ifs at h
      · cases h
      · obtain rfl := List.mem_singleton.mp h
        exact Planned.asserted (mem_attributes_of_getAttribute hdesc) e.1 e.2

theorem planned_vectorDatoms [Derived] {desc : AttributeDescriptor}
    (hdesc : desc ∈ (registry.getAttributes t.entityType).getD [])
    (h : d ∈ vectorDatoms t attrs isCreate active desc) : Planned registry t active d := by
  unfold vectorDatoms at h
  dsimp only at h
  split_ifs at h
  · cases h
  · rcases List.mem_append.mp h with h | h
    · obtain ⟨attrId, value, hheld, _, rfl⟩ := mem_retractActive h
      rcases Option.or_eq_some_iff.mp hheld with hheld | ⟨_, hheld⟩
      · exact Planned.retracted _ hheld _
      · exact Planned.retracted _ hheld _
    · obtain rfl := List.mem_singleton.mp h
      exact Planned.asserted hdesc _ _
  · cases h

/-- A vector is written under the bare name of the attribute that it is derived for. -/
theorem mem_vectorDatoms [Derived] {desc : AttributeDescriptor}
    (h : d ∈ vectorDatoms t attrs isCreate active desc) : desc.autoGenerateFrom ≠ [] ∧
      desc.attrType = .bytes ∧ d.attrName = bareName desc.name := by
  unfold vectorDatoms at h
  dsimp only at h
  split_ifs at h with hnot
  · cases h
  · rw [not_or, not_or, not_not] at hnot
    refine ⟨hnot.1, hnot.2.1, ?_⟩
    rcases List.mem_append.mp h with h | h
    · obtain ⟨_, _, _, _, rfl⟩ := mem_retractActive h
      rfl
    · obtain rfl := List.mem_singleton.mp h
      rfl
  · cases h

/-- A successful traversal succeeds on every member, and every result comes from one. -/
theorem mem_of_mapM_ok {α β ε : Type} {f : α → Except ε β} {l : List α} {r : List β}
    (h : l.mapM f = .ok r) {b : β} (hb : b ∈ r) : ∃ a ∈ l, f a = .ok b := by
  induction l generalizing r with
  | nil =>
    cases h
    cases hb
  | cons a rest ih =>
    rw [List.mapM_cons] at h
    cases ha : f a with
    | error e =>
      rw [ha] at h
      cases h
    | ok b' =>
      rw [ha] at h
      cases hrest : rest.mapM f with
      | error e =>
        rw [hrest] at h
        cases h
      | ok r' =>
        rw [hrest] at h
        cases h
        rcases List.mem_cons.mp hb with rfl | hb
        · exact ⟨a, List.mem_cons_self, ha⟩
        · obtain ⟨a', ha', hf⟩ := ih hrest hb
          exact ⟨a', List.mem_cons_of_mem _ ha', hf⟩

/-- The plan of a create or an update: the attributes of the payload, the vectors, the
system attributes and the mirrors. -/
theorem planEntityDatoms_ok [Derived] {nowMs : Signed 64} {actor : String} {datoms : List Datom}
    (h : planEntityDatoms registry t attrs isCreate active nowMs actor = .ok datoms) :
    ∃ written : List (List Datom),
      attrs.entries.mapM (attrDatoms registry t isCreate active) = .ok written ∧
      datoms = written.flatten ++ ((registry.getAttributes t.entityType).getD []).flatMap
          (vectorDatoms t attrs isCreate active) ++
        enrichDatoms t isCreate active nowMs actor ++
        planMirrorDatoms t attrs active false registry := by
  unfold planEntityDatoms at h
  cases hwritten : attrs.entries.mapM (attrDatoms registry t isCreate active) with
  | error e =>
    rw [hwritten] at h
    cases h
  | ok written =>
    rw [hwritten] at h
    cases h
    exact ⟨written, rfl, rfl⟩

theorem planned_planEntityDatoms [Derived] {nowMs : Signed 64} {actor : String}
    {datoms : List Datom}
    (hplan : planEntityDatoms registry t attrs isCreate active nowMs actor = .ok datoms)
    (h : d ∈ datoms) : Planned registry t active d := by
  obtain ⟨written, hwritten, rfl⟩ := planEntityDatoms_ok hplan
  simp only [List.mem_append] at h
  rcases h with ((h | h) | h) | h
  · obtain ⟨part, hpart, hd⟩ := List.mem_flatten.mp h
    obtain ⟨e, _, he⟩ := mem_of_mapM_ok hwritten hpart
    exact planned_attrDatoms he hd
  · obtain ⟨desc, hdesc, hd⟩ := List.mem_flatMap.mp h
    exact planned_vectorDatoms hdesc hd
  · exact planned_enrichDatoms h
  · exact planned_planMirrorDatoms h

theorem planned_buildDeleteDatoms (h : d ∈ buildDeleteDatoms registry t attrs active) :
    Planned registry t active d := by
  rcases List.mem_append.mp h with h | h
  · obtain ⟨e, he, rfl⟩ := List.mem_map.mp h
    exact Planned.retracted e.1 (OrdMap.lookup_eq_some.mpr he) e.1
  · exact planned_planMirrorDatoms h

/-- The ways a payload is planned: not at all, for a change of an entity without active
attributes, else as a delete, or as a create or an update. -/
theorem planPayloadDatoms_ok [Derived] {payload : TransactPayload} {entityId : String} {txId : U64}
    {nowMs : Signed 64} {actor : String} {datoms : List Datom}
    (h : planPayloadDatoms registry payload entityId txId active nowMs actor = .ok datoms) :
    (payload.op = .create ∨ active.isEmpty = false) ∧
      (payload.op = .delete ∧ datoms = buildDeleteDatoms registry
          ⟨payload.tenantId, payload.entityType, entityId, txId⟩ payload.attrs active ∨
        payload.op ≠ .delete ∧ planEntityDatoms registry
          ⟨payload.tenantId, payload.entityType, entityId, txId⟩ payload.attrs
          (payload.op = .create) active nowMs actor = .ok datoms) := by
  unfold planPayloadDatoms at h
  dsimp only at h
  split_ifs at h with hempty hdelete
  · have hguard : payload.op = .create ∨ active.isEmpty = false := by
      by_contra hnot
      rw [not_or, Bool.not_eq_false] at hnot
      exact hempty hnot
    cases h
    exact ⟨hguard, Or.inl ⟨hdelete, rfl⟩⟩
  · have hguard : payload.op = .create ∨ active.isEmpty = false := by
      by_contra hnot
      rw [not_or, Bool.not_eq_false] at hnot
      exact hempty hnot
    exact ⟨hguard, Or.inr ⟨hdelete, h⟩⟩

theorem planned_planPayloadDatoms [Derived] {payload : TransactPayload} {entityId : String}
    {txId : U64} {nowMs : Signed 64} {actor : String} {datoms : List Datom}
    (hplan : planPayloadDatoms registry payload entityId txId active nowMs actor = .ok datoms)
    (h : d ∈ datoms) :
    Planned registry ⟨payload.tenantId, payload.entityType, entityId, txId⟩ active d := by
  obtain ⟨_, ⟨_, rfl⟩ | ⟨_, hentity⟩⟩ := planPayloadDatoms_ok hplan
  · exact planned_buildDeleteDatoms h
  · exact planned_planEntityDatoms hentity h

/-- The outbox row: what it says of the mutation, and the system attributes. -/
theorem mem_generateOutboxDatoms [Derived] {payload : TransactPayload} {entityId : String}
    {txId : U64} {mutationUlid : String} {rowMs metaMs : Signed 64} {actor : String}
    {row : List Datom}
    (hplan : generateOutboxDatoms registry payload entityId txId mutationUlid rowMs metaMs actor =
      .ok (some row)) (h : d ∈ row) :
    (∃ desc ∈ (registry.getAttributes "outbox_event").getD [], ∃ value,
      d = Datom.assert payload.tenantId mutationUlid desc.name (hashAttrName desc.name) value txId) ∨
    d ∈ enrichDatoms ⟨payload.tenantId, "outbox_event", mutationUlid, txId⟩ true ∅ metaMs actor := by
  unfold generateOutboxDatoms at hplan
  dsimp only at hplan
  split_ifs at hplan with hsilent
  · cases hplan
  · cases hattrs : (outboxAttrs payload entityId rowMs).mapM (outboxAttrDatom registry
        ⟨payload.tenantId, "outbox_event", mutationUlid, txId⟩) with
    | error e =>
      rw [hattrs] at hplan
      cases hplan
    | ok datoms =>
      rw [hattrs] at hplan
      cases hplan
      rcases List.mem_append.mp h with h | h
      · obtain ⟨e, _, he⟩ := mem_of_mapM_ok hattrs h
        unfold outboxAttrDatom at he
        split at he
        · cases he
        · rename_i desc hdesc
          cases he
          rw [← CodeRegistry.getAttribute_name hdesc]
          exact Or.inl ⟨desc, mem_attributes_of_getAttribute
            (t := ⟨payload.tenantId, "outbox_event", mutationUlid, txId⟩) hdesc, e.2, rfl⟩
      · exact Or.inr h

/-- The outbox row is planned as an entity of its own. -/
theorem planned_generateOutboxDatoms [Derived] {payload : TransactPayload} {entityId : String}
    {txId : U64} {mutationUlid : String} {rowMs metaMs : Signed 64} {actor : String}
    {row : List Datom}
    (hplan : generateOutboxDatoms registry payload entityId txId mutationUlid rowMs metaMs actor =
      .ok (some row)) (h : d ∈ row) :
    Planned registry ⟨payload.tenantId, "outbox_event", mutationUlid, txId⟩ ∅ d := by
  rcases mem_generateOutboxDatoms hplan h with ⟨desc, hdesc, value, rfl⟩ | henrich
  · exact Planned.asserted hdesc desc.name value
  · exact planned_enrichDatoms henrich

end Planned
end MetriEngine.Eav

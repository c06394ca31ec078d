import MetriEngine.Eav.ArrayText
import MetriEngine.Eav.Records

/-!
# Unique keys

Claims are planned from payloads alone. They keep the keys of a model apart as long as
every call that gives an entity a new key carries the whole of it, in values of the types of
its attributes.
-/
namespace MetriEngine.Eav
open Foundation Storage

/-! ### Values that are shown alike -/

/-- The type of the values that an attribute of a key is written with; a reference names
one entity. -/
def keyType : AttrType → Option ValueType
  | .string | .enum | .json | .reference => some .string
  | .number => some .long
  | .epoch => some .instant
  | .decimal => some .double
  | .boolean => some .boolean
  | .array => some .array
  | .uuid => some .uuid
  | .bytes => some .bytes
  | .unknown _ => none

/-- Two values of one type that are shown alike are hashed alike. -/
theorem huellaValor_of_shown [F64Text] {attrType : AttrType} {v v' : DatomValue}
    (hv : keyType attrType = some v.valueType) (hv' : keyType attrType = some v'.valueType)
    (h : v.shown = v'.shown) : huellaValor v = huellaValor v' := by
  have htype : v.valueType = v'.valueType := Option.some.inj (hv.symm.trans hv')
  have hnumber {n m : Signed 64} (hshown : extractNumber n.text = extractNumber m.text) : n = m := by
    rw [extractNumber_of_integer (Signed.parse_text n), extractNumber_of_integer (Signed.parse_text m)] at hshown
    cases hshown
    rfl
  cases v with
  | null => cases attrType <;> cases hv
  | ref r => cases attrType <;> cases hv
  | bigInt n => cases attrType <;> cases hv
  | geo lat lon => cases attrType <;> cases hv
  | bool b =>
    cases v' with
    | bool b' =>
      have hshown : some (DatomValue.bool b) = some (.bool b') := h
      cases hshown
      rfl
    | _ => cases htype
  | long n =>
    cases v' with
    | long m => rw [hnumber h]
    | _ => cases htype
  | instant n =>
    cases v' with
    | instant m => rw [hnumber h]
    | _ => cases htype
  | double d =>
    cases v' with
    | double d' => rfl
    | _ => cases htype
  | str s =>
    cases v' with
    | str s' =>
      have hshown : some (DatomValue.str s) = some (.str s') := h
      cases hshown
      rfl
    | _ => cases htype
  | uuid s =>
    cases v' with
    | uuid s' =>
      have hshown : some (DatomValue.str s) = some (.str s') := h
      cases hshown
      rfl
    | _ => cases htype
  | array items =>
    cases v' with
    | array items' =>
      have hshown : some (DatomValue.str (jsonStrings items)) = some (.str (jsonStrings items')) := h
      rw [jsonStrings_injective (DatomValue.str.inj (Option.some.inj hshown))]
    | _ => cases htype
  | bytes blob =>
    cases v' with
    | bytes blob' =>
      have hshown : some (DatomValue.bytes blob) = some (.bytes blob') := h
      cases hshown
      rfl
    | _ => cases htype

/-! ### What a commit does to claims -/

theorem batchPuts_append (a b : List TransactWriteItem) : batchPuts (a ++ b) = batchPuts a ++ batchPuts b := by
  simp [batchPuts]

section Claims
variable [F64Text] [Derived] [KeyHash] {registry : CodeRegistry} {table : String}
  {st st' : MbfPartitionStore} {call : TransactCall} {result : TransactResult}

def claimKey (pk : String) : PrimaryKey := ⟨pk, claimSk⟩

omit [F64Text] [Derived] in
/-- A put of the batch under the key of a claim is a claim of the call's entity. -/
theorem claim_of_batchPuts {model : EntityModel} {p : Option PrimaryKey × Put} {pk : String}
    (hp : p ∈ batchPuts (planClaimsPara (constraintContext table call model)))
    (hkey : p.1 = some (claimKey pk)) :
    ∃ attributes, p.2 = claimPut (constraintContext table call model) attributes pk := by
  obtain ⟨put, hput, rfl⟩ := List.mem_map.mp hp
  obtain ⟨txItem, htxItem, hsome⟩ := List.mem_filterMap.mp hput
  obtain ⟨put', hput', rfl⟩ := mem_planClaimsPara htxItem
  obtain rfl := Option.some.inj hsome
  obtain ⟨_, c, _, hbuild⟩ := mem_planClaims hput'
  obtain ⟨huella, _, rfl⟩ := buildClaimItem_eq_some hbuild
  rw [extractPkSk_claimPut] at hkey
  cases hkey
  exact ⟨c.1, rfl⟩

/-- A put of a plan under the key of a claim is a claim of the call's entity. -/
theorem claim_of_plan {active : ActiveAttrs} {plan : TransactPlan}
    (hplan : planTransact registry table call active = .ok plan) {p : Option PrimaryKey × Put} {pk : String}
    (hp : p ∈ batchPuts plan.batch) (hkey : p.1 = some (claimKey pk)) :
    ∃ model attributes, p.2 = claimPut (constraintContext table call model) attributes pk := by
  obtain ⟨model, _, _, _, _, _, hbatch, _⟩ := planTransact_ok hplan
  rw [hbatch, batchPuts_append, batchPuts_append, List.mem_append, List.mem_append] at hp
  rcases hp with (hp | hp) | hp
  · obtain ⟨put, hput, rfl⟩ := List.mem_map.mp hp
    obtain ⟨txItem, htxItem, hsome⟩ := List.mem_filterMap.mp hput
    obtain ⟨d, _, rfl⟩ := List.mem_map.mp htxItem
    obtain rfl := Option.some.inj hsome
    dsimp only at hkey
    rw [extractPkSk_eavtItem] at hkey
    have hlength : d.key.sk.length = claimSk.length := by rw [Option.some.inj hkey]; rfl
    rw [show d.key.sk.length = 11 by simp [Datom.key, Datom.eavtSk]] at hlength
    exact absurd hlength (by decide)
  · obtain ⟨put, hput, rfl⟩ := List.mem_map.mp hp
    have hput' : put = (txRegistryItem table call).put.get (by rfl) := by
      simpa [txRegistryItem] using hput
    subst hput'
    have htx : extractPkSk ((txRegistryItem table call).put.get (by rfl)).item =
        some ⟨txLogPk call.payload.tenantId, beBytes 8 call.txId.val⟩ := by
      simp [txRegistryItem, extractPkSk, extractIndexKey, avString]
    dsimp only at hkey
    rw [htx] at hkey
    have hlength := congrArg (fun k : PrimaryKey => k.sk.length) (Option.some.inj hkey)
    simp only [claimKey, beBytes_length] at hlength
    exact absurd hlength (by decide)
  · obtain ⟨attributes, hclaim⟩ := claim_of_batchPuts hp hkey
    exact ⟨model, attributes, hclaim⟩

/-- A claim stays with its entity. -/
theorem claim_kept (hcall : transact registry table st call = .ok (st', result)) {pk : String} {item : Item}
    (hitem : st.items.lookup (claimKey pk) = some item) :
    ∃ item', st'.items.lookup (claimKey pk) = some item' ∧ eidOf item' = eidOf item := by
  obtain ⟨plan, hplan, hvalid, _, hitems⟩ := transact_ok hcall
  rw [hitems]
  by_cases hmem : claimKey pk ∈ (batchItems plan.batch).map Prod.fst
  · obtain ⟨e, he, hkey⟩ := List.mem_map.mp hmem
    rw [batchItems_eq] at he
    obtain ⟨p, hp, hpe⟩ := List.mem_filterMap.mp he
    obtain ⟨key, hpk, rfl⟩ := Option.map_eq_some_iff.mp hpe
    obtain rfl : key = claimKey pk := hkey
    obtain ⟨model, attributes, hclaim⟩ := claim_of_plan hplan hp hpk
    refine ⟨p.2.item, OrdMap.lookup_insertList_of_mem _ hvalid.keys_nodup he, ?_⟩
    have hholds := hvalid.holds p hp _ hpk
    rw [hclaim] at hholds ⊢
    unfold Put.ConditionHolds claimPut at hholds
    by_cases hop : call.payload.op = .create
    · have hparse : MbfWriteCondition.parse (some "attribute_not_exists(PK)") = .uniqueClaimKey := by
        decide +kernel
      simp only [constraintContext, hop, if_true, hparse, MbfWriteCondition.Holds] at hholds
      rw [hitem] at hholds
      cases hholds
    · have hparse : MbfWriteCondition.parse (some "attribute_not_exists(PK) OR eid = :self") =
          .uniqueEntitySelfOrUnclaimed := by decide +kernel
      simp only [constraintContext, hop, if_false, hparse, MbfWriteCondition.Holds] at hholds
      rw [hholds item hitem]
      simp [eidOf, selfOf, claimPut, constraintContext, avString]
  · rw [OrdMap.lookup_insertList_of_notMem _ hmem]
    exact ⟨item, hitem, rfl⟩

omit [F64Text] [Derived] [KeyHash] in
/-- Every claim that is asked for is taken, once. -/
theorem claimOnce_covers {puts items : List Put} {put : Put} (h : put ∈ items ∨ put ∈ puts) :
    ∃ p ∈ puts.foldl claimOnce items, extractPkSk p.item = extractPkSk put.item := by
  induction puts generalizing items put with
  | nil =>
    rcases h with h | h
    · exact ⟨put, h, rfl⟩
    · cases h
  | cons q rest ih =>
    rw [List.foldl_cons]
    have hkeep {p : Put} (hp : p ∈ items) : p ∈ claimOnce items q := by
      unfold claimOnce
      split_ifs
      · exact hp
      · exact List.mem_append_left _ hp
    rcases h with h | h
    · exact ih (Or.inl (hkeep h))
    · rcases List.mem_cons.mp h with rfl | h
      · unfold claimOnce
        split_ifs with hheld
        · obtain ⟨p, hp, hkey⟩ := List.any_eq_true.mp hheld
          obtain ⟨p', hp', hkey'⟩ := ih (Or.inl hp)
          exact ⟨p', hp', hkey'.trans (of_decide_eq_true hkey)⟩
        · exact ih (Or.inl (by simp))
      · exact ih (Or.inr h)

/-- After a commit the claims that its payload asks for are its entity's. -/
theorem claim_written (hcall : transact registry table st call = .ok (st', result))
    {model : EntityModel} (hmodel : registry.getModel call.payload.entityType = some model)
    (hop : call.payload.op ≠ .delete) {c : List String × ConstraintScope} (hc : c ∈ uniqueConstraints model)
    {huella : String} (hhuella : huellaClave model.entity c.1 call.payload.attrs = some huella)
    (hblank : (c.1.any fun a => (call.payload.attrs.get a).any isBlank) = false) :
    ∃ item, st'.items.lookup (claimKey (claimPk call.payload.tenantId model.entity c.2 huella)) =
        some item ∧ eidOf item = some call.entityId := by
  obtain ⟨plan, hplan, hvalid, _, hitems⟩ := transact_ok hcall
  obtain ⟨model', _, _, hmodel', _, _, hbatch, _⟩ := planTransact_ok hplan
  obtain rfl : model' = model := Option.some.inj (hmodel'.symm.trans hmodel)
  let ctx := constraintContext table call model'
  let pk := claimPk call.payload.tenantId model'.entity c.2 huella
  have hbuild : buildClaimItem ctx c.1 c.2 = some (claimPut ctx c.1 pk) := by
    unfold buildClaimItem
    rw [show huellaClave ctx.model.entity c.1 ctx.attrs = some huella from hhuella, Option.bind_some,
      if_neg (by rw [show (c.1.any fun a => (ctx.attrs.get a).any isBlank) = false from hblank]; simp)]
    rfl
  have hplanned : claimPut ctx c.1 pk ∈ planClaims ctx := by
    unfold planClaims
    rw [if_neg (show ¬ctx.op = .delete from hop)]
    exact List.mem_filterMap.mpr ⟨c, hc, hbuild⟩
  obtain ⟨put, hput, hkey⟩ := claimOnce_covers (Or.inr hplanned)
  rw [extractPkSk_claimPut] at hkey
  have hbatchPut : (some (claimKey pk), put) ∈ batchPuts plan.batch := by
    rw [hbatch, batchPuts_append]
    apply List.mem_append_right
    apply List.mem_map.mpr
    refine ⟨put, List.mem_filterMap.mpr ⟨⟨some put⟩, ?_, rfl⟩, ?_⟩
    · exact List.mem_map_of_mem hput
    · rw [hkey]
      rfl
  obtain ⟨_, attributes, hclaim⟩ := claim_of_plan hplan hbatchPut rfl
  refine ⟨put.item, ?_, ?_⟩
  · rw [hitems]
    apply OrdMap.lookup_insertList_of_mem _ hvalid.keys_nodup
    rw [batchItems_eq]
    exact List.mem_filterMap.mpr ⟨_, hbatchPut, rfl⟩
  · rw [show put = claimPut (constraintContext table call _) attributes pk from hclaim]
    simp [eidOf, claimPut, constraintContext, avString]

end Claims

/-! ### Runs -/

/-- A history, with the entities that were written: their tenants and ids. -/
structure UniqueHistory where
  history : RecordHistory
  ids : List (String × String)

/-- The values of a key: each there, and none blank. -/
def Keyed (record : Record) (attributes : List String) : Prop :=
  ∀ name ∈ attributes, ∃ v, record name = some v ∧ v ≠ .null ∧ isBlank v = false

namespace UniqueHistory

def start : UniqueHistory := ⟨RecordHistory.start, []⟩

section Run
variable [F64Text] [Derived] [KeyHash] (registry : CodeRegistry) (table : String)

def step (w : UniqueHistory) (call : TransactCall) : Option UniqueHistory :=
  (w.history.step registry table call).map fun history =>
    match transact registry table w.history.log.store call with
    | .error _ => ⟨history, w.ids⟩
    | .ok _ => ⟨history, (call.payload.tenantId, call.entityId) :: w.ids⟩

/-- A call writes a key whole, leaves it as it was, or leaves the entity without one; what
it writes of a key has the type of its attribute. -/
def WritesKey (record : Record) (call : TransactCall) (attributes : List String) : Prop :=
  (∀ name ∈ attributes, ∀ v ∈ call.payload.attrs.get name, v ≠ .null →
    ∃ desc ∈ registry.getAttribute call.payload.entityType name, keyType desc.attrType = some v.valueType) ∧
  ((∀ name ∈ attributes, ∃ v ∈ call.payload.attrs.get name, v ≠ .null) ∨
    (record "entity/type" = some (.str call.payload.entityType) ∧
      ∀ name ∈ attributes, call.recordAfter record name = record name) ∨
    ∃ name ∈ attributes, call.recordAfter record name = none)

/-- Successive calls that write whole keys. A partition is of one entity, and where a key
is global an id is of one tenant. -/
structure KeepsKeys (w : UniqueHistory) (call : TransactCall) : Prop where
  successive : w.history.Successive call
  apart : ∀ p ∈ w.ids, eavtPk p.1 p.2 = call.pk → p = (call.payload.tenantId, call.entityId)
  keys : call.payload.op ≠ .delete → ∀ model ∈ registry.getModel call.payload.entityType,
    ∀ c ∈ uniqueConstraints model,
      (c.2 = .global → ∀ p ∈ w.ids, p.2 = call.entityId → p.1 = call.payload.tenantId) ∧
      WritesKey registry (w.history.records call.pk) call c.1

instance (record : Record) (call : TransactCall) (attributes : List String) :
    Decidable (WritesKey registry record call attributes) := by
  unfold WritesKey
  infer_instance

instance (w : UniqueHistory) (call : TransactCall) : Decidable (KeepsKeys registry w call) :=
  decidable_of_iff (w.history.Successive call ∧
      (∀ p ∈ w.ids, eavtPk p.1 p.2 = call.pk → p = (call.payload.tenantId, call.entityId)) ∧
      (call.payload.op ≠ .delete → ∀ model ∈ registry.getModel call.payload.entityType,
        ∀ c ∈ uniqueConstraints model,
          (c.2 = .global → ∀ p ∈ w.ids, p.2 = call.entityId → p.1 = call.payload.tenantId) ∧
          WritesKey registry (w.history.records call.pk) call c.1))
    ⟨fun h => ⟨h.1, h.2.1, h.2.2⟩, fun h => ⟨h.successive, h.apart, h.keys⟩⟩

/-- The claim of a key, under the hash of the values that it was written with. -/
structure Claimed (items : OrdMap PrimaryKey Item) (p : String × String) (record : Record) (entity : String)
    (c : List String × ConstraintScope) (value : String → DatomValue) : Prop where
  shown : ∀ name ∈ c.1, (value name).shown = record name
  typed : ∀ name ∈ c.1, ∃ desc ∈ registry.getAttribute entity name,
    keyType desc.attrType = some (value name).valueType
  held : ∃ item, items.lookup (claimKey (claimPk p.1 entity c.2 (KeyHash.hexDigest
      (utf8 entity ++ (c.1.map fun name => huellaAttr name (value name)).flatten)))) = some item ∧
    eidOf item = some p.2

structure Inv (w : UniqueHistory) : Prop where
  records : RecordHistory.Inv registry w.history
  written : ∀ pk, w.history.records pk "entity/type" ≠ none → ∃ p ∈ w.ids, eavtPk p.1 p.2 = pk
  claimed : ∀ p ∈ w.ids, ∀ entity model,
    w.history.records (eavtPk p.1 p.2) "entity/type" = some (.str entity) →
    registry.getModel entity = some model → ∀ c ∈ uniqueConstraints model,
      Keyed (w.history.records (eavtPk p.1 p.2)) c.1 →
      ∃ value, Claimed registry w.history.log.store.items p (w.history.records (eavtPk p.1 p.2)) entity c value
  apart : ∀ p ∈ w.ids, ∀ q ∈ w.ids, eavtPk p.1 p.2 = eavtPk q.1 q.2 → p = q
  oneTenant : ∀ p ∈ w.ids, ∀ q ∈ w.ids, p.2 = q.2 → ∀ entity model,
    w.history.records (eavtPk p.1 p.2) "entity/type" = some (.str entity) →
    w.history.records (eavtPk q.1 q.2) "entity/type" = some (.str entity) →
    registry.getModel entity = some model → (∃ c ∈ uniqueConstraints model, c.2 = .global) → p = q

variable {registry} {table} {w w' : UniqueHistory} {call : TransactCall}

omit [Derived] in
theorem Inv.start : Inv registry UniqueHistory.start where
  records := RecordHistory.Inv.start
  written := fun pk h => absurd rfl h
  claimed := by simp [UniqueHistory.start]
  apart := by simp [UniqueHistory.start]
  oneTenant := by simp [UniqueHistory.start]

omit [F64Text] [Derived] in
/-- The hash of a key that a payload carries whole. -/
theorem huellaClave_of_whole {entity : String} {attributes : List String} {attrs : AttrMap}
    {value : String → DatomValue}
    (h : ∀ name ∈ attributes, attrs.get name = some (value name) ∧ value name ≠ .null) :
    huellaClave entity attributes attrs = some (KeyHash.hexDigest
      (utf8 entity ++ (attributes.map fun name => huellaAttr name (value name)).flatten)) := by
  unfold huellaClave
  have hparts : (attributes.mapM fun name =>
      ((attrs.get name).filter fun v => v ≠ .null).map (huellaAttr name)) =
        some (attributes.map fun name => huellaAttr name (value name)) := by
    induction attributes with
    | nil => rfl
    | cons name rest ih =>
      obtain ⟨hget, hnull⟩ := h name List.mem_cons_self
      rw [List.mapM_cons, hget, Option.filter_some, if_pos (by simpa using hnull),
        ih fun n hn => h n (List.mem_cons_of_mem _ hn)]
      rfl
  rw [hparts]
  rfl

/-- A call that fails changes nothing that counts here. -/
theorem step_cases (hstep : w.step registry table call = some w') :
    (w'.ids = w.ids ∧ w'.history.records = w.history.records ∧
      w'.history.log.store = w.history.log.store) ∨
    ∃ st result, transact registry table w.history.log.store call = .ok (st, result) ∧
      w'.history.log.store = st ∧
      w'.history.records = Function.update w.history.records call.pk
        (call.recordAfter (w.history.records call.pk)) ∧
      w'.ids = (call.payload.tenantId, call.entityId) :: w.ids := by
  obtain ⟨history, hhistory, hw⟩ := Option.map_eq_some_iff.mp hstep
  obtain ⟨log, hlog, hrecords⟩ := Option.map_eq_some_iff.mp hhistory
  unfold EavHistory.step at hlog
  cases hcall : transact registry table w.history.log.store call with
  | error e =>
    rw [hcall] at hlog hrecords hw
    cases hlog
    dsimp only at hrecords hw
    subst hw
    subst hrecords
    exact Or.inl ⟨rfl, rfl, rfl⟩
  | ok r =>
    obtain ⟨st, result⟩ := r
    rw [hcall] at hlog hrecords hw
    cases hlog
    dsimp only at hrecords hw
    subst hw
    subst hrecords
    exact Or.inr ⟨st, result, rfl, rfl, rfl, rfl⟩

omit [Derived] in
/-- A claim lives on with its entity in a later store and the same values. -/
theorem Claimed.mono {items items' : OrdMap PrimaryKey Item} {p : String × String} {record record' : Record}
    {entity : String} {c : List String × ConstraintScope} {value : String → DatomValue}
    (h : Claimed registry items p record entity c value)
    (hitems : ∀ pk item, items.lookup (claimKey pk) = some item →
      ∃ item', items'.lookup (claimKey pk) = some item' ∧ eidOf item' = eidOf item)
    (hrecord : ∀ name ∈ c.1, record' name = record name) :
    Claimed registry items' p record' entity c value := by
  obtain ⟨item, hitem, heid⟩ := h.held
  obtain ⟨item', hitem', heid'⟩ := hitems _ item hitem
  constructor
  · intro name hname
    rw [hrecord name hname]
    exact h.shown name hname
  · exact h.typed
  · exact ⟨item', hitem', heid'.trans heid⟩

/-- After a call an entity is of the call's type, or gone. -/
theorem type_of_call (hnames : registry.OneName) {st st' : MbfPartitionStore} {result : TransactResult}
    (hcall : transact registry table st call = .ok (st', result)) {record : Record} {entity : String}
    (htype : call.recordAfter record "entity/type" = some (.str entity)) :
    call.payload.op ≠ .delete ∧ entity = call.payload.entityType := by
  have hop : call.payload.op ≠ .delete := by
    intro hdelete
    rw [TransactCall.recordAfter, hdelete] at htype
    cases htype
  have hcarries : call.Carries "entity/type" (.str call.payload.entityType) := by
    apply Or.inr
    simp [TransactCall.systemValues]
  have hsystem (hsome : (call.payload.attrs.get "entity/type").isSome = true) :
      call.systemValue "entity/type" = none := by
    obtain ⟨plan, hplan, _⟩ := transact_ok hcall
    obtain ⟨v, hv⟩ := Option.isSome_iff_exists.mp hsome
    exact systemValue_of_planned hnames hplan hop hv
  rw [recordAfter_of_carries hop hcarries hsystem] at htype
  have hshown : some (DatomValue.str call.payload.entityType) = some (.str entity) := htype
  cases hshown
  exact ⟨hop, rfl⟩

/-- The claim of the key that a call gives its entity. -/
theorem Inv.claimed_call (hsound : registry.Sound) (hnames : registry.OneName) (h : Inv registry w)
    (hguard : KeepsKeys registry w call) {st : MbfPartitionStore} {result : TransactResult}
    (hcall : transact registry table w.history.log.store call = .ok (st, result))
    {entity : String} {model : EntityModel}
    (htype : call.recordAfter (w.history.records call.pk) "entity/type" = some (.str entity))
    (hmodel : registry.getModel entity = some model) {c : List String × ConstraintScope}
    (hc : c ∈ uniqueConstraints model)
    (hkeyed : Keyed (call.recordAfter (w.history.records call.pk)) c.1) :
    ∃ value, Claimed registry st.items (call.payload.tenantId, call.entityId)
      (call.recordAfter (w.history.records call.pk)) entity c value := by
  obtain ⟨hop, hentity⟩ := type_of_call hnames hcall htype
  subst hentity
  obtain ⟨_, htyped, hways⟩ := hguard.keys hop model hmodel c hc
  obtain ⟨plan, hplan, _⟩ := transact_ok hcall
  rcases hways with hwhole | ⟨hold, hsame⟩ | ⟨name, hname, hnone⟩
  · -- the payload carries the key: its claim is in the batch
    let value : String → DatomValue := fun name => (call.payload.attrs.get name).getD .null
    have hget : ∀ name ∈ c.1, call.payload.attrs.get name = some (value name) ∧ value name ≠ .null := by
      intro name hname
      obtain ⟨v, hv, hnull⟩ := hwhole name hname
      have hv : call.payload.attrs.get name = some v := hv
      have hvalue : value name = v := by
        change (call.payload.attrs.get name).getD .null = v
        rw [hv]
        rfl
      rw [hvalue]
      exact ⟨hv, hnull⟩
    have hshown : ∀ name ∈ c.1, (value name).shown = call.recordAfter (w.history.records call.pk) name := by
      intro name hname
      obtain ⟨hv, hnull⟩ := hget name hname
      exact (recordAfter_of_carries hop (Or.inl ⟨hv, hnull⟩)
        (fun _ => systemValue_of_planned hnames hplan hop hv) _).symm
    have hblank : (c.1.any fun a => (call.payload.attrs.get a).any isBlank) = false := by
      rw [List.any_eq_false]
      intro name hname hbad
      obtain ⟨hv, _⟩ := hget name hname
      rw [hv, Option.any_some] at hbad
      obtain ⟨v, hv', _, hgood⟩ := hkeyed name hname
      rw [← hshown name hname] at hv'
      cases hvalue : value name with
      | str s =>
        rw [hvalue] at hbad hv'
        have hstr : some (DatomValue.str s) = some v := hv'
        cases hstr
        rw [hbad] at hgood
        cases hgood
      | _ =>
        rw [hvalue] at hbad
        cases hbad
    obtain ⟨item, hitem, heid⟩ := claim_written hcall hmodel hop hc (huellaClave_of_whole hget) hblank
    rw [hsound.entity _ _ hmodel] at hitem
    refine ⟨value, hshown, ?_, item, hitem, heid⟩
    intro name hname
    obtain ⟨hv, hnull⟩ := hget name hname
    exact htyped name hname _ hv hnull
  · -- the key is as it was, and so is its claim
    obtain ⟨p, hp, hpk⟩ := h.written call.pk (by rw [hold]; exact Option.some_ne_none _)
    obtain rfl := hguard.apart p hp hpk
    obtain ⟨value, hclaimed⟩ := h.claimed _ hp call.payload.entityType model hold hmodel c hc (by
      intro name hname
      obtain ⟨v, hv, hgood⟩ := hkeyed name hname
      exact ⟨v, (hsame name hname).symm.trans hv, hgood⟩)
    exact ⟨value, hclaimed.mono (fun _ _ => claim_kept hcall) hsame⟩
  · obtain ⟨v, hv, _⟩ := hkeyed name hname
    rw [hnone] at hv
    cases hv

theorem Inv.step [F64Text.Total] (hsound : registry.Sound) (hnames : registry.OneName)
    (h : Inv registry w) (hguard : KeepsKeys registry w call)
    (hstep : w.step registry table call = some w') : Inv registry w' := by
  have hrecords : RecordHistory.Inv registry w'.history := by
    obtain ⟨history, hhistory, hw⟩ := Option.map_eq_some_iff.mp hstep
    have hinv := h.records.step hsound hnames hguard.successive hhistory
    cases hcall : transact registry table w.history.log.store call with
    | error e =>
      rw [hcall] at hw
      subst hw
      exact hinv
    | ok r =>
      rw [hcall] at hw
      subst hw
      exact hinv
  rcases step_cases hstep with ⟨hids, hsame, hstore⟩ | ⟨st, result, hcall, hstore, hafter, hids⟩
  · refine ⟨hrecords, ?_, ?_, ?_, ?_⟩ <;> rw [hids]
    · rw [hsame]
      exact h.written
    · rw [hsame, hstore]
      exact h.claimed
    · exact h.apart
    · rw [hsame]
      exact h.oneTenant
  · have hother {p : String × String} (hp : p ∈ w.ids) (hne : p ≠ (call.payload.tenantId, call.entityId)) :
        w'.history.records (eavtPk p.1 p.2) = w.history.records (eavtPk p.1 p.2) := by
      rw [hafter, Function.update_of_ne]
      exact fun hpk => hne (hguard.apart p hp hpk)
    have hself : w'.history.records call.pk = call.recordAfter (w.history.records call.pk) := by
      rw [hafter, Function.update_self]
    have hin {p : String × String} (hp : p ∈ w'.ids) :
        p = (call.payload.tenantId, call.entityId) ∨
          (p ∈ w.ids ∧ p ≠ (call.payload.tenantId, call.entityId)) := by
      rw [hids] at hp
      by_cases hpc : p = (call.payload.tenantId, call.entityId)
      · exact Or.inl hpc
      · exact Or.inr ⟨(List.mem_cons.mp hp).resolve_left hpc, hpc⟩
    refine ⟨hrecords, ?_, ?_, ?_, ?_⟩
    · intro pk hpk
      rw [hids]
      by_cases hcallPk : pk = call.pk
      · exact ⟨_, List.mem_cons_self, hcallPk.symm⟩
      · rw [hafter, Function.update_of_ne hcallPk] at hpk
        obtain ⟨p, hp, hpp⟩ := h.written pk hpk
        exact ⟨p, List.mem_cons_of_mem _ hp, hpp⟩
    · intro p hp entity model htype hmodel c hc hkeyed
      rw [hstore]
      rcases hin hp with rfl | ⟨hp, hne⟩
      · change w'.history.records call.pk "entity/type" = _ at htype
        change Keyed (w'.history.records call.pk) c.1 at hkeyed
        change ∃ value, Claimed registry st.items _ (w'.history.records call.pk) entity c value
        rw [hself] at htype hkeyed ⊢
        exact h.claimed_call hsound hnames hguard hcall htype hmodel hc hkeyed
      · rw [hother hp hne] at htype hkeyed ⊢
        obtain ⟨value, hclaimed⟩ := h.claimed p hp entity model htype hmodel c hc hkeyed
        exact ⟨value, hclaimed.mono (fun _ _ => claim_kept hcall) fun _ _ => rfl⟩
    · intro p hp q hq hpk
      rcases hin hp with rfl | ⟨hp, hne⟩
      · rcases hin hq with rfl | ⟨hq, hneq⟩
        · rfl
        · exact (hguard.apart q hq hpk.symm).symm
      · rcases hin hq with rfl | ⟨hq, hneq⟩
        · exact hguard.apart p hp hpk
        · exact h.apart p hp q hq hpk
    · intro p hp q hq hid entity model htype htype' hmodel hglobal
      obtain ⟨c, hc, hscope⟩ := hglobal
      have hcalled {r : String × String} (hr : r ∈ w.ids) (hrid : r.2 = call.entityId)
          (htypeCall : w'.history.records call.pk "entity/type" = some (.str entity)) :
          r.1 = call.payload.tenantId := by
        rw [hself] at htypeCall
        obtain ⟨hop, rfl⟩ := type_of_call hnames hcall htypeCall
        exact (hguard.keys hop model hmodel c hc).1 hscope r hr hrid
      rcases hin hp with rfl | ⟨hp, hne⟩
      · rcases hin hq with rfl | ⟨hq, hneq⟩
        · rfl
        · exact absurd (Prod.ext (hcalled hq hid.symm htype) hid.symm) hneq
      · rcases hin hq with rfl | ⟨hq, hneq⟩
        · exact absurd (Prod.ext (hcalled hp hid htype') hid) hne
        · rw [hother hp hne] at htype
          rw [hother hq hneq] at htype'
          exact h.oneTenant p hp q hq hid entity model htype htype' hmodel ⟨c, hc, hscope⟩

end Run
end UniqueHistory

section Unique
variable [F64Text] [F64Text.Total] [Derived] [KeyHash] {registry : CodeRegistry} {table : String}

end Unique
/-! ### Slots -/

/-- A model with a key of two attributes. -/
def slotModel : EntityModel where
  entity := "slot"
  attributes := [{ name := "room" }, { name := "hour" }]
  constraints := [⟨.unique, .tenant, ["room", "hour"]⟩]

def slotRegistry : CodeRegistry where
  byEntity := (∅ : OrdMap String EntityModel).insert "slot" slotModel
  byAttrId := (((∅ : OrdMap U16 String).insertList systemAttrs).insert (hashAttrName "room") "room").insert
    (hashAttrName "hour") "hour"

theorem CodeRegistry.build_slot : build [slotModel] = .ok slotRegistry := by
  have h : (build [slotModel]).toOption = some slotRegistry := by
    decide +kernel
  cases hbuild : build [slotModel] with
  | error e =>
    rw [hbuild] at h
    cases h
  | ok registry =>
    rw [hbuild] at h
    exact congrArg Except.ok (Option.some.inj h)

theorem slotRegistry_plain (name : String) : slotRegistry.Plain name := by
  intro entityType desc hdesc
  have hslot : desc ∈ slotModel.attributes := by
    unfold CodeRegistry.getAttributes CodeRegistry.getModel slotRegistry at hdesc
    rw [OrdMap.lookup_insert] at hdesc
    split_ifs at hdesc with hentity
    · exact hdesc
    · simp at hdesc
  rcases List.mem_pair.mp hslot with rfl | rfl
  · exact ⟨fun h => absurd h (by decide), fun h => absurd rfl h⟩
  · exact ⟨fun h => absurd h (by decide), fun h => absurd rfl h⟩

def slotCall (op : TransactOp) (entityId : String) (attrs : AttrMap) (txId : U64) : TransactCall :=
  let call := noteCall op entityId "" txId
  { call with payload := { call.payload with entityType := "slot", attrs := attrs } }

def slotKey (room hour : String) : AttrMap := ⟨[("room", .str room), ("hour", .str hour)], by simp⟩

abbrev slotStep : UniqueHistory → TransactCall → Option UniqueHistory :=
  @UniqueHistory.step bitsText plainDerived plainHash slotRegistry "metri"

abbrev slotPull (w : UniqueHistory) (entityId : String) : EntityMap :=
  @pull bitsText slotRegistry w.history.log.store "t" entityId none

end MetriEngine.Eav

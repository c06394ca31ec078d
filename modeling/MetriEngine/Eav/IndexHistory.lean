import MetriEngine.Eav.AvetText
import MetriEngine.Eav.Records

/-!
# The value index along a history

Nothing is taken out of the attribute-value index: a value that was replaced stays under its key,
and only a later datom under the same key tells that it is gone. A call keeps the index as long as
what it writes over a current value comes under the key of that value.
-/
namespace MetriEngine.Eav
open Foundation Storage

/-! ### Keys -/

/-- The partition and the sort key of an item in the attribute-value index. -/
def valueKey (item : Item) : Option (String × List Byte) := extractIndexKey item "vp" "vs"

namespace DatomValue
variable (v : DatomValue)

/-- The key of a value of an attribute of an entity. -/
def keyOf (tenantId name entityId : String) : Option (String × List Byte) :=
  if v.valueType.isAvetIndexable then some (avetPk tenantId name, buildAvetSk v entityId) else none

/-- A value whose text is the one that a query for it looks for: of the doubles those that are
finite, not the negative zero, and written as an integer of `i64` if they are whole. -/
def Legible [F64Text] : DatomValue → Prop
  | .double d => d.exponent < 2047 ∧ ¬ d.IsNegZero ∧
      (d.isIntegral = true → F64Text.display d = toString d.toI64)
  | _ => True

instance [F64Text] : Decidable v.Legible :=
  match v with
  | .double d => inferInstanceAs (Decidable (d.exponent < 2047 ∧ ¬ d.IsNegZero ∧
      (d.isIntegral = true → F64Text.display d = toString d.toI64)))
  | .null | .bool _ | .long _ | .str _ | .uuid _ | .ref _ | .array _ | .bytes _ | .bigInt _
  | .instant _ | .geo _ _ => inferInstanceAs (Decidable True)

end DatomValue

theorem valueKey_eavtItem [F64Text] (d : Datom) :
    valueKey (eavtItem d) = d.value.keyOf d.tenantId d.attrName d.entityId :=
  extractIndexKey_avet d

/-! ### What a call writes -/

namespace TransactCall
variable (call : TransactCall)

/-- The outbox row is planned like the creation of an entity. -/
def rowCall : TransactCall := { call with
  payload := {
    tenantId := call.payload.tenantId
    entityId := some call.mutationUlid
    entityType := "outbox_event"
    attrs := ⟨[], List.nodup_nil⟩
    op := .create }
  nowMs := call.metaMs }

/-- What the outbox row asserts, where there is one. -/
def rowValues [Derived] (registry : CodeRegistry) : List (String × DatomValue) :=
  if call.payload.suppressEvents = true ∨ call.payload.entityType = "outbox_event" ∨
      ((registry.getModel call.payload.entityType).map EntityModel.disableEda).getD false = true then []
  else outboxAttrs call.payload call.entityId call.rowMs ++ call.rowCall.systemValues

/-- Where the call writes over a current value, something of it comes under the key of that
value. -/
def KeepsKey [F64Text] (st : MbfPartitionStore) (attrId : U16) (name : String) : Prop :=
  ∀ c ∈ Revision.current (cell st.items call.pk attrId), ∀ old ∈ extractDatomValue c.val,
    (call.asserts name = none ∧ call.retracts name old = false) ∨
    (call.retracts name old = true ∧
      old.keyOf call.payload.tenantId name call.entityId = valueKey c.val) ∨
    ∃ v ∈ call.asserts name, v.keyOf call.payload.tenantId name call.entityId = valueKey c.val

instance [F64Text] (st : MbfPartitionStore) (attrId : U16) (name : String) :
    Decidable (call.KeepsKey st attrId name) := by
  unfold KeepsKey
  infer_instance

end TransactCall

/-- A datom of the outbox row asserts a value of the row. -/
theorem mem_outboxRow_value [Derived] {registry : CodeRegistry} {call : TransactCall}
    {row : List Datom} (h : outboxRow registry call = .ok (some row)) {d : Datom} (hd : d ∈ row) :
    d.tenantId = call.payload.tenantId ∧ d.entityId = call.mutationUlid ∧
      (d.attrName, d.value) ∈ call.rowValues registry := by
  unfold outboxRow at h
  split_ifs at h with hsuppress
  · cases h
  · unfold generateOutboxDatoms at h
    dsimp only at h
    split_ifs at h with hsilent
    · cases h
    · have hvalues : call.rowValues registry =
          outboxAttrs call.payload call.entityId call.rowMs ++ call.rowCall.systemValues := by
        rw [TransactCall.rowValues, if_neg (by simpa [hsuppress] using hsilent)]
      rw [hvalues]
      cases hattrs : (outboxAttrs call.payload call.entityId call.rowMs).mapM (outboxAttrDatom registry
          ⟨call.payload.tenantId, "outbox_event", call.mutationUlid, call.txId⟩) with
      | error e =>
        rw [hattrs] at h
        cases h
      | ok datoms =>
        rw [hattrs] at h
        cases h
        rcases List.mem_append.mp hd with hd | hd
        · obtain ⟨e, he, hdatom⟩ := mem_of_mapM_ok hattrs hd
          unfold outboxAttrDatom at hdatom
          split at hdatom
          · cases hdatom
          · cases hdatom
            exact ⟨rfl, rfl, List.mem_append_left _ he⟩
        · have henriched : d ∈ call.rowCall.enriched ∅ := hd
          obtain ⟨_, hdatom⟩ := enrichDatoms_system henriched
          refine ⟨by rw [hdatom]; rfl, by rw [hdatom]; rfl, List.mem_append_right _ ?_⟩
          cases hop : d.op with
          | true =>
            rw [← @enriched_asserted call.rowCall ∅]
            exact List.mem_map.mpr ⟨d, List.mem_filter.mpr ⟨henriched, hop⟩, rfl⟩
          | false =>
            -- a row is created: nothing of it is taken back
            have hretracted := enriched_retracted.mp ⟨d, henriched, hop, rfl, rfl⟩
            exact absurd rfl hretracted.1

/-! ### What a plan enters under a name -/

section Plan
variable {registry : CodeRegistry} {call : TransactCall} {active : ActiveAttrs} {attrId : U16}
  {name : String}

/-- What is planned under a plain name is planned under the id of that name. -/
theorem attrId_of_planned [Derived] (hnames : registry.OneName) (hactive : Named registry active)
    (hname : registry.getAttrName attrId = some name) (hplain : registry.Plain name)
    {datoms : List Datom}
    (hplan : planPayloadDatoms registry call.payload call.entityId call.txId active call.nowMs
      call.actorName = .ok datoms) {d : Datom} (hd : d ∈ datoms) (hdname : d.attrName = name) :
    d.attrId = attrId := by
  have hown (h : registry.getAttrName d.attrId = some d.attrName) : d.attrId = attrId := by
    rw [hdname] at h
    exact hnames.unique _ _ _ h hname
  have hmirror {isDelete : Bool} : d ∉ planMirrorDatoms call.target call.payload.attrs active
      isDelete registry := by
    intro hd
    obtain ⟨desc, hdesc, hmirror, owner, op, rfl⟩ := mem_planMirrorDatoms hd
    exact (hplain _ desc hdesc).1 hmirror hdname
  obtain ⟨_, ⟨_, rfl⟩ | ⟨_, hentity⟩⟩ := planPayloadDatoms_ok hplan
  · rcases List.mem_append.mp hd with hd | hd
    · obtain ⟨⟨held, heldId, v⟩, he, rfl⟩ := List.mem_map.mp hd
      exact hown (hactive _ _ _ (OrdMap.lookup_eq_some.mpr he))
    · exact absurd hd hmirror
  · obtain ⟨parts, hparts, rfl⟩ := planEntityDatoms_ok hentity
    simp only [List.mem_append] at hd
    rcases hd with ((hd | hd) | hd) | hd
    · obtain ⟨part, hpart, hd⟩ := List.mem_flatten.mp hd
      obtain ⟨e, _, he⟩ := mem_of_mapM_ok hparts hpart
      obtain ⟨⟨desc, hdesc⟩, rfl⟩ := attrDatoms_ok he
      rcases List.mem_append.mp hd with hd | hd
      · obtain ⟨_, heldId, old, hheld, rfl⟩ := mem_retractActive_iff.mp hd
        exact hown (hactive _ _ _ hheld)
      · split_ifs at hd
        · cases hd
        · obtain rfl := List.mem_singleton.mp hd
          have hregistered := hnames.own_attribute
            (mem_attributes_of_getAttribute (t := call.target) hdesc)
          rw [CodeRegistry.getAttribute_name hdesc] at hregistered
          exact hown hregistered
    · obtain ⟨desc, hdesc, hd⟩ := List.mem_flatMap.mp hd
      obtain ⟨hauto, hbytes, hbare⟩ := mem_vectorDatoms hd
      exact absurd (hbare.symm.trans hdname) ((hplain _ desc hdesc).2 hauto hbytes).2
    · obtain ⟨hsystem, _⟩ := enrichDatoms_system hd
      exact hown (hnames.system _ hsystem)
    · exact absurd hd hmirror

end Plan

/-! ### Runs that keep the index -/

/-- A datom with ids without a `#`, under the name exactly where it is under its id; there what
it asserts is a value of the type. -/
structure Entered [F64Text] (attrId : U16) (name : String) (type : ValueType) (d : Datom) : Prop where
  tenant : '#' ∉ d.tenantId.toList
  named : d.attrName = name ↔ d.attrId = attrId
  entity : d.attrId = attrId → '#' ∉ d.entityId.toList
  typed : d.attrId = attrId → d.op = true → d.value.valueType = type ∧ d.value.Legible

namespace EavHistory

/-- A call that comes after the others and keeps the index under an attribute of a type. Its ids
have no `#`, and its outbox row is of an id of its own. -/
structure KeepsIndex [F64Text] [Derived] (registry : CodeRegistry) (attrId : U16) (name : String)
    (type : ValueType) (w : EavHistory) (call : TransactCall) : Prop where
  successive : w.Successive call
  tenant : '#' ∉ call.payload.tenantId.toList
  entity : '#' ∉ call.entityId.toList
  row : '#' ∉ call.mutationUlid.toList
  typed : ∀ v ∈ call.asserts name, v.valueType = type ∧ v.Legible
  rowTyped : ∀ e ∈ call.rowValues registry, e.1 = name → e.2.valueType = type ∧ e.2.Legible
  rowApart : call.rowPk ≠ call.pk
  rowFresh : Revision.current (cell w.store.items call.rowPk attrId) = none
  keeps : call.KeepsKey w.store attrId name

instance [F64Text] [Derived] (registry : CodeRegistry) (attrId : U16) (name : String)
    (type : ValueType) (w : EavHistory) (call : TransactCall) :
    Decidable (w.KeepsIndex registry attrId name type call) :=
  decidable_of_iff (w.Successive call ∧ '#' ∉ call.payload.tenantId.toList ∧
      '#' ∉ call.entityId.toList ∧ '#' ∉ call.mutationUlid.toList ∧
      (∀ v ∈ call.asserts name, v.valueType = type ∧ v.Legible) ∧
      (∀ e ∈ call.rowValues registry, e.1 = name → e.2.valueType = type ∧ e.2.Legible) ∧
      call.rowPk ≠ call.pk ∧ Revision.current (cell w.store.items call.rowPk attrId) = none ∧
      call.KeepsKey w.store attrId name)
    ⟨fun ⟨h1, h2, h3, h4, h5, h6, h7, h8, h9⟩ => ⟨h1, h2, h3, h4, h5, h6, h7, h8, h9⟩,
      fun h => ⟨h.successive, h.tenant, h.entity, h.row, h.typed, h.rowTyped, h.rowApart,
        h.rowFresh, h.keeps⟩⟩

/-- The index holds the datoms under the name, and each of its logs is closed. -/
structure Indexed [F64Text] (registry : CodeRegistry) (attrId : U16) (name : String)
    (type : ValueType) (w : EavHistory) : Prop where
  log : EavHistory.Inv registry w
  exact : IndexExact w.store
  strays : ∀ key item, w.store.items.lookup key = some item → valueKey item ≠ none →
    key.sk.length = 11
  entered : ∀ key item, w.store.items.lookup key = some item → key.sk.length = 11 →
    ∃ d : Datom, key = d.key ∧ item = eavtItem d ∧ Entered attrId name type d
  closed : ∀ pk, Revision.Closed valueKey (cell w.store.items pk attrId)

section Step
variable [F64Text] [Derived] [KeyHash] {registry : CodeRegistry} {table : String} {attrId : U16}
  {name : String} {type : ValueType} {w w' : EavHistory} {call : TransactCall}
  {st : MbfPartitionStore} {result : TransactResult} {plan : TransactPlan}

omit [Derived] [KeyHash] in
theorem Indexed.start : Indexed registry attrId name type EavHistory.start where
  log := EavHistory.Inv.start
  exact := IndexExact.empty
  strays := by simp [EavHistory.start]
  entered := by simp [EavHistory.start]
  closed pk := by
    have hcell : cell (∅ : OrdMap PrimaryKey Item) pk attrId = [] := by
      apply List.eq_nil_iff_forall_not_mem.mpr
      intro r hr
      obtain ⟨key, hitem, _⟩ := mem_cell.mp hr
      simp at hitem
    have hclosed : Revision.Closed valueKey (cell (∅ : OrdMap PrimaryKey Item) pk attrId) := by
      rw [hcell]
      exact Revision.Closed.nil
    exact hclosed

theorem indexExact_transact (h : IndexExact w.store)
    (hcall : transact registry table w.store call = .ok (st, result)) : IndexExact st := by
  unfold transact at hcall
  cases hplan : planTransact registry table call (readActive registry w.store call) with
  | error e =>
    rw [hplan] at hcall
    cases hcall
  | ok plan =>
    rw [hplan] at hcall
    cases hwrite : w.store.transactWrite plan.batch with
    | error e =>
      simp only [bind, Except.bind, hwrite] at hcall
      cases hcall
    | ok r =>
      simp only [bind, Except.bind, hwrite] at hcall
      cases hcall
      exact h.transactWrite hwrite

/-- Of what a batch writes, only datoms have a key in the index. -/
theorem length_of_valueKey {active : ActiveAttrs}
    (hplan : planTransact registry table call active = .ok plan) {e : PrimaryKey × Item}
    (he : e ∈ batchItems plan.batch) (hkey : valueKey e.2 ≠ none) : e.1.sk.length = 11 := by
  obtain ⟨model, _, _, _, _, _, hbatch, _⟩ := planTransact_ok hplan
  rw [hbatch, batchItems_append, batchItems_append, batchItems_buildWriteItems, List.mem_append,
    List.mem_append, List.mem_map] at he
  rcases he with (⟨d, _, rfl⟩ | he) | he
  · exact buildEavtSk_length _ _ _
  · rw [batchItems_eq] at he
    obtain ⟨p, hp, hpe⟩ := List.mem_filterMap.mp he
    obtain ⟨put, hput, rfl⟩ := List.mem_map.mp hp
    obtain ⟨txItem, htxItem, hsome⟩ := List.mem_filterMap.mp hput
    obtain rfl := List.mem_singleton.mp htxItem
    obtain rfl := Option.some.inj hsome
    obtain ⟨key, _, rfl⟩ := Option.map_eq_some_iff.mp hpe
    exact absurd (by simp [valueKey, extractIndexKey]) hkey
  · rw [batchItems_eq] at he
    obtain ⟨p, hp, hpe⟩ := List.mem_filterMap.mp he
    obtain ⟨put, hput, rfl⟩ := List.mem_map.mp hp
    obtain ⟨txItem, htxItem, hsome⟩ := List.mem_filterMap.mp hput
    obtain ⟨put', hput', rfl⟩ := mem_planClaimsPara htxItem
    obtain rfl := Option.some.inj hsome
    obtain ⟨_, c, _, hbuild⟩ := mem_planClaims hput'
    obtain ⟨huella, _, rfl⟩ := buildClaimItem_eq_some hbuild
    obtain ⟨key, _, rfl⟩ := Option.map_eq_some_iff.mp hpe
    exact absurd (by simp [valueKey, extractIndexKey, claimPut]) hkey

/-- What a call that keeps the index writes is entered under the name as it should be. -/
theorem KeepsIndex.entered (hnext : w.KeepsIndex registry attrId name type call)
    (hnames : registry.OneName) (hsound : registry.Sound) (h : DatomStore registry w.store.items)
    (hname : registry.getAttrName attrId = some name) (hplain : registry.Plain name)
    (hplan : planTransact registry table call (readActive registry w.store call) = .ok plan)
    {d : Datom} (hd : d ∈ plan.datoms) : Entered attrId name type d := by
  have hactive : Named registry (readActive registry w.store call) := h.readActive_named hnames
  obtain ⟨_, planned, _, _, hplanned, hdatoms, _, _⟩ := planTransact_ok hplan
  obtain ⟨datoms, row, hentity, houtbox, rfl⟩ := plannedDatoms_ok hplanned
  rw [hdatoms] at hd
  rcases List.mem_append.mp (mem_dedupDatomsPorSk hd) with hd | hd
  · have hplainDatom (hid : d.attrId = attrId) := (mem_plan_iff hnames hsound hactive hname hplain
      hentity).mp ⟨hd, hid⟩
    constructor
    · rw [(planned_planPayloadDatoms hentity hd).tenantId]
      exact hnext.tenant
    · constructor
      · exact attrId_of_planned hnames hactive hname hplain hentity hd
      · intro hid
        rcases hplainDatom hid with ⟨v, _, rfl⟩ | ⟨v, _, _, rfl⟩ <;> rfl
    · intro hid
      rcases hplainDatom hid with ⟨v, _, rfl⟩ | ⟨v, _, _, rfl⟩
      · exact hnext.entity
      · exact hnext.entity
    · intro hid hop
      rcases hplainDatom hid with ⟨v, hv, rfl⟩ | ⟨v, _, _, rfl⟩
      · exact hnext.typed v hv
      · cases hop
  · cases row with
    | none => cases hd
    | some row =>
      obtain ⟨htenant, hentityId, hvalue⟩ := mem_outboxRow_value houtbox hd
      have hown : registry.getAttrName d.attrId = some d.attrName := by
        rcases (mem_outboxRow houtbox hd).2 with hsystem | ⟨desc, hdesc, hdname, hid⟩
        · exact hnames.system _ hsystem
        · rw [hid, hdname]
          exact hnames.own_attribute hdesc
      have hnamed : d.attrName = name ↔ d.attrId = attrId := by
        constructor
        · rintro rfl
          exact hnames.unique _ _ _ hown hname
        · rintro rfl
          exact Option.some.inj (hown.symm.trans hname)
      refine ⟨by rw [htenant]; exact hnext.tenant, hnamed, fun _ => ?_, fun hid _ => ?_⟩
      · rw [hentityId]
        exact hnext.row
      · exact hnext.rowTyped _ hvalue (hnamed.mpr hid)

/-- A call that keeps the index leaves closed logs closed. -/
theorem KeepsIndex.closed [F64Text.Total] (hnext : w.KeepsIndex registry attrId name type call)
    (hnames : registry.OneName) (hsound : registry.Sound) (h : DatomStore registry w.store.items)
    (hname : registry.getAttrName attrId = some name) (hplain : registry.Plain name)
    (hplan : planTransact registry table call (readActive registry w.store call) = .ok plan)
    {pk : String} (hclosed : Revision.Closed valueKey (cell w.store.items pk attrId)) :
    Revision.Closed valueKey (cell w.store.items pk attrId ++
      Revision.revise call.txId ((written plan.datoms pk attrId false).map eavtItem)
        ((written plan.datoms pk attrId true).map eavtItem)) := by
  apply Revision.Closed.revise hclosed
  intro c hc
  by_cases hpk : pk = call.pk
  · subst hpk
    rw [h.written_pk hnames hsound hplan hnext.rowApart hname hplain,
      h.written_pk hnames hsound hplan hnext.rowApart hname hplain]
    simp only [Bool.false_eq_true, if_false, if_true]
    obtain ⟨hlast, _⟩ := Option.filter_eq_some_iff.mp hc
    obtain ⟨d, _, hval, _⟩ := h.mem_cell.mp (List.mem_of_getLast? hlast)
    obtain ⟨old, hold⟩ := Option.ne_none_iff_exists'.mp d.value.shown_ne_none
    have hread : extractDatomValue c.val = some old := by
      rw [hval, extractDatomValue_eavtItem, hold]
    have hshown : shownOf w.store.items call.pk attrId = some old := by
      rw [shownOf, hc, Option.bind_some, hread]
    rw [hshown]
    rcases hnext.keeps c hc old hread with ⟨hasserts, hretracts⟩ | ⟨hretracts, hkey⟩ | ⟨v, hv, hkey⟩
    · apply Or.inl
      simp [hasserts, hretracts]
    · refine Or.inr (Or.inl ⟨eavtItem (call.target.retract name attrId old), ?_, ?_⟩)
      · simp [Option.filter_some, hretracts]
      · rw [valueKey_eavtItem]
        exact hkey
    · refine Or.inr (Or.inr ⟨eavtItem (call.target.assert name attrId v), ?_, ?_⟩)
      · rw [Option.mem_def.mp hv]
        rfl
      · rw [valueKey_eavtItem]
        exact hkey
  · by_cases hrow : call.rowPk = pk
    · subst hrow
      rw [hnext.rowFresh] at hc
      cases hc
    · apply Or.inl
      rw [h.written_elsewhere hnames hsound hplan hpk hrow hname hplain,
        h.written_elsewhere hnames hsound hplan hpk hrow hname hplain]
      exact ⟨rfl, rfl⟩

theorem Indexed.step [F64Text.Total] (hsound : registry.Sound) (hnames : registry.OneName)
    (hname : registry.getAttrName attrId = some name) (hplain : registry.Plain name)
    (h : Indexed registry attrId name type w) (hnext : w.KeepsIndex registry attrId name type call)
    (hstep : w.step registry table call = some w') : Indexed registry attrId name type w' := by
  have hlog := h.log.step hsound hnext.successive hstep
  unfold EavHistory.step at hstep
  cases hcall : transact registry table w.store call with
  | error e =>
    rw [hcall] at hstep
    cases hstep
    exact ⟨hlog, h.exact, h.strays, h.entered, h.closed⟩
  | ok r =>
    obtain ⟨st, result⟩ := r
    rw [hcall] at hstep
    cases hstep
    obtain ⟨plan, hplan, hvalid, _, hcell⟩ := h.log.datoms.cell_transact hsound hcall
      (h.log.fresh hnext.successive)
    have hcases : ∀ key item, st.items.lookup key = some item →
        (key, item) ∈ batchItems plan.batch ∨ w.store.items.lookup key = some item :=
      fun key item hlookup => lookup_transact hcall hplan hlookup
    constructor
    · exact hlog
    · exact indexExact_transact h.exact hcall
    · intro key item hlookup hkey
      rcases hcases key item hlookup with hnew | hold
      · exact length_of_valueKey hplan hnew hkey
      · exact h.strays key item hold hkey
    · intro key item hlookup hlength
      rcases hcases key item hlookup with hnew | hold
      · obtain ⟨d, hd, he⟩ := (mem_batchItems_planTransact hplan hlength).mp hnew
        cases he
        exact ⟨d, rfl, rfl, hnext.entered hnames hsound h.log.datoms hname hplain hplan hd⟩
      · exact h.entered key item hold hlength
    · intro pk
      dsimp only
      rw [hcell]
      exact hnext.closed hnames hsound h.log.datoms hname hplain hplan (h.closed pk)

theorem indexed_of_run [F64Text.Total] (hsound : registry.Sound) (hnames : registry.OneName)
    (hname : registry.getAttrName attrId = some name) (hplain : registry.Plain name)
    (hrun : Foundation.Run (EavHistory.step registry table)
      (KeepsIndex registry attrId name type) EavHistory.start w) :
    Indexed registry attrId name type w :=
  hrun.invariant (fun _ _ _ h hg hs => h.step hsound hnames hname hplain hg hs) Indexed.start

end Step
end EavHistory
end MetriEngine.Eav

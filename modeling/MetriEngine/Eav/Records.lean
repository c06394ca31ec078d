import MetriEngine.Eav.Effects
import MetriEngine.Eav.TimeTravel

/-!
# The log as records

To its readers an entity is a record of attributes. A call replaces the record of its
entity by a function of the payload, and leaves every other record as it is: the log of
datoms refines a map of records, for the names that only payloads and the enricher write.
-/
namespace MetriEngine.Eav
open Foundation Storage

/-! ### Records -/

/-- The attributes of an entity by name. -/
abbrev Record := String → Option DatomValue

namespace TransactCall
variable (call : TransactCall)

def systemValue (name : String) : Option DatomValue :=
  (call.systemValues.find? fun e => e.1 = name).map Prod.snd

/-- The record of the entity after the call: a create lays the payload over it, an update
replaces and removes, a delete empties it. -/
def recordAfter [F64Text] (record : Record) : Record := fun name =>
  match call.payload.op, call.systemValue name, call.payload.attrs.get name with
  | .delete, _, _ => none
  | _, some v, _ => v.shown
  | .create, none, some v => if v = .null then record name else v.shown
  | .update, none, some v => if v = .null then none else v.shown
  | _, none, none => record name

/-- An update takes back a system attribute only to write it anew. -/
theorem systemValue_of_retractsSystem {name : String} {old : DatomValue}
    (h : call.retractsSystem name old = true) : call.systemValue name ≠ none := by
  have hmem : ∃ v, (name, v) ∈ call.systemValues := by
    cases old with
    | str s =>
      simp only [retractsSystem, Bool.decide_or, Bool.or_eq_true, decide_eq_true_eq] at h
      rcases h with ⟨rfl, _⟩ | ⟨rfl, _⟩ | ⟨rfl, hactor⟩
      · exact ⟨.str call.payload.entityType, by simp [systemValues]⟩
      · exact ⟨.str call.payload.tenantId, by simp [systemValues]⟩
      · exact ⟨.str call.actorText, by simp [systemValues, hactor]⟩
    | instant n =>
      obtain rfl : name = "meta/updated_at" := by simpa [retractsSystem] using h
      exact ⟨.instant call.nowMs, by simp [systemValues]⟩
    | _ => cases h
  obtain ⟨v, hv⟩ := hmem
  rw [systemValue, find?_of_nodup systemValues_nodup hv]
  exact Option.some_ne_none _

/-- What a call asserts and retracts makes the record after it. -/
theorem recordAfter_eq [F64Text] (record : Record) (name : String) :
    call.recordAfter record name =
      (call.asserts name).elim ((record name).filter fun v => !call.retracts name v)
        DatomValue.shown := by
  have hkeep (h : call.systemValue name = none) (v : DatomValue) :
      call.retractsSystem name v = false := by
    by_contra hretracts
    exact call.systemValue_of_retractsSystem (by simpa using hretracts) h
  have hasserts : call.asserts name = if call.payload.op = .delete then none
      else (call.systemValue name).or ((call.payload.attrs.get name).filter fun v => v ≠ .null) := rfl
  rw [hasserts, recordAfter]
  cases hop : call.payload.op with
  | delete => cases hr : record name <;> simp [retracts, hop, Option.filter_some]
  | create =>
    cases hsys : call.systemValue name with
    | some v => simp
    | none =>
      cases hget : call.payload.attrs.get name with
      | none => cases hr : record name <;> simp [retracts, hop, Option.filter_some]
      | some v =>
        by_cases hv : v = .null
        · cases hr : record name <;> simp [retracts, hop, hv, Option.filter_some]
        · simp [hv, Option.filter_some]
  | update =>
    cases hsys : call.systemValue name with
    | some v => simp
    | none =>
      cases hget : call.payload.attrs.get name with
      | none =>
        cases hr : record name <;> simp [retracts, hop, hget, hkeep hsys, Option.filter_some]
      | some v =>
        by_cases hv : v = .null
        · cases hr : record name <;> simp [retracts, hop, hget, hv, Option.filter_some]
        · simp [hv, Option.filter_some]

end TransactCall

/-! ### What a call does to the cells of plain names -/

section Cells
variable [F64Text] [Derived] [KeyHash] {registry : CodeRegistry} {table : String}
  {st st' : MbfPartitionStore} {call : TransactCall} {result : TransactResult} {plan : TransactPlan}
  {attrId : U16} {name : String}

/-- A call writes to no cell but those of its entity and of its outbox row. -/
theorem DatomStore.written_elsewhere (h : DatomStore registry st.items) (hnames : registry.OneName)
    (hsound : registry.Sound)
    (hplan : planTransact registry table call (readActive registry st call) = .ok plan) {pk : String}
    (hpk : pk ≠ call.pk) (hrow : call.rowPk ≠ pk) (hname : registry.getAttrName attrId = some name)
    (hplain : registry.Plain name) (op : Bool) : written plan.datoms pk attrId op = none := by
  apply List.find?_eq_none.mpr
  intro d hd hat
  obtain ⟨hdpk, hid, _⟩ : d.eavtPk = pk ∧ d.attrId = attrId ∧ d.op = op := by simpa using hat
  obtain ⟨_, planned, _, _, hplanned, hdatoms, _, _⟩ := planTransact_ok hplan
  obtain ⟨datoms, row, hentity, houtbox, rfl⟩ := plannedDatoms_ok hplanned
  rw [hdatoms] at hd
  rcases List.mem_append.mp (mem_dedupDatomsPorSk hd) with hd | hd
  · have hplain := (mem_plan_iff hnames hsound (h.readActive_named hnames) hname hplain hentity).mp
      ⟨hd, hid⟩
    apply hpk
    rw [← hdpk]
    rcases hplain with ⟨v, _, rfl⟩ | ⟨v, _, _, rfl⟩ <;> rfl
  · cases row with
    | none => cases hd
    | some row => exact hrow ((mem_outboxRow houtbox hd).1.symm.trans hdpk)

/-- Under a plain name a call makes of the record of its entity the record after it, and
of any other what it was. -/
theorem DatomStore.shown_transact [F64Text.Total] (hsound : registry.Sound) (h : DatomStore registry st.items)
    (hnames : registry.OneName) (hcall : Eav.transact registry table st call = .ok (st', result))
    (hfresh : ∀ key attrId txId op, key.sk = buildEavtSk attrId txId op → call.txId ≤ txId →
      st.items.lookup key = none) {pk : String} (hrow : call.rowPk ≠ pk)
    (hname : registry.getAttrName attrId = some name) (hplain : registry.Plain name)
    (record : Record) (hrecord : shownOf st.items pk attrId = record name) :
    shownOf st'.items pk attrId = if pk = call.pk then call.recordAfter record name else record name := by
  obtain ⟨plan, hplan, _, _, hcell⟩ := h.cell_transact hsound hcall hfresh
  rw [shownOf_append (hcell pk attrId), hrecord]
  by_cases hpk : pk = call.pk
  · rw [if_pos hpk]
    subst hpk
    rw [h.written_pk hnames hsound hplan hrow hname hplain,
      h.written_pk hnames hsound hplan hrow hname hplain, hrecord, call.recordAfter_eq]
    cases call.asserts name with
    | some v => rfl
    | none =>
      cases hold : record name with
      | none => rfl
      | some v => by_cases hv : call.retracts name v = true <;> simp [Option.filter_some, hv]
  · rw [if_neg hpk, h.written_elsewhere hnames hsound hplan hpk hrow hname hplain,
      h.written_elsewhere hnames hsound hplan hpk hrow hname hplain]
    rfl

/-- A name that a call gives a value is registered. -/
theorem recordAfter_registered {active : ActiveAttrs} (hnames : registry.OneName)
    (hplan : planTransact registry table call active = .ok plan) {record : Record}
    (hrecord : record name ≠ none → ∃ attrId, registry.getAttrName attrId = some name)
    (h : call.recordAfter record name ≠ none) : ∃ attrId, registry.getAttrName attrId = some name := by
  rw [call.recordAfter_eq] at h
  cases hasserts : call.asserts name with
  | none =>
    rw [hasserts] at h
    apply hrecord
    intro hnone
    rw [hnone] at h
    exact h rfl
  | some v =>
    obtain ⟨_, planned, _, _, hplanned, _, _, _⟩ := planTransact_ok hplan
    obtain ⟨datoms, row, hentity, _, rfl⟩ := plannedDatoms_ok hplanned
    unfold TransactCall.asserts at hasserts
    split_ifs at hasserts with hdelete
    obtain ⟨_, ⟨hop, _⟩ | ⟨_, hentity⟩⟩ := planPayloadDatoms_ok hentity
    · exact absurd hop hdelete
    · obtain ⟨parts, hparts, _⟩ := planEntityDatoms_ok hentity
      rcases Option.or_eq_some_iff.mp hasserts with hsys | ⟨_, hpayload⟩
      · obtain ⟨e, hfind, rfl⟩ := Option.map_eq_some_iff.mp hsys
        have hsame : e.1 = name := by simpa using List.find?_some hfind
        obtain ⟨sysId, hsystem⟩ := systemValues_system (List.mem_of_find?_eq_some hfind)
        rw [hsame] at hsystem
        exact ⟨sysId, hnames.system _ hsystem⟩
      · obtain ⟨hget, _⟩ := Option.filter_eq_some_iff.mp hpayload
        exact ⟨_, (mem_written_of_get hnames hparts hget).1⟩

/-- What a pull shows under a plain name after a call is what the call makes of it. -/
theorem EavHistory.Inv.pull_transact [F64Text.Total] {w : EavHistory}
    (h : EavHistory.Inv registry w) (hsound : registry.Sound) (hnames : registry.OneName)
    (hnext : w.Successive call) (hrow : call.rowPk ≠ call.pk)
    (hcall : Eav.transact registry table w.store call = .ok (st', result))
    (hplain : registry.Plain name) :
    (pull registry st' call.payload.tenantId call.entityId none).lookup name =
      call.recordAfter (pull registry w.store call.payload.tenantId call.entityId none).lookup
        name := by
  have hafter := h.datoms.transact hsound hcall
  by_cases hname : ∃ attrId, registry.getAttrName attrId = some name
  · obtain ⟨attrId, hname⟩ := hname
    have hold : shownOf w.store.items call.pk attrId =
        (pull registry w.store call.payload.tenantId call.entityId none).lookup name := by
      rw [h.datoms.pull_lookup_cell hnames hname]
      rfl
    have hshown := h.datoms.shown_transact hsound hnames hcall (h.fresh hnext) hrow hname hplain
      (pull registry w.store call.payload.tenantId call.entityId none).lookup hold
    rw [if_pos rfl] at hshown
    rw [hafter.pull_lookup_cell hnames hname, ← hshown]
    rfl
  · have hpull : (pull registry st' call.payload.tenantId call.entityId none).lookup name = none := by
      by_contra hsome
      exact hname (hafter.pull_registered hsome)
    rw [hpull]
    by_contra hsome
    obtain ⟨plan, hplan, _⟩ := transact_ok hcall
    apply hname
    apply recordAfter_registered hnames hplan _ (Ne.symm hsome)
    intro hcurrent
    exact h.datoms.pull_registered hcurrent

/-! ### Entities that nothing is known of -/

/-- An update or a delete of an entity that shows nothing fails. -/
theorem DatomStore.transact_missing [F64Text.Total] (h : DatomStore registry st.items)
    (hnames : registry.OneName) {model : EntityModel}
    (hmodel : registry.getModel call.payload.entityType = some model)
    (hop : call.payload.op ≠ .create)
    (hpull : pull registry st call.payload.tenantId call.entityId none = ∅) :
    ∃ detail, Eav.transact registry table st call = .error ⟨.eav002, detail⟩ := by
  have hactive : (readActive registry st call).isEmpty = true := by
    rw [readActive, if_neg hop]
    exact (h.active_isEmpty_iff hnames _ _).mpr hpull
  refine ⟨s!"UPDATE/DELETE sobre entidad inexistente: '{call.entityId}' (tenant '{call.payload.tenantId}') — el motor no hace upsert", ?_⟩
  have hpayload : planPayloadDatoms registry call.payload call.entityId call.txId
      (readActive registry st call) call.nowMs call.actorName =
        .error ⟨.eav002, s!"UPDATE/DELETE sobre entidad inexistente: '{call.entityId}' (tenant '{call.payload.tenantId}') — el motor no hace upsert"⟩ := by
    rw [planPayloadDatoms, if_pos ⟨hop, hactive⟩]
  have hplanned : plannedDatoms registry call (readActive registry st call) =
      .error ⟨.eav002, s!"UPDATE/DELETE sobre entidad inexistente: '{call.entityId}' (tenant '{call.payload.tenantId}') — el motor no hace upsert"⟩ := by
    rw [plannedDatoms, hpayload]
    rfl
  have hplan : planTransact registry table call (readActive registry st call) =
      .error ⟨.eav002, s!"UPDATE/DELETE sobre entidad inexistente: '{call.entityId}' (tenant '{call.payload.tenantId}') — el motor no hace upsert"⟩ := by
    rw [planTransact, hmodel]
    dsimp only
    rw [hplanned]
    rfl
  rw [Eav.transact, hplan]
  rfl

end Cells

/-! ### Runs -/

/-- A history with the records that its calls make, and the partitions of its outbox rows. -/
structure RecordHistory where
  log : EavHistory
  records : String → Record
  rows : List String

namespace RecordHistory

def start : RecordHistory := ⟨EavHistory.start, fun _ _ => none, []⟩

def Successive (w : RecordHistory) (call : TransactCall) : Prop := w.log.Successive call

instance (w : RecordHistory) (call : TransactCall) : Decidable (w.Successive call) :=
  inferInstanceAs (Decidable (w.log.Successive call))

section Run
variable [F64Text] [Derived] [KeyHash] {registry : CodeRegistry} {table : String}

/-- A call on the log; one that succeeds replaces the record of its entity. -/
def step (registry : CodeRegistry) (table : String) (w : RecordHistory) (call : TransactCall) :
    Option RecordHistory :=
  (w.log.step registry table call).map fun log =>
    match transact registry table w.log.store call with
    | .error _ => { w with log := log }
    | .ok _ => {
        log := log
        records := Function.update w.records call.pk (call.recordAfter (w.records call.pk))
        rows := call.rowPk :: w.rows }

/-- The log shows the records. -/
structure Inv (registry : CodeRegistry) (w : RecordHistory) : Prop where
  log : EavHistory.Inv registry w.log
  registered : ∀ pk name, w.records pk name ≠ none → ∃ attrId, registry.getAttrName attrId = some name
  shown : ∀ pk ∉ w.rows, ∀ attrId name, registry.getAttrName attrId = some name →
    registry.Plain name → shownOf w.log.store.items pk attrId = w.records pk name

variable {w w' : RecordHistory}

omit [Derived] [KeyHash] in
theorem Inv.start : Inv registry RecordHistory.start where
  log := EavHistory.Inv.start
  registered := by simp [RecordHistory.start]
  shown := by
    intro pk _ attrId name _ _
    have hcell : cell (∅ : OrdMap PrimaryKey Item) pk attrId = [] := by
      apply List.eq_nil_iff_forall_not_mem.mpr
      intro r hr
      obtain ⟨key, hitem, _⟩ := mem_cell.mp hr
      simp at hitem
    have hnone : shownOf (∅ : OrdMap PrimaryKey Item) pk attrId = none := by
      rw [shownOf, hcell]
      rfl
    exact hnone

theorem Inv.step [F64Text.Total] (hsound : registry.Sound) (hnames : registry.OneName)
    (h : Inv registry w) {call : TransactCall} (hnext : w.Successive call)
    (hstep : w.step registry table call = some w') : Inv registry w' := by
  obtain ⟨log, hlog, hw⟩ := Option.map_eq_some_iff.mp hstep
  have hinv : EavHistory.Inv registry log := h.log.step hsound hnext hlog
  cases hcall : transact registry table w.log.store call with
  | error e =>
    rw [hcall] at hw
    subst hw
    have hstore : log.store = w.log.store := by
      rw [EavHistory.step, hcall] at hlog
      cases hlog
      rfl
    exact ⟨hinv, h.registered, fun pk hpk => by rw [hstore]; exact h.shown pk hpk⟩
  | ok r =>
    obtain ⟨st, result⟩ := r
    rw [hcall] at hw
    dsimp only at hw
    subst hw
    have hstore : log.store = st := by
      rw [EavHistory.step, hcall] at hlog
      cases hlog
      rfl
    obtain ⟨plan, hplan, _⟩ := transact_ok hcall
    constructor
    · exact hinv
    · intro pk name hrecord
      dsimp only at hrecord
      by_cases hpk : pk = call.pk
      · subst hpk
        rw [Function.update_self] at hrecord
        exact recordAfter_registered hnames hplan (h.registered _ _) hrecord
      · rw [Function.update_of_ne hpk] at hrecord
        exact h.registered pk name hrecord
    · intro pk hpk attrId name hname hplain
      obtain ⟨hrow, hold⟩ := not_or.mp (List.mem_cons.not.mp hpk)
      rw [hstore, h.log.datoms.shown_transact hsound hnames hcall (h.log.fresh hnext)
        (Ne.symm hrow) hname hplain (w.records pk) (h.shown pk hold attrId name hname hplain)]
      dsimp only
      by_cases hcallPk : pk = call.pk
      · subst hcallPk
        rw [if_pos rfl, Function.update_self]
      · rw [if_neg hcallPk, Function.update_of_ne hcallPk]

theorem inv_of_run [F64Text.Total] (hsound : registry.Sound) (hnames : registry.OneName)
    (hrun : Foundation.Run (RecordHistory.step registry table) Successive RecordHistory.start w) :
    Inv registry w :=
  hrun.invariant (fun _ _ _ h hg hs => h.step hsound hnames hg hs) Inv.start

end Run
end RecordHistory

section Refinement
variable [F64Text] [F64Text.Total] [Derived] [KeyHash] {registry : CodeRegistry} {table : String}
  {w : RecordHistory}

end Refinement

/-! ### Names that come back -/

/-- What a call carries under a name: a value of the payload, or a system value. -/
def TransactCall.Carries (call : TransactCall) (name : String) (value : DatomValue) : Prop :=
  (call.payload.attrs.get name = some value ∧ value ≠ .null) ∨ (name, value) ∈ call.systemValues

section Carries
variable {registry : CodeRegistry} {table : String}

/-- No name of a payload that is planned is a system name. -/
theorem systemValue_of_planned [F64Text] [Derived] [KeyHash] {call : TransactCall}
    {active : ActiveAttrs} {plan : TransactPlan} (hnames : registry.OneName)
    (hplan : planTransact registry table call active = .ok plan) (hdelete : call.payload.op ≠ .delete)
    {name : String} {value : DatomValue} (hget : call.payload.attrs.get name = some value) :
    call.systemValue name = none := by
  obtain ⟨_, planned, _, _, hplanned, _, _, _⟩ := planTransact_ok hplan
  obtain ⟨datoms, row, hentity, _, rfl⟩ := plannedDatoms_ok hplanned
  obtain ⟨_, ⟨hop, _⟩ | ⟨_, hentity⟩⟩ := planPayloadDatoms_ok hentity
  · exact absurd hop hdelete
  · obtain ⟨parts, hparts, _⟩ := planEntityDatoms_ok hentity
    have hregistered := (mem_written_of_get hnames hparts hget).1
    rw [TransactCall.systemValue, Option.map_eq_none_iff, List.find?_eq_none]
    intro e he hname
    obtain ⟨sysId, hsystem⟩ := systemValues_system he
    exact (hnames.not_system hregistered _ hsystem).1 (by simpa using hname)

/-- After a call the record shows what it carried. -/
theorem recordAfter_of_carries [F64Text] {call : TransactCall} {name : String} {value : DatomValue}
    (hdelete : call.payload.op ≠ .delete) (hcarries : call.Carries name value)
    (hsystem : (call.payload.attrs.get name).isSome = true → call.systemValue name = none)
    (record : Record) : call.recordAfter record name = value.shown := by
  rcases hcarries with ⟨hget, hvalue⟩ | hmem
  · have hnone := hsystem (by rw [hget]; rfl)
    rw [TransactCall.recordAfter, hnone, hget]
    cases hop : call.payload.op with
    | create => exact if_neg hvalue
    | update => exact if_neg hvalue
    | delete => exact absurd hop hdelete
  · have hsome : call.systemValue name = some value := by
      rw [TransactCall.systemValue, find?_of_nodup systemValues_nodup hmem]
      rfl
    rw [TransactCall.recordAfter, hsome]
    cases hop : call.payload.op with
    | create => rfl
    | update => rfl
    | delete => exact absurd hop hdelete

/-- Where no two known names share an id, every id gives its name back, and what a call
writes under two names comes back under both. -/
theorem known_names_come_back [F64Text] [F64Text.Total] [Derived] [KeyHash]
    {models : List EntityModel} (hbuild : CodeRegistry.build models = .ok registry)
    (hnames : NoCollision models) :
    (∀ e ∈ idNames models, registry.getAttrName e.1 = some e.2) ∧
    ∀ (w : EavHistory) (call : TransactCall) (st : MbfPartitionStore) (result : TransactResult),
      Run (EavHistory.step registry table) EavHistory.Successive EavHistory.start w →
      w.Successive call → call.rowPk ≠ call.pk → call.payload.op ≠ .delete →
      transact registry table w.store call = .ok (st, result) →
      ∀ a b u v, a ≠ b → registry.Plain a → registry.Plain b → call.Carries a u → call.Carries b v →
        (pull registry st call.payload.tenantId call.entityId none).lookup a = u.shown ∧
          (pull registry st call.payload.tenantId call.entityId none).lookup b = v.shown := by
  have hone := CodeRegistry.build_oneName hbuild hnames
  have hsound := CodeRegistry.build_sound hbuild
  refine ⟨fun e he => (CodeRegistry.getAttrName_iff hbuild hnames).mpr he, ?_⟩
  intro w call st result hrun hnext hrow hdelete hcall
  have hinv := EavHistory.inv_of_run hsound hrun
  obtain ⟨plan, hplan, _⟩ := transact_ok hcall
  have hone_name {name : String} {value : DatomValue} (hplain : registry.Plain name)
      (hcarries : call.Carries name value) :
      (pull registry st call.payload.tenantId call.entityId none).lookup name = value.shown := by
    have hafter (record : Record) : call.recordAfter record name = value.shown := by
      apply recordAfter_of_carries hdelete hcarries
      intro hsome
      obtain ⟨u, hget⟩ := Option.isSome_iff_exists.mp hsome
      exact systemValue_of_planned hone hplan hdelete hget
    have hne : call.recordAfter (fun _ => none) name ≠ none := by
      rw [hafter]
      exact value.shown_ne_none
    obtain ⟨attrId, hname⟩ := recordAfter_registered hone hplan (fun h => absurd rfl h) hne
    rw [(hinv.datoms.transact hsound hcall).pull_lookup_cell hone hname]
    rw [show asksFor none name = true from rfl, if_pos rfl]
    have hshown := hinv.datoms.shown_transact hsound hone hcall (hinv.fresh hnext) hrow hname hplain
      (fun _ => shownOf w.store.items call.pk attrId) rfl
    rw [if_pos rfl, hafter] at hshown
    exact hshown
  intro a b u v _ ha hb hu hv
  exact ⟨hone_name ha hu, hone_name hb hv⟩

end Carries

/-! ### Notes -/

theorem noteRegistry_plain (name : String) : noteRegistry.Plain name := by
  intro entityType desc hdesc
  have hnote : desc ∈ noteModel.attributes := by
    unfold CodeRegistry.getAttributes CodeRegistry.getModel noteRegistry at hdesc
    rw [OrdMap.lookup_insert] at hdesc
    split_ifs at hdesc with hentity
    · exact hdesc
    · simp at hdesc
  obtain rfl := List.mem_singleton.mp hnote
  exact ⟨fun h => absurd h (by decide), fun h => absurd rfl h⟩

theorem noteModel_noCollision : NoCollision [noteModel] := by
  decide +kernel

abbrev recordStep : RecordHistory → TransactCall → Option RecordHistory :=
  @RecordHistory.step bitsText plainDerived plainHash noteRegistry "metri"

/-- A note comes back with its title and its type. -/
theorem note_title_and_type_come_back :
    ∃ w st result, Run noteStep EavHistory.Successive EavHistory.start w ∧
      @transact bitsText plainDerived plainHash noteRegistry "metri" w.store
        (noteCall .create "e" "a" 1) = .ok (st, result) ∧
      (@pull bitsText noteRegistry st "t" "e" none).lookup "title" = some (.str "a") ∧
      (@pull bitsText noteRegistry st "t" "e" none).lookup "entity/type" = some (.str "note") := by
  have hok : (@transact bitsText plainDerived plainHash noteRegistry "metri" EavHistory.start.store
      (noteCall .create "e" "a" 1)).isOk = true := by
    decide +kernel
  cases hcall : @transact bitsText plainDerived plainHash noteRegistry "metri" EavHistory.start.store
      (noteCall .create "e" "a" 1) with
  | error e =>
    rw [hcall] at hok
    cases hok
  | ok r =>
    obtain ⟨st, result⟩ := r
    refine ⟨EavHistory.start, st, result, Relation.ReflTransGen.refl, hcall, ?_⟩
    exact (@known_names_come_back noteRegistry "metri" bitsText bitsText_total plainDerived plainHash
      [noteModel] CodeRegistry.build_note noteModel_noCollision).2 EavHistory.start
      (noteCall .create "e" "a" 1) st result Relation.ReflTransGen.refl (by decide) (by decide)
      (by decide) hcall "title" "entity/type" (.str "a") (.str "note") (by decide)
      (noteRegistry_plain _) (noteRegistry_plain _) (Or.inl ⟨rfl, by decide⟩) (Or.inr (by decide))

/-- Two attributes whose names have one hash. -/
def scoredModel : EntityModel where
  entity := "work_order_procedure"
  attributes := [{ name := "signed_entity" }, { name := "score", attrType := .number }]

/-- One is shown under the name of the other, and no system name is known by its hash. -/
theorem signed_entity_comes_back_as_score :
    ∃ registry, CodeRegistry.build [scoredModel] = .ok registry ∧
      registry.getAttrName (hashAttrName "signed_entity") = some "score" ∧
      registry.getAttrName (hashAttrName "entity/type") = none := by
  have hbuild : (CodeRegistry.build [scoredModel]).toOption.any (fun registry => decide
      (registry.getAttrName (hashAttrName "signed_entity") = some "score" ∧
        registry.getAttrName (hashAttrName "entity/type") = none)) = true := by
    decide +kernel
  cases h : CodeRegistry.build [scoredModel] with
  | error e =>
    rw [h] at hbuild
    cases hbuild
  | ok registry =>
    rw [h] at hbuild
    exact ⟨registry, rfl, of_decide_eq_true hbuild⟩

/-- The creation of a note without attributes. -/
def blankNote (txId : U64) : TransactCall :=
  let call := noteCall .create "e" "a" txId
  { call with payload := { call.payload with attrs := ⟨[], by simp⟩ } }

end MetriEngine.Eav

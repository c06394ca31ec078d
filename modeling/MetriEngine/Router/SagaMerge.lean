import MetriEngine.Router.Bulk
import MetriEngine.Eav.Records
import MetriEngine.Router.SagaDiff

/-!
# The state that the sagas are planned from

An update plans the jobs of its parent before it commits, from the record as it is with the
payload laid over it. What the record will be is for the planner of datoms to say: the two
agree on an attribute where the payload writes what it spells, and takes nothing back.
-/
namespace MetriEngine.Router
open Foundation Storage Eav Codice

section Merge
variable [Codecs]

/-- The state after the update: what lives today, and the patch. -/
def mergedState (current : EntityMap) (delta : JsonMap) : JsonMap :=
  (datomMapToJson current).insertList (delta.entries.filter fun e => !e.2.isNull)

/-- The jobs of a parent, from the projections that its merged state asks for. -/
def planSagaReconciliation (buildSagaProjections : JsonMap → List SagaProjection)
    (live : List LiveSagaJob) (merged : JsonMap) : SagaReconciliation :=
  planSagas (buildSagaProjections merged) live ((merged.lookup "status").bind JsonValue.asStr)

theorem lookup_mergedState (current : EntityMap) (delta : JsonMap) (name : String) :
    (mergedState current delta).lookup name =
      ((delta.lookup name).filter fun v => !v.isNull).or ((current.lookup name).map datomValueToJson) := by
  have hnodup : ((delta.entries.filter fun e => !e.2.isNull).map Prod.fst).Nodup :=
    List.Nodup.sublist (List.Sublist.map _ List.filter_sublist)
      delta.keys_nodup
  unfold mergedState
  cases hpatch : (delta.lookup name).filter fun v => !v.isNull with
  | some v =>
    obtain ⟨hv, hnull⟩ := Option.filter_eq_some_iff.mp hpatch
    rw [Option.some_or]
    apply OrdMap.lookup_insertList_of_mem _ hnodup
    exact List.mem_filter.mpr ⟨OrdMap.lookup_eq_some.mp hv, hnull⟩
  | none =>
    rw [Option.none_or, OrdMap.lookup_insertList_of_notMem, lookup_datomMapToJson]
    intro hmem
    obtain ⟨e, he, rfl⟩ := List.mem_map.mp hmem
    obtain ⟨hentry, hnull⟩ := List.mem_filter.mp he
    have hlookup : delta.lookup e.1 = some e.2 := OrdMap.lookup_eq_some.mpr hentry
    rw [hlookup, Option.filter_some, if_pos hnull] at hpatch
    cases hpatch

end Merge

/-! ### Updates -/

/-- The transaction of a single update: its entity and its attributes are those of the
payload, as it validates. -/
structure ParentUpdate [F64Text] [Formats] (registry : CodeRegistry) (model : EntityModel)
    (payload : JsonMap) (call : TransactCall) : Prop where
  known : registry.getModel call.payload.entityType = some model
  op : call.payload.op = .update
  entity : extractEntityId payload = some call.entityId
  written : ∃ attrs, validatePayload model (coercePayload model payload) false = .ok attrs ∧
    call.payload.attrs.entries.Perm attrs.entries

/-- Where the merged state tells what the update makes of an attribute: a system attribute
is shown as the engine will write it; a null has nothing to take back; a value is spelled as
it will be shown; and what the model does not know is not in the payload, or already so. -/
def SeesWritten [F64Text] [Codecs] (current : EntityMap) (payload : JsonMap) (call : TransactCall)
    (name : String) : Prop :=
  let raw := (payload.lookup name).filter fun v => !v.isNull
  match call.systemValue name, call.payload.attrs.get name with
  | some v, _ => raw.or ((current.lookup name).map datomValueToJson) = v.shown.map datomValueToJson
  | none, some .null => current.lookup name = none
  | none, some v => raw = v.shown.map datomValueToJson
  | none, none => ∀ val ∈ raw, (current.lookup name).map datomValueToJson = some val

section Updates
variable [F64Text] [Formats] [Codecs] {registry : CodeRegistry} {model : EntityModel}
  {payload : JsonMap} {call : TransactCall}

omit [Codecs] in
/-- A null of the transaction is one of the payload, and so is a value. -/
theorem ParentUpdate.raw (h : ParentUpdate registry model payload call) {name : String} {v : DatomValue}
    (hget : call.payload.attrs.get name = some v) :
    ((payload.lookup name).filter fun val => !val.isNull).isSome = decide (v ≠ .null) := by
  obtain ⟨attrs, hvalid, hperm⟩ := h.written
  have hlookup : attrs.lookup name = some v :=
    OrdMap.lookup_eq_some.mpr (hperm.subset (AttrMap.get_eq_some.mp hget))
  obtain ⟨val, hval, hnull⟩ := validated_value hvalid hlookup
  have hsame := lookup_coercePayload model payload name
  rw [hval, Option.map_some] at hsame
  obtain ⟨raw, hraw, hrawNull⟩ := Option.map_eq_some_iff.mp hsame.symm
  rw [hraw, Option.filter_some, hrawNull]
  by_cases hv : v = .null
  · simp [hnull.mp hv, hv]
  · have hfalse : val.isNull = false := by
      rw [← Bool.not_eq_true]
      exact fun htrue => hv (hnull.mpr htrue)
    simp [hfalse, hv]

/-- What an update makes of an attribute is what the merged state shows of it, just where
the merged state sees it. -/
theorem mergedState_lookup_iff (h : ParentUpdate registry model payload call) (current : EntityMap)
    (name : String) :
    (mergedState current payload).lookup name =
        (call.recordAfter current.lookup name).map datomValueToJson ↔
      SeesWritten current payload call name := by
  rw [lookup_mergedState]
  unfold SeesWritten TransactCall.recordAfter
  rw [h.op]
  dsimp only
  cases hsys : call.systemValue name with
  | some v => rfl
  | none =>
    cases hget : call.payload.attrs.get name with
    | none =>
      dsimp only
      cases hraw : (payload.lookup name).filter fun v => !v.isNull with
      | none => simp
      | some val => simp [eq_comm]
    | some v =>
      have hsome := h.raw hget
      dsimp only
      by_cases hv : v = .null
      · subst hv
        rw [if_pos rfl]
        dsimp only
        have hnone : ((payload.lookup name).filter fun val => !val.isNull) = none := by
          apply Option.not_isSome_iff_eq_none.mp
          rw [hsome]
          simp
        rw [hnone, Option.none_or, Option.map_none, Option.map_eq_none_iff]
      · rw [if_neg hv]
        obtain ⟨raw, hraw⟩ := Option.isSome_iff_exists.mp (hsome.trans (decide_eq_true hv))
        rw [hraw, Option.some_or]
        cases v with
        | null => exact absurd rfl hv
        | _ => rfl

end Updates

section Stored
variable [F64Text] [F64Text.Total] [Derived] [KeyHash] [Formats] [Codecs] {registry : CodeRegistry}
  {table : String}

/-- Name by name, the merged state is the record that a pull shows after the commit just where
it sees what the update writes; where it sees every name, the jobs are those of that record. -/
theorem saga_state_eq_pull_iff {models : List EntityModel} (hbuild : CodeRegistry.build models = .ok registry)
    (hnames : NoCollision models) {w : EavHistory}
    (hrun : Run (EavHistory.step registry table) EavHistory.Successive EavHistory.start w)
    {call : TransactCall} (hnext : w.Successive call) (hrow : call.rowPk ≠ call.pk)
    {model : EntityModel} {payload : JsonMap} (hupdate : ParentUpdate registry model payload call)
    {st : MbfPartitionStore} {result : TransactResult}
    (hcall : transact registry table w.store call = .ok (st, result)) :
    let current := pull registry w.store call.payload.tenantId call.entityId none
    let after := datomMapToJson (pull registry st call.payload.tenantId call.entityId none)
    (∀ name, registry.Plain name → ((mergedState current payload).lookup name = after.lookup name ↔
      SeesWritten current payload call name)) ∧
    ((∀ name, registry.Plain name) →
      (mergedState current payload = after ↔ ∀ name, SeesWritten current payload call name) ∧
      ∀ build live, (∀ name, SeesWritten current payload call name) →
        planSagaReconciliation build live (mergedState current payload) =
          planSagaReconciliation build live after) := by
  intro current after
  have hone := CodeRegistry.build_oneName hbuild hnames
  have hsound := CodeRegistry.build_sound hbuild
  have hinv := EavHistory.inv_of_run hsound hrun
  have hafter {name : String} (hplain : registry.Plain name) :
      after.lookup name = (call.recordAfter current.lookup name).map datomValueToJson := by
    rw [lookup_datomMapToJson, hinv.pull_transact hsound hone hnext hrow hcall hplain]
  have hname {name : String} (hplain : registry.Plain name) :
      (mergedState current payload).lookup name = after.lookup name ↔
        SeesWritten current payload call name := by
    rw [hafter hplain]
    exact mergedState_lookup_iff hupdate current name
  refine ⟨fun name => hname, ?_⟩
  intro hplain
  have hmaps : mergedState current payload = after ↔ ∀ name, SeesWritten current payload call name := by
    constructor
    · intro heq name
      exact (hname (hplain name)).mp (by rw [heq])
    · intro hsees
      apply OrdMap.ext
      intro name
      exact (hname (hplain name)).mpr (hsees name)
  refine ⟨hmaps, ?_⟩
  intro build live hsees
  rw [hmaps.mpr hsees]

end Stored

/-! ### A note -/

/-- The update of a note, with the title that its payload validates to. -/
def noteUpdate (title : DatomValue) : TransactCall :=
  let call := noteCall .update "e" "a" 2
  { call with payload := { call.payload with attrs := ⟨[("title", title)], List.nodup_singleton _⟩ } }

def notePatch (title : JsonValue) : JsonMap :=
  ((∅ : JsonMap).insert "id" (.string "e")).insert "title" title

theorem noteUpdate_of_patch {title : JsonValue} {v : DatomValue}
    (h : ((@validatePayload plainFormats noteModel (@coercePayload bitsText noteModel (notePatch title))
      false).toOption.any fun attrs => decide (attrs.entries = [("title", v)])) = true) :
    @ParentUpdate bitsText plainFormats noteRegistry noteModel (notePatch title) (noteUpdate v) := by
  have hentity : extractEntityId (notePatch title) = some "e" := by
    unfold extractEntityId notePatch
    simp [JsonValue.asStr]
  have hknown : noteRegistry.getModel "note" = some noteModel := by decide +kernel
  refine @ParentUpdate.mk bitsText plainFormats _ _ _ _ hknown rfl hentity ?_
  cases hvalid : @validatePayload plainFormats noteModel (@coercePayload bitsText noteModel (notePatch title))
      false with
  | error e =>
    rw [hvalid] at h
    cases h
  | ok attrs =>
    rw [hvalid] at h
    refine ⟨attrs, rfl, ?_⟩
    have hentries : attrs.entries = [("title", v)] := of_decide_eq_true h
    rw [hentries]
    exact List.Perm.refl _

abbrev noteTransact (st : MbfPartitionStore) (call : TransactCall) :=
  @transact bitsText plainDerived plainHash noteRegistry "metri" st call

abbrev notePull (st : MbfPartitionStore) : EntityMap := @pull bitsText noteRegistry st "t" "e" none

abbrev noteMerged (st : MbfPartitionStore) (title : JsonValue) : JsonMap :=
  @mergedState plainCodecs (notePull st) (notePatch title)

/-- A new title is seen before it is written. -/
theorem renamed_note_is_seen :
    ∃ w st result, Run noteStep EavHistory.Successive EavHistory.start w ∧
      noteTransact w.store (noteUpdate (.str "b")) = .ok (st, result) ∧
      (noteMerged w.store (.string "b")).lookup "title" =
        (@datomMapToJson plainCodecs (notePull st)).lookup "title" := by
  have hexec : (exec noteStep EavHistory.Successive EavHistory.start [noteCall .create "e" "a" 1]).any
      (fun w => decide (w.Successive (noteUpdate (.str "b"))) &&
        (noteTransact w.store (noteUpdate (.str "b"))).isOk) = true := by
    decide +kernel
  obtain ⟨w, hrun, hw⟩ := exists_run_of_exec hexec
  rw [Bool.and_eq_true] at hw
  obtain ⟨hnext, hok⟩ := hw
  cases hcall : noteTransact w.store (noteUpdate (.str "b")) with
  | error e =>
    rw [hcall] at hok
    cases hok
  | ok r =>
    obtain ⟨st, result⟩ := r
    obtain ⟨hname, _⟩ := @saga_state_eq_pull_iff bitsText bitsText_total plainDerived plainHash plainFormats
      plainCodecs noteRegistry "metri" [noteModel] CodeRegistry.build_note noteModel_noCollision w hrun
      (noteUpdate (.str "b")) (of_decide_eq_true hnext) (by decide) noteModel (notePatch (.string "b"))
      (noteUpdate_of_patch (by decide +kernel)) st result hcall
    refine ⟨w, st, result, hrun, hcall, ?_⟩
    apply (hname "title" (noteRegistry_plain "title")).mpr
    change ((notePatch (.string "b")).lookup "title").filter (fun v => !v.isNull) = _
    decide +kernel

/-- A title that is taken back is still planned with. -/
theorem cleared_title_is_still_seen :
    ∃ w st result, Run noteStep EavHistory.Successive EavHistory.start w ∧
      w.Successive (noteUpdate .null) ∧
      @ParentUpdate bitsText plainFormats noteRegistry noteModel (notePatch .null) (noteUpdate .null) ∧
      noteTransact w.store (noteUpdate .null) = .ok (st, result) ∧
      (noteMerged w.store .null).lookup "title" = some (.string "a") ∧
      (@datomMapToJson plainCodecs (notePull st)).lookup "title" = none := by
  have hexec : (exec noteStep EavHistory.Successive EavHistory.start [noteCall .create "e" "a" 1]).any
      (fun w => decide (w.Successive (noteUpdate .null)) &&
        (decide ((noteMerged w.store .null).lookup "title" = some (.string "a")) &&
        (noteTransact w.store (noteUpdate .null)).toOption.any fun r =>
          decide ((@datomMapToJson plainCodecs (notePull r.1)).lookup "title" = none))) = true := by
    decide +kernel
  obtain ⟨w, hrun, hw⟩ := exists_run_of_exec hexec
  simp only [Bool.and_eq_true, decide_eq_true_eq] at hw
  obtain ⟨hnext, hmerged, hafter⟩ := hw
  cases hcall : noteTransact w.store (noteUpdate .null) with
  | error e =>
    rw [hcall] at hafter
    cases hafter
  | ok r =>
    obtain ⟨st, result⟩ := r
    rw [hcall] at hafter
    exact ⟨w, st, result, hrun, hnext, noteUpdate_of_patch (by decide +kernel), hcall, hmerged,
      of_decide_eq_true hafter⟩

end MetriEngine.Router

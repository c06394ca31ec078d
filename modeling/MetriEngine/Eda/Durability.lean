import MetriEngine.Eav.Transact
import MetriEngine.Foundation.Transition
import MetriEngine.Storage.Acknowledgement

/-!
# The outbox in the shared object

A transaction writes its outbox row beside its datoms, and the row is what a later emission
reads. The row lives in memory: a snapshot leaves out every entity that is marked as an outbox
event. An object that carries the datoms of a mutation therefore carries no trace of its event,
and the event is safe only once it has been delivered.

Any number of instances share the object. What S3 does with a request, and what a call had read
of its entity, are inputs.
-/
namespace MetriEngine.Eda
open Foundation Storage Eav

/-- A mutation that generated an outbox row: the datoms of each, as rows. -/
structure OutboxEvent where
  tenantId : String
  outboxId : String
  mutation : List (PrimaryKey × Item)
  row : List (PrimaryKey × Item)

def OutboxEvent.id (event : OutboxEvent) : String × String := (event.tenantId, event.outboxId)

/-- How S3 answers a GET: with what it holds, with a status, or with a body that breaks off. -/
inductive GetOutcome
  | served
  | failed (status : Option ℕ)
  | brokenOff (detail : String)

def GetOutcome.answer (object : Option (MbfObjectPayload VortexBody)) :
    GetOutcome → S3GetAnswer VortexBody
  | .served =>
    match object with
    | some o => .ok (some o.etag) (.ok o.bytes)
    | none => .error (some 404)
  | .failed status => .error status
  | .brokenOff detail => .ok none (.error detail)

/-- What S3 does with the PUT of a flush. -/
structure PutOutcome where
  answer : S3PutAnswer
  executed : Bool
  etag : String
  executed_of_ok : ∀ header, answer = .ok header → executed = true
  refused_of_412 : answer = .error (some 412) → executed = false

def PutOutcome.reply (put : PutOutcome) (remote : Option (MbfObjectPayload VortexBody)) :
    S3PutReply remote none where
  answer := put.answer
  executed := put.executed
  etag := put.etag
  executed_of_ok := put.executed_of_ok
  refused_of_412 := put.refused_of_412
  matched := by simp

/-- The instances, the object they share, the events so far and those that were delivered. -/
structure Fleet (ι : Type) where
  stores : ι → MbfPartitionStore
  object : Option (MbfObjectPayload VortexBody)
  events : List OutboxEvent
  delivered : List (String × String)

inductive FleetAction (ι : Type)
  | write (i : ι) (call : TransactCall) (active : ActiveAttrs) (get : GetOutcome) (nowMs : ℤ)
  | sync (i : ι) (get : GetOutcome) (nowMs : ℤ)
  | flush (i : ι) (touched : List TouchedEntity) (get : GetOutcome) (put : PutOutcome) (nowMs : ℤ)
  | bulk (i : ι) (depth : ℕ)
  | deliver (event : String × String)
  | restart (i : ι)

section System
variable {ι : Type} [DecidableEq ι] [F64Text] [Derived] [KeyHash] (registry : CodeRegistry)
  (client : MbfStorageClient) (table : String)

def rowsOf (datoms : List Datom) : List (PrimaryKey × Item) :=
  (dedupDatomsPorSk datoms).map fun d => (d.key, eavtItem d)

/-- The event of a call, where it generates an outbox row. -/
def eventOf (call : TransactCall) (active : ActiveAttrs) : Option OutboxEvent :=
  match planPayloadDatoms registry call.payload call.entityId call.txId active call.nowMs
      call.actorName, outboxRow registry call with
  | .ok datoms, .ok (some row) =>
    some ⟨call.payload.tenantId, call.mutationUlid, rowsOf datoms, rowsOf row⟩
  | _, _ => none

namespace Fleet

def setStore (w : Fleet ι) (i : ι) (st : MbfPartitionStore) : Fleet ι :=
  { w with stores := Function.update w.stores i st }

/-- The store of an instance after `sync_from_s3`, and whether it failed. -/
def synced (w : Fleet ι) (i : ι) (get : GetOutcome) (nowMs : ℤ) :
    Except DomainError MbfPartitionStore :=
  client.syncFromS3 table ⟨nowMs, get.answer w.object⟩ (w.stores i)

/-- One step of the fleet. The flush of a call is a step of its own. -/
def step (w : Fleet ι) : FleetAction ι → Option (Fleet ι)
  | .write i call active get nowMs =>
    match planTransact registry table call active, w.synced client table i get nowMs with
    | .ok plan, .ok st =>
      match st.transactWrite plan.batch with
      | .ok (st', touched) =>
        some { w.setStore i (st'.addDirty touched) with
          events := w.events ++ (eventOf registry call active).toList }
      | .error _ => some (w.setStore i st)
    | _, _ => some w
  | .sync i get nowMs =>
    match w.synced client table i get nowMs with
    | .ok st => some (w.setStore i st)
    | .error _ => some w
  | .flush i touched get put nowMs =>
    let (_, st, object) := client.flushToS3 table
      ⟨⟨nowMs, get.answer w.object⟩, w.object, put.reply w.object, nowMs⟩ (w.stores i) touched
    some { w.setStore i st with object := object }
  | .bulk i depth => some (w.setStore i { w.stores i with bulkDepth := depth })
  | .deliver event => some { w with delivered := event :: w.delivered }
  | .restart i => some (w.setStore i {})

/-- Fresh instances without an object. -/
def start : Fleet ι := ⟨fun _ => {}, none, [], []⟩

/-! ### The property -/

/-- The object carries the rows, and there are some. -/
def Contains (w : Fleet ι) (rows : List (PrimaryKey × Item)) : Prop :=
  rows ≠ [] ∧ ∀ e ∈ rows, ObjectHolds w.object e

/-- No mutation is in the object without its outbox row, unless its event was delivered. -/
def Durable (w : Fleet ι) : Prop :=
  ∀ event ∈ w.events, w.Contains event.mutation →
    w.Contains event.row ∨ event.id ∈ w.delivered

/-! ### The condition -/

/-- The object carries nothing under the key. -/
def Lacks (w : Fleet ι) (key : PrimaryKey) : Prop :=
  ∀ o ∈ w.object, ∀ snap ∈ o.bytes, key ∉ snap.items.map Prod.fst

instance (w : Fleet ι) (key : PrimaryKey) : Decidable (w.Lacks key) := by
  unfold Lacks
  infer_instance

/-- Whether a flush of the instance replaces the object. -/
def writesObject (w : Fleet ι) (i : ι) (get : GetOutcome) (put : PutOutcome) (nowMs : ℤ) : Bool :=
  put.executed && client.s3Prefix.isSome && decide ((w.stores i).bulkDepth = 0) &&
    (w.synced client table i get nowMs).toBool

/-- The rows of a call are new to the object, and an instance writes the object only when it
holds nothing of a mutation whose event is still to be delivered. -/
def DeliversFirst (w : Fleet ι) : FleetAction ι → Prop
  | .write _ call active _ _ => ∀ event ∈ eventOf registry call active,
    ∀ e ∈ event.mutation, w.Lacks e.1
  | .flush i _ get put nowMs => w.writesObject client table i get put nowMs = true →
    ∀ event ∈ w.events, event.id ∈ w.delivered ∨
      ∀ e ∈ event.mutation, (w.stores i).items.lookup e.1 = none
  | _ => True

instance (w : Fleet ι) (a : FleetAction ι) :
    Decidable (w.DeliversFirst registry client table a) := by
  unfold DeliversFirst
  split <;> infer_instance

end Fleet
end System

/-! ### What a synchronisation and a flush bring -/

section Keys
variable {st : MbfPartitionStore} {key : PrimaryKey}

/-- A key that neither the store nor the object holds stays absent. -/
theorem applyConditionalGet_absent (h : st.items.lookup key = none) (nowMs : ℤ)
    {cond : MbfConditionalGet VortexBody}
    (hcond : ∀ payload snap, cond = .modified payload → payload.bytes = some snap →
      key ∉ snap.items.map Prod.fst) :
    (st.applyConditionalGet nowMs cond).items.lookup key = none := by
  unfold MbfPartitionStore.applyConditionalGet
  cases cond with
  | notModified => exact h
  | notFound =>
    dsimp only
    split_ifs
    · rfl
    · exact h
  | modified payload =>
    obtain ⟨bytes, etag⟩ := payload
    cases bytes with
    | none => exact h
    | some snap =>
      dsimp only
      rw [MbfPartitionStore.applyWireSnapshot_items, MbfPartitionStore.mergeItems_lookup_eq_none]
      exact ⟨h, Or.inr (hcond _ snap rfl rfl)⟩

theorem notMem_toWireSnapshot (h : st.items.lookup key = none) :
    key ∉ st.toWireSnapshot.items.map Prod.fst := by
  intro hmem
  obtain ⟨e, he, rfl⟩ := List.mem_map.mp hmem
  have hentry : (e.1, e.2) ∈ st.items.entries := (List.mem_filter.mp he).1
  rw [OrdMap.lookup_eq_some.mpr hentry] at h
  cases h

variable {ι : Type} {w : Fleet ι} {computeEtag : VortexBody → String} {s3Key : String}
  {get : GetOutcome} {cond : MbfConditionalGet VortexBody}

/-- What S3 serves is what the object carries. -/
theorem fetched_lacks (hlacks : w.Lacks key)
    (h : fetchPartitionIfChanged computeEtag s3Key (get.answer w.object) = .ok cond) :
    ∀ payload snap, cond = .modified payload → payload.bytes = some snap →
      key ∉ snap.items.map Prod.fst := by
  rintro payload snap rfl hbytes
  cases get with
  | served =>
    cases hobject : w.object with
    | none =>
      rw [hobject] at h
      cases h
    | some o =>
      rw [hobject] at h
      cases h
      exact hlacks o hobject snap hbytes
  | failed status =>
    unfold GetOutcome.answer fetchPartitionIfChanged at h
    dsimp only at h
    split at h
    · rename_i heq
      cases heq
    all_goals cases h
  | brokenOff detail => cases h

end Keys

/-! ### Runs -/

section Runs
variable {ι : Type} [DecidableEq ι] [F64Text] [Derived] [KeyHash] {registry : CodeRegistry}
  {client : MbfStorageClient} {table : String} {w w' : Fleet ι}

omit [DecidableEq ι] [F64Text] [Derived] [KeyHash] in
/-- A flush leaves the object, or writes it from the store as the GET left it. -/
theorem flush_object (i : ι) (touched : List TouchedEntity) (get : GetOutcome) (put : PutOutcome)
    (nowMs : ℤ) :
    (client.flushToS3 table ⟨⟨nowMs, get.answer w.object⟩, w.object, put.reply w.object, nowMs⟩
        (w.stores i) touched).2.2 = w.object ∨
      w.writesObject client table i get put nowMs = true ∧
        ∃ s3 cond, fetchPartitionIfChanged client.computeEtag
            (MbfStorageClient.vortexS3Key s3 table) (get.answer w.object) = .ok cond ∧
          (client.flushToS3 table ⟨⟨nowMs, get.answer w.object⟩, w.object, put.reply w.object, nowMs⟩
            (w.stores i) touched).2.2 =
            some ⟨some ((((w.stores i).addDirty touched).applyConditionalGet nowMs
              cond).serializeFlushArtifacts.2), put.etag⟩ := by
  unfold MbfStorageClient.flushToS3
  dsimp only
  split_ifs with hskip
  · exact Or.inl rfl
  · rw [not_or] at hskip
    obtain ⟨hbulk, hs3⟩ := hskip
    have hbulk : ¬ 0 < (w.stores i).bulkDepth := hbulk
    cases hstore : client.s3Prefix with
    | none => exact absurd hstore hs3
    | some s3 =>
      unfold MbfStorageClient.syncFromS3
      rw [hstore]
      dsimp only
      rw [if_neg (show ¬ 0 < ((w.stores i).addDirty touched).bulkDepth from hbulk)]
      cases hfetch : fetchPartitionIfChanged client.computeEtag
          (MbfStorageClient.vortexS3Key s3 table) (get.answer w.object) with
      | error e => exact Or.inl rfl
      | ok cond =>
        cases hexecuted : put.executed with
        | false =>
          left
          change (if put.executed = true then _ else w.object) = w.object
          rw [hexecuted, if_neg (by simp)]
        | true =>
          refine Or.inr ⟨?_, s3, cond, hfetch, ?_⟩
          · unfold Fleet.writesObject Fleet.synced MbfStorageClient.syncFromS3
            rw [hexecuted, hstore]
            dsimp only
            have hzero : (w.stores i).bulkDepth = 0 := by omega
            rw [if_neg hbulk, hfetch, decide_eq_true hzero]
            rfl
          · change (if put.executed = true then _ else w.object) = _
            rw [hexecuted, if_pos rfl]
            rfl

/-- What carries the property along a run: nothing of a mutation whose event is still to be
delivered is in the object. -/
def Fleet.Withheld (w : Fleet ι) : Prop :=
  ∀ event ∈ w.events, event.id ∉ w.delivered → ∀ e ∈ event.mutation, w.Lacks e.1

omit [DecidableEq ι] [F64Text] [Derived] [KeyHash] in
theorem Fleet.Withheld.durable (h : w.Withheld) : w.Durable := by
  intro event hevent hcontains
  by_cases hdelivered : event.id ∈ w.delivered
  · exact Or.inr hdelivered
  · obtain ⟨hne, hall⟩ := hcontains
    obtain ⟨e, he⟩ := List.exists_mem_of_ne_nil _ hne
    obtain ⟨o, snap, hobject, hbytes, hin⟩ := hall e he
    exact absurd (List.mem_map_of_mem hin) (h event hevent hdelivered e he o hobject snap hbytes)

theorem Fleet.Withheld.step (h : w.Withheld) {a : FleetAction ι}
    (hguard : w.DeliversFirst registry client table a)
    (hstep : w.step registry client table a = some w') : w'.Withheld := by
  cases a with
  | write i call active get nowMs =>
    unfold Fleet.step at hstep
    cases hplan : planTransact registry table call active with
    | error e =>
      simp only [hplan, Option.some.injEq] at hstep
      exact hstep ▸ h
    | ok plan =>
      cases hsync : w.synced client table i get nowMs with
      | error e =>
        simp only [hplan, hsync, Option.some.injEq] at hstep
        exact hstep ▸ h
      | ok st =>
        simp only [hplan, hsync] at hstep
        cases hwrite : st.transactWrite plan.batch with
        | error e =>
          simp only [hwrite, Option.some.injEq] at hstep
          exact hstep ▸ h
        | ok result =>
          simp only [hwrite, Option.some.injEq] at hstep
          subst hstep
          intro event hevent hdelivered
          cases List.mem_append.mp hevent with
          | inl hold => exact h event hold hdelivered
          | inr hnew => exact hguard event (Option.mem_toList.mp hnew)
  | sync i get nowMs =>
    unfold Fleet.step at hstep
    cases hsync : w.synced client table i get nowMs with
    | error e =>
      simp only [hsync, Option.some.injEq] at hstep
      exact hstep ▸ h
    | ok st =>
      simp only [hsync, Option.some.injEq] at hstep
      exact hstep ▸ h
  | flush i touched get put nowMs =>
    cases hstep
    intro event hevent hdelivered e he
    cases @flush_object ι client table w i touched get put nowMs with
    | inl hsame =>
      intro o ho snap hbytes
      have ho' := ho
      change o ∈ (client.flushToS3 table _ (w.stores i) touched).2.2 at ho'
      rw [hsame] at ho'
      exact h event hevent hdelivered e he o ho' snap hbytes
    | inr hwritten =>
      obtain ⟨hwrites, s3, cond, hfetch, hobject⟩ := hwritten
      have hheld := (hguard hwrites event hevent).resolve_left hdelivered e he
      have habsent := @applyConditionalGet_absent ((w.stores i).addDirty touched) e.1 hheld nowMs cond
        (fetched_lacks (h event hevent hdelivered e he) hfetch)
      intro o ho snap hbytes
      change o ∈ (client.flushToS3 table _ (w.stores i) touched).2.2 at ho
      rw [hobject] at ho
      cases ho
      cases hbytes
      exact notMem_toWireSnapshot habsent
  | bulk i depth =>
    cases hstep
    exact h
  | deliver event =>
    cases hstep
    intro other hother hdelivered
    exact h other hother fun hin => hdelivered (List.mem_cons_of_mem _ hin)
  | restart i =>
    cases hstep
    exact h

end Runs

/-! ### One note and its event -/

section Notes

instance (remote : Option (MbfObjectPayload VortexBody)) (e : PrimaryKey × Item) :
    Decidable (ObjectHolds remote e) :=
  decidable_of_iff (∃ o ∈ remote, ∃ snap ∈ o.bytes, e ∈ snap.items)
    ⟨fun ⟨o, ho, snap, hsnap, he⟩ => ⟨o, snap, ho, hsnap, he⟩,
      fun ⟨o, snap, ho, hsnap, he⟩ => ⟨o, ho, snap, hsnap, he⟩⟩

instance {ι : Type} (w : Fleet ι) (rows : List (PrimaryKey × Item)) : Decidable (w.Contains rows) :=
  inferInstanceAs (Decidable (_ ∧ _))

instance {ι : Type} (w : Fleet ι) : Decidable w.Durable := by
  unfold Fleet.Durable
  infer_instance

/-- The model of an outbox row. -/
def outboxModel : EntityModel where
  entity := "outbox_event"
  isSystem := true
  attributes := [
    { name := "status", attrType := .enum, options := ["PENDING", "PROCESSING", "FAILED", "DELIVERED"],
      defaultValue := some "PENDING", indexed := true },
    { name := "detail_type", required := true }, { name := "payload", attrType := .json, required := true },
    { name := "retry_count", attrType := .number, defaultValue := some "0" },
    { name := "retry_at", attrType := .epoch, indexed := true },
    { name := "claimed_at", attrType := .epoch, indexed := true },
    { name := "created_at", attrType := .epoch, indexed := true }]

def eventRegistry : CodeRegistry where
  byEntity := noteRegistry.byEntity.insert "outbox_event" outboxModel
  byAttrId := noteRegistry.byAttrId.insertList
    (outboxModel.attributes.map fun desc => (hashAttrName desc.name, desc.name))

/-- A note is created, with an event. -/
def createNote : TransactCall where
  payload := {
    tenantId := "t"
    entityId := some "e"
    entityType := "note"
    attrs := ⟨[("title", .str "a")], by simp⟩
    op := .create
    suppressEvents := false }
  txId := 1
  freshEntityId := "f"
  mutationUlid := "m"
  nowMs := ⟨0, Signed.zero_bounds⟩
  rowMs := ⟨0, Signed.zero_bounds⟩
  metaMs := ⟨0, Signed.zero_bounds⟩

def executedPut : PutOutcome where
  answer := .ok (some "e1")
  executed := true
  etag := "e1"
  executed_of_ok := (servedPut none).executed_of_ok
  refused_of_412 := (servedPut none).refused_of_412

abbrev fleetClient : MbfStorageClient := attachedClient "eav" "mbf" fun _ => "digest"

abbrev fleetStep : Fleet Unit → FleetAction Unit → Option (Fleet Unit) :=
  @Fleet.step Unit _ bitsText plainDerived plainHash eventRegistry fleetClient "eav"

end Notes
end MetriEngine.Eda

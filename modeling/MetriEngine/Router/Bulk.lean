import MetriEngine.Codice.Payload
import MetriEngine.Eav.History

/-!
# Bulk requests

The rows of a request are written in chunks of a hundred. The rows of a chunk run at once,
each on its own: it is prepared, numbered and committed in a transaction of one entity, in
any order with the others and with the commits of other requests. When all have ended their
answers are read in the order of the request, and the first error ends the request.
-/
namespace MetriEngine.Router
open Foundation Storage Eav Codice

/-! ### Requests -/

structure IopContext where
  tenantId : String
  userId : String
  entityType : String
  operation : String
  request : JsonMap

/-- The capital of a letter, of those that can stand in the name of an operation: besides
the small letters of ASCII only the long s has one of them for its capital. -/
def capital (c : Char) : Char := if c = 'ſ' then 'S' else c.toUpper

def parseOp (op : String) : Except DomainError TransactOp :=
  let upper := String.ofList (op.toList.map capital)
  if upper = "CREATE" ∨ upper = "BULK_CREATE" ∨ upper = "UPSERT" then .ok .create
  else if upper = "UPDATE" then .ok .update
  else if upper = "DELETE" then .ok .delete
  else .error ⟨.janusVal001, "Operación no soportada por OLTP: '" ++ upper ++ "'"⟩

def extractEntityId (payload : JsonMap) : Option String :=
  ["entity_id", "id", "ulid"].findSome? fun k => (payload.lookup k).bind JsonValue.asStr

namespace IopContext
variable (ctx : IopContext)

def records : List JsonValue :=
  match ctx.request.lookup "data" with
  | some (.array items) => items
  | _ => []

def suppressEvents : Bool :=
  match ctx.request.lookup "suppress_events" with
  | some (.bool b) => b
  | _ => true

end IopContext

/-! ### Rows -/

/-- What a row draws when it is written: the ids, the times, and the order in which its map
gives the attributes. -/
structure RowDraws where
  entityId : String
  txId : U64
  mutationUlid : String
  nowMs : Signed 64
  rowMs : Signed 64
  metaMs : Signed 64
  order : AttrMap

section Row
variable [Formats] (ctx : IopContext) (model : EntityModel)

/-- The id of a new row: that of the client where the model is the system's. -/
def rowEntityId (rawRecord : JsonMap) (minted : String) : Except DomainError String :=
  match extractEntityId rawRecord with
  | none => .ok minted
  | some id =>
    if model.isSystem then .ok id
    else .error ⟨.janusVal001, "La entidad de negocio no acepta 'id' del cliente:                                  el engine genera el ULID y lo devuelve en entity_id (ADR-006)"⟩

/-- The attributes that a row is written with, from its payload with its codes. -/
def rowAttrs (payload : JsonMap) : Except DomainError EntityMap :=
  validatePayload model (applyDeclaredDefaults model payload) true

/-- The transaction of a row, whatever the operation of the request is. -/
def rowCall (draws : RowDraws) (entityId : String) : TransactCall where
  payload := {
    tenantId := ctx.tenantId
    entityId := some entityId
    entityType := ctx.entityType
    attrs := draws.order
    op := .create
    suppressEvents := ctx.suppressEvents }
  txId := draws.txId
  freshEntityId := draws.entityId
  mutationUlid := draws.mutationUlid
  nowMs := draws.nowMs
  rowMs := draws.rowMs
  metaMs := draws.metaMs
  actor := some ctx.userId

end Row

/-! ### The request -/

inductive RowTask
  | waiting
  | injecting (payload : JsonMap) (scope : Option ScopeContext) (rest : List (String × AutoGenStrategy))
  | finished (result : Except DomainError TransactResult)

structure BulkResponse where
  ingestedCount : ℕ
  outboxCount : ℕ
  entityType : String
  tenantId : String
  channel : String
deriving DecidableEq

/-- A transaction that was committed: the row it is of, if it is one of the request. -/
structure Committed where
  row : Option ℕ
  call : TransactCall
  datoms : List Datom

/-- A request under way. `commits` is kept for the statements alone. -/
structure BulkWorld where
  store : MbfPartitionStore
  tasks : List RowTask
  begun : Bool := false
  collected : ℕ := 0
  ingested : ℕ := 0
  outboxCount : ℕ := 0
  bulkErr : Option DomainError := none
  returned : Option (Except DomainError BulkResponse) := none
  commits : List Committed := []

/-- The first three and the last two steps are those of the routine; a row may fail at any
time, for an error of the storage or a task that dies, and other requests commit. -/
inductive BulkAction
  | beginBatch (outcome : Except DomainError Unit)
  | collect
  | finishBatch (outcome : Except DomainError Unit)
  /-- The locations that a row reads, each as it was then; none where a read failed. -/
  | resolve (i : ℕ) (read : Option (String → ActiveAttrs))
  | inject (i : ℕ) (drawn : ℕ → Fin 36) (nowMs : ℤ)
  | commit (i : ℕ) (draws : RowDraws)
  | fail (i : ℕ) (e : DomainError)
  | other (call : TransactCall)

namespace BulkWorld

def setTask (w : BulkWorld) (i : ℕ) (task : RowTask) : BulkWorld :=
  { w with tasks := w.tasks.set i task }

/-- The rows of the chunk that is running. -/
def chunk (w : BulkWorld) : List RowTask := (w.tasks.drop w.collected).take 100

/-- The task of a row of the running chunk. -/
def running (w : BulkWorld) (i : ℕ) : Option RowTask :=
  if w.begun = true ∧ w.returned = none ∧ w.bulkErr = none ∧ w.collected ≤ i ∧ i < w.collected + 100 then
    w.tasks[i]?
  else none

/-- Reads the answers of a chunk up to the first error. -/
def readResults (w : BulkWorld) : List RowTask → BulkWorld
  | .finished (.ok txRes) :: rest =>
    readResults { w with ingested := w.ingested + 1, outboxCount := w.outboxCount + txRes.outboxCount } rest
  | .finished (.error e) :: _ => { w with bulkErr := some e }
  | _ => w

def isFinished : RowTask → Bool
  | .finished _ => true
  | _ => false

section Step
variable [F64Text] [Derived] [KeyHash] [Formats] (registry : CodeRegistry) (table : String)
  (ctx : IopContext) (model : EntityModel)

/-- Commits a transaction; one that fails changes nothing. -/
def commitCall (w : BulkWorld) (row : Option ℕ) (call : TransactCall) :
    BulkWorld × Except DomainError TransactResult :=
  match planTransact registry table call (readActive registry w.store call),
      transact registry table w.store call with
  | .ok plan, .ok (st, result) =>
    ({ w with store := st, commits := w.commits ++ [⟨row, call, plan.datoms⟩] }, .ok result)
  | _, .error e => (w, .error e)
  | .error e, _ => (w, .error e)

/-- Validates and commits a row that has its codes. -/
def commitRow (w : BulkWorld) (i : ℕ) (rawRecord payload : JsonMap) (draws : RowDraws) : Option BulkWorld :=
  match rowAttrs model payload with
  | .error e => some (w.setTask i (.finished (.error e)))
  | .ok attrs =>
    if draws.order.entries.Perm attrs.entries then
      match rowEntityId model rawRecord draws.entityId with
      | .error e => some (w.setTask i (.finished (.error e)))
      | .ok entityId =>
        let (w', result) := w.commitCall registry table (some i) (rowCall ctx draws entityId)
        some (w'.setTask i (.finished result))
    else none

def step (w : BulkWorld) : BulkAction → Option BulkWorld
  | .beginBatch outcome =>
    if w.begun = true ∨ w.returned.isSome = true then none
    else
      match outcome with
      | .ok () => some { w with begun := true }
      | .error e => some { w with returned := some (.error e) }
  | .collect =>
    if w.begun = true ∧ w.returned = none ∧ w.bulkErr = none ∧ w.collected < w.tasks.length ∧
        w.chunk.all isFinished = true then
      some { w.readResults w.chunk with collected := w.collected + 100 }
    else none
  | .finishBatch outcome =>
    if w.begun = true ∧ w.returned = none ∧ (w.bulkErr.isSome = true ∨ w.tasks.length ≤ w.collected) then
      some { w with returned := some (match w.bulkErr with
        | some e => .error e
        | none => outcome.map fun _ =>
            ⟨w.ingested, w.outboxCount, ctx.entityType, ctx.tenantId, "oltp"⟩) }
    else none
  | .resolve i read =>
    match w.running i, ctx.records[i]? with
    | some .waiting, some record =>
      match record.asObject with
      | none => some (w.setTask i (.finished (.error (notAnObject model))))
      | some rawRecord =>
        let coerced := coercePayload model rawRecord
        some (w.setTask i (.injecting coerced
          (read.bind fun attrsOf => resolveScopeContext attrsOf model coerced) (autoGenerateAttrs model)))
    | _, _ => none
  | .inject i drawn nowMs =>
    match w.running i with
    | some (.injecting payload scope (attr :: rest)) =>
      let (st, enriched) := injectAttr w.store model ctx.tenantId scope drawn nowMs payload attr
      some ({ w with store := st }.setTask i (.injecting enriched scope rest))
    | _ => none
  | .commit i draws =>
    match w.running i, (ctx.records[i]?).bind JsonValue.asObject with
    | some (.injecting payload _ []), some rawRecord =>
      w.commitRow registry table ctx model i rawRecord payload draws
    | _, _ => none
  | .fail i e =>
    match w.running i with
    | some (.finished _) | none => none
    | some _ => some (w.setTask i (.finished (.error e)))
  | .other call => some (w.commitCall registry table none call).1

end Step

def start (st : MbfPartitionStore) (records : List JsonValue) : BulkWorld where
  store := st
  tasks := records.map fun _ => .waiting

/-- The request as the channel takes it: a model of the registry and an operation. -/
def route (registry : CodeRegistry) (ctx : IopContext) (st : MbfPartitionStore) :
    Except DomainError (EntityModel × BulkWorld) :=
  match registry.getModel ctx.entityType with
  | none => .error ⟨.jns001, "[OltpChannel] Entidad desconocida en Códice: '" ++ ctx.entityType ++ "'"⟩
  | some model => (parseOp ctx.operation).map fun _ => (model, start st ctx.records)

/-! ### Tasks -/

def outboxOf : RowTask → ℕ
  | .finished (.ok result) => result.outboxCount
  | _ => 0

def Stored : RowTask → Prop
  | .finished (.ok _) => True
  | _ => False

section Tasks
variable {w : BulkWorld}

theorem running_eq_some {i : ℕ} {task : RowTask} (h : w.running i = some task) :
    w.returned = none ∧ w.bulkErr = none ∧ w.collected ≤ i ∧ w.tasks[i]? = some task := by
  unfold running at h
  split_ifs at h with hcond
  obtain ⟨_, hreturned, herr, hle, _⟩ := hcond
  exact ⟨hreturned, herr, hle, h⟩

theorem lookup_setTask {i j : ℕ} {task task' : RowTask} (h : (w.setTask i task).tasks[j]? = some task') :
    (j = i ∧ task' = task) ∨ (j ≠ i ∧ w.tasks[j]? = some task') := by
  change (w.tasks.set i task)[j]? = some task' at h
  rw [List.getElem?_set] at h
  split_ifs at h with hij hlt
  · exact Or.inl ⟨hij.symm, (Option.some.inj h).symm⟩
  · exact Or.inr ⟨fun heq => hij heq.symm, h⟩

/-- The answers of a chunk without an error are all good, and counted. -/
theorem readResults_eq {l : List RowTask} (hdone : l.all isFinished = true) (herr : w.bulkErr = none) :
    ∃ n m e, w.readResults l = { w with ingested := n, outboxCount := m, bulkErr := e } ∧
      (e = none → (∀ task ∈ l, Stored task) ∧ n = w.ingested + l.length ∧
        m = w.outboxCount + (l.map outboxOf).sum) := by
  induction l generalizing w with
  | nil =>
    refine ⟨w.ingested, w.outboxCount, w.bulkErr, rfl, ?_⟩
    intro _
    simp
  | cons task rest ih =>
    rw [List.all_cons, Bool.and_eq_true] at hdone
    obtain ⟨hfinished, hrest⟩ := hdone
    cases task with
    | waiting => cases hfinished
    | injecting => cases hfinished
    | finished result =>
      cases result with
      | error e =>
        refine ⟨w.ingested, w.outboxCount, some e, rfl, ?_⟩
        intro h
        cases h
      | ok txRes =>
        obtain ⟨n, m, e, heq, hcounts⟩ := @ih
          { w with ingested := w.ingested + 1, outboxCount := w.outboxCount + txRes.outboxCount } hrest herr
        refine ⟨n, m, e, heq, ?_⟩
        intro he
        obtain ⟨hall, hn, hm⟩ := hcounts he
        refine ⟨?_, ?_, ?_⟩
        · intro task' htask'
          rcases List.mem_cons.mp htask' with rfl | htask'
          · trivial
          · exact hall task' htask'
        · rw [List.length_cons]
          dsimp only at hn
          omega
        · rw [List.map_cons, List.sum_cons]
          dsimp only at hm
          change m = w.outboxCount + (txRes.outboxCount + (rest.map outboxOf).sum)
          omega

end Tasks
end BulkWorld

/-! ### What a commit leaves -/

section Log
variable [F64Text] [Derived] [KeyHash] {registry : CodeRegistry} {table : String}
  {st st' : MbfPartitionStore} {call : TransactCall} {result : TransactResult}

/-- A commit adds the datoms of its plan, none of which was there, and changes nothing else
of the log. -/
theorem transact_log (h : transact registry table st call = .ok (st', result)) :
    ∃ plan, planTransact registry table call (readActive registry st call) = .ok plan ∧
      plan.result = result ∧
      (∀ d ∈ plan.datoms, st.items.lookup d.key = none ∧ st'.items.lookup d.key = some (eavtItem d)) ∧
      ∀ key : PrimaryKey, key.sk.length = 11 → (∀ d ∈ plan.datoms, d.key ≠ key) →
        st'.items.lookup key = st.items.lookup key := by
  obtain ⟨plan, hplan, hvalid, hresult, hitems⟩ := transact_ok h
  refine ⟨plan, hplan, hresult, ?_, ?_⟩
  · intro d hd
    constructor
    · obtain ⟨_, _, _, _, _, _, hbatch, _⟩ := planTransact_ok hplan
      have hput : (extractPkSk (eavtItem d), ⟨table, eavtItem d, some appendOnly, ∅⟩) ∈
          batchPuts plan.batch := by
        apply List.mem_map.mpr
        refine ⟨⟨table, eavtItem d, some appendOnly, ∅⟩, List.mem_filterMap.mpr ?_, rfl⟩
        refine ⟨⟨some ⟨table, eavtItem d, some appendOnly, ∅⟩⟩, ?_, rfl⟩
        rw [hbatch]
        exact List.mem_append_left _ (List.mem_append_left _ (List.mem_map_of_mem hd))
      exact hvalid.holds _ hput d.key (extractPkSk_eavtItem d)
    · rw [hitems]
      apply OrdMap.lookup_insertList_of_mem _ hvalid.keys_nodup
      exact (mem_batchItems_planTransact hplan (by simp [Datom.key, Datom.eavtSk])).mpr ⟨d, hd, rfl⟩
  · intro key hlength hnone
    rw [hitems]
    apply OrdMap.lookup_insertList_of_notMem
    intro hmem
    obtain ⟨e, he, rfl⟩ := List.mem_map.mp hmem
    obtain ⟨d, hd, rfl⟩ := (mem_batchItems_planTransact hplan hlength).mp he
    exact hnone d hd rfl

namespace BulkWorld
variable {w : BulkWorld}

/-- The log is what it was with the datoms of the commits. -/
structure Logged (st : MbfPartitionStore) (w : BulkWorld) : Prop where
  whole : ∀ c ∈ w.commits, ∀ d ∈ c.datoms, w.store.items.lookup d.key = some (eavtItem d)
  nothingElse : ∀ key : PrimaryKey, key.sk.length = 11 → (∀ c ∈ w.commits, ∀ d ∈ c.datoms, d.key ≠ key) →
    w.store.items.lookup key = st.items.lookup key

theorem Logged.commit (h : Logged st w) {call : TransactCall} {row : Option ℕ} {st' : MbfPartitionStore}
    {plan : TransactPlan} {result : TransactResult}
    (hcall : transact registry table w.store call = .ok (st', result))
    (hplan : planTransact registry table call (readActive registry w.store call) = .ok plan) :
    Logged st { w with store := st', commits := w.commits ++ [⟨row, call, plan.datoms⟩] } := by
  obtain ⟨plan', hplan', _, hnew, hkeep⟩ := transact_log hcall
  obtain rfl := Except.ok.inj (hplan'.symm.trans hplan)
  constructor
  · intro c hc d hd
    rcases List.mem_append.mp hc with hc | hc
    · have hhere := h.whole c hc d hd
      have hapart : ∀ d' ∈ plan'.datoms, d'.key ≠ d.key := by
        intro d' hd' heq
        have habsent := (hnew d' hd').1
        rw [heq, hhere] at habsent
        cases habsent
      exact (hkeep d.key (by simp [Datom.key, Datom.eavtSk]) hapart).trans hhere
    · obtain rfl := List.mem_singleton.mp hc
      exact (hnew d hd).2
  · intro key hlength hnone
    rw [hkeep key hlength fun d hd => hnone ⟨row, call, plan'.datoms⟩ (by simp) d hd]
    exact h.nothingElse key hlength fun c hc => hnone c (List.mem_append_left _ hc)

/-- A commit of the row, of another request, or none. -/
theorem commitCall_cases {row : Option ℕ} {call : TransactCall} :
    (∃ e, w.commitCall registry table row call = (w, .error e)) ∨
      ∃ plan st' result, transact registry table w.store call = .ok (st', result) ∧
        planTransact registry table call (readActive registry w.store call) = .ok plan ∧
        plan.result = result ∧
        w.commitCall registry table row call =
          ({ w with store := st', commits := w.commits ++ [⟨row, call, plan.datoms⟩] }, .ok result) := by
  unfold commitCall
  cases hcall : transact registry table w.store call with
  | error e => cases planTransact registry table call (readActive registry w.store call) <;>
      exact Or.inl ⟨e, rfl⟩
  | ok r =>
    obtain ⟨st', result⟩ := r
    obtain ⟨plan, hplan, hresult, _, _⟩ := transact_log hcall
    rw [hplan]
    exact Or.inr ⟨plan, st', result, rfl, rfl, hresult, rfl⟩

end BulkWorld
end Log

/-- The codes of a row leave the log as it is, and what the row has. -/
theorem injectAttr_keeps {st : MbfPartitionStore} {model : EntityModel} {tenantId : String}
    {scope : Option ScopeContext} {drawn : ℕ → Fin 36} {nowMs : ℤ} {payload : JsonMap}
    {attr : String × AutoGenStrategy} :
    (∀ key : PrimaryKey, key.sk.length = 11 →
      (injectAttr st model tenantId scope drawn nowMs payload attr).1.items.lookup key =
        st.items.lookup key) ∧
    ∀ name val, payload.lookup name = some val →
      (injectAttr st model tenantId scope drawn nowMs payload attr).2.lookup name = some val := by
  unfold injectAttr
  split_ifs with hhas
  · exact ⟨fun _ _ => rfl, fun _ _ h => h⟩
  · have hkept {code : JsonValue} (name : String) (val : JsonValue) (h : payload.lookup name = some val) :
        (payload.insert attr.1 code).lookup name = some val := by
      rw [OrdMap.lookup_insert_of_ne _ _ ?_, h]
      rintro rfl
      exact hhas (OrdMap.contains_iff.mpr ⟨val, h⟩)
    cases attr.2 with
    | stochasticBase36 codePrefix length => exact ⟨fun _ _ => rfl, hkept⟩
    | sequential config =>
      refine ⟨?_, hkept⟩
      intro key hlength
      apply OrdMap.lookup_insert_of_ne
      rintro rfl
      cases hlength

end MetriEngine.Router

import MetriEngine.Eav.Constraints
import MetriEngine.Eav.Reader

/-!
# A transaction of the writer

A call reads the active attributes of its entity, plans its datoms, its outbox row, its
entry in the transaction log and its claims from them, and commits all in one batch.
-/
namespace MetriEngine.Eav
open Foundation Storage

/-- What a call is given and what it draws: its transaction id, the ids of a new entity
and of the mutation, and the three times it reads the clock. -/
structure TransactCall where
  payload : TransactPayload
  txId : U64
  freshEntityId : String
  mutationUlid : String
  nowMs : Signed 64
  rowMs : Signed 64
  metaMs : Signed 64
  actor : Option String := none

namespace TransactCall
variable (call : TransactCall)

def entityId : String := call.payload.entityId.getD call.freshEntityId

def actorName : String := call.actor.getD "system"

end TransactCall

structure TransactResult where
  entityId : String
  txId : U64
  datoms : ℕ
  outboxCount : ℕ
  mutationUlid : String
deriving DecidableEq

/-- A planned mutation: the batch, and the answer once it is committed. -/
structure TransactPlan where
  datoms : List Datom
  batch : List TransactWriteItem
  result : TransactResult

/-! ### One datom a key -/

/-- The storage key of a datom within its transaction's tenant. -/
def Datom.slot (d : Datom) : String × U16 × U64 × Bool := (d.entityId, d.attrId, d.txId, d.op)

/-- Takes a datom into a list: in the place of one with its key, else at the end. -/
def dedupInto (unique : List Datom) (d : Datom) : List Datom :=
  if unique.any fun u => u.slot = d.slot then unique.map fun u => if u.slot = d.slot then d else u
  else unique ++ [d]

/-- `dedup_datoms_por_sk`: the last datom of a key wins. -/
def dedupDatomsPorSk (datoms : List Datom) : List Datom := datoms.foldl dedupInto []

/-! ### The transaction log -/

def TransactOp.logName : TransactOp → String
  | .create => "CREATE"
  | .update => "UPDATE"
  | .delete => "DELETE"

def txLogPk (tenantId : String) : String := "T#" ++ tenantId ++ "#TX"

def txRegistryItem (table : String) (call : TransactCall) : TransactWriteItem where
  put := some {
    tableName := table
    item := ((((((∅ : Item).insert "PK" (.s (txLogPk call.payload.tenantId))).insert
      "SK" (.b (beBytes 8 call.txId.val))).insert "actor" (.s call.actorName)).insert
      "entity_type" (.s call.payload.entityType)).insert "entity_id" (.s call.entityId)).insert
      "op" (.s call.payload.op.logName)
    conditionExpression := some appendOnly
    expressionAttributeValues := ∅ }

/-! ### The call -/

section Transact
variable [F64Text] [Derived] [KeyHash] (registry : CodeRegistry) (table : String)

/-- The datoms of the outbox row, unless the payload suppresses events. -/
def outboxRow (call : TransactCall) : Except DomainError (Option (List Datom)) :=
  if call.payload.suppressEvents then .ok none
  else generateOutboxDatoms registry call.payload call.entityId call.txId call.mutationUlid
    call.rowMs call.metaMs call.actorName

/-- The datoms of a call, of the entity and of its outbox row, and how many outbox rows. -/
def plannedDatoms (call : TransactCall) (active : ActiveAttrs) :
    Except DomainError (List Datom × ℕ) := do
  let datoms ← planPayloadDatoms registry call.payload call.entityId call.txId active call.nowMs
    call.actorName
  let row ← outboxRow registry call
  return (datoms ++ row.getD [], if row.isSome then 1 else 0)

def constraintContext (call : TransactCall) (model : EntityModel) : ConstraintContext where
  tenantId := call.payload.tenantId
  entityId := call.entityId
  model := model
  attrs := call.payload.attrs
  op := call.payload.op
  table := table

/-- What a call commits, from the active attributes it read. -/
def planTransact (call : TransactCall) (active : ActiveAttrs) : Except DomainError TransactPlan :=
  match registry.getModel call.payload.entityType with
  | none => .error ⟨.eav004, s!"entity_type '{call.payload.entityType}' no en registry"⟩
  | some model => do
    let (planned, outboxCount) ← plannedDatoms registry call active
    let datoms := dedupDatomsPorSk planned
    return {
      datoms := datoms
      batch := buildWriteItems table datoms ++ [txRegistryItem table call] ++
        planClaimsPara (constraintContext table call model)
      result := ⟨call.entityId, call.txId, datoms.length, outboxCount, call.mutationUlid⟩ }

/-- What a call reads before it plans: nothing, for a create. -/
def readActive (st : MbfPartitionStore) (call : TransactCall) : ActiveAttrs :=
  if call.payload.op = .create then ∅
  else getActiveAttributes registry st call.payload.tenantId call.entityId

/-- `transact_inner`, from the read to the commit without another call in between. -/
def transact (st : MbfPartitionStore) (call : TransactCall) :
    Except DomainError (MbfPartitionStore × TransactResult) := do
  let plan ← planTransact registry table call (readActive registry st call)
  let (st', _) ← st.transactWrite plan.batch
  return (st', plan.result)

end Transact

/-! ### What a call commits -/

theorem mem_dedupInto {unique : List Datom} {d u : Datom} (h : u ∈ dedupInto unique d) :
    u ∈ unique ∨ u = d := by
  unfold dedupInto at h
  split_ifs at h
  · obtain ⟨u', hu', rfl⟩ := List.mem_map.mp h
    split_ifs
    · exact Or.inr rfl
    · exact Or.inl hu'
  · simpa using h

theorem mem_foldl_dedupInto {datoms unique : List Datom} {u : Datom}
    (h : u ∈ datoms.foldl dedupInto unique) : u ∈ unique ∨ u ∈ datoms := by
  induction datoms generalizing unique with
  | nil => exact Or.inl h
  | cons d rest ih =>
    rcases ih h with hmem | hmem
    · rcases mem_dedupInto hmem with hmem | rfl
      · exact Or.inl hmem
      · exact Or.inr List.mem_cons_self
    · exact Or.inr (List.mem_cons_of_mem _ hmem)

theorem mem_dedupDatomsPorSk {datoms : List Datom} {u : Datom}
    (h : u ∈ dedupDatomsPorSk datoms) : u ∈ datoms := by
  rcases mem_foldl_dedupInto h with hmem | hmem
  · cases hmem
  · exact hmem

theorem batchItems_append (a b : List TransactWriteItem) :
    batchItems (a ++ b) = batchItems a ++ batchItems b := by
  simp [batchItems, batchPuts]

theorem batchItems_buildWriteItems [F64Text] (table : String) (datoms : List Datom) :
    batchItems (buildWriteItems table datoms) = datoms.map fun d => (d.key, eavtItem d) := by
  induction datoms with
  | nil => rfl
  | cons d rest ih =>
    rw [buildWriteItems, List.map_cons, List.map_cons, ← ih]
    simp [batchItems, batchPuts, extractPkSk_eavtItem, buildWriteItems]

theorem extractPkSk_txRegistryItem (table : String) (call : TransactCall) :
    ∃ item, batchItems [txRegistryItem table call] =
      [(⟨txLogPk call.payload.tenantId, beBytes 8 call.txId.val⟩, item)] := by
  simp [batchItems, batchPuts, txRegistryItem, extractPkSk, extractIndexKey, avString]

section Commit
variable {registry : CodeRegistry} {call : TransactCall} {active : ActiveAttrs}

/-- A datom of the entity's plan or of the plan of its outbox row. -/
def TransactCall.Plans (registry : CodeRegistry) (call : TransactCall) (active : ActiveAttrs)
    (d : Datom) : Prop :=
  Planned registry ⟨call.payload.tenantId, call.payload.entityType, call.entityId, call.txId⟩
      active d ∨
    Planned registry ⟨call.payload.tenantId, "outbox_event", call.mutationUlid, call.txId⟩ ∅ d

theorem TransactCall.Plans.txId {d : Datom} (h : call.Plans registry active d) :
    d.txId = call.txId := by
  rcases h with h | h
  · exact h.txId
  · exact h.txId

theorem plans_plannedDatoms [Derived] {datoms : List Datom} {n : ℕ}
    (hplan : plannedDatoms registry call active = .ok (datoms, n)) {d : Datom} (h : d ∈ datoms) :
    call.Plans registry active d := by
  unfold plannedDatoms at hplan
  cases hentity : planPayloadDatoms registry call.payload call.entityId call.txId active call.nowMs
      call.actorName with
  | error e =>
    rw [hentity] at hplan
    cases hplan
  | ok entityDatoms =>
    rw [hentity] at hplan
    cases hrow : outboxRow registry call with
    | error e =>
      rw [hrow] at hplan
      cases hplan
    | ok row =>
      rw [hrow] at hplan
      cases hplan
      rcases List.mem_append.mp h with h | h
      · exact Or.inl (planned_planPayloadDatoms hentity h)
      · cases row with
        | none => cases h
        | some row =>
          unfold outboxRow at hrow
          split_ifs at hrow
          · cases hrow
          · exact Or.inr (planned_generateOutboxDatoms hrow h)

variable [F64Text] [Derived] [KeyHash] {table : String} {st st' : MbfPartitionStore}
  {plan : TransactPlan} {result : TransactResult}

/-- The datoms, the batch and the answer of a plan. -/
theorem planTransact_ok (h : planTransact registry table call active = .ok plan) :
    ∃ (model : EntityModel) (planned : List Datom) (outboxCount : ℕ),
      registry.getModel call.payload.entityType = some model ∧
      plannedDatoms registry call active = .ok (planned, outboxCount) ∧
      plan.datoms = dedupDatomsPorSk planned ∧
      plan.batch = buildWriteItems table plan.datoms ++ [txRegistryItem table call] ++
        planClaimsPara (constraintContext table call model) ∧
      plan.result = ⟨call.entityId, call.txId, plan.datoms.length, outboxCount,
        call.mutationUlid⟩ := by
  unfold planTransact at h
  cases hmodel : registry.getModel call.payload.entityType with
  | none =>
    rw [hmodel] at h
    cases h
  | some model =>
    rw [hmodel] at h
    cases hplanned : plannedDatoms registry call active with
    | error e =>
      rw [hplanned] at h
      cases h
    | ok p =>
      rw [hplanned] at h
      cases h
      exact ⟨model, p.1, p.2, rfl, rfl, rfl, rfl, rfl⟩

theorem plans_planTransact (hplan : planTransact registry table call active = .ok plan) {d : Datom}
    (h : d ∈ plan.datoms) : call.Plans registry active d := by
  obtain ⟨_, planned, _, _, hplanned, hdatoms, _, _⟩ := planTransact_ok hplan
  rw [hdatoms] at h
  exact plans_plannedDatoms hplanned (mem_dedupDatomsPorSk h)

/-- The entries of the log that a batch writes are its datoms: the transaction log and
the claims have shorter keys. -/
theorem mem_batchItems_planTransact (hplan : planTransact registry table call active = .ok plan)
    {e : PrimaryKey × Item} (hlength : e.1.sk.length = 11) :
    e ∈ batchItems plan.batch ↔ ∃ d ∈ plan.datoms, e = (d.key, eavtItem d) := by
  obtain ⟨model, _, _, _, _, _, hbatch, _⟩ := planTransact_ok hplan
  obtain ⟨item, htx⟩ := extractPkSk_txRegistryItem table call
  rw [hbatch, batchItems_append, batchItems_append, batchItems_buildWriteItems, htx,
    List.mem_append, List.mem_append, List.mem_map, List.mem_singleton]
  constructor
  · rintro ((⟨d, hd, rfl⟩ | rfl) | hclaim)
    · exact ⟨d, hd, rfl⟩
    · simp at hlength
    · rw [batchItems_eq] at hclaim
      obtain ⟨p, hp, hpe⟩ := List.mem_filterMap.mp hclaim
      obtain ⟨put, hput, rfl⟩ := List.mem_map.mp hp
      obtain ⟨txItem, htxItem, hsome⟩ := List.mem_filterMap.mp hput
      obtain ⟨put', hput', rfl⟩ := mem_planClaimsPara htxItem
      obtain rfl := Option.some.inj hsome
      obtain ⟨_, c, _, hbuild⟩ := mem_planClaims hput'
      obtain ⟨huella, _, rfl⟩ := buildClaimItem_eq_some hbuild
      rw [extractPkSk_claimPut] at hpe
      cases hpe
      have hclaim : claimSk.length = 11 := hlength
      exact absurd hclaim (by decide)
  · rintro ⟨d, hd, rfl⟩
    exact Or.inl (Or.inl ⟨d, hd, rfl⟩)

/-- A call that succeeds adds the items of its plan to those that were there. -/
theorem transact_ok (h : transact registry table st call = .ok (st', result)) :
    ∃ plan, planTransact registry table call (readActive registry st call) = .ok plan ∧
      BatchValid st.items plan.batch ∧ plan.result = result ∧
      st'.items = st.items.insertList (batchItems plan.batch) := by
  unfold transact at h
  cases hplan : planTransact registry table call (readActive registry st call) with
  | error e =>
    rw [hplan] at h
    cases h
  | ok plan =>
    rw [hplan] at h
    cases hwrite : st.transactWrite plan.batch with
    | error e =>
      simp only [bind, Except.bind, hwrite] at h
      cases h
    | ok r =>
      simp only [bind, Except.bind, hwrite] at h
      cases h
      exact ⟨plan, rfl, MbfPartitionStore.transactWrite_isOk_iff.mp ⟨_, hwrite⟩, rfl,
        MbfPartitionStore.transactWrite_items hwrite⟩

/-- A call leaves the log entries of every other transaction as they were. -/
theorem transact_lookup_of_ne (h : transact registry table st call = .ok (st', result))
    {key : PrimaryKey} {attrId : U16} {txId : U64} {op : Bool}
    (hkey : key.sk = buildEavtSk attrId txId op) (htx : txId ≠ call.txId) :
    st'.items.lookup key = st.items.lookup key := by
  obtain ⟨plan, hplan, _, _, hitems⟩ := transact_ok h
  rw [hitems]
  apply OrdMap.lookup_insertList_of_notMem
  intro hmem
  obtain ⟨e, he, rfl⟩ := List.mem_map.mp hmem
  obtain ⟨d, hd, rfl⟩ := (mem_batchItems_planTransact hplan (by rw [hkey]; simp)).mp he
  have hsk : buildEavtSk d.attrId d.txId d.op = buildEavtSk attrId txId op := hkey
  obtain ⟨_, hdtx, _⟩ := buildEavtSk_inj.mp hsk
  exact htx (hdtx.symm.trans (plans_planTransact hplan hd).txId)

end Commit
end MetriEngine.Eav

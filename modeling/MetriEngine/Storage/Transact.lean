import MetriEngine.Storage.IndexInvariant

/-!
# The transactional batch

The section of `transact_write` under the partition lock: a loop that checks
every put against the items as they are and stages it, then the marking of the
entities it touches, then the commit of what was staged.
-/
namespace MetriEngine.Storage
open Foundation

/-- `(tenant, entity type, entity id)` -/
abbrev TouchedEntity := String × String × String

/-! ### The loop -/

def eidOf (item : Item) : Option String := (item.lookup "eid").bind avString

def selfOf (put : Put) : Option String :=
  (put.expressionAttributeValues.lookup ":self").bind avString

def checkCondition (items : OrdMap PrimaryKey Item) (key : PrimaryKey) (put : Put) :
    Except DomainError Unit :=
  match MbfWriteCondition.parse put.conditionExpression with
  | .unconditional => .ok ()
  | .appendOnlyLogUnique =>
    if items.contains key then
      .error ⟨.eavTx004,
        s!"Conflict in append-only MBF log on key ({key.pk}, {debugBytes key.sk})"⟩
    else .ok ()
  | .uniqueClaimKey =>
    if items.contains key then
      .error ⟨.cod001,
        s!"Violación de restricción unique: la clave {key.pk} ya está reclamada"⟩
    else .ok ()
  | .uniqueEntitySelfOrUnclaimed =>
    match items.lookup key with
    | some existing =>
      if eidOf existing ≠ selfOf put then
        .error ⟨.cod001,
          s!"Violación de restricción unique en UPDATE: la clave {key.pk} pertenece a otra entidad"⟩
      else .ok ()
    | none => .ok ()

/-- The tenant of a transaction log key `T#tenant#TX`. -/
def txLogTenant (pk : String) : Option String :=
  if Text.startsWith pk "T#" && Text.endsWith pk "#TX" && decide (5 < (utf8 pk).length) then
    some (String.ofList ((pk.toList.drop 2).dropLast.dropLast.dropLast))
  else none

/-- The entity that a put touches: named by a transaction log item, or by the
datom that gives an entity its type. -/
def touchedEntity (key : PrimaryKey) (item : Item) : Option TouchedEntity :=
  match txLogTenant key.pk with
  | some tenant => do
    let entityType ← (item.lookup "entity_type").bind avString
    let entityId ← (item.lookup "entity_id").bind avString
    return (tenant, entityType, entityId)
  | none => do
    let ap ← (item.lookup "ap").bind avString
    if Text.contains ap "#A#entity/type#" || Text.endsWith ap "#A#entity/type" then
      let entityType ← (item.lookup "v").bind avString
      let (tenant, entityId) ← tenantEntity key.pk
      return (tenant, entityType, entityId)
    else none

/-- What the loop leaves for the commit, or the first error it meets. -/
def stageBatch (items : OrdMap PrimaryKey Item) :
    Finset PrimaryKey → List TransactWriteItem →
      Except DomainError (List (PrimaryKey × Item) × List TouchedEntity)
  | _, [] => .ok ([], [])
  | seenKeys, txItem :: rest =>
    match txItem.put with
    | none => stageBatch items seenKeys rest
    | some put =>
      match extractPkSk put.item with
      | none => .error ⟨.eav001, "TransactWriteItem missing PK"⟩
      | some key =>
        if key ∈ seenKeys then .error ⟨.eav001, s!"Duplicate key in transaction: {key.pk}"⟩
        else do
          checkCondition items key put
          let (staged, touched) ← stageBatch items (insert key seenKeys) rest
          return ((key, put.item) :: staged, (touchedEntity key put.item).toList ++ touched)

namespace MbfPartitionStore

/-- Marks the entities that a batch touches and that are not to be searched. -/
def markTouched (st : MbfPartitionStore) (touched : List TouchedEntity) : MbfPartitionStore :=
  touched.foldl (fun st t => st.markEntity s!"T#{t.1}#E#{t.2.2}" t.2.1) st

def insertAll (st : MbfPartitionStore) (staged : List (PrimaryKey × Item)) : MbfPartitionStore :=
  staged.foldl (fun st e => st.insertIndexed e.1 e.2) st

/-- The section of `transact_write` under the partition lock. -/
def transactWrite (st : MbfPartitionStore) (batch : List TransactWriteItem) :
    Except DomainError (MbfPartitionStore × List TouchedEntity) :=
  (stageBatch st.items ∅ batch).map fun r => ((st.markTouched r.2).insertAll r.1, r.2)

end MbfPartitionStore

/-! ### What a batch asks for -/

/-- The puts of a batch with their keys; a put without `PK` has none. -/
def batchPuts (batch : List TransactWriteItem) : List (Option PrimaryKey × Put) :=
  (batch.filterMap TransactWriteItem.put).map fun put => (extractPkSk put.item, put)

/-- The items of a batch under their keys, in batch order. -/
def batchItems (batch : List TransactWriteItem) : List (PrimaryKey × Item) :=
  (batchPuts batch).filterMap fun p => p.1.map fun key => (key, p.2.item)

/-- The truth of a write condition over the items. -/
def MbfWriteCondition.Holds (items : OrdMap PrimaryKey Item) (key : PrimaryKey) (put : Put) :
    MbfWriteCondition → Prop
  | .unconditional => True
  | .appendOnlyLogUnique => items.lookup key = none
  | .uniqueClaimKey => items.lookup key = none
  | .uniqueEntitySelfOrUnclaimed =>
    ∀ existing, items.lookup key = some existing → eidOf existing = selfOf put

/-- The condition that a put carries holds in the given items. -/
def Put.ConditionHolds (items : OrdMap PrimaryKey Item) (key : PrimaryKey) (put : Put) : Prop :=
  (MbfWriteCondition.parse put.conditionExpression).Holds items key put

/-- Every put has a key, no key occurs twice, and every condition holds. -/
structure BatchValid (items : OrdMap PrimaryKey Item) (batch : List TransactWriteItem) : Prop where
  hasPk : ∀ p ∈ batchPuts batch, p.1 ≠ none
  nodup : ((batchPuts batch).map Prod.fst).Nodup
  holds : ∀ p ∈ batchPuts batch, ∀ key, p.1 = some key → p.2.ConditionHolds items key

section Batch
variable {items : OrdMap PrimaryKey Item} {batch : List TransactWriteItem}

theorem checkCondition_ok_iff {key : PrimaryKey} {put : Put} :
    checkCondition items key put = .ok () ↔ put.ConditionHolds items key := by
  unfold checkCondition Put.ConditionHolds
  cases MbfWriteCondition.parse put.conditionExpression with
  | unconditional => simp [MbfWriteCondition.Holds]
  | appendOnlyLogUnique => cases h : items.lookup key <;> simp [MbfWriteCondition.Holds, OrdMap.contains, h]
  | uniqueClaimKey => cases h : items.lookup key <;> simp [MbfWriteCondition.Holds, OrdMap.contains, h]
  | uniqueEntitySelfOrUnclaimed =>
    cases h : items.lookup key with
    | none => simp [MbfWriteCondition.Holds, h]
    | some existing => by_cases heq : eidOf existing = selfOf put <;> simp [MbfWriteCondition.Holds, h, heq]

theorem batchPuts_cons_none {txItem : TransactWriteItem} (h : txItem.put = none) :
    batchPuts (txItem :: batch) = batchPuts batch := by
  simp [batchPuts, h]

theorem batchPuts_cons_some {txItem : TransactWriteItem} {put : Put} (h : txItem.put = some put) :
    batchPuts (txItem :: batch) = (extractPkSk put.item, put) :: batchPuts batch := by
  simp [batchPuts, h]

theorem batchItems_eq (batch : List TransactWriteItem) :
    batchItems batch =
      (batchPuts batch).filterMap fun p => p.1.map fun key => (key, p.2.item) := rfl

theorem batchValid_nil : BatchValid items [] := by
  constructor <;> simp [batchPuts]

theorem batchValid_cons_none {txItem : TransactWriteItem} (h : txItem.put = none) :
    BatchValid items (txItem :: batch) ↔ BatchValid items batch := by
  constructor <;> intro hv <;> constructor
  · exact batchPuts_cons_none h ▸ hv.hasPk
  · exact batchPuts_cons_none h ▸ hv.nodup
  · exact batchPuts_cons_none h ▸ hv.holds
  · exact (batchPuts_cons_none h).symm ▸ hv.hasPk
  · exact (batchPuts_cons_none h).symm ▸ hv.nodup
  · exact (batchPuts_cons_none h).symm ▸ hv.holds

theorem batchValid_cons_some {txItem : TransactWriteItem} {put : Put} {key : PrimaryKey}
    (h : txItem.put = some put) (hkey : extractPkSk put.item = some key) :
    BatchValid items (txItem :: batch) ↔
      put.ConditionHolds items key ∧ (∀ p ∈ batchPuts batch, p.1 ≠ some key) ∧
        BatchValid items batch := by
  have hputs : batchPuts (txItem :: batch) = _ := batchPuts_cons_some h
  rw [hkey] at hputs
  constructor
  · intro hv
    have hpk := hputs ▸ hv.hasPk
    have hnd := hputs ▸ hv.nodup
    have hholds := hputs ▸ hv.holds
    rw [List.map_cons, List.nodup_cons] at hnd
    refine ⟨hholds _ List.mem_cons_self key rfl, ?_, ?_⟩
    · intro p hp heq
      exact hnd.1 (List.mem_map.mpr ⟨p, hp, heq⟩)
    · exact ⟨fun p hp => hpk p (List.mem_cons_of_mem _ hp), hnd.2,
        fun p hp => hholds p (List.mem_cons_of_mem _ hp)⟩
  · rintro ⟨hcond, hfresh, hv⟩
    constructor
    · rw [hputs]
      intro p hp
      rcases List.mem_cons.mp hp with rfl | hp
      · simp
      · exact hv.hasPk p hp
    · rw [hputs, List.map_cons, List.nodup_cons]
      refine ⟨?_, hv.nodup⟩
      intro hmem
      obtain ⟨p, hp, heq⟩ := List.mem_map.mp hmem
      exact hfresh p hp heq
    · rw [hputs]
      intro p hp key' hkey'
      rcases List.mem_cons.mp hp with rfl | hp
      · cases hkey'
        exact hcond
      · exact hv.holds p hp key' hkey'

/-! One round of the loop, by what it finds. -/

section Round
variable {seenKeys : Finset PrimaryKey} {txItem : TransactWriteItem} {put : Put}
  {key : PrimaryKey}

theorem stageBatch_skip (hput : txItem.put = none) :
    stageBatch items seenKeys (txItem :: batch) = stageBatch items seenKeys batch := by
  simp [stageBatch, hput]

theorem stageBatch_missing (hput : txItem.put = some put) (hkey : extractPkSk put.item = none) :
    stageBatch items seenKeys (txItem :: batch) =
      .error ⟨.eav001, "TransactWriteItem missing PK"⟩ := by
  simp [stageBatch, hput, hkey]

theorem stageBatch_duplicate (hput : txItem.put = some put)
    (hkey : extractPkSk put.item = some key) (hseen : key ∈ seenKeys) :
    stageBatch items seenKeys (txItem :: batch) =
      .error ⟨.eav001, s!"Duplicate key in transaction: {key.pk}"⟩ := by
  simp [stageBatch, hput, hkey, hseen]

theorem stageBatch_check (hput : txItem.put = some put)
    (hkey : extractPkSk put.item = some key) (hseen : key ∉ seenKeys) :
    stageBatch items seenKeys (txItem :: batch) =
      (checkCondition items key put).bind fun _ =>
        (stageBatch items (insert key seenKeys) batch).map fun r =>
          ((key, put.item) :: r.1, (touchedEntity key put.item).toList ++ r.2) := by
  rw [stageBatch, hput]
  dsimp only
  rw [hkey]
  dsimp only
  rw [if_neg hseen]
  cases checkCondition items key put with
  | error e => rfl
  | ok u => cases stageBatch items (insert key seenKeys) batch <;> rfl

end Round

/-- The loop stages the whole batch in order, and only ever that. -/
theorem stageBatch_staged {seenKeys : Finset PrimaryKey}
    {r : List (PrimaryKey × Item) × List TouchedEntity}
    (h : stageBatch items seenKeys batch = .ok r) :
    r = (batchItems batch, (batchItems batch).filterMap fun e => touchedEntity e.1 e.2) := by
  induction batch generalizing seenKeys r with
  | nil =>
    cases h
    rfl
  | cons txItem rest ih =>
    cases hput : txItem.put with
    | none =>
      rw [stageBatch_skip hput] at h
      rw [batchItems_eq, batchPuts_cons_none hput]
      exact ih h
    | some put =>
      cases hkey : extractPkSk put.item with
      | none => simp [stageBatch_missing hput hkey] at h
      | some key =>
        by_cases hseen : key ∈ seenKeys
        · simp [stageBatch_duplicate hput hkey hseen] at h
        · rw [stageBatch_check hput hkey hseen] at h
          cases hcond : checkCondition items key put with
          | error e => simp [hcond, Except.bind] at h
          | ok u =>
            cases hrest : stageBatch items (insert key seenKeys) rest with
            | error e => simp [hcond, hrest, Except.bind, Except.map] at h
            | ok r' =>
              have hitems : batchItems (txItem :: rest) = (key, put.item) :: batchItems rest := by
                simp [batchItems_eq, batchPuts_cons_some hput, hkey]
              simp only [hcond, hrest, Except.bind, Except.map, Except.ok.injEq] at h
              rw [← h, ih hrest, hitems]
              cases ht : touchedEntity key put.item <;> simp [ht]

/-- The loop succeeds exactly on the valid batches whose keys are not seen yet. -/
theorem stageBatch_isOk_iff {seenKeys : Finset PrimaryKey} :
    (∃ r, stageBatch items seenKeys batch = .ok r) ↔
      BatchValid items batch ∧
        ∀ p ∈ batchPuts batch, ∀ key, p.1 = some key → key ∉ seenKeys := by
  induction batch generalizing seenKeys with
  | nil => simp [stageBatch, batchValid_nil, batchPuts]
  | cons txItem rest ih =>
    cases hput : txItem.put with
    | none =>
      rw [stageBatch_skip hput, batchValid_cons_none hput, batchPuts_cons_none hput]
      exact ih
    | some put =>
      cases hkey : extractPkSk put.item with
      | none =>
        have hmem : (none, put) ∈ batchPuts (txItem :: rest) := by
          rw [batchPuts_cons_some hput, hkey]
          exact List.mem_cons_self
        have hinvalid : ¬ BatchValid items (txItem :: rest) := fun hv => hv.hasPk _ hmem rfl
        simp [stageBatch_missing hput hkey, hinvalid]
      | some key =>
        have hputs : batchPuts (txItem :: rest) = _ := batchPuts_cons_some hput
        rw [hkey] at hputs
        rw [batchValid_cons_some hput hkey, hputs, ← checkCondition_ok_iff]
        by_cases hseen : key ∈ seenKeys
        · simp [stageBatch_duplicate hput hkey hseen, hseen]
        · rw [stageBatch_check hput hkey hseen]
          cases hcond : checkCondition items key put with
          | error e => simp [Except.bind]
          | ok u =>
            have hstep : (∃ r, ((stageBatch items (insert key seenKeys) rest).map fun r =>
                ((key, put.item) :: r.1, (touchedEntity key put.item).toList ++ r.2)) = .ok r) ↔
                ∃ r, stageBatch items (insert key seenKeys) rest = .ok r := by
              cases stageBatch items (insert key seenKeys) rest <;> simp [Except.map]
            simp only [Except.bind, hstep, ih, Finset.mem_insert, not_or, List.forall_mem_cons,
              Option.some.injEq, forall_eq', hseen, not_false_eq_true, true_and]
            constructor
            · rintro ⟨hv, hfresh⟩
              refine ⟨⟨fun p hp heq => (hfresh p hp key heq).1 rfl, hv⟩, ?_⟩
              exact fun p hp k hk => (hfresh p hp k hk).2
            · rintro ⟨⟨hne, hv⟩, hfresh⟩
              refine ⟨hv, fun p hp k hk => ⟨?_, hfresh p hp k hk⟩⟩
              rintro rfl
              exact hne p hp hk

end Batch

/-! ### The commit -/

namespace MbfPartitionStore
variable (st : MbfPartitionStore)

theorem markTouched_items (touched : List TouchedEntity) :
    (st.markTouched touched).items = st.items := by
  unfold markTouched
  induction touched generalizing st with
  | nil => rfl
  | cons t touched ih => rw [List.foldl_cons, ih, markEntity_items]

theorem insertAll_items (staged : List (PrimaryKey × Item)) :
    (st.insertAll staged).items = st.items.insertList staged := by
  unfold insertAll
  induction staged generalizing st with
  | nil => rfl
  | cons e staged ih => rw [List.foldl_cons, ih, insertIndexed_items, OrdMap.insertList_cons]

theorem markTouched_ledger (touched : List TouchedEntity) :
    SameLedger st (st.markTouched touched) :=
  SameLedger.foldl (fun st _ => st.markEntity_ledger _ _) touched st

theorem insertAll_ledger (staged : List (PrimaryKey × Item)) :
    SameLedger st (st.insertAll staged) :=
  SameLedger.foldl (fun st _ => st.insertIndexed_ledger _ _) staged st

variable {st} {batch : List TransactWriteItem}

theorem transactWrite_isOk_iff :
    (∃ r, st.transactWrite batch = .ok r) ↔ BatchValid st.items batch := by
  have hstage : (∃ r, stageBatch st.items ∅ batch = .ok r) ↔ BatchValid st.items batch := by
    rw [stageBatch_isOk_iff]
    simp
  rw [← hstage, transactWrite]
  cases stageBatch st.items ∅ batch <;> simp [Except.map]

/-- What a batch that passed the loop leaves in the store. -/
theorem transactWrite_ok {st' : MbfPartitionStore} {touched : List TouchedEntity}
    (h : st.transactWrite batch = .ok (st', touched)) :
    touched = ((batchItems batch).filterMap fun e => touchedEntity e.1 e.2) ∧
      st' = (st.markTouched touched).insertAll (batchItems batch) := by
  unfold transactWrite at h
  cases hstage : stageBatch st.items ∅ batch with
  | error e => simp [hstage, Except.map] at h
  | ok r =>
    simp only [hstage, Except.map, Except.ok.injEq, Prod.mk.injEq] at h
    obtain ⟨rfl, rfl⟩ := h
    have hr := stageBatch_staged hstage
    simp [hr]

theorem transactWrite_items {st' : MbfPartitionStore} {touched : List TouchedEntity}
    (h : st.transactWrite batch = .ok (st', touched)) :
    st'.items = st.items.insertList (batchItems batch) := by
  rw [(transactWrite_ok h).2, insertAll_items, markTouched_items]

theorem transactWrite_ledger {st' : MbfPartitionStore} {touched : List TouchedEntity}
    (h : st.transactWrite batch = .ok (st', touched)) : SameLedger st st' := by
  rw [(transactWrite_ok h).2]
  exact (st.markTouched_ledger touched).trans (insertAll_ledger _ _)

end MbfPartitionStore

namespace IndexExact
variable {st : MbfPartitionStore}

theorem markTouched (h : IndexExact st) (touched : List TouchedEntity) :
    IndexExact (st.markTouched touched) := by
  unfold MbfPartitionStore.markTouched
  induction touched generalizing st with
  | nil => exact h
  | cons t touched ih => exact ih (h.markEntity _ _)

theorem insertAll (h : IndexExact st) (staged : List (PrimaryKey × Item)) :
    IndexExact (st.insertAll staged) := by
  unfold MbfPartitionStore.insertAll
  induction staged generalizing st with
  | nil => exact h
  | cons e staged ih => exact ih (h.insertIndexed _ _)

theorem transactWrite (h : IndexExact st) {batch : List TransactWriteItem}
    {st' : MbfPartitionStore} {touched : List TouchedEntity}
    (hok : st.transactWrite batch = .ok (st', touched)) : IndexExact st' := by
  rw [(MbfPartitionStore.transactWrite_ok hok).2]
  exact (h.markTouched touched).insertAll _

end IndexExact
end MetriEngine.Storage

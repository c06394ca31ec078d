import MetriEngine.Storage.Transact

/-!
# The operations of the storage client, under the partition lock

Every operation synchronises, runs one section under the partition lock, and
flushes if that section changed something. This module holds the sections. A
clock reading is an argument; `i64` additions wrap.
-/
namespace MetriEngine.Storage
open Foundation

/-- `entry(name).or_insert(value)` -/
def orInsert (item : Item) (name : String) (value : AttributeValue) : Item :=
  if item.contains name then item else item.insert name value

/-- The key of a sequence: its code, with an empty sort key. -/
def sequenceKey (seqCode : String) : PrimaryKey := ⟨seqCode, []⟩

namespace MbfPartitionStore
variable (st : MbfPartitionStore)

/-! ### Items -/

def putItem (item : Item) : Except DomainError MbfPartitionStore :=
  match extractPkSk item with
  | some key => .ok (st.insertIndexed key item)
  | none => .error ⟨.eav001, "Missing PK in MBF put_item"⟩

def deleteItem (key : PrimaryKey) : MbfPartitionStore := st.removeIndexed key

def batchWriteItem (writeRequests : List WriteRequest) : MbfPartitionStore :=
  st.insertAll (writeRequests.filterMap fun req => do
    let putReq ← req.putRequest
    let key ← extractPkSk putReq.item
    return (key, putReq.item))

/-! ### Sequences -/

/-- The item of a sequence, or the given one where there is none. -/
def sequenceEntry (seqCode : String) (fresh : Item) : Item :=
  (st.items.lookup (sequenceKey seqCode)).getD fresh

/-- An edit in place: the trees are not told. -/
def setSequence (seqCode : String) (item : Item) : MbfPartitionStore :=
  { st with items := st.items.insert (sequenceKey seqCode) item }

def sequenceIncrement (seqCode tenantId : String) (nowMs : ℤ) : MbfPartitionStore × ℤ :=
  let entry := st.sequenceEntry seqCode
    (((∅ : Item).insert "PK" (.s seqCode)).insert "tenant_id" (.s tenantId))
  let current := (currentValue entry).getD 0
  let nextVal := wrapI64 (current + 1)
  let entry := entry.insert "current_value" (.n (toString nextVal))
  let entry := orInsert entry "tenant_id" (.s tenantId)
  let entry := entry.insert "updated_at" (.n (toString nowMs))
  (st.setSequence seqCode entry, nextVal)

/-- Whether a stored value is already at or past the one asked for. -/
def alreadyAt (seqCode : String) (target : ℤ) : Bool :=
  match (st.items.lookup (sequenceKey seqCode)).bind currentValue with
  | some current => current ≥ target
  | none => false

def sequenceConfigUpsert (seqCode tenantId seqPrefix : String) (padding : ℕ)
    (scopeResolution : String) (setCurrentValue : Option ℤ) (nowMs : ℤ) :
    Option MbfPartitionStore :=
  if setCurrentValue.any (st.alreadyAt seqCode) then none
  else
    let entry := st.sequenceEntry seqCode ((∅ : Item).insert "PK" (.s seqCode))
    let entry := entry.insert "prefix" (.s seqPrefix)
    let entry := entry.insert "padding" (.n (toString padding))
    let entry := entry.insert "scope_resolution" (.s scopeResolution)
    let entry := entry.insert "tenant_id" (.s tenantId)
    let entry := entry.insert "updated_at" (.n (toString nowMs))
    let entry := match setCurrentValue with
      | some target => entry.insert "current_value" (.n (toString target))
      | none => orInsert entry "current_value" (.n "0")
    some (st.setSequence seqCode entry)

def sequenceScopedSet (scopedCode tenantId : String) (targetValue nowMs : ℤ) :
    Option MbfPartitionStore :=
  if st.alreadyAt scopedCode targetValue then none
  else
    let entry := st.sequenceEntry scopedCode ((∅ : Item).insert "PK" (.s scopedCode))
    let entry := entry.insert "current_value" (.n (toString targetValue))
    let entry := entry.insert "tenant_id" (.s tenantId)
    let entry := entry.insert "updated_at" (.n (toString nowMs))
    some (st.setSequence scopedCode entry)

/-! ### Quotas -/

/-- Whether the debit is allowed, and the counter's value after the decision. -/
def quotaTryDebit (tenantId quotaId : String) (amount maxLimit seed : ℤ) :
    Option MbfPartitionStore × ℤ :=
  let key := toLex (tenantId, quotaId)
  let current := (st.quotaCounters.lookup key).getD seed
  if current ≥ maxLimit then (none, current)
  else
    let next := wrapI64 (current + amount)
    (some { st with quotaCounters := st.quotaCounters.insert key next }, next)

def quotaSettle (tenantId quotaId : String) (delta : ℤ) : MbfPartitionStore × ℤ :=
  let key := toLex (tenantId, quotaId)
  let current := (st.quotaCounters.lookup key).getD 0
  let next := max (wrapI64 (current + delta)) 0
  ({ st with quotaCounters := st.quotaCounters.insert key next }, next)

def quotaSettleOnce (tenantId quotaId : String) (delta : ℤ) (idemKey : String) :
    Option MbfPartitionStore :=
  let ikey := toLex (tenantId, idemKey)
  if st.quotaIdem.contains ikey then none
  else
    let st := (st.quotaSettle tenantId quotaId delta).1
    some { st with quotaIdem := st.quotaIdem.insert ikey (quotaId, delta) }

end MbfPartitionStore

/-! ### All of them -/

inductive StoreOp
  | putItem (item : Item)
  | getItem (key : PrimaryKey)
  | deleteItem (key : PrimaryKey)
  | transactWrite (batch : List TransactWriteItem)
  | batchWriteItem (writeRequests : List WriteRequest)
  | sequenceIncrement (seqCode tenantId : String)
  | sequenceConfigUpsert (seqCode tenantId seqPrefix : String) (padding : ℕ)
      (scopeResolution : String) (setCurrentValue : Option ℤ)
  | sequenceScopedSet (scopedCode tenantId : String) (targetValue : ℤ)
  | quotaTryDebit (tenantId quotaId : String) (amount maxLimit seed : ℤ)
  | quotaSettle (tenantId quotaId : String) (delta : ℤ)
  | quotaSettleOnce (tenantId quotaId : String) (delta : ℤ) (idemKey : String)
deriving DecidableEq

inductive Reply
  | unit
  | found (item : Option Item)
  | number (value : ℤ)
  | flag (value : Bool)
  | debited (allowed : Bool) (value : ℤ)
deriving DecidableEq

/-- What the section under the lock leads to: an answer at once, or a changed
store that is to be flushed before `reply` is given. -/
inductive Outcome
  | answered (result : Except DomainError Reply)
  | changed (st : MbfPartitionStore) (touched : List TouchedEntity) (reply : Reply)

namespace StoreOp

/-- The section of each operation under the partition lock. -/
def commit (op : StoreOp) (st : MbfPartitionStore) (nowMs : ℤ) : Outcome :=
  match op with
  | putItem item =>
    match st.putItem item with
    | .ok st' => .changed st' [] .unit
    | .error e => .answered (.error e)
  | getItem key => .answered (.ok (.found (st.items.lookup key)))
  | deleteItem key => .changed (st.deleteItem key) [] .unit
  | transactWrite batch =>
    match st.transactWrite batch with
    | .ok (st', touched) => .changed st' touched .unit
    | .error e => .answered (.error e)
  | batchWriteItem writeRequests => .changed (st.batchWriteItem writeRequests) [] .unit
  | sequenceIncrement seqCode tenantId =>
    let (st', nextVal) := st.sequenceIncrement seqCode tenantId nowMs
    .changed st' [] (.number nextVal)
  | sequenceConfigUpsert seqCode tenantId seqPrefix padding scopeResolution setCurrentValue =>
    match st.sequenceConfigUpsert seqCode tenantId seqPrefix padding scopeResolution
        setCurrentValue nowMs with
    | some st' => .changed st' [] (.flag true)
    | none => .answered (.ok (.flag false))
  | sequenceScopedSet scopedCode tenantId targetValue =>
    match st.sequenceScopedSet scopedCode tenantId targetValue nowMs with
    | some st' => .changed st' [] (.flag true)
    | none => .answered (.ok (.flag false))
  | quotaTryDebit tenantId quotaId amount maxLimit seed =>
    match st.quotaTryDebit tenantId quotaId amount maxLimit seed with
    | (some st', value) => .changed st' [] (.debited true value)
    | (none, value) => .answered (.ok (.debited false value))
  | quotaSettle tenantId quotaId delta =>
    let (st', next) := st.quotaSettle tenantId quotaId delta
    .changed st' [] (.number next)
  | quotaSettleOnce tenantId quotaId delta idemKey =>
    match st.quotaSettleOnce tenantId quotaId delta idemKey with
    | some st' => .changed st' [] (.flag true)
    | none => .answered (.ok (.flag false))

/-- An empty batch returns before it synchronises. -/
def returnsAtOnce : StoreOp → Bool
  | transactWrite batch => batch.isEmpty
  | batchWriteItem writeRequests => writeRequests.isEmpty
  | _ => false

/-- Reads synchronise only when their copy is old, writes always. -/
def forcesSync : StoreOp → Bool
  | getItem _ => false
  | _ => true

end StoreOp

/-! ### The keys that a section writes -/

namespace StoreOp

/-- The keys whose item a section may insert, replace or remove. -/
def writtenKeys : StoreOp → List PrimaryKey
  | putItem item => (extractPkSk item).toList
  | deleteItem key => [key]
  | transactWrite batch => (batchItems batch).map Prod.fst
  | batchWriteItem writeRequests =>
    writeRequests.filterMap fun req => req.putRequest.bind fun putReq => extractPkSk putReq.item
  | sequenceIncrement seqCode _ => [sequenceKey seqCode]
  | sequenceConfigUpsert seqCode .. => [sequenceKey seqCode]
  | sequenceScopedSet scopedCode .. => [sequenceKey scopedCode]
  | _ => []

/-- Whether a section removes the key. -/
def deletes (op : StoreOp) (key : PrimaryKey) : Bool :=
  match op with
  | deleteItem key' => key' = key
  | _ => false

section Items
variable {op : StoreOp} {st st' : MbfPartitionStore} {nowMs : ℤ}
  {touched : List TouchedEntity} {reply : Reply}

/-- A section removes one key, or inserts items under the keys it writes. -/
theorem commit_items (hop : op.commit st nowMs = .changed st' touched reply) :
    (∃ key, op = .deleteItem key ∧ st'.items = st.items.erase key) ∨
      ∃ staged, st'.items = st.items.insertList staged ∧
        ∀ e ∈ staged, e.1 ∈ op.writtenKeys := by
  have hset (seqCode : String) (item : Item) : (st.setSequence seqCode item).items =
      st.items.insertList [(sequenceKey seqCode, item)] := rfl
  cases op with
  | putItem item =>
    simp only [commit, MbfPartitionStore.putItem] at hop
    cases hkey : extractPkSk item with
    | none => simp [hkey] at hop
    | some key =>
      simp only [hkey, Outcome.changed.injEq] at hop
      refine Or.inr ⟨[(key, item)], ?_, by simp [writtenKeys, hkey]⟩
      rw [← hop.1, MbfPartitionStore.insertIndexed_items]
      rfl
  | getItem key => simp [commit] at hop
  | deleteItem key =>
    simp only [commit, Outcome.changed.injEq] at hop
    exact Or.inl ⟨key, rfl, hop.1 ▸ st.removeIndexed_items key⟩
  | transactWrite batch =>
    simp only [commit] at hop
    cases htx : st.transactWrite batch with
    | error e => simp [htx] at hop
    | ok r =>
      simp only [htx, Outcome.changed.injEq] at hop
      exact Or.inr ⟨batchItems batch, hop.1 ▸ MbfPartitionStore.transactWrite_items htx,
        fun e he => List.mem_map.mpr ⟨e, he, rfl⟩⟩
  | batchWriteItem writeRequests =>
    simp only [commit, MbfPartitionStore.batchWriteItem, Outcome.changed.injEq] at hop
    refine Or.inr ⟨_, hop.1 ▸ st.insertAll_items _, ?_⟩
    intro e he
    obtain ⟨req, hreq, he⟩ := List.mem_filterMap.mp he
    refine List.mem_filterMap.mpr ⟨req, hreq, ?_⟩
    obtain ⟨putReq, hput, he⟩ := Option.bind_eq_some_iff.mp he
    obtain ⟨key, hkey, he⟩ := Option.bind_eq_some_iff.mp he
    cases he
    exact Option.bind_eq_some_iff.mpr ⟨putReq, hput, hkey⟩
  | sequenceIncrement seqCode tenantId =>
    simp only [commit, MbfPartitionStore.sequenceIncrement, Outcome.changed.injEq] at hop
    exact Or.inr ⟨_, hop.1 ▸ hset seqCode _, by simp [writtenKeys]⟩
  | sequenceConfigUpsert seqCode tenantId seqPrefix padding scopeResolution setCurrentValue =>
    simp only [commit, MbfPartitionStore.sequenceConfigUpsert] at hop
    split_ifs at hop
    simp only [Outcome.changed.injEq] at hop
    exact Or.inr ⟨_, hop.1 ▸ hset seqCode _, by simp [writtenKeys]⟩
  | sequenceScopedSet scopedCode tenantId targetValue =>
    simp only [commit, MbfPartitionStore.sequenceScopedSet] at hop
    split_ifs at hop
    simp only [Outcome.changed.injEq] at hop
    exact Or.inr ⟨_, hop.1 ▸ hset scopedCode _, by simp [writtenKeys]⟩
  | quotaTryDebit tenantId quotaId amount maxLimit seed =>
    simp only [commit, MbfPartitionStore.quotaTryDebit] at hop
    split_ifs at hop
    simp only [Outcome.changed.injEq] at hop
    exact Or.inr ⟨[], hop.1 ▸ rfl, by simp⟩
  | quotaSettle tenantId quotaId delta =>
    simp only [commit, Outcome.changed.injEq] at hop
    exact Or.inr ⟨[], hop.1 ▸ rfl, by simp⟩
  | quotaSettleOnce tenantId quotaId delta idemKey =>
    simp only [commit, MbfPartitionStore.quotaSettleOnce] at hop
    split_ifs at hop
    simp only [Outcome.changed.injEq] at hop
    exact Or.inr ⟨[], hop.1 ▸ rfl, by simp⟩

variable {key : PrimaryKey}

/-- A section leaves the items under other keys alone. -/
theorem commit_lookup_of_notMem (hop : op.commit st nowMs = .changed st' touched reply)
    (hkey : key ∉ op.writtenKeys) : st'.items.lookup key = st.items.lookup key := by
  rcases commit_items hop with ⟨key', rfl, hitems⟩ | ⟨staged, hitems, hstaged⟩
  · have hne : key ≠ key' := by simpa [writtenKeys] using hkey
    simp [hitems, hne]
  · rw [hitems]
    apply OrdMap.lookup_insertList_of_notMem
    intro hmem
    obtain ⟨e, he, rfl⟩ := List.mem_map.mp hmem
    exact hkey (hstaged e he)

theorem commit_lookup_of_deletes (hop : op.commit st nowMs = .changed st' touched reply)
    (hdelete : op.deletes key = true) : st'.items.lookup key = none := by
  cases op with
  | deleteItem key' =>
    obtain rfl : key' = key := by simpa [deletes] using hdelete
    simp only [commit, Outcome.changed.injEq] at hop
    rw [← hop.1, MbfPartitionStore.deleteItem, MbfPartitionStore.removeIndexed_items]
    simp
  | _ => simp [deletes] at hdelete

/-- A section that does not delete the key does not remove it. -/
theorem commit_lookup_isSome (hop : op.commit st nowMs = .changed st' touched reply)
    (hkeep : op.deletes key = false) (h : (st.items.lookup key).isSome = true) :
    (st'.items.lookup key).isSome = true := by
  rw [Option.isSome_iff_ne_none] at h ⊢
  rcases commit_items hop with ⟨key', rfl, hitems⟩ | ⟨staged, hitems, _⟩
  · have hne : key ≠ key' := fun heq => by simp [deletes, heq] at hkeep
    simpa [hitems, hne] using h
  · rw [hitems, ne_eq, OrdMap.lookup_insertList_eq_none]
    exact fun hnone => h hnone.1

end Items
end StoreOp

/-! ### The bookkeeping of the exchange -/

/-- What the exchange with S3 keeps in a store is the same. -/
structure SameExchange (st st' : MbfPartitionStore) : Prop where
  epochId : st'.epochId = st.epochId
  lastS3Etag : st'.lastS3Etag = st.lastS3Etag
  lastSyncMs : st'.lastSyncMs = st.lastSyncMs
  bulkDepth : st'.bulkDepth = st.bulkDepth

theorem SameLedger.exchange {st st' : MbfPartitionStore} (h : SameLedger st st') :
    SameExchange st st' := ⟨h.epochId, h.lastS3Etag, h.lastSyncMs, h.bulkDepth⟩

/-- No section touches the bookkeeping of the exchange. -/
theorem StoreOp.commit_exchange {op : StoreOp} {st st' : MbfPartitionStore} {nowMs : ℤ}
    {touched : List TouchedEntity} {reply : Reply}
    (hop : op.commit st nowMs = .changed st' touched reply) : SameExchange st st' := by
  cases op with
  | putItem item =>
    simp only [commit, MbfPartitionStore.putItem] at hop
    cases hkey : extractPkSk item with
    | none => simp [hkey] at hop
    | some key =>
      simp only [hkey, Outcome.changed.injEq] at hop
      exact hop.1 ▸ (st.insertIndexed_ledger key item).exchange
  | getItem key => simp [commit] at hop
  | deleteItem key =>
    simp only [commit, Outcome.changed.injEq] at hop
    exact hop.1 ▸ (st.removeIndexed_ledger key).exchange
  | transactWrite batch =>
    simp only [commit] at hop
    cases htx : st.transactWrite batch with
    | error e => simp [htx] at hop
    | ok r =>
      simp only [htx, Outcome.changed.injEq] at hop
      exact hop.1 ▸ (MbfPartitionStore.transactWrite_ledger htx).exchange
  | batchWriteItem writeRequests =>
    simp only [commit, Outcome.changed.injEq] at hop
    exact hop.1 ▸ (st.insertAll_ledger _).exchange
  | sequenceIncrement seqCode tenantId =>
    simp only [commit, Outcome.changed.injEq] at hop
    exact hop.1 ▸ ⟨rfl, rfl, rfl, rfl⟩
  | sequenceConfigUpsert seqCode tenantId seqPrefix padding scopeResolution setCurrentValue =>
    simp only [commit, MbfPartitionStore.sequenceConfigUpsert] at hop
    split_ifs at hop
    simp only [Outcome.changed.injEq] at hop
    exact hop.1 ▸ ⟨rfl, rfl, rfl, rfl⟩
  | sequenceScopedSet scopedCode tenantId targetValue =>
    simp only [commit, MbfPartitionStore.sequenceScopedSet] at hop
    split_ifs at hop
    simp only [Outcome.changed.injEq] at hop
    exact hop.1 ▸ ⟨rfl, rfl, rfl, rfl⟩
  | quotaTryDebit tenantId quotaId amount maxLimit seed =>
    simp only [commit, MbfPartitionStore.quotaTryDebit] at hop
    split_ifs at hop
    simp only [Outcome.changed.injEq] at hop
    exact hop.1 ▸ ⟨rfl, rfl, rfl, rfl⟩
  | quotaSettle tenantId quotaId delta =>
    simp only [commit, Outcome.changed.injEq] at hop
    exact hop.1 ▸ ⟨rfl, rfl, rfl, rfl⟩
  | quotaSettleOnce tenantId quotaId delta idemKey =>
    simp only [commit, MbfPartitionStore.quotaSettleOnce] at hop
    split_ifs at hop
    simp only [Outcome.changed.injEq] at hop
    exact hop.1 ▸ ⟨rfl, rfl, rfl, rfl⟩

/-! ### The index invariant -/

theorem extractIndexKey_insert {item : Item} {name pkAttr skAttr : String}
    (value : AttributeValue) (hpk : pkAttr ≠ name) (hsk : skAttr ≠ name) :
    extractIndexKey (item.insert name value) pkAttr skAttr =
      extractIndexKey item pkAttr skAttr := by
  simp [extractIndexKey, hpk, hsk]

theorem extractIndexKey_orInsert {item : Item} {name pkAttr skAttr : String}
    (value : AttributeValue) (hpk : pkAttr ≠ name) (hsk : skAttr ≠ name) :
    extractIndexKey (orInsert item name value) pkAttr skAttr =
      extractIndexKey item pkAttr skAttr := by
  unfold orInsert
  split_ifs
  · rfl
  · exact extractIndexKey_insert value hpk hsk

/-- The names that the secondary trees read. -/
def indexNames : List (String × String) := [("ap", "as"), ("vp", "vs"), ("rp", "rs")]

namespace IndexExact
variable {st : MbfPartitionStore}

/-- A sequence edit keeps the invariant: it writes none of the names the trees
read, and a fresh sequence item has none of them. -/
theorem setSequence (h : IndexExact st) {seqCode : String} (fresh : Item) {item : Item}
    (hfresh : ∀ names ∈ indexNames, extractIndexKey fresh names.1 names.2 = none)
    (hkeep : ∀ names ∈ indexNames, extractIndexKey item names.1 names.2 =
      extractIndexKey (st.sequenceEntry seqCode fresh) names.1 names.2) :
    IndexExact (st.setSequence seqCode item) := by
  apply h.edit
  intro names hnames
  rw [hkeep names hnames, MbfPartitionStore.sequenceEntry]
  cases st.items.lookup (sequenceKey seqCode) with
  | none => exact hfresh names hnames
  | some oldItem => rfl

theorem sequenceIncrement (h : IndexExact st) (seqCode tenantId : String) (nowMs : ℤ) :
    IndexExact (st.sequenceIncrement seqCode tenantId nowMs).1 := by
  apply h.setSequence (((∅ : Item).insert "PK" (.s seqCode)).insert "tenant_id" (.s tenantId))
  · simp [indexNames, extractIndexKey]
  · simp [indexNames, extractIndexKey_insert, extractIndexKey_orInsert]

theorem sequenceConfigUpsert (h : IndexExact st) {seqCode tenantId seqPrefix : String}
    {padding : ℕ} {scopeResolution : String} {setCurrentValue : Option ℤ} {nowMs : ℤ}
    {st' : MbfPartitionStore} (hok : st.sequenceConfigUpsert seqCode tenantId seqPrefix padding
      scopeResolution setCurrentValue nowMs = some st') : IndexExact st' := by
  unfold MbfPartitionStore.sequenceConfigUpsert at hok
  split_ifs at hok
  cases hok
  apply h.setSequence ((∅ : Item).insert "PK" (.s seqCode))
  · simp [indexNames, extractIndexKey]
  · cases setCurrentValue <;>
      simp [indexNames, extractIndexKey_insert, extractIndexKey_orInsert]

theorem sequenceScopedSet (h : IndexExact st) {scopedCode tenantId : String}
    {targetValue nowMs : ℤ} {st' : MbfPartitionStore}
    (hok : st.sequenceScopedSet scopedCode tenantId targetValue nowMs = some st') :
    IndexExact st' := by
  unfold MbfPartitionStore.sequenceScopedSet at hok
  split_ifs at hok
  cases hok
  apply h.setSequence ((∅ : Item).insert "PK" (.s scopedCode))
  · simp [indexNames, extractIndexKey]
  · simp [indexNames, extractIndexKey_insert]

/-- Every operation keeps the trees exact. -/
theorem commit (h : IndexExact st) {op : StoreOp} {nowMs : ℤ} {st' : MbfPartitionStore}
    {touched : List TouchedEntity} {reply : Reply}
    (hop : op.commit st nowMs = .changed st' touched reply) : IndexExact st' := by
  cases op with
  | putItem item =>
    simp only [StoreOp.commit, MbfPartitionStore.putItem] at hop
    cases hkey : extractPkSk item with
    | none => simp [hkey] at hop
    | some key =>
      simp only [hkey, Outcome.changed.injEq] at hop
      exact hop.1 ▸ h.insertIndexed key item
  | getItem key => simp [StoreOp.commit] at hop
  | deleteItem key =>
    simp only [StoreOp.commit, Outcome.changed.injEq] at hop
    exact hop.1 ▸ h.removeIndexed key
  | transactWrite batch =>
    simp only [StoreOp.commit] at hop
    cases htx : st.transactWrite batch with
    | error e => simp [htx] at hop
    | ok r =>
      simp only [htx, Outcome.changed.injEq] at hop
      exact hop.1 ▸ h.transactWrite htx
  | batchWriteItem writeRequests =>
    simp only [StoreOp.commit, Outcome.changed.injEq] at hop
    exact hop.1 ▸ h.insertAll _
  | sequenceIncrement seqCode tenantId =>
    simp only [StoreOp.commit, Outcome.changed.injEq] at hop
    exact hop.1 ▸ h.sequenceIncrement seqCode tenantId nowMs
  | sequenceConfigUpsert seqCode tenantId seqPrefix padding scopeResolution setCurrentValue =>
    simp only [StoreOp.commit] at hop
    split at hop
    · rename_i hok
      simp only [Outcome.changed.injEq] at hop
      exact hop.1 ▸ h.sequenceConfigUpsert hok
    · simp at hop
  | sequenceScopedSet scopedCode tenantId targetValue =>
    simp only [StoreOp.commit] at hop
    split at hop
    · rename_i hok
      simp only [Outcome.changed.injEq] at hop
      exact hop.1 ▸ h.sequenceScopedSet hok
    · simp at hop
  | quotaTryDebit tenantId quotaId amount maxLimit seed =>
    simp only [StoreOp.commit, MbfPartitionStore.quotaTryDebit] at hop
    split_ifs at hop
    simp only [Outcome.changed.injEq] at hop
    exact hop.1 ▸ h.congr rfl rfl rfl rfl
  | quotaSettle tenantId quotaId delta =>
    simp only [StoreOp.commit, Outcome.changed.injEq] at hop
    exact hop.1 ▸ h.congr rfl rfl rfl rfl
  | quotaSettleOnce tenantId quotaId delta idemKey =>
    simp only [StoreOp.commit, MbfPartitionStore.quotaSettleOnce] at hop
    split_ifs at hop
    simp only [Outcome.changed.injEq] at hop
    exact hop.1 ▸ h.congr rfl rfl rfl rfl

end IndexExact
end MetriEngine.Storage

import MetriEngine.Storage.Acknowledgement
import MetriEngine.Storage.Marks
import MetriEngine.Storage.TenantRestore

/-!
# Restoring with the shared store attached

A restore ends with a flush, and a flush first merges what lies in S3. The merge knows nothing
of the restore: it takes what is newer, keeps the larger number, and brings back every key that
the store no longer has. The restored scope stays as it was restored only where the object
holds nothing else of it.
-/
namespace MetriEngine.Storage
open Foundation MbfBackupManager

/-- What a backup is taken of. -/
inductive RestoreScope
  | partition
  | tenant (tenantId : String)

/-- The rows that a restore takes from a backup. -/
def backupItems (snap : MbfPartitionWireSnapshot) : OrdMap PrimaryKey Item :=
  (∅ : OrdMap PrimaryKey Item).insertList (snap.items.filter fun e => !isFtsRow e.1)

def backupCounters (snap : MbfPartitionWireSnapshot) : OrdMap QuotaKey ℤ :=
  (∅ : OrdMap QuotaKey ℤ).insertList snap.quotaCounters

/-- The counter that a snapshot carries under a key. -/
def MbfPartitionWireSnapshot.counterAt (snap : MbfPartitionWireSnapshot) (key : QuotaKey) :
    Option ℤ := (snap.quotaCounters.find? fun e => e.1 = key).map Prod.snd

namespace RestoreScope

def restore [WireFormats] [SealDigests] (scope : RestoreScope) (client : MbfStorageClient)
    (cfg : EngineConfig) (table : String) (io : FlushIo) (st : MbfPartitionStore)
    (backup : MbfFile) : Restored :=
  match scope with
  | .partition => restorePartitionFromBytes client cfg table io st backup
  | .tenant tenantId => restoreTenantFromBytes client cfg table tenantId io st backup

/-- The tenant that the seal of a backup names. -/
def sealedFor : RestoreScope → String
  | .partition => "system"
  | .tenant tenantId => tenantId

/-- The snapshot in a backup that passes its verification. -/
def opened [WireFormats] [SealDigests] (scope : RestoreScope) (cfg : EngineConfig) (table : String)
    (backup : MbfFile) : Except DomainError MbfPartitionWireSnapshot := do
  verifyBackupBytes cfg backup scope.sealedFor table
  MbfPartitionWireSnapshot.decodeBinary backup.payload

def replaced (scope : RestoreScope) (st : MbfPartitionStore) (snap : MbfPartitionWireSnapshot) :
    MbfPartitionStore × ℕ :=
  match scope with
  | .partition => replacePartitionState st snap
  | .tenant tenantId => replaceSingleTenantState st tenantId snap

variable (scope : RestoreScope)

def owns (e : PrimaryKey × Item) : Bool :=
  match scope with
  | .partition => true
  | .tenant tenantId => recordBelongsToTenant tenantId e

/-- The rows of the scope, without trigram postings. -/
def row (e : PrimaryKey × Item) : Bool := !isFtsRow e.1 && scope.owns e

def counter (key : QuotaKey) : Bool :=
  match scope with
  | .partition => true
  | .tenant tenantId => (ofLex key).1 = tenantId

/-! ### The property -/

/-- In the scope, the rows and counters of a backup and no others. -/
structure Holds (snap : MbfPartitionWireSnapshot) (items : PrimaryKey → Option Item)
    (counters : QuotaKey → Option ℤ) : Prop where
  rows : ∀ key item, scope.row (key, item) = true →
    (items key = some item ↔ (backupItems snap).lookup key = some item)
  counters : ∀ key, scope.counter key = true → counters key = (backupCounters snap).lookup key

def ObjectHolds (snap : MbfPartitionWireSnapshot) (object : Option (MbfObjectPayload VortexBody)) :
    Prop := ∃ o stored, object = some o ∧ o.bytes = some stored ∧
      scope.Holds snap stored.itemAt stored.counterAt

/-- A restore that succeeds leaves the backup in its scope, in memory and in S3. -/
def IsFinal [WireFormats] [SealDigests] (client : MbfStorageClient) (cfg : EngineConfig)
    (table : String) (io : FlushIo) (st : MbfPartitionStore) (backup : MbfFile) : Prop :=
  ∀ epoch after object, scope.restore client cfg table io st backup = (.ok epoch, after, object) →
    ∃ snap, MbfPartitionWireSnapshot.decodeBinary backup.payload = .ok snap ∧
      scope.Holds snap after.items.lookup after.quotaCounters.lookup ∧ scope.ObjectHolds snap object

/-! ### The condition -/

/-- What a key holds once it is restored: the row of the backup, else what was there outside
the scope. -/
def restoredRow (st : MbfPartitionStore) (snap : MbfPartitionWireSnapshot) (key : PrimaryKey) :
    Option Item :=
  ((backupItems snap).lookup key).or
    ((st.items.lookup key).filter fun item => !scope.owns (key, item))

/-- Whether an object counts as newer than what was restored. -/
def outdated (st : MbfPartitionStore) (snap stored : MbfPartitionWireSnapshot) : Bool :=
  decide (stored.epochId ≥ nextEpoch st snap)

/-- A row that the merge takes is the row restored, or neither is in the scope; a counter of the
scope that the object carries does not change the one restored. -/
structure MergeKeeps (st : MbfPartitionStore) (snap stored : MbfPartitionWireSnapshot) : Prop where
  rows : ∀ e ∈ takenRows (outdated st snap stored) (scope.restoredRow st snap) stored.items,
    scope.restoredRow st snap e.1 = some e.2 ∨
      scope.row e = false ∧
        ∀ item, scope.restoredRow st snap e.1 = some item → scope.row (e.1, item) = false
  counters : ∀ e ∈ stored.quotaCounters, scope.counter e.1 = true →
    if outdated st snap stored then (backupCounters snap).lookup e.1 = some e.2
    else ∃ value, (backupCounters snap).lookup e.1 = some value ∧ e.2 ≤ value

/-- A backup with nothing in the scope. -/
def EmptyBackup (snap : MbfPartitionWireSnapshot) : Prop :=
  (∀ key item, (backupItems snap).lookup key = some item → scope.row (key, item) = false) ∧
    ∀ key, scope.counter key = true → (backupCounters snap).lookup key = none

/-- What the answer to the flush's GET may be. -/
def SyncKeeps (st : MbfPartitionStore) (snap : MbfPartitionWireSnapshot) :
    MbfConditionalGet VortexBody → Prop
  | .notModified => True
  | .notFound => st.lastS3Etag = none ∨ scope.EmptyBackup snap
  | .modified payload => ∀ stored, payload.bytes = some stored → scope.MergeKeeps st snap stored

/-- The entities that are marked when the rows come in. -/
def marksBefore (st : MbfPartitionStore) : EntityMarks :=
  match scope with
  | .partition => ⟨∅, st.outboxEntities⟩
  | .tenant tenantId =>
    ⟨st.transientEntities.filter fun pk => !Text.startsWith pk (tenantPkPrefix tenantId),
      st.outboxEntities⟩

/-- The rows that are indexed on the way, those of the backup and those of the merge. -/
def indexedRows (st : MbfPartitionStore) (snap : MbfPartitionWireSnapshot) :
    MbfConditionalGet VortexBody → List (PrimaryKey × Item)
  | .modified ⟨some stored, _⟩ => snap.items.filter (fun e => !isFtsRow e.1) ++
      takenRows (outdated st snap stored) (scope.restoredRow st snap) stored.items
  | _ => snap.items.filter fun e => !isFtsRow e.1

/-- No row of the backup is one of an outbox event. -/
def RowsPersist (st : MbfPartitionStore) (snap : MbfPartitionWireSnapshot)
    (cond : MbfConditionalGet VortexBody) : Prop :=
  ∀ key item, (backupItems snap).lookup key = some item → scope.row (key, item) = true →
    ¬ (key.pk ∈ (scope.marksBefore st).outbox ∨ key.pk ∉ (scope.marksBefore st).transient ∧
      firstMark (scope.indexedRows st snap cond) key.pk = some "outbox_event")

/-- The exact condition on what is restored, the store, and what S3 answers. -/
def Stays (client : MbfStorageClient) (s3Key : String) (io : FlushIo) (st : MbfPartitionStore)
    (snap : MbfPartitionWireSnapshot) : Prop :=
  if 0 < st.bulkDepth then scope.ObjectHolds snap io.remote
  else match fetchPartitionIfChanged client.computeEtag s3Key io.sync.get with
    | .error _ => True
    | .ok cond => scope.SyncKeeps st snap cond ∧
        if io.put.executed then scope.RowsPersist st snap cond
        else scope.ObjectHolds snap io.remote

/-! ### What is restored -/

section Replaced
variable {scope} {st : MbfPartitionStore} {snap : MbfPartitionWireSnapshot}

theorem replaced_lookup (key : PrimaryKey) :
    (scope.replaced st snap).1.items.lookup key = scope.restoredRow st snap key := by
  cases scope with
  | partition =>
    change (insertRows _ snap.items).items.lookup key = _
    have hcleared : ((st.items.lookup key).filter fun item =>
        !RestoreScope.partition.owns (key, item)) = none := by
      cases st.items.lookup key <;> rfl
    rw [insertRows_items, restoredRow, hcleared, Option.or_none]
    rfl
  | tenant tenantId =>
    change (insertRows (removeTenant st tenantId) snap.items).items.lookup key = _
    rw [insertRows_items, OrdMap.lookup_insertList_or, removeTenant_lookup]
    rfl

theorem replaced_counter {key : QuotaKey} (h : scope.counter key = true) :
    (scope.replaced st snap).1.quotaCounters.lookup key = (backupCounters snap).lookup key := by
  cases scope with
  | partition =>
    change ((insertRows _ snap.items).quotaCounters.insertList snap.quotaCounters).lookup key = _
    rw [(insertRows_ledger _).quotaCounters]
    rfl
  | tenant tenantId =>
    change ((insertRows (removeTenant st tenantId) snap.items).quotaCounters.insertList
      snap.quotaCounters).lookup key = _
    rw [(insertRows_ledger _).quotaCounters, (removeTenant_ledger tenantId).1,
      OrdMap.lookup_insertList_or, OrdMap.lookup_filterKeys]
    have hmine : (ofLex key).1 = tenantId := of_decide_eq_true h
    simp [hmine, backupCounters]

theorem insertRows_marks (rows : List (PrimaryKey × Item)) :
    (insertRows st rows).marks =
      (rows.filter fun e => !isFtsRow e.1).foldl EntityMarks.note st.marks := by
  induction rows generalizing st with
  | nil => rfl
  | cons e rows ih =>
    rw [insertRows, List.foldl_cons, ← insertRows, ih]
    by_cases hfts : isFtsRow e.1 = true
    · rw [if_pos hfts, List.filter_cons_of_neg (by simp [hfts])]
    · rw [if_neg hfts, List.filter_cons_of_pos (by simp [hfts]), List.foldl_cons,
        MbfPartitionStore.insertIndexed_marks]

theorem removeKeys_marks (keys : List PrimaryKey) :
    (keys.foldl (fun st key => st.removeIndexed key) st).marks = st.marks := by
  induction keys generalizing st with
  | nil => rfl
  | cons key keys ih => rw [List.foldl_cons, ih, MbfPartitionStore.removeIndexed_marks]

theorem removeTenant_marks (tenantId : String) :
    (removeTenant st tenantId).marks = (RestoreScope.tenant tenantId).marksBefore st := by
  have hkept := @removeKeys_marks st
    ((st.items.entries.filter (recordBelongsToTenant tenantId)).map Prod.fst)
  have htransient := congrArg EntityMarks.transient hkept
  have houtbox := congrArg EntityMarks.outbox hkept
  dsimp only [MbfPartitionStore.marks] at htransient houtbox
  unfold removeTenant MbfPartitionStore.marks marksBefore
  dsimp only
  rw [htransient, houtbox]

theorem replaced_marks :
    (scope.replaced st snap).1.marks =
      (snap.items.filter fun e => !isFtsRow e.1).foldl EntityMarks.note (scope.marksBefore st) := by
  cases scope with
  | partition =>
    change (insertRows _ snap.items).marks = _
    rw [insertRows_marks]
    rfl
  | tenant tenantId =>
    change (insertRows (removeTenant st tenantId) snap.items).marks = _
    rw [insertRows_marks, removeTenant_marks]

theorem replaced_frame :
    (scope.replaced st snap).1.epochId = nextEpoch st snap ∧
      (scope.replaced st snap).1.lastS3Etag = st.lastS3Etag ∧
      (scope.replaced st snap).1.bulkDepth = st.bulkDepth ∧
      (scope.replaced st snap).2 = nextEpoch st snap := by
  cases scope with
  | partition =>
    refine ⟨rfl, ?_, ?_, rfl⟩
    · exact (insertRows_ledger snap.items).lastS3Etag
    · exact (insertRows_ledger snap.items).bulkDepth
  | tenant tenantId =>
    have hsame : SameLedger st (((st.items.entries.filter (recordBelongsToTenant tenantId)).map
        Prod.fst).foldl (fun st key => st.removeIndexed key) st) := removeKeys_ledger _
    refine ⟨rfl, ?_, ?_, rfl⟩
    · exact (insertRows_ledger snap.items).lastS3Etag.trans hsame.lastS3Etag
    · exact (insertRows_ledger snap.items).bulkDepth.trans hsame.bulkDepth

/-- Right after the replacement the scope holds the backup. -/
theorem replaced_holds :
    scope.Holds snap (scope.replaced st snap).1.items.lookup
      (scope.replaced st snap).1.quotaCounters.lookup := by
  refine ⟨?_, fun key h => replaced_counter h⟩
  intro key item hrow
  rw [replaced_lookup, restoredRow]
  cases hbackup : (backupItems snap).lookup key with
  | some item' => rw [Option.some_or]
  | none =>
    rw [Option.none_or]
    have howned := (Bool.and_eq_true_iff.mp hrow).2
    simp [Option.filter_eq_some_iff, howned]

end Replaced

/-! ### What the merge leaves of it -/

section Merge
variable {scope} {st : MbfPartitionStore} {snap stored : MbfPartitionWireSnapshot}

/-- Two rows under a key agree in the scope, where one of them is the other or neither is in it. -/
theorem sameInScope_iff {key : PrimaryKey} {item : Item} {held : Option Item} :
    (∀ item', scope.row (key, item') = true → (some item = some item' ↔ held = some item')) ↔
      held = some item ∨ scope.row (key, item) = false ∧
        ∀ item', held = some item' → scope.row (key, item') = false := by
  constructor
  · intro h
    cases hrow : scope.row (key, item) with
    | true => exact Or.inl ((h item hrow).mp rfl)
    | false =>
      refine Or.inr ⟨rfl, ?_⟩
      intro item' hheld
      cases hrow' : scope.row (key, item') with
      | false => rfl
      | true =>
        cases (h item' hrow').mpr hheld
        rw [hrow] at hrow'
        cases hrow'
  · rintro (rfl | ⟨hrow, hheld⟩) item' hrow'
    · rfl
    · constructor
      · intro heq
        cases heq
        rw [hrow] at hrow'
        cases hrow'
      · intro hsome
        rw [hheld item' hsome] at hrow'
        cases hrow'

theorem holds_of_lookup {items items' : PrimaryKey → Option Item} {counters counters' : QuotaKey → Option ℤ}
    (h : scope.Holds snap items counters) :
    scope.Holds snap items' counters' ↔
      (∀ key item, scope.row (key, item) = true → (items' key = some item ↔ items key = some item)) ∧
        ∀ key, scope.counter key = true → counters' key = counters key := by
  constructor
  · intro h'
    refine ⟨?_, ?_⟩
    · intro key item hrow
      rw [h'.rows key item hrow, h.rows key item hrow]
    · intro key hcounter
      rw [h'.counters key hcounter, h.counters key hcounter]
  · rintro ⟨hrows, hcounters⟩
    refine ⟨?_, ?_⟩
    · intro key item hrow
      rw [hrows key item hrow, h.rows key item hrow]
    · intro key hcounter
      rw [hcounters key hcounter, h.counters key hcounter]

theorem foldl_applyRemoteCounter_of_notMem {newer : Bool} {rows : List (QuotaKey × ℤ)}
    {held : OrdMap QuotaKey ℤ} {key : QuotaKey} (h : key ∉ rows.map Prod.fst) :
    (rows.foldl (MbfPartitionStore.applyRemoteCounter newer) held).lookup key = held.lookup key := by
  induction rows generalizing held with
  | nil => rfl
  | cons e rows ih =>
    rw [List.map_cons, List.mem_cons, not_or] at h
    rw [List.foldl_cons, ih h.2, MbfPartitionStore.applyRemoteCounter, OrdMap.lookup_insert_of_ne _ _ h.1]

theorem foldl_applyRemoteCounter_of_mem {newer : Bool} {rows : List (QuotaKey × ℤ)}
    (hnd : (rows.map Prod.fst).Nodup) {held : OrdMap QuotaKey ℤ} {e : QuotaKey × ℤ} (h : e ∈ rows) :
    (rows.foldl (MbfPartitionStore.applyRemoteCounter newer) held).lookup e.1 =
      some (if newer then e.2
        else if e.2 > (held.lookup e.1).getD 0 then e.2 else (held.lookup e.1).getD 0) := by
  induction rows generalizing held with
  | nil => cases h
  | cons e' rows ih =>
    rw [List.map_cons, List.nodup_cons] at hnd
    rw [List.foldl_cons]
    cases List.mem_cons.mp h with
    | inl heq =>
      rw [heq, foldl_applyRemoteCounter_of_notMem hnd.1, MbfPartitionStore.applyRemoteCounter,
        OrdMap.lookup_insert_self]
    | inr hin =>
      have hne : e.1 ≠ e'.1 := by
        intro heq
        exact hnd.1 (heq ▸ List.mem_map_of_mem hin)
      rw [ih hnd.2 hin, MbfPartitionStore.applyRemoteCounter, OrdMap.lookup_insert_of_ne _ _ hne]

/-- A counter that was merged is the one held. -/
theorem mergedCounter_iff {newer : Bool} {held : Option ℤ} {v : ℤ} :
    some (if newer then v else if v > held.getD 0 then v else held.getD 0) = held ↔
      if newer then held = some v else ∃ value, held = some value ∧ v ≤ value := by
  cases newer with
  | true => simp [eq_comm]
  | false =>
    cases held with
    | none => simp
    | some value =>
      simp only [Bool.false_eq_true, if_false, Option.getD_some, Option.some.injEq]
      constructor
      · intro h
        refine ⟨value, rfl, ?_⟩
        split_ifs at h <;> omega
      · rintro ⟨_, rfl, hle⟩
        rw [if_neg (by omega)]

/-- The merge leaves the backup in the scope exactly where it keeps it. -/
theorem merged_holds_iff (hrows : (stored.items.map Prod.fst).Nodup)
    (hcounters : (stored.quotaCounters.map Prod.fst).Nodup) (etag : String) (nowMs : ℤ) :
    scope.Holds snap ((scope.replaced st snap).1.applyWireSnapshot stored etag nowMs).items.lookup
        ((scope.replaced st snap).1.applyWireSnapshot stored etag nowMs).quotaCounters.lookup ↔
      scope.MergeKeeps st snap stored := by
  have hnewer : (scope.replaced st snap).1.remoteIsNewer stored = outdated st snap stored := by
    rw [MbfPartitionStore.remoteIsNewer, replaced_frame.1]
    rfl
  have hfold : ((scope.replaced st snap).1.applyWireSnapshot stored etag nowMs).quotaCounters =
      stored.quotaCounters.foldl (MbfPartitionStore.applyRemoteCounter
        ((scope.replaced st snap).1.remoteIsNewer stored)) (scope.replaced st snap).1.quotaCounters := rfl
  have hmerged : ∀ key, ((scope.replaced st snap).1.mergeItems stored).items.lookup key = _ :=
    fun key => @mergeItems_lookup _ _ key hrows
  rw [holds_of_lookup replaced_holds]
  simp only [MbfPartitionStore.applyWireSnapshot_items]
  constructor
  · rintro ⟨hitems, hvalues⟩
    refine ⟨?_, ?_⟩
    · intro e he
      obtain ⟨hmem, htaken⟩ := List.mem_filter.mp he
      obtain ⟨hfts, htakes⟩ := Bool.and_eq_true_iff.mp htaken
      have hlookup : ((scope.replaced st snap).1.mergeItems stored).items.lookup e.1 = _ :=
        MbfPartitionStore.mergeItems_lookup_of_mem hrows hmem
      rw [hnewer, replaced_lookup, if_neg (by simpa [htakes] using hfts)] at hlookup
      apply sameInScope_iff.mp
      intro item hrow
      have hsame := hitems e.1 item hrow
      rwa [hlookup, replaced_lookup] at hsame
    · intro e he hcounter
      have hsame := hvalues e.1 hcounter
      rw [hfold, foldl_applyRemoteCounter_of_mem hcounters he, hnewer, replaced_counter hcounter] at hsame
      exact mergedCounter_iff.mp hsame
  · rintro ⟨hitems, hvalues⟩
    refine ⟨?_, ?_⟩
    · intro key item hrow
      rw [hmerged key]
      cases hat : stored.itemAt key with
      | none => rfl
      | some remoteItem =>
        dsimp only
        split_ifs with hleft
        · rfl
        · rw [hnewer, replaced_lookup, not_or, Bool.not_eq_false] at hleft
          have htaken : (key, remoteItem) ∈
              takenRows (outdated st snap stored) (scope.restoredRow st snap) stored.items :=
            List.mem_filter.mpr ⟨mem_of_itemAt hat, by simp [hleft.1, hleft.2]⟩
          rw [replaced_lookup]
          exact sameInScope_iff.mpr (hitems (key, remoteItem) htaken) item hrow
    · intro key hcounter
      rw [hfold]
      by_cases hin : key ∈ stored.quotaCounters.map Prod.fst
      · obtain ⟨e, he, rfl⟩ := List.mem_map.mp hin
        rw [foldl_applyRemoteCounter_of_mem hcounters he, hnewer, replaced_counter hcounter]
        exact mergedCounter_iff.mpr (hvalues e he hcounter)
      · rw [foldl_applyRemoteCounter_of_notMem hin]

end Merge

/-! ### The flush that follows -/

section Flush
variable {scope} {st : MbfPartitionStore} {snap : MbfPartitionWireSnapshot}
  {cond : MbfConditionalGet VortexBody}

/-- No key occurs twice in a snapshot. -/
def DistinctEntries (stored : MbfPartitionWireSnapshot) : Prop :=
  (stored.items.map Prod.fst).Nodup ∧ (stored.quotaCounters.map Prod.fst).Nodup

/-- The store once the answer to the GET is applied. -/
def synced (scope : RestoreScope) (st : MbfPartitionStore) (snap : MbfPartitionWireSnapshot)
    (nowMs : ℤ) (cond : MbfConditionalGet VortexBody) : MbfPartitionStore :=
  (scope.replaced st snap).1.applyConditionalGet nowMs cond

theorem synced_holds_iff (nowMs : ℤ) (hdistinct : ∀ payload stored, cond = .modified payload →
      payload.bytes = some stored → DistinctEntries stored) :
    scope.Holds snap (scope.synced st snap nowMs cond).items.lookup
        (scope.synced st snap nowMs cond).quotaCounters.lookup ↔ scope.SyncKeeps st snap cond := by
  cases cond with
  | notModified => exact iff_of_true replaced_holds trivial
  | notFound =>
    unfold synced MbfPartitionStore.applyConditionalGet SyncKeeps
    dsimp only
    rw [replaced_frame.2.1]
    by_cases hknown : st.lastS3Etag.isSome = true
    · rw [if_pos hknown, or_iff_right (by rintro h; simp [h] at hknown)]
      constructor
      · intro h
        refine ⟨?_, ?_⟩
        · intro key item hsome
          cases hrow : scope.row (key, item) with
          | false => rfl
          | true => cases (h.rows key item hrow).mpr hsome
        · intro key hcounter
          exact (h.counters key hcounter).symm
      · rintro ⟨hitems, hcounters⟩
        refine ⟨?_, ?_⟩
        · intro key item hrow
          apply iff_of_false
          · intro hsome
            cases hsome
          · intro hsome
            rw [hitems key item hsome] at hrow
            cases hrow
        · intro key hcounter
          exact (hcounters key hcounter).symm
    · rw [if_neg hknown]
      exact iff_of_true replaced_holds (Or.inl (by simpa using hknown))
  | modified payload =>
    obtain ⟨bytes, etag⟩ := payload
    cases bytes with
    | none => exact iff_of_true replaced_holds (by rintro _ ⟨⟩)
    | some stored =>
      obtain ⟨hrows, hcounters⟩ := hdistinct ⟨some stored, etag⟩ stored rfl rfl
      change scope.Holds snap ((scope.replaced st snap).1.applyWireSnapshot stored etag
        nowMs).items.lookup ((scope.replaced st snap).1.applyWireSnapshot stored etag
        nowMs).quotaCounters.lookup ↔ _
      rw [merged_holds_iff hrows hcounters]
      constructor
      · rintro h _ ⟨⟩
        exact h
      · intro h
        exact h stored rfl

/-- What is marked once the answer is applied, where the answer does not empty the store. -/
theorem synced_marks (nowMs : ℤ) (hdistinct : ∀ payload stored, cond = .modified payload →
      payload.bytes = some stored → DistinctEntries stored)
    (hkept : cond = .notFound → st.lastS3Etag = none) :
    (scope.synced st snap nowMs cond).marks =
      (scope.indexedRows st snap cond).foldl EntityMarks.note (scope.marksBefore st) := by
  cases cond with
  | notModified => exact replaced_marks
  | notFound =>
    unfold synced MbfPartitionStore.applyConditionalGet
    dsimp only
    rw [replaced_frame.2.1, hkept rfl]
    exact replaced_marks
  | modified payload =>
    obtain ⟨bytes, etag⟩ := payload
    cases bytes with
    | none => exact replaced_marks
    | some stored =>
      have hlookup : (scope.replaced st snap).1.items.lookup = scope.restoredRow st snap :=
        funext replaced_lookup
      have hnewer : (scope.replaced st snap).1.remoteIsNewer stored = outdated st snap stored := by
        rw [MbfPartitionStore.remoteIsNewer, replaced_frame.1]
        rfl
      have hmerged := @mergeItems_marks (scope.replaced st snap).1 stored
        (hdistinct ⟨some stored, etag⟩ stored rfl rfl).1
      rw [hlookup, hnewer, replaced_marks, ← List.foldl_append] at hmerged
      exact hmerged

/-- The object that a flush writes holds the backup where the store does and every row of it
goes into a snapshot. -/
theorem written_holds_iff (nowMs : ℤ) (etag : String)
    (hdistinct : ∀ payload stored, cond = .modified payload → payload.bytes = some stored →
      DistinctEntries stored)
    (hkeeps : scope.SyncKeeps st snap cond) :
    scope.ObjectHolds snap
        (some ⟨some (scope.synced st snap nowMs cond).serializeFlushArtifacts.2, etag⟩) ↔
      scope.RowsPersist st snap cond := by
  have hholds := (synced_holds_iff nowMs hdistinct).mpr hkeeps
  have hat : ∀ key, (scope.synced st snap nowMs cond).serializeFlushArtifacts.2.itemAt key =
      if (scope.synced st snap nowMs cond).persists key
        then (scope.synced st snap nowMs cond).items.lookup key else none :=
    fun key => toWireSnapshot_itemAt
  have hpersists : ∀ key item, scope.row (key, item) = true →
      ((scope.synced st snap nowMs cond).persists key = true ↔
        key.pk ∉ (scope.synced st snap nowMs cond).outboxEntities) := by
    intro key item hrow
    have hfts := (Bool.and_eq_true_iff.mp hrow).1
    rw [isFtsRow] at hfts
    simp only [MbfPartitionStore.persists, hfts, Bool.true_and, decide_eq_true_eq]
  have hobject : scope.ObjectHolds snap
      (some ⟨some (scope.synced st snap nowMs cond).serializeFlushArtifacts.2, etag⟩) ↔
      ∀ key item, (backupItems snap).lookup key = some item → scope.row (key, item) = true →
        key.pk ∉ (scope.synced st snap nowMs cond).outboxEntities := by
    constructor
    · rintro ⟨o, stored, ⟨⟩, ⟨⟩, hstored⟩ key item hsome hrow
      rw [← hpersists key item hrow]
      have hin := (hstored.rows key item hrow).mpr hsome
      rw [hat] at hin
      split_ifs at hin with hp
      exact hp
    · intro h
      refine ⟨_, _, rfl, rfl, ?_, hholds.counters⟩
      intro key item hrow
      rw [hat, ← hholds.rows key item hrow]
      split_ifs with hp
      · rfl
      · apply iff_of_false
        · intro hsome
          cases hsome
        · intro hsome
          exact hp ((hpersists key item hrow).mpr
            (h key item ((hholds.rows key item hrow).mp hsome) hrow))
  rw [hobject]
  by_cases hwiped : cond = .notFound ∧ st.lastS3Etag ≠ none
  · obtain ⟨rfl, hknown⟩ := hwiped
    have hempty : scope.EmptyBackup snap := hkeeps.resolve_left hknown
    constructor
    · intro _ key item hsome hrow
      rw [hempty.1 key item hsome] at hrow
      cases hrow
    · intro _ key item hsome hrow
      rw [hempty.1 key item hsome] at hrow
      cases hrow
  · have hmarks := @synced_marks scope st snap cond nowMs hdistinct
      (fun h => not_not.mp fun hknown => hwiped ⟨h, hknown⟩)
    have houtbox : ∀ pk, pk ∈ (scope.synced st snap nowMs cond).outboxEntities ↔
        pk ∈ (scope.marksBefore st).outbox ∨ pk ∉ (scope.marksBefore st).transient ∧
          firstMark (scope.indexedRows st snap cond) pk = some "outbox_event" := by
      intro pk
      change pk ∈ (scope.synced st snap nowMs cond).marks.outbox ↔ _
      rw [hmarks]
      exact outbox_foldl_note
    unfold RowsPersist
    simp only [houtbox]

end Flush

/-! ### When a restore is final -/

section Final
variable [WireFormats] [SealDigests] {scope} {client : MbfStorageClient} {table : String}
  {io : FlushIo} {st : MbfPartitionStore} {backup : MbfFile} {cfg : EngineConfig} {s3 : String}

theorem restore_eq : scope.restore client cfg table io st backup =
    match scope.opened cfg table backup with
    | .error e => (.error e, st, io.remote)
    | .ok snap => flushReplaced client table io (scope.replaced st snap) := by
  cases scope with
  | partition =>
    simp only [restore, restorePartitionFromBytes, opened, sealedFor]
    cases verifyBackupBytes cfg backup "system" table with
    | error e => rfl
    | ok =>
      cases MbfPartitionWireSnapshot.decodeBinary backup.payload <;> rfl
  | tenant tenantId =>
    simp only [restore, restoreTenantFromBytes, opened, sealedFor]
    cases verifyBackupBytes cfg backup tenantId table with
    | error e => rfl
    | ok =>
      cases MbfPartitionWireSnapshot.decodeBinary backup.payload <;> rfl

theorem decode_of_opened {snap : MbfPartitionWireSnapshot}
    (h : scope.opened cfg table backup = .ok snap) :
    MbfPartitionWireSnapshot.decodeBinary backup.payload = .ok snap := by
  unfold opened at h
  cases hverify : verifyBackupBytes cfg backup scope.sealedFor table with
  | error e =>
    rw [hverify] at h
    cases h
  | ok =>
    rw [hverify] at h
    exact h

omit [WireFormats] [SealDigests] in
/-- A snapshot that is merged is the body of the answer. -/
theorem get_of_fetch_modified {computeEtag : VortexBody → String} {key : String}
    {get : S3GetAnswer VortexBody} {payload : MbfObjectPayload VortexBody}
    {stored : MbfPartitionWireSnapshot}
    (h : fetchPartitionIfChanged computeEtag key get = .ok (.modified payload))
    (hbytes : payload.bytes = some stored) : ∃ eTag, get = .ok eTag (.ok (some stored)) := by
  cases get with
  | ok eTag body =>
    cases body with
    | error e => cases h
    | ok bytes =>
      cases h
      exact ⟨eTag, by rw [← hbytes]⟩
  | error status =>
    unfold fetchPartitionIfChanged at h
    split at h
    · rename_i heq
      cases heq
    all_goals cases h

omit [WireFormats] [SealDigests] in
/-- What the flush of a replaced store answers and leaves. -/
theorem flushReplaced_stays (hs3 : client.s3Prefix = some s3)
    (hdistinct : ∀ eTag stored, io.sync.get = .ok eTag (.ok (some stored)) → DistinctEntries stored)
    (snap : MbfPartitionWireSnapshot) :
    (∀ epoch after object, flushReplaced client table io (scope.replaced st snap) =
        (.ok epoch, after, object) →
      scope.Holds snap after.items.lookup after.quotaCounters.lookup ∧ scope.ObjectHolds snap object) ↔
      scope.Stays client (MbfStorageClient.vortexS3Key s3 table) io st snap := by
  have hdepth := (@replaced_frame scope st snap).2.2.1
  unfold flushReplaced MbfStorageClient.flushToS3 Stays
  dsimp only
  rw [addDirty_nil, hs3, hdepth]
  by_cases hbulk : 0 < st.bulkDepth
  · rw [if_pos (Or.inl hbulk), if_pos hbulk]
    constructor
    · intro h
      exact (h _ _ _ rfl).2
    · rintro h _ _ _ ⟨⟩
      exact ⟨replaced_holds, h⟩
  · rw [if_neg (by simp [hbulk]), if_neg hbulk]
    unfold MbfStorageClient.syncFromS3
    rw [hs3]
    dsimp only
    rw [hdepth, if_neg hbulk]
    cases hfetch : fetchPartitionIfChanged client.computeEtag (MbfStorageClient.vortexS3Key s3 table)
        io.sync.get with
    | error e =>
      apply iff_of_true _ trivial
      rintro _ _ _ ⟨⟩
    | ok cond =>
      have hcond : ∀ payload stored, cond = .modified payload → payload.bytes = some stored →
          DistinctEntries stored := by
        rintro payload stored rfl hbytes
        obtain ⟨eTag, hget⟩ := get_of_fetch_modified hfetch hbytes
        exact hdistinct eTag stored hget
      have hmemory := @synced_holds_iff scope st snap cond io.sync.nowMs hcond
      have hobject := @written_holds_iff scope st snap cond io.sync.nowMs io.put.etag hcond
      have hafter : (scope.Holds snap (scope.synced st snap io.sync.nowMs cond).items.lookup
            (scope.synced st snap io.sync.nowMs cond).quotaCounters.lookup ∧
          scope.ObjectHolds snap (io.put.remoteAfter
            (some (scope.synced st snap io.sync.nowMs cond).serializeFlushArtifacts.2))) ↔
          scope.SyncKeeps st snap cond ∧ if io.put.executed then scope.RowsPersist st snap cond
            else scope.ObjectHolds snap io.remote := by
        rw [hmemory]
        apply and_congr_right
        intro hkeeps
        unfold S3PutReply.remoteAfter
        split_ifs
        · exact hobject hkeeps
        · exact Iff.rfl
      refine Iff.trans ?_ hafter
      constructor
      · intro h
        have hdone := h _ _ _ rfl
        exact hdone
      · rintro h _ _ _ ⟨⟩
        exact h

theorem isFinal_iff_of_opened (hs3 : client.s3Prefix = some s3)
    (hdistinct : ∀ eTag stored, io.sync.get = .ok eTag (.ok (some stored)) → DistinctEntries stored)
    {snap : MbfPartitionWireSnapshot} (hopened : scope.opened cfg table backup = .ok snap) :
    scope.IsFinal client cfg table io st backup ↔
      scope.Stays client (MbfStorageClient.vortexS3Key s3 table) io st snap := by
  have hstays := @flushReplaced_stays scope client table io st s3 hs3 hdistinct snap
  unfold IsFinal
  rw [restore_eq, hopened]
  constructor
  · intro h
    apply hstays.mp
    intro epoch after object heq
    obtain ⟨snap', hdecode, hholds⟩ := h epoch after object heq
    rw [decode_of_opened hopened] at hdecode
    cases hdecode
    exact hholds
  · intro h epoch after object heq
    exact ⟨snap, decode_of_opened hopened, hstays.mpr h epoch after object heq⟩

/-- Restoring a backup of a partition or of a tenant is final exactly where what S3 answers to
the flush changes nothing of the scope and the object takes all of it. -/
theorem restore_isFinal_iff (hs3 : client.s3Prefix = some s3)
    (hdistinct : ∀ eTag stored, io.sync.get = .ok eTag (.ok (some stored)) → DistinctEntries stored) :
    scope.IsFinal client cfg table io st backup ↔
      ∀ snap, scope.opened cfg table backup = .ok snap →
        scope.Stays client (MbfStorageClient.vortexS3Key s3 table) io st snap := by
  cases hopened : scope.opened cfg table backup with
  | error e =>
    apply iff_of_true
    · unfold IsFinal
      rw [restore_eq, hopened]
      rintro _ _ _ ⟨⟩
    · rintro _ ⟨⟩
  | ok snap =>
    rw [isFinal_iff_of_opened hs3 hdistinct hopened]
    constructor
    · rintro h _ ⟨⟩
      exact h
    · intro h
      exact h snap rfl

theorem opened_partitionBackup (table : String) {st : MbfPartitionStore}
    (hfits : st.toWireSnapshot.Fits) :
    RestoreScope.partition.opened cfg table (createPartitionBackup cfg table st) =
      .ok st.toWireSnapshot := by
  have hverify := @verify_packSnapshot _ _ cfg "system" table _ hfits (Or.inl rfl)
  unfold opened createPartitionBackup
  rw [sealedFor, hverify]
  exact hfits.decode_encode

end Final

/-! ### One sequence, and another that came later -/

section Sequences

attribute [local instance] WireFormats.stored SealDigests.verbatim

def attached : MbfStorageClient := attachedClient "eav" "mbf" fun _ => "digest"

def acmePartition : MbfFile := createPartitionBackup {} "eav" acmeStore

/-- The object has not changed, and takes the PUT. -/
def unchangedObject : FlushIo where
  sync := ⟨2000, .error (some 304)⟩
  remote := some ⟨some acmeStore.toWireSnapshot, "e1"⟩
  put := ⟨.ok (some "e2"), true, "e2", by simp, by simp, by simp⟩
  doneMs := 2000

theorem restore_isFinal_unchanged :
    RestoreScope.partition.IsFinal attached {} "eav" unchangedObject
      { acmeStore with lastS3Etag := some "e1" } acmePartition := by
  refine (restore_isFinal_iff rfl (by rintro _ _ ⟨⟩)).mpr ?_
  intro snap hopened
  have hfits : acmeStore.toWireSnapshot.Fits := by decide +kernel
  rw [acmePartition, opened_partitionBackup "eav" hfits] at hopened
  cases hopened
  have hrows : ∀ e ∈ (backupItems acmeStore.toWireSnapshot).entries,
      e.1.pk ∉ acmeStore.outboxEntities ∧
        firstMark (acmeStore.toWireSnapshot.items.filter fun e => !isFtsRow e.1) e.1.pk = none := by
    decide +kernel
  refine ⟨trivial, ?_⟩
  intro key item hsome _ hmarked
  obtain ⟨hout, hfirst⟩ := hrows (key, item) (OrdMap.lookup_eq_some.mp hsome)
  cases hmarked with
  | inl hin => exact hout hin
  | inr hin =>
    have hmark := hin.2
    change firstMark (acmeStore.toWireSnapshot.items.filter fun e => !isFtsRow e.1) key.pk = _ at hmark
    rw [hfirst] at hmark
    cases hmark

/-- What another instance has written since: the sequence of another field. -/
def laterObject : MbfPartitionWireSnapshot :=
  (withSequence "acme:order_seq" "acme" acmeStore).serializeFlushArtifacts.2

def changedObject : FlushIo where
  sync := ⟨2000, .ok (some "e2") (.ok (some laterObject))⟩
  remote := some ⟨some laterObject, "e2"⟩
  put := ⟨.ok (some "e3"), true, "e3", by simp, by simp, by simp⟩
  doneMs := 2000

/-- A record that another instance created after the backup reappears with the restore. -/
theorem a_later_record_reappears :
    ¬ RestoreScope.partition.IsFinal attached {} "eav" changedObject
      { acmeStore with lastS3Etag := some "e1" } acmePartition := by
  have hfits : acmeStore.toWireSnapshot.Fits := by decide +kernel
  have hdistinct : DistinctEntries laterObject := by
    unfold DistinctEntries
    decide +kernel
  have hopened : RestoreScope.partition.opened {} "eav" acmePartition =
    .ok acmeStore.toWireSnapshot := opened_partitionBackup "eav" hfits
  rw [isFinal_iff_of_opened rfl (by rintro _ _ ⟨⟩; exact hdistinct) hopened]
  intro hstays
  have hkeeps := hstays.1 laterObject rfl
  have hback : ∃ e ∈ takenRows (RestoreScope.outdated { acmeStore with lastS3Etag := some "e1" }
        acmeStore.toWireSnapshot laterObject)
      (RestoreScope.partition.restoredRow { acmeStore with lastS3Etag := some "e1" }
        acmeStore.toWireSnapshot) laterObject.items,
      RestoreScope.partition.restoredRow { acmeStore with lastS3Etag := some "e1" }
        acmeStore.toWireSnapshot e.1 ≠ some e.2 ∧ RestoreScope.partition.row e = true := by
    decide +kernel
  obtain ⟨e, he, hother, hrow⟩ := hback
  cases hkeeps.rows e he with
  | inl hsame => exact hother hsame
  | inr hout =>
    rw [hrow] at hout
    cases hout.1

end Sequences
end RestoreScope
end MetriEngine.Storage

import MetriEngine.Storage.Atomicity

/-!
# What an acknowledged batch guarantees when S3 can fail

With an S3 store attached a batch is committed in memory before it is flushed,
and a failed PUT is only logged. Here the outcomes of the S3 calls are arbitrary
inputs, and the promise of the acknowledgement is compared with what they leave.
-/
namespace MetriEngine.Storage
open Foundation

/-! ### The promise -/

/-- The partition object decodes to a snapshot with the entry `e`. -/
def ObjectHolds (remote : Option (MbfObjectPayload VortexBody)) (e : PrimaryKey × Item) : Prop :=
  ∃ o snap, remote = some o ∧ o.bytes = some snap ∧ e ∈ snap.items

/-- Equal items, secondary trees and quota maps. -/
structure SameContent (st st' : MbfPartitionStore) : Prop where
  items : st'.items = st.items
  aevtIndex : st'.aevtIndex = st.aevtIndex
  avetIndex : st'.avetIndex = st.avetIndex
  vaetIndex : st'.vaetIndex = st.vaetIndex
  quotaCounters : st'.quotaCounters = st.quotaCounters
  quotaIdem : st'.quotaIdem = st.quotaIdem

/-- A client with its S3 store attached. -/
def attachedClient (defaultTable s3 : String) (computeEtag : VortexBody → String) :
    MbfStorageClient := ⟨defaultTable, some s3, computeEtag⟩

/-- The store after the synchronisation alone. -/
def MbfStorageClient.syncedStore (client : MbfStorageClient) (table : String) (io : SyncIo)
    (st : MbfPartitionStore) : MbfPartitionStore :=
  match client.syncFromS3 table io st with
  | .ok st' => st'
  | .error _ => st

/-- Success: the object holds every item of the batch that a snapshot persists.
Failure: the store has the content that the synchronisation left. -/
def KeepsPromise (batch : List TransactWriteItem) (synced : MbfPartitionStore)
    (r : Except DomainError Unit × MbfPartitionStore × Option (MbfObjectPayload VortexBody)) :
    Prop :=
  (r.1 = .ok () → ∀ e ∈ batchItems batch, r.2.1.persists e.1 = true → ObjectHolds r.2.2 e) ∧
  ((∃ err, r.1 = .error err) → SameContent synced r.2.1)

def MbfStorageClient.Acknowledges (client : MbfStorageClient) (sync : SyncIo) (flush : FlushIo)
    (st : MbfPartitionStore) (batch : List TransactWriteItem) : Prop :=
  KeepsPromise batch (client.syncedStore (client.batchTable batch) sync st)
    (client.transactWrite sync flush st batch)

/-! ### When it is kept -/

def batchTouched (batch : List TransactWriteItem) : List TouchedEntity :=
  (batchItems batch).filterMap fun e => touchedEntity e.1 e.2

/-- The store a batch leaves when its flush sends the GET. -/
def MbfPartitionStore.afterBatch (st : MbfPartitionStore) (batch : List TransactWriteItem) :
    MbfPartitionStore :=
  ((st.markTouched (batchTouched batch)).insertAll (batchItems batch)).addDirty
    (batchTouched batch)

/-- Applied after the entry was written to `st`, the answer to the flush's GET
removes it or puts another item in its place. -/
def Displaces (st : MbfPartitionStore) (e : PrimaryKey × Item) :
    MbfConditionalGet VortexBody → Prop
  | .notModified => False
  | .notFound => st.lastS3Etag.isSome = true
  | .modified payload => ∃ snap remoteItem, payload.bytes = some snap ∧
      (e.1, remoteItem) ∈ snap.items ∧ remoteItem ≠ e.2 ∧
      MbfPartitionStore.takesRemote (st.remoteIsNewer snap) (some e.2) remoteItem = true

/-- No key occurs twice in the object that a GET returned. -/
def DistinctKeys (get : S3GetAnswer VortexBody) : Prop :=
  ∀ eTag snap, get = .ok eTag (.ok (some snap)) → (snap.items.map Prod.fst).Nodup

/-- The promise is kept for a valid batch on the synchronised store if the answer
to the flush's GET could not be read and the batch rewrites what is there, or it
was read, and either the PUT was executed after a merge that displaced nothing, or
the object in place holds the batch already. -/
def FlushKeeps (computeEtag : VortexBody → String) (key : String) (flush : FlushIo)
    (synced : MbfPartitionStore) (batch : List TransactWriteItem) : Prop :=
  match fetchPartitionIfChanged computeEtag key flush.sync.get with
  | .error _ => ∀ e ∈ batchItems batch, synced.items.lookup e.1 = some e.2
  | .ok cond =>
    ∀ e ∈ batchItems batch,
      ((synced.afterBatch batch).applyConditionalGet flush.sync.nowMs cond).persists e.1 = true →
      if flush.put.executed then ¬ Displaces synced e cond else ObjectHolds flush.remote e

/-- The exact condition: nothing to write, no synchronised store to write to, a
batch that is refused, or a flush that keeps the promise. -/
def AcknowledgesWhen (client : MbfStorageClient) (key : String) (sync : SyncIo) (flush : FlushIo)
    (st : MbfPartitionStore) (batch : List TransactWriteItem) : Prop :=
  batch = [] ∨
  match client.syncFromS3 (client.batchTable batch) sync st with
  | .error _ => True
  | .ok synced =>
    ¬ BatchValid synced.items batch ∨ FlushKeeps client.computeEtag key flush synced batch

/-! ### The pieces -/

section Pieces
variable {st : MbfPartitionStore}

theorem fetch_modified_nodup {computeEtag : VortexBody → String} {key : String}
    {get : S3GetAnswer VortexBody} (hget : DistinctKeys get)
    {cond : MbfConditionalGet VortexBody}
    (h : fetchPartitionIfChanged computeEtag key get = .ok cond) :
    ∀ payload snap, cond = .modified payload → payload.bytes = some snap →
      (snap.items.map Prod.fst).Nodup := by
  intro payload snap hcond hbytes
  subst hcond
  cases get with
  | ok eTag body =>
    cases body with
    | error e => simp [fetchPartitionIfChanged] at h
    | ok bytes =>
      simp only [fetchPartitionIfChanged, Except.ok.injEq, MbfConditionalGet.modified.injEq] at h
      subst h
      exact hget eTag snap (by rw [← hbytes])
  | error status =>
    unfold fetchPartitionIfChanged at h
    split at h <;> simp_all

/-- Where the trees are exact, equal items have equal trees. -/
theorem IndexExact.trees_eq {st' : MbfPartitionStore} (h : IndexExact st) (h' : IndexExact st')
    (hitems : st'.items = st.items) :
    st'.aevtIndex = st.aevtIndex ∧ st'.avetIndex = st.avetIndex ∧
      st'.vaetIndex = st.vaetIndex := by
  have htree {t t' : OrdMap IndexKey Unit} {pkAttr skAttr : String}
      (ht : TreeExact st.items t pkAttr skAttr) (ht' : TreeExact st'.items t' pkAttr skAttr) :
      t' = t := by
    apply OrdMap.ext
    intro k
    have hc : t'.contains k = t.contains k := by
      rw [Bool.eq_iff_iff, ht k, ht' k, hitems]
    unfold OrdMap.contains at hc
    cases hl : t.lookup k <;> cases hl' : t'.lookup k <;> simp_all
  exact ⟨htree h.aevt h'.aevt, htree h.avet h'.avet, htree h.vaet h'.vaet⟩

/-- Writing items that are there already leaves the items as they are. -/
theorem insertList_eq_self_iff {items : OrdMap PrimaryKey Item} {l : List (PrimaryKey × Item)}
    (hnd : (l.map Prod.fst).Nodup) :
    items.insertList l = items ↔ ∀ e ∈ l, items.lookup e.1 = some e.2 := by
  constructor
  · intro h e he
    rw [← h]
    exact OrdMap.lookup_insertList_of_mem _ hnd he
  · intro h
    apply OrdMap.ext
    intro key
    by_cases hkey : key ∈ l.map Prod.fst
    · obtain ⟨e, he, rfl⟩ := List.mem_map.mp hkey
      rw [OrdMap.lookup_insertList_of_mem _ hnd he, h e he]
    · exact OrdMap.lookup_insertList_of_notMem _ hkey

end Pieces

/-! ### One valid batch -/

section Valid
variable {synced : MbfPartitionStore} {batch : List TransactWriteItem}

theorem afterBatch_items : (synced.afterBatch batch).items =
    synced.items.insertList (batchItems batch) := by
  change ((synced.markTouched _).insertAll _).items = _
  rw [MbfPartitionStore.insertAll_items, MbfPartitionStore.markTouched_items]

theorem afterBatch_ledger (synced : MbfPartitionStore) (batch : List TransactWriteItem) :
    SameLedger synced
    ((synced.markTouched (batchTouched batch)).insertAll (batchItems batch)) :=
  (synced.markTouched_ledger _).trans (MbfPartitionStore.insertAll_ledger _ _)

/-- The section of a valid batch, followed by the marking of the dirty set. -/
theorem transactWrite_of_valid (hv : BatchValid synced.items batch) :
    ∃ st' touched, synced.transactWrite batch = .ok (st', touched) ∧
      st'.addDirty touched = synced.afterBatch batch ∧ st'.bulkDepth = synced.bulkDepth := by
  obtain ⟨⟨st', touched⟩, h⟩ := MbfPartitionStore.transactWrite_isOk_iff.mpr hv
  obtain ⟨rfl, rfl⟩ := MbfPartitionStore.transactWrite_ok h
  exact ⟨_, _, h, rfl, (MbfPartitionStore.transactWrite_ledger h).bulkDepth⟩

/-- The merge of the flush treats the batch's entries as the synchronised store says. -/
theorem displaces_afterBatch (e : PrimaryKey × Item) (cond : MbfConditionalGet VortexBody) :
    Displaces (synced.afterBatch batch) e cond ↔ Displaces synced e cond := by
  have hledger := afterBatch_ledger synced batch
  have hetag : (synced.afterBatch batch).lastS3Etag = synced.lastS3Etag := hledger.lastS3Etag
  have hepoch : (synced.afterBatch batch).epochId = synced.epochId := hledger.epochId
  unfold Displaces MbfPartitionStore.remoteIsNewer
  rw [hetag, hepoch]

/-- The merge inside the flush keeps a written item exactly if it displaces it. -/
theorem lookup_applyConditionalGet_iff (nowMs : ℤ) {cond : MbfConditionalGet VortexBody}
    (hcond : ∀ payload snap, cond = .modified payload → payload.bytes = some snap →
      (snap.items.map Prod.fst).Nodup)
    {st : MbfPartitionStore} {e : PrimaryKey × Item} (he : st.items.lookup e.1 = some e.2)
    (hfts : Text.contains e.1.pk "#FTS#" = false) :
    (st.applyConditionalGet nowMs cond).items.lookup e.1 = some e.2 ↔ ¬ Displaces st e cond := by
  unfold MbfPartitionStore.applyConditionalGet Displaces
  cases cond with
  | notModified => simp [he]
  | notFound =>
    cases hk : st.lastS3Etag with
    | none => simp [he]
    | some etag => simp
  | modified payload =>
    obtain ⟨bytes, etag⟩ := payload
    cases bytes with
    | none => simp [he]
    | some snap =>
      have hnd := hcond _ snap rfl rfl
      simp only [MbfPartitionStore.applyWireSnapshot_items, Option.some.injEq]
      by_cases hmem : e.1 ∈ snap.items.map Prod.fst
      · obtain ⟨⟨key, remoteItem⟩, hr, hkey⟩ := List.mem_map.mp hmem
        obtain rfl : key = e.1 := hkey
        rw [MbfPartitionStore.mergeItems_lookup_of_mem hnd hr, he]
        have hunique (r : Item) (hr' : (e.1, r) ∈ snap.items) : r = remoteItem :=
          congrArg Prod.snd (List.inj_on_of_nodup_map hnd hr' hr rfl)
        cases ht : MbfPartitionStore.takesRemote (st.remoteIsNewer snap) (some e.2) remoteItem with
        | false =>
          simp only [hfts, Bool.false_eq_true, or_true, if_true, true_iff, not_exists, not_and]
          rintro _ r rfl hr' _ ht'
          rw [hunique r hr'] at ht'
          simp [ht] at ht'
        | true =>
          simp only [hfts, Bool.false_eq_true, reduceCtorEq, or_self, if_false, Option.some.injEq]
          constructor
          · rintro heq ⟨_, r, rfl, hr', hne, _⟩
            exact hne ((hunique r hr').trans heq)
          · intro hno
            by_contra hne
            exact hno ⟨snap, remoteItem, rfl, hr, hne, ht⟩
      · rw [MbfPartitionStore.mergeItems_lookup_of_notMem hmem]
        simp only [he, true_iff, not_exists, not_and]
        rintro _ r rfl hr _
        exact absurd (List.mem_map.mpr ⟨_, hr, rfl⟩) hmem

theorem SameContent.refl (st : MbfPartitionStore) : SameContent st st :=
  ⟨rfl, rfl, rfl, rfl, rfl, rfl⟩

/-- A failed flush leaves no trace exactly if the batch rewrites what is there. -/
theorem sameContent_afterBatch_iff (hidx : IndexExact synced)
    (hnd : ((batchItems batch).map Prod.fst).Nodup) :
    SameContent synced (synced.afterBatch batch) ↔
      ∀ e ∈ batchItems batch, synced.items.lookup e.1 = some e.2 := by
  rw [← insertList_eq_self_iff hnd, ← afterBatch_items]
  constructor
  · intro h
    exact h.items
  · intro hitems
    have hidx' : IndexExact (synced.afterBatch batch) :=
      ((hidx.markTouched _).insertAll _).congr rfl rfl rfl rfl
    obtain ⟨haevt, havet, hvaet⟩ := hidx.trees_eq hidx' hitems
    have hledger := afterBatch_ledger synced batch
    exact ⟨hitems, haevt, havet, hvaet, hledger.quotaCounters, hledger.quotaIdem⟩

/-- What the object holds after a PUT of what `st` serialises. -/
theorem objectHolds_remoteAfter_iff {st : MbfPartitionStore}
    {remote : Option (MbfObjectPayload VortexBody)} (put : S3PutReply remote none)
    {e : PrimaryKey × Item} (hp : st.persists e.1 = true) :
    ObjectHolds (put.remoteAfter (some st.serializeFlushArtifacts.2)) e ↔
      if put.executed then st.items.lookup e.1 = some e.2 else ObjectHolds remote e := by
  unfold S3PutReply.remoteAfter
  cases put.executed with
  | false => simp
  | true =>
    have hmem : e ∈ st.serializeFlushArtifacts.2.items ↔ st.items.lookup e.1 = some e.2 := by
      rw [OrdMap.lookup_eq_some]
      exact List.mem_filter.trans (and_iff_left hp)
    simp [ObjectHolds, hmem]

end Valid

/-! ### The call -/

section Call
variable (defaultTable s3 : String) (computeEtag : VortexBody → String)
  {sync : SyncIo} {flush : FlushIo} {st : MbfPartitionStore} {batch : List TransactWriteItem}

theorem attached_syncFromS3 (table : String) (io : SyncIo) (hbulk : st.bulkDepth = 0) :
    (attachedClient defaultTable s3 computeEtag).syncFromS3 table io st =
      (fetchPartitionIfChanged computeEtag (MbfStorageClient.vortexS3Key s3 table) io.get).map
        (st.applyConditionalGet io.nowMs) := by
  simp [MbfStorageClient.syncFromS3, attachedClient, hbulk]

/-- The flush of a batch that was accepted, with what S3 made of it. -/
theorem attached_flushToS3 (table : String) (touched : List TouchedEntity)
    (hbulk : st.bulkDepth = 0) :
    (attachedClient defaultTable s3 computeEtag).flushToS3 table flush st touched =
      match fetchPartitionIfChanged computeEtag (MbfStorageClient.vortexS3Key s3 table)
          flush.sync.get with
      | .error e => (.error e, st.addDirty touched, flush.remote)
      | .ok cond =>
        let merged := (st.addDirty touched).applyConditionalGet flush.sync.nowMs cond
        let newEtag := putRawMbf computeEtag (some merged.serializeFlushArtifacts.2)
          flush.put.answer
        (.ok (), merged.serializeFlushArtifacts.1.recordFlush newEtag flush.doneMs,
          flush.put.remoteAfter (some merged.serializeFlushArtifacts.2)) := by
  have hbulk' : (st.addDirty touched).bulkDepth = 0 := hbulk
  unfold MbfStorageClient.flushToS3
  simp only [attached_syncFromS3 defaultTable s3 computeEtag table flush.sync hbulk', hbulk']
  simp only [attachedClient, lt_self_iff_false, reduceCtorEq, or_self, if_false]
  cases fetchPartitionIfChanged computeEtag (MbfStorageClient.vortexS3Key s3 table)
    flush.sync.get <;> rfl

theorem keepsPromise_error_iff {synced st' : MbfPartitionStore} {err : DomainError}
    {remote : Option (MbfObjectPayload VortexBody)} :
    KeepsPromise batch synced (.error err, st', remote) ↔ SameContent synced st' := by
  simp [KeepsPromise]

theorem keepsPromise_ok_iff {synced st' : MbfPartitionStore}
    {remote : Option (MbfObjectPayload VortexBody)} :
    KeepsPromise batch synced (.ok (), st', remote) ↔
      ∀ e ∈ batchItems batch, st'.persists e.1 = true → ObjectHolds remote e := by
  simp [KeepsPromise]

/-- The flush of a valid batch. -/
theorem flush_keepsPromise_iff {synced : MbfPartitionStore} (table : String)
    (hbulk : synced.bulkDepth = 0) (hidx : IndexExact synced)
    (hflush : DistinctKeys flush.sync.get) (hv : BatchValid synced.items batch)
    {st' : MbfPartitionStore} {touched : List TouchedEntity}
    (hafter : st'.addDirty touched = synced.afterBatch batch)
    (hbulk' : st'.bulkDepth = synced.bulkDepth) :
    KeepsPromise batch synced
        ((attachedClient defaultTable s3 computeEtag).flushToS3 table flush st' touched) ↔
      FlushKeeps computeEtag (MbfStorageClient.vortexS3Key s3 table) flush synced batch := by
  rw [attached_flushToS3 defaultTable s3 computeEtag table touched (hbulk'.trans hbulk), hafter,
    FlushKeeps]
  cases hget : fetchPartitionIfChanged computeEtag (MbfStorageClient.vortexS3Key s3 table)
      flush.sync.get with
  | error err => exact keepsPromise_error_iff.trans (sameContent_afterBatch_iff hidx hv.keys_nodup)
  | ok cond =>
    rw [keepsPromise_ok_iff]
    apply forall₂_congr
    intro e he
    apply imp_congr_right
    intro hp
    -- serialising and recording the flush leave the entity sets as they are
    have hmerged : ((synced.afterBatch batch).applyConditionalGet flush.sync.nowMs cond).persists
        e.1 = true := hp
    have hfts : Text.contains e.1.pk "#FTS#" = false := by
      simp only [MbfPartitionStore.persists, Bool.and_eq_true, Bool.not_eq_true'] at hmerged
      exact hmerged.1
    have hlookup : (synced.afterBatch batch).items.lookup e.1 = some e.2 := by
      rw [afterBatch_items]
      exact OrdMap.lookup_insertList_of_mem _ hv.keys_nodup he
    have hkept := lookup_applyConditionalGet_iff flush.sync.nowMs
      (fetch_modified_nodup hflush hget) hlookup hfts
    rw [objectHolds_remoteAfter_iff flush.put hmerged, hkept, displaces_afterBatch]

/-- Outside a bulk scope, and on stores whose trees are exact, the promise of an
acknowledged batch is kept exactly under `AcknowledgesWhen`. -/
theorem transactWrite_acknowledges_iff (hbulk : st.bulkDepth = 0) (hidx : IndexExact st)
    (hsync : DistinctKeys sync.get) (hflush : DistinctKeys flush.sync.get) :
    (attachedClient defaultTable s3 computeEtag).Acknowledges sync flush st batch ↔
      AcknowledgesWhen (attachedClient defaultTable s3 computeEtag)
        (MbfStorageClient.vortexS3Key s3
          ((attachedClient defaultTable s3 computeEtag).batchTable batch)) sync flush st batch := by
  unfold MbfStorageClient.Acknowledges AcknowledgesWhen MbfStorageClient.syncedStore
  rw [MbfStorageClient.transactWrite]
  generalize (attachedClient defaultTable s3 computeEtag).batchTable batch = table
  cases hempty : batch.isEmpty with
  | true =>
    obtain rfl := List.isEmpty_iff.mp hempty
    simp [keepsPromise_ok_iff, batchItems, batchPuts]
  | false =>
    have hne : batch ≠ [] := by
      rintro rfl
      simp at hempty
    rw [attached_syncFromS3 defaultTable s3 computeEtag table sync hbulk]
    cases hget : fetchPartitionIfChanged computeEtag
        (MbfStorageClient.vortexS3Key s3 table) sync.get with
    | error err => simp [hne, Except.map, keepsPromise_error_iff, SameContent.refl]
    | ok cond =>
      have hidx' := hidx.applyConditionalGet sync.nowMs (fetch_modified_nodup hsync hget)
      have hbulk' : (st.applyConditionalGet sync.nowMs cond).bulkDepth = 0 := by
        rw [applyConditionalGet_bulkDepth, hbulk]
      simp only [Except.map, hne, false_or, Bool.false_eq_true, if_false]
      generalize st.applyConditionalGet sync.nowMs cond = synced at hidx' hbulk' ⊢
      by_cases hv : BatchValid synced.items batch
      · obtain ⟨st', touched, htx, hafter, hsame⟩ := transactWrite_of_valid hv
        simp only [hv, not_true_eq_false, false_or, htx]
        exact flush_keepsPromise_iff defaultTable s3 computeEtag table hbulk' hidx' hflush hv
          hafter hsame
      · cases htx : synced.transactWrite batch with
        | error err => simp [hv, keepsPromise_error_iff, SameContent.refl]
        | ok r => exact absurd (MbfPartitionStore.transactWrite_isOk_iff.mp ⟨r, htx⟩) hv

end Call

/-! ### A lost PUT -/

/-- S3 answers an error and does not execute the PUT. -/
def failedPut (remote : Option (MbfObjectPayload VortexBody)) : S3PutReply remote none where
  answer := .error (some 503)
  executed := false
  etag := ""
  executed_of_ok := by simp
  refused_of_412 := by simp
  matched := by simp

/-- S3 executes the PUT and returns an ETag. -/
def servedPut (remote : Option (MbfObjectPayload VortexBody)) : S3PutReply remote none where
  answer := .ok (some "e1")
  executed := true
  etag := "e1"
  executed_of_ok := by simp
  refused_of_412 := by simp
  matched := by simp

/-- A put of one item without condition. -/
def singlePut : TransactWriteItem :=
  ⟨some ⟨"t", (∅ : Item).insert "PK" (.s "a"), none, ∅⟩⟩

/-- The bucket holds no object yet. -/
def absentSync : SyncIo := ⟨0, .error (some 404)⟩

/-- The bucket is empty and the PUT fails: the batch is acknowledged and S3 holds nothing. -/
theorem lost_put_is_acknowledged :
    ¬ (attachedClient "t" "p" fun _ => "d").Acknowledges absentSync
      ⟨absentSync, none, failedPut none, 0⟩ {} [singlePut] := by
  rintro ⟨hok, _⟩
  have hheld := hok rfl (⟨"a", []⟩, (∅ : Item).insert "PK" (.s "a")) (by decide) (by decide)
  obtain ⟨o, snap, ho, _⟩ := hheld
  have hnone : (none : Option (MbfObjectPayload VortexBody)) = some o := ho
  simp at hnone

/-- The same batch with the PUT executed: nothing was displaced, the promise is kept. -/
theorem served_put_acknowledges :
    (attachedClient "t" "p" fun _ => "d").Acknowledges absentSync
      ⟨absentSync, none, servedPut none, 0⟩ {} [singlePut] := by
  apply (transactWrite_acknowledges_iff "t" "p" (fun _ => "d") rfl IndexExact.empty
    (fun _ _ h => by simp [absentSync] at h) (fun _ _ h => by simp [absentSync] at h)).mpr
  right
  right
  intro e _ _ hdisplaced
  exact Bool.noConfusion hdisplaced

end MetriEngine.Storage

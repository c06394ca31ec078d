import MetriEngine.Storage.Merge
import MetriEngine.Storage.ObjectStore
import MetriEngine.Storage.Operation

/-!
# Synchronisation and flush

How the storage client surrounds a section with the exchange of the partition
object: a conditional GET and a merge before it, and after it a second GET and
merge, the serialisation of the store, and an unconditional PUT.

The body of a partition object is what its decoder makes of it: a snapshot, or
nothing where the envelope or the payload does not decode.
-/
namespace MetriEngine.Storage
open Foundation

/-- `decode_mbf_envelope` and `MbfPartitionWireSnapshot::decode_binary` on a body. -/
abbrev VortexBody := Option MbfPartitionWireSnapshot

namespace MbfPartitionStore
variable (st : MbfPartitionStore)

/-- The part of `sync_from_s3_inner` after S3 has answered. -/
def applyConditionalGet (nowMs : ℤ) : MbfConditionalGet VortexBody → MbfPartitionStore
  | .notModified => { st with lastSyncMs := nowMs }
  | .notFound =>
    if st.lastS3Etag.isSome then { bulkDepth := st.bulkDepth, lastSyncMs := nowMs }
    else { st with lastSyncMs := nowMs }
  | .modified payload =>
    match payload.bytes with
    | some snap => st.applyWireSnapshot snap payload.etag nowMs
    | none => st

/-- Whether a read may use the copy it has: it knows an ETag and looked for
changes less than 200 ms ago. -/
def isRecent (nowMs : ℤ) : Bool := st.lastS3Etag.isSome && decide (nowMs - st.lastSyncMs < 200)

/-- `serialize_flush_artifacts`, as far as the partition object is concerned. -/
def serializeFlushArtifacts : MbfPartitionStore × MbfPartitionWireSnapshot :=
  let st := { st with dirtyEntities := ∅, epochId := (st.epochId + 1) % 2 ^ 64 }
  (st, st.toWireSnapshot)

def addDirty (touched : List TouchedEntity) : MbfPartitionStore :=
  { st with dirtyEntities := st.dirtyEntities ∪ touched.toFinset }

/-- The end of a flush: the store remembers the ETag of what it wrote. -/
def recordFlush (newEtag : String) (nowMs : ℤ) : MbfPartitionStore :=
  { st with lastS3Etag := some newEtag, lastSyncMs := nowMs }

end MbfPartitionStore

section Answer
variable {st : MbfPartitionStore}

theorem applyConditionalGet_bulkDepth (nowMs : ℤ) (cond : MbfConditionalGet VortexBody) :
    (st.applyConditionalGet nowMs cond).bulkDepth = st.bulkDepth := by
  unfold MbfPartitionStore.applyConditionalGet
  cases cond with
  | notModified => rfl
  | notFound => split_ifs <;> rfl
  | modified payload =>
    obtain ⟨bytes, etag⟩ := payload
    cases bytes with
    | none => rfl
    | some snap => exact (st.mergeItems_ledger snap).bulkDepth

theorem IndexExact.applyConditionalGet (h : IndexExact st) (nowMs : ℤ)
    {cond : MbfConditionalGet VortexBody}
    (hnd : ∀ payload snap, cond = .modified payload → payload.bytes = some snap →
      (snap.items.map Prod.fst).Nodup) :
    IndexExact (st.applyConditionalGet nowMs cond) := by
  unfold MbfPartitionStore.applyConditionalGet
  cases cond with
  | notModified => exact h.congr rfl rfl rfl rfl
  | notFound =>
    split_ifs
    · exact IndexExact.empty.congr rfl rfl rfl rfl
    · exact h.congr rfl rfl rfl rfl
  | modified payload =>
    obtain ⟨bytes, etag⟩ := payload
    cases bytes with
    | none => exact h
    | some snap => exact h.applyWireSnapshot (hnd _ snap rfl rfl) _ _

end Answer

/-! ### One call from beginning to end -/

/-- What S3 and the clock give one exchange of a call. -/
structure SyncIo where
  nowMs : ℤ
  get : S3GetAnswer VortexBody

/-- What S3 and the clock give one flush: its GET, the object its PUT meets, and
the reply to that PUT. -/
structure FlushIo where
  sync : SyncIo
  remote : Option (MbfObjectPayload VortexBody)
  put : S3PutReply remote none
  doneMs : ℤ

/-- A client: with the prefix of its S3 store, or in memory. -/
structure MbfStorageClient where
  defaultTable : String
  s3Prefix : Option String
  computeEtag : VortexBody → String

namespace MbfStorageClient
variable (client : MbfStorageClient)

def vortexS3Key (s3 table : String) : String := s!"{s3}/vortex/{table}.mbf"

/-- The table that a batch goes to: the one its first element names. -/
def batchTable (batch : List TransactWriteItem) : String :=
  match batch.head?.bind TransactWriteItem.put with
  | some put => if put.tableName = "" then client.defaultTable else put.tableName
  | none => client.defaultTable

/-- `sync_from_s3` with `force`. -/
def syncFromS3 (table : String) (io : SyncIo) (st : MbfPartitionStore) :
    Except DomainError MbfPartitionStore :=
  match client.s3Prefix with
  | none => .ok st
  | some s3 =>
    if 0 < st.bulkDepth then .ok st
    else (fetchPartitionIfChanged client.computeEtag (vortexS3Key s3 table) io.get).map
      (st.applyConditionalGet io.nowMs)

/-- `flush_to_s3`: the result, the store and the partition object. -/
def flushToS3 (table : String) (io : FlushIo) (st : MbfPartitionStore)
    (touched : List TouchedEntity) :
    Except DomainError Unit × MbfPartitionStore × Option (MbfObjectPayload VortexBody) :=
  let st := st.addDirty touched
  if 0 < st.bulkDepth ∨ client.s3Prefix = none then (.ok (), st, io.remote)
  else
    match client.syncFromS3 table io.sync st with
    | .error e => (.error e, st, io.remote)
    | .ok st =>
      let (st, snap) := st.serializeFlushArtifacts
      let newEtag := putRawMbf client.computeEtag (some snap) io.put.answer
      (.ok (), st.recordFlush newEtag io.doneMs, io.put.remoteAfter (some snap))

/-- `transact_write` on the partition of the batch's table. -/
def transactWrite (sync : SyncIo) (flush : FlushIo) (st : MbfPartitionStore)
    (batch : List TransactWriteItem) :
    Except DomainError Unit × MbfPartitionStore × Option (MbfObjectPayload VortexBody) :=
  if batch.isEmpty then (.ok (), st, flush.remote)
  else
    match client.syncFromS3 (client.batchTable batch) sync st with
    | .error e => (.error e, st, flush.remote)
    | .ok st =>
      match st.transactWrite batch with
      | .error e => (.error e, st, flush.remote)
      | .ok (st', touched) => client.flushToS3 (client.batchTable batch) flush st' touched

end MbfStorageClient
end MetriEngine.Storage

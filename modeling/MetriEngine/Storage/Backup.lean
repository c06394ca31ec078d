import MetriEngine.Storage.Client
import MetriEngine.Storage.Wire

/-!
# Backups

A backup is a sealed file with a snapshot in it, of a partition or of one tenant. Restoring it
replaces the scope that it was taken of and flushes the partition. A file is held here by its
parts: where they lie in it, the directory and the checksums are left out, and so are the
metadata and the report that go with a backup. The two digests are parameters.
-/
namespace MetriEngine.Storage
open Foundation

/-! ### Seals -/

/-- `Sha256` and `HmacSha256`, the second of a key and a message. -/
class SealDigests where
  sha256 : List Byte → List Byte
  hmacSha256 : List Byte → List Byte → List Byte

structure EngineConfig where
  hmacSecret : Option String := none
  mbfSealKey : Option String := none

def legacyMbfSealKey : List Byte := utf8 "METRI_VORTEX_MBF_SEAL_KEY_2026"

def EngineConfig.activeMbfSealKey (cfg : EngineConfig) : List Byte :=
  match (cfg.mbfSealKey.filter fun k => k ≠ "").or (cfg.hmacSecret.filter fun h => h ≠ "") with
  | some key => utf8 key
  | none => legacyMbfSealKey

structure MbfTenantCryptoSeal where
  tenantContextHash : List Byte
  nonce : List Byte
  cryptoFlags : ℕ
  keyedMac : List Byte
deriving DecidableEq

namespace MbfTenantCryptoSeal
variable [SealDigests]

def deriveTenantKey (masterSecret : List Byte) (tenantId : String) : List Byte :=
  SealDigests.sha256 (utf8 "METRI_MBF_V1_TENANT_KDF:" ++ masterSecret ++ utf8 ":" ++ utf8 tenantId)

def computeContextHash (tenantId entityType : String) : List Byte :=
  (SealDigests.sha256 (utf8 tenantId ++ utf8 "#" ++ utf8 entityType)).take 16

def sealBlock (masterSecret : List Byte) (tenantId entityType : String) (epochId : ℕ)
    (payload : List Byte) : MbfTenantCryptoSeal :=
  let contextHash := computeContextHash tenantId entityType
  let nonce := leBytes 8 (epochId % 2 ^ 64) ++ List.replicate 4 0
  { tenantContextHash := contextHash
    nonce := nonce
    cryptoFlags := 1
    keyedMac := SealDigests.hmacSha256 (deriveTenantKey masterSecret tenantId)
      (contextHash ++ nonce ++ payload) }

def verifyBlock (cryptoSeal : MbfTenantCryptoSeal) (masterSecret : List Byte)
    (expectedTenantId expectedEntityType : String) (payload : List Byte) : Except DomainError Unit :=
  if cryptoSeal.tenantContextHash ≠ computeContextHash expectedTenantId expectedEntityType then
    .error ⟨.mbfTenantSeal001, s!"Block tenant context does not match '{expectedTenantId}'"⟩
  else if cryptoSeal.keyedMac ≠ SealDigests.hmacSha256 (deriveTenantKey masterSecret expectedTenantId)
      (cryptoSeal.tenantContextHash ++ cryptoSeal.nonce ++ payload) then
    .error ⟨.mbfCorrupt001, "Cryptographic MAC verification failed on MBF block"⟩
  else .ok ()

def sealActive (cfg : EngineConfig) (tenantId entityType : String) (epochId : ℕ)
    (payload : List Byte) : MbfTenantCryptoSeal :=
  let activeKey := cfg.activeMbfSealKey
  { sealBlock activeKey tenantId entityType epochId payload with
    cryptoFlags := if activeKey = legacyMbfSealKey then 1 else 2 }

def verifyWithKeyring (cryptoSeal : MbfTenantCryptoSeal) (cfg : EngineConfig)
    (expectedTenantId expectedEntityType : String) (payload : List Byte) : Except DomainError Unit :=
  let verify key := cryptoSeal.verifyBlock key expectedTenantId expectedEntityType payload
  let activeKey := cfg.activeMbfSealKey
  match verify activeKey with
  | .ok () => .ok ()
  | .error err =>
    if err.code = .mbfTenantSeal001 then .error err
    else if cfg.hmacSecret.any fun raw =>
        raw ≠ "" && utf8 raw ≠ activeKey && (verify (utf8 raw)).toBool then .ok ()
    else if activeKey ≠ legacyMbfSealKey then verify legacyMbfSealKey
    else
      .error ⟨.mbfCorrupt001,
        "MbfTenantCryptoSeal keyed_mac mismatch (tampering or wrong seal key)"⟩

end MbfTenantCryptoSeal

/-- A `.mbf` file: the flag of its header, its seal, and its payload. -/
structure MbfFile where
  cryptoSealed : Bool
  cryptoSeal : MbfTenantCryptoSeal
  payload : List Byte
deriving DecidableEq

def encodeMbfEnvelope [SealDigests] (cfg : EngineConfig) (epochId : ℕ) (tenantId entityType : String)
    (payload : List Byte) : MbfFile :=
  ⟨true, .sealActive cfg tenantId entityType epochId payload, payload⟩

/-! ### Tenants -/

def tenantPkPrefix (tenantId : String) : String := "T#" ++ tenantId ++ "#"

/-- A row is a tenant's by its key or by its attribute. -/
def recordBelongsToTenant (tenantId : String) (e : PrimaryKey × Item) : Bool :=
  Text.startsWith e.1.pk (tenantPkPrefix tenantId) ||
    (e.2.lookup "tenant_id").bind avString = some tenantId

/-- Trigram postings stay in memory. -/
def isFtsRow (key : PrimaryKey) : Bool := Text.contains key.pk "#FTS#"

def allItemsBelongToTenant (snap : MbfPartitionWireSnapshot) (tenantId : String) : Bool :=
  snap.items.all (recordBelongsToTenant tenantId) &&
    snap.quotaCounters.all (fun e => (ofLex e.1).1 = tenantId) &&
    snap.quotaIdem.all (fun e => (ofLex e.1).1 = tenantId)

def extractTenantWireSnapshot (st : MbfPartitionStore) (tenantId : String) :
    MbfPartitionWireSnapshot where
  epochId := st.epochId
  items := st.items.entries.filter fun e => !isFtsRow e.1 && recordBelongsToTenant tenantId e
  quotaCounters := st.quotaCounters.entries.filter fun e => (ofLex e.1).1 = tenantId
  quotaIdem := st.quotaIdem.entries.filter fun e => (ofLex e.1).1 = tenantId

namespace MbfBackupManager

/-! ### Replacing a scope -/

/-- The rows of a snapshot into a store. -/
def insertRows (st : MbfPartitionStore) (rows : List (PrimaryKey × Item)) : MbfPartitionStore :=
  rows.foldl (fun st e => if isFtsRow e.1 then st else st.insertIndexed e.1 e.2) st

/-- Past both the store and the backup. -/
def nextEpoch (st : MbfPartitionStore) (snap : MbfPartitionWireSnapshot) : ℕ :=
  (max st.epochId snap.epochId + 1) % 2 ^ 64

/-- The end of both replacements. -/
def fillFrom (st : MbfPartitionStore) (snap : MbfPartitionWireSnapshot) (epochId : ℕ) :
    MbfPartitionStore :=
  let st := insertRows st snap.items
  { st with
    quotaCounters := st.quotaCounters.insertList snap.quotaCounters
    quotaIdem := st.quotaIdem.insertList snap.quotaIdem
    epochId := epochId }

def replacePartitionState (st : MbfPartitionStore) (snap : MbfPartitionWireSnapshot) :
    MbfPartitionStore × ℕ :=
  let cleared := { st with
    items := ∅
    aevtIndex := ∅
    avetIndex := ∅
    vaetIndex := ∅
    dirtyEntities := ∅
    transientEntities := ∅
    quotaCounters := ∅
    quotaIdem := ∅ }
  (fillFrom cleared snap (nextEpoch st snap), nextEpoch st snap)

/-- A store without the rows, counters and marks of a tenant. -/
def removeTenant (st : MbfPartitionStore) (tenantId : String) : MbfPartitionStore :=
  let keysToRemove := (st.items.entries.filter (recordBelongsToTenant tenantId)).map Prod.fst
  let st := keysToRemove.foldl (fun st key => st.removeIndexed key) st
  { st with
    quotaCounters := st.quotaCounters.filterKeys fun key => (ofLex key).1 ≠ tenantId
    quotaIdem := st.quotaIdem.filterKeys fun key => (ofLex key).1 ≠ tenantId
    transientEntities :=
      st.transientEntities.filter fun pk => !Text.startsWith pk (tenantPkPrefix tenantId) }

def replaceSingleTenantState (st : MbfPartitionStore) (tenantId : String)
    (snap : MbfPartitionWireSnapshot) : MbfPartitionStore × ℕ :=
  (fillFrom (removeTenant st tenantId) snap (nextEpoch st snap), nextEpoch st snap)

/-! ### Backups and restores -/

section Files
variable [WireFormats] [SealDigests]

def packSnapshot (cfg : EngineConfig) (tenantId table : String) (snap : MbfPartitionWireSnapshot) :
    MbfFile := encodeMbfEnvelope cfg snap.epochId tenantId table snap.encodeBinary

def createPartitionBackup (cfg : EngineConfig) (table : String) (st : MbfPartitionStore) : MbfFile :=
  packSnapshot cfg "system" table st.toWireSnapshot

def createTenantBackup (cfg : EngineConfig) (table tenantId : String) (st : MbfPartitionStore) :
    Except DomainError MbfFile :=
  if Text.trim tenantId = "" then
    .error ⟨.mbfTenantSeal001, "Tenant ID cannot be empty for tenant-granular backup"⟩
  else .ok (packSnapshot cfg tenantId table (extractTenantWireSnapshot st tenantId))

def verifyBackupBytes (cfg : EngineConfig) (backup : MbfFile) (expectedTenant expectedTable : String) :
    Except DomainError Unit := do
  if backup.cryptoSealed then
    backup.cryptoSeal.verifyWithKeyring cfg expectedTenant expectedTable backup.payload
  let snap ← MbfPartitionWireSnapshot.decodeBinary backup.payload
  if expectedTenant ≠ "system" && !allItemsBelongToTenant snap expectedTenant then
    throw ⟨.mbfTenantSeal001, s!"Backup payload contains records outside tenant '{expectedTenant}'"⟩

/-- The answer of a restore, the store and the partition object that it leaves. -/
abbrev Restored :=
  Except DomainError ℕ × MbfPartitionStore × Option (MbfObjectPayload VortexBody)

/-- What follows on the replacement: the flush of the partition. -/
def flushReplaced (client : MbfStorageClient) (table : String) (io : FlushIo)
    (replaced : MbfPartitionStore × ℕ) : Restored :=
  let (result, st, object) := client.flushToS3 table io replaced.1 []
  (result.map fun _ => replaced.2, st, object)

def restorePartitionFromBytes (client : MbfStorageClient) (cfg : EngineConfig) (table : String)
    (io : FlushIo) (st : MbfPartitionStore) (backup : MbfFile) : Restored :=
  match verifyBackupBytes cfg backup "system" table with
  | .error e => (.error e, st, io.remote)
  | .ok () =>
    match MbfPartitionWireSnapshot.decodeBinary backup.payload with
    | .error e => (.error e, st, io.remote)
    | .ok snap => flushReplaced client table io (replacePartitionState st snap)

def restoreTenantFromBytes (client : MbfStorageClient) (cfg : EngineConfig) (table tenantId : String)
    (io : FlushIo) (st : MbfPartitionStore) (backup : MbfFile) : Restored :=
  match verifyBackupBytes cfg backup tenantId table with
  | .error e => (.error e, st, io.remote)
  | .ok () =>
    match MbfPartitionWireSnapshot.decodeBinary backup.payload with
    | .error e => (.error e, st, io.remote)
    | .ok snap => flushReplaced client table io (replaceSingleTenantState st tenantId snap)

end Files

/-! ### What a replacement leaves -/

section Replaced
variable {st : MbfPartitionStore}

theorem insertRows_items (rows : List (PrimaryKey × Item)) :
    (insertRows st rows).items =
      st.items.insertList (rows.filter fun e => !isFtsRow e.1) := by
  induction rows generalizing st with
  | nil => rfl
  | cons e rows ih =>
    rw [insertRows, List.foldl_cons, ← insertRows, ih]
    by_cases hfts : isFtsRow e.1 = true
    · rw [if_pos hfts, List.filter_cons_of_neg (by simp [hfts])]
    · rw [if_neg hfts, List.filter_cons_of_pos (by simp [hfts]), OrdMap.insertList_cons,
        MbfPartitionStore.insertIndexed_items]

theorem insertRows_ledger (rows : List (PrimaryKey × Item)) : SameLedger st (insertRows st rows) := by
  apply SameLedger.foldl
  intro st e
  split_ifs
  · exact SameLedger.refl st
  · exact st.insertIndexed_ledger e.1 e.2

theorem IndexExact.insertRows (h : IndexExact st) (rows : List (PrimaryKey × Item)) :
    IndexExact (insertRows st rows) := by
  induction rows generalizing st with
  | nil => exact h
  | cons e rows ih =>
    rw [MbfBackupManager.insertRows, List.foldl_cons, ← MbfBackupManager.insertRows]
    apply ih
    split_ifs
    · exact h
    · exact h.insertIndexed e.1 e.2

theorem removeKeys_lookup (keys : List PrimaryKey) (key : PrimaryKey) :
    (keys.foldl (fun st key => st.removeIndexed key) st).items.lookup key =
      if key ∈ keys then none else st.items.lookup key := by
  induction keys generalizing st with
  | nil => simp
  | cons key' keys ih =>
    rw [List.foldl_cons, ih, MbfPartitionStore.removeIndexed_items, OrdMap.lookup_erase]
    by_cases heq : key = key'
    · simp [heq]
    · simp [heq]

theorem removeKeys_ledger (keys : List PrimaryKey) :
    SameLedger st (keys.foldl (fun st key => st.removeIndexed key) st) :=
  SameLedger.foldl (fun st key => st.removeIndexed_ledger key) keys st

theorem IndexExact.removeKeys (h : IndexExact st) (keys : List PrimaryKey) :
    IndexExact (keys.foldl (fun st key => st.removeIndexed key) st) := by
  induction keys generalizing st with
  | nil => exact h
  | cons key keys ih => exact ih (h.removeIndexed key)

/-- What is left without a tenant: the rows that are not its own. -/
theorem removeTenant_lookup (tenantId : String) (key : PrimaryKey) :
    (removeTenant st tenantId).items.lookup key =
      (st.items.lookup key).filter fun item => !recordBelongsToTenant tenantId (key, item) := by
  change (((st.items.entries.filter (recordBelongsToTenant tenantId)).map Prod.fst).foldl
    (fun st key => st.removeIndexed key) st).items.lookup key = _
  rw [removeKeys_lookup]
  cases hlookup : st.items.lookup key with
  | none => simp
  | some item =>
    have hentry : (key, item) ∈ st.items.entries := OrdMap.lookup_eq_some.mp hlookup
    rw [Option.filter_some]
    by_cases howned : recordBelongsToTenant tenantId (key, item) = true
    · rw [if_pos (List.mem_map.mpr ⟨(key, item), List.mem_filter.mpr ⟨hentry, howned⟩, rfl⟩),
        if_neg (by simp [howned])]
    · rw [if_neg, if_pos (by simp [howned])]
      intro hmem
      obtain ⟨⟨key', item'⟩, hin, rfl⟩ := List.mem_map.mp hmem
      obtain ⟨hin, hall⟩ := List.mem_filter.mp hin
      rw [st.items.entry_unique hin hentry] at hall
      exact howned hall

theorem removeTenant_ledger (tenantId : String) :
    (removeTenant st tenantId).quotaCounters =
        (st.quotaCounters.filterKeys fun key => (ofLex key).1 ≠ tenantId) ∧
      (removeTenant st tenantId).quotaIdem =
        (st.quotaIdem.filterKeys fun key => (ofLex key).1 ≠ tenantId) := by
  have hsame : SameLedger st (((st.items.entries.filter (recordBelongsToTenant tenantId)).map
      Prod.fst).foldl (fun st key => st.removeIndexed key) st) := removeKeys_ledger _
  refine ⟨?_, ?_⟩
  · rw [← hsame.quotaCounters]
    rfl
  · rw [← hsame.quotaIdem]
    rfl

/-- The row of a backup under a key. -/
def backupRow (st : MbfPartitionStore) (tenantId : String) (key : PrimaryKey) : Option Item :=
  (st.items.lookup key).filter fun item =>
    !isFtsRow key && recordBelongsToTenant tenantId (key, item)

theorem replaceTenant_lookup (backedUp : MbfPartitionStore) (tenantId : String) (key : PrimaryKey) :
    (replaceSingleTenantState st tenantId (extractTenantWireSnapshot backedUp tenantId)).1.items.lookup
        key =
      (backupRow backedUp tenantId key).or
        ((st.items.lookup key).filter fun item => !recordBelongsToTenant tenantId (key, item)) := by
  change (insertRows (removeTenant st tenantId) _).items.lookup key = _
  rw [insertRows_items, extractTenantWireSnapshot, List.filter_filter, OrdMap.lookup_insertList_filter,
    removeTenant_lookup]
  congr 1
  unfold backupRow
  congr 1
  funext item
  cases isFtsRow key <;> simp

/-- A ledger whose tenant's entries were replaced by those of another ledger. -/
theorem lookup_refilled {α : Type} (ledger backedUp : OrdMap QuotaKey α)
    (tenantId t name : String) :
    ((ledger.filterKeys fun key => (ofLex key).1 ≠ tenantId).insertList
        (backedUp.entries.filter fun e => (ofLex e.1).1 = tenantId)).lookup (toLex (t, name)) =
      if t = tenantId then backedUp.lookup (toLex (t, name)) else ledger.lookup (toLex (t, name)) := by
  rw [OrdMap.lookup_insertList_filter, OrdMap.lookup_filterKeys]
  by_cases htenant : t = tenantId
  · cases backedUp.lookup (toLex (t, name)) <;> simp [htenant]
  · cases backedUp.lookup (toLex (t, name)) <;> simp [htenant]

section Ledger
variable (backedUp : MbfPartitionStore) (tenantId t name : String)

theorem replaceTenant_counter :
    (replaceSingleTenantState st tenantId
        (extractTenantWireSnapshot backedUp tenantId)).1.quotaCounters.lookup (toLex (t, name)) =
      if t = tenantId then backedUp.quotaCounters.lookup (toLex (t, name))
      else st.quotaCounters.lookup (toLex (t, name)) := by
  rw [← lookup_refilled]
  change ((insertRows (removeTenant st tenantId) _).quotaCounters.insertList _).lookup _ = _
  rw [(insertRows_ledger _).quotaCounters, (removeTenant_ledger tenantId).1]
  rfl

theorem replaceTenant_mark :
    (replaceSingleTenantState st tenantId
        (extractTenantWireSnapshot backedUp tenantId)).1.quotaIdem.lookup (toLex (t, name)) =
      if t = tenantId then backedUp.quotaIdem.lookup (toLex (t, name))
      else st.quotaIdem.lookup (toLex (t, name)) := by
  rw [← lookup_refilled]
  change ((insertRows (removeTenant st tenantId) _).quotaIdem.insertList _).lookup _ = _
  rw [(insertRows_ledger _).quotaIdem, (removeTenant_ledger tenantId).2]
  rfl

end Ledger

theorem IndexExact.replaceTenant (h : IndexExact st) (tenantId : String)
    (snap : MbfPartitionWireSnapshot) :
    IndexExact (replaceSingleTenantState st tenantId snap).1 := by
  have hremoved : IndexExact (removeTenant st tenantId) :=
    (IndexExact.removeKeys h _).congr rfl rfl rfl rfl
  exact (IndexExact.insertRows hremoved snap.items).congr rfl rfl rfl rfl

end Replaced

/-! ### Verification -/

section Verified
variable [WireFormats] [SealDigests] (cfg : EngineConfig) {tenantId table : String}
  {snap : MbfPartitionWireSnapshot}

omit [WireFormats] in
/-- A seal passes under the key it was made with. -/
theorem verify_sealActive (epochId : ℕ) (payload : List Byte) :
    (MbfTenantCryptoSeal.sealActive cfg tenantId table epochId payload).verifyWithKeyring cfg tenantId
      table payload = .ok () := by
  have hverify : (MbfTenantCryptoSeal.sealActive cfg tenantId table epochId payload).verifyBlock
      cfg.activeMbfSealKey tenantId table payload = .ok () := by
    simp [MbfTenantCryptoSeal.sealActive, MbfTenantCryptoSeal.sealBlock,
      MbfTenantCryptoSeal.verifyBlock]
  simp only [MbfTenantCryptoSeal.verifyWithKeyring, hverify]

omit [WireFormats] in
/-- The seal of one tenant does not pass for another whose context has another digest. -/
theorem verify_other_tenant {other : String} (epochId : ℕ) (payload : List Byte)
    (hdigest : MbfTenantCryptoSeal.computeContextHash tenantId table ≠
      MbfTenantCryptoSeal.computeContextHash other table) :
    ∃ e, (MbfTenantCryptoSeal.sealActive cfg tenantId table epochId payload).verifyWithKeyring cfg
      other table payload = .error e := by
  have hverify : (MbfTenantCryptoSeal.sealActive cfg tenantId table epochId payload).verifyBlock
      cfg.activeMbfSealKey other table payload =
        .error ⟨.mbfTenantSeal001, s!"Block tenant context does not match '{other}'"⟩ := by
    simp [MbfTenantCryptoSeal.sealActive, MbfTenantCryptoSeal.sealBlock,
      MbfTenantCryptoSeal.verifyBlock, hdigest]
  refine ⟨⟨.mbfTenantSeal001, s!"Block tenant context does not match '{other}'"⟩, ?_⟩
  simp only [MbfTenantCryptoSeal.verifyWithKeyring, hverify, if_true]

theorem verify_packSnapshot (hfits : snap.Fits)
    (howned : tenantId = "system" ∨ allItemsBelongToTenant snap tenantId = true) :
    verifyBackupBytes cfg (packSnapshot cfg tenantId table snap) tenantId table = .ok () := by
  have hseal := @verify_sealActive _ cfg tenantId table snap.epochId snap.encodeBinary
  have hnone : (decide (tenantId ≠ "system") && !allItemsBelongToTenant snap tenantId) = false := by
    cases howned with
    | inl hsystem => simp [hsystem]
    | inr hall => simp [hall]
  unfold verifyBackupBytes packSnapshot encodeMbfEnvelope
  simp only [if_true, hseal, hfits.decode_encode]
  change (if (decide (tenantId ≠ "system") && !allItemsBelongToTenant snap tenantId) = true then _
    else Except.ok ()) = _
  rw [hnone]
  rfl

theorem verify_packSnapshot_other {other : String}
    (hdigest : MbfTenantCryptoSeal.computeContextHash tenantId table ≠
      MbfTenantCryptoSeal.computeContextHash other table) :
    ∃ e, verifyBackupBytes cfg (packSnapshot cfg tenantId table snap) other table = .error e := by
  obtain ⟨e, hseal⟩ := @verify_other_tenant _ cfg tenantId table other snap.epochId snap.encodeBinary
    hdigest
  refine ⟨e, ?_⟩
  unfold verifyBackupBytes packSnapshot encodeMbfEnvelope
  simp only [if_true, hseal]
  rfl

omit [WireFormats] [SealDigests] in
/-- A tenant's backup holds what is the tenant's. -/
theorem allItems_extract (st : MbfPartitionStore) (tenantId : String) :
    allItemsBelongToTenant (extractTenantWireSnapshot st tenantId) tenantId = true := by
  simp only [allItemsBelongToTenant, extractTenantWireSnapshot, Bool.and_eq_true, List.all_eq_true]
  refine ⟨⟨?_, ?_⟩, ?_⟩
  · intro e he
    exact (Bool.and_eq_true_iff.mp (List.mem_filter.mp he).2).2
  · intro e he
    exact (List.mem_filter.mp he).2
  · intro e he
    exact (List.mem_filter.mp he).2

end Verified
end MbfBackupManager
end MetriEngine.Storage

import MetriEngine.Storage.Backup
import MetriEngine.Storage.Query

/-!
# Restoring one tenant

A backup of a tenant, taken of one store and restored into a later one. What is the tenant's
comes back as it was. What is another tenant's stays as it is only where no row belongs to
both, and where no row of the backup lies under a key that the other tenant has taken since.
-/
namespace MetriEngine.Storage
open Foundation MbfBackupManager

/-! ### The property -/

/-- What the restore of a tenant promises of the store that it leaves. -/
structure RollsBack (tenantId : String) (backedUp before after : MbfPartitionStore) : Prop where
  rows : ∀ key item, isFtsRow key = false →
    (after.items.lookup key = some item ∧ recordBelongsToTenant tenantId (key, item) = true ↔
      backedUp.items.lookup key = some item ∧ recordBelongsToTenant tenantId (key, item) = true)
  counters : ∀ name, after.quotaCounters.lookup (toLex (tenantId, name)) =
    backedUp.quotaCounters.lookup (toLex (tenantId, name))
  marks : ∀ name, after.quotaIdem.lookup (toLex (tenantId, name)) =
    backedUp.quotaIdem.lookup (toLex (tenantId, name))
  otherRows : ∀ other, other ≠ tenantId → '#' ∉ other.toList → ∀ key item,
    recordBelongsToTenant other (key, item) = true →
      (after.items.lookup key = some item ↔ before.items.lookup key = some item)
  otherCounters : ∀ other, other ≠ tenantId → ∀ name,
    after.quotaCounters.lookup (toLex (other, name)) =
      before.quotaCounters.lookup (toLex (other, name))
  otherMarks : ∀ other, other ≠ tenantId → ∀ name,
    after.quotaIdem.lookup (toLex (other, name)) = before.quotaIdem.lookup (toLex (other, name))
  indexes : IndexExact after
  epoch : backedUp.epochId < after.epochId ∧ before.epochId < after.epochId

/-- The backup is restored for its tenant and refused for another. -/
def RestoresTenant [WireFormats] [SealDigests] (client : MbfStorageClient) (cfg : EngineConfig)
    (table tenantId other : String) (io : FlushIo) (backedUp before : MbfPartitionStore)
    (backup : MbfFile) : Prop :=
  (∃ epoch after, restoreTenantFromBytes client cfg table tenantId io before backup =
      (.ok epoch, after, io.remote) ∧ RollsBack tenantId backedUp before after) ∧
    ∃ e, restoreTenantFromBytes client cfg table other io before backup = (.error e, before, io.remote)

/-! ### The condition -/

/-- Another tenant's row under a key that the restore writes or clears is the row it writes; a
row of the backup that is another tenant's as well is already there; and there is an epoch
beyond both. -/
structure Apart (tenantId : String) (backedUp before : MbfPartitionStore) : Prop where
  displaced : ∀ other, other ≠ tenantId → '#' ∉ other.toList → ∀ key item,
    before.items.lookup key = some item → recordBelongsToTenant other (key, item) = true →
      (recordBelongsToTenant tenantId (key, item) = true ∨ backupRow backedUp tenantId key ≠ none) →
      backupRow backedUp tenantId key = some item
  shared : ∀ other, other ≠ tenantId → '#' ∉ other.toList → ∀ key item,
    backupRow backedUp tenantId key = some item → recordBelongsToTenant other (key, item) = true →
      before.items.lookup key = some item
  room : max before.epochId backedUp.epochId + 1 < 2 ^ 64

section Replaced
variable {tenantId : String} {backedUp before : MbfPartitionStore}

theorem mod_succ_gt_iff (n : ℕ) : n < (n + 1) % 2 ^ 64 ↔ n + 1 < 2 ^ 64 := by omega

/-- The replacement by itself, before it is flushed. -/
theorem replaced_rollsBack_iff (hidx : IndexExact before) :
    RollsBack tenantId backedUp before
        (replaceSingleTenantState before tenantId (extractTenantWireSnapshot backedUp tenantId)).1 ↔
      Apart tenantId backedUp before := by
  have hlookup := @replaceTenant_lookup before backedUp tenantId
  have hepoch : (replaceSingleTenantState before tenantId
      (extractTenantWireSnapshot backedUp tenantId)).1.epochId =
        (max before.epochId backedUp.epochId + 1) % 2 ^ 64 := rfl
  constructor
  · intro h
    refine ⟨?_, ?_, ?_⟩
    · intro other hother hplain key item hitem howned hclash
      have hkept := (h.otherRows other hother hplain key item howned).mpr hitem
      rw [hlookup, hitem] at hkept
      cases hrow : backupRow backedUp tenantId key with
      | some item' => simpa [hrow] using hkept
      | none =>
        cases hclash with
        | inl hmine => simp [hrow, hmine] at hkept
        | inr hwritten => exact absurd hrow hwritten
    · intro other hother hplain key item hrow howned
      apply (h.otherRows other hother hplain key item howned).mp
      rw [hlookup, hrow, Option.some_or]
    · have hbefore := h.epoch.2
      have hbackedUp := h.epoch.1
      rw [hepoch] at hbefore hbackedUp
      exact (mod_succ_gt_iff _).mp (max_lt hbefore hbackedUp)
  · intro h
    have hroom := (mod_succ_gt_iff _).mpr h.room
    refine ⟨?_, ?_, ?_, ?_, ?_, ?_, IndexExact.replaceTenant hidx _ _, ?_⟩
    · intro key item hfts
      rw [hlookup]
      constructor
      · rintro ⟨hafter, howned⟩
        cases hrow : backupRow backedUp tenantId key with
        | some item' =>
          rw [hrow, Option.some_or] at hafter
          cases hafter
          exact ⟨(Option.filter_eq_some_iff.mp hrow).1, howned⟩
        | none =>
          rw [hrow, Option.none_or] at hafter
          have hleft := (Option.filter_eq_some_iff.mp hafter).2
          simp [howned] at hleft
      · rintro ⟨hrow, howned⟩
        have hbackup : backupRow backedUp tenantId key = some item :=
          Option.filter_eq_some_iff.mpr ⟨hrow, by simp [hfts, howned]⟩
        rw [hbackup, Option.some_or]
        exact ⟨rfl, howned⟩
    · intro name
      rw [replaceTenant_counter, if_pos rfl]
    · intro name
      rw [replaceTenant_mark, if_pos rfl]
    · intro other hother hplain key item howned
      rw [hlookup]
      constructor
      · intro hafter
        cases hrow : backupRow backedUp tenantId key with
        | some item' =>
          rw [hrow, Option.some_or] at hafter
          cases hafter
          exact h.shared other hother hplain key item hrow howned
        | none =>
          rw [hrow, Option.none_or] at hafter
          exact (Option.filter_eq_some_iff.mp hafter).1
      · intro hitem
        by_cases hclash : recordBelongsToTenant tenantId (key, item) = true ∨
            backupRow backedUp tenantId key ≠ none
        · rw [h.displaced other hother hplain key item hitem howned hclash, Option.some_or]
        · rw [not_or, not_not] at hclash
          rw [hclash.2, Option.none_or, hitem, Option.filter_some, if_pos (by simp [hclash.1])]
    · intro other hother name
      rw [replaceTenant_counter, if_neg hother]
    · intro other hother name
      rw [replaceTenant_mark, if_neg hother]
    · rw [hepoch]
      omega

end Replaced

section Restore
variable [WireFormats] [SealDigests] {backedUp before : MbfPartitionStore}
  {client : MbfStorageClient} {tenantId other : String} {backup : MbfFile}

omit [WireFormats] [SealDigests] in
/-- A client in memory does nothing on a flush but note what is dirty. -/
theorem flushReplaced_inMemory (hmem : client.s3Prefix = none) (table : String) (io : FlushIo)
    (replaced : MbfPartitionStore × ℕ) :
    flushReplaced client table io replaced = (.ok replaced.2, replaced.1.addDirty [], io.remote) := by
  simp [flushReplaced, MbfStorageClient.flushToS3, hmem, Except.map]

omit [WireFormats] [SealDigests] in
theorem addDirty_nil (st : MbfPartitionStore) : st.addDirty [] = st := by
  simp [MbfPartitionStore.addDirty]

theorem restoresTenant_iff (hidx : IndexExact before) (hmem : client.s3Prefix = none)
    (cfg : EngineConfig) (table : String) (io : FlushIo)
    (hdigest : MbfTenantCryptoSeal.computeContextHash tenantId table ≠
      MbfTenantCryptoSeal.computeContextHash other table)
    (hbackup : createTenantBackup cfg table tenantId backedUp = .ok backup)
    (hfits : (extractTenantWireSnapshot backedUp tenantId).Fits) :
    RestoresTenant client cfg table tenantId other io backedUp before backup ↔
      Apart tenantId backedUp before := by
  unfold createTenantBackup at hbackup
  split_ifs at hbackup with hempty
  cases hbackup
  have hverify := @verify_packSnapshot _ _ cfg tenantId table _ hfits
    (Or.inr (allItems_extract backedUp tenantId))
  have hrestored : restoreTenantFromBytes client cfg table tenantId io before
      (packSnapshot cfg tenantId table (extractTenantWireSnapshot backedUp tenantId)) =
        (.ok (nextEpoch before (extractTenantWireSnapshot backedUp tenantId)),
          (replaceSingleTenantState before tenantId (extractTenantWireSnapshot backedUp tenantId)).1,
          io.remote) := by
    unfold restoreTenantFromBytes
    rw [hverify]
    dsimp only [packSnapshot, encodeMbfEnvelope]
    rw [hfits.decode_encode]
    dsimp only
    rw [flushReplaced_inMemory hmem, addDirty_nil]
    rfl
  have hrefused : ∃ e, restoreTenantFromBytes client cfg table other io before
      (packSnapshot cfg tenantId table (extractTenantWireSnapshot backedUp tenantId)) =
        (.error e, before, io.remote) := by
    obtain ⟨e, he⟩ := @verify_packSnapshot_other _ _ cfg tenantId table
      (extractTenantWireSnapshot backedUp tenantId) other hdigest
    refine ⟨e, ?_⟩
    unfold restoreTenantFromBytes
    rw [he]
  rw [← replaced_rollsBack_iff hidx]
  constructor
  · rintro ⟨⟨epoch, after, heq, hback⟩, -⟩
    rw [hrestored] at heq
    cases heq
    exact hback
  · intro hback
    exact ⟨⟨_, _, hrestored, hback⟩, hrefused⟩

/-- A tenant's backup, taken in any run and restored later in it, rolls that tenant back and no
other exactly where the tenants' rows lie apart. -/
theorem tenant_restore_iff (hbackedUp : Run storeStep DistinctSnapshot {} backedUp)
    (hbefore : Run storeStep DistinctSnapshot backedUp before) (hmem : client.s3Prefix = none)
    (cfg : EngineConfig) (table : String) (io : FlushIo)
    (hdigest : MbfTenantCryptoSeal.computeContextHash tenantId table ≠
      MbfTenantCryptoSeal.computeContextHash other table)
    (hbackup : createTenantBackup cfg table tenantId backedUp = .ok backup)
    (hfits : (extractTenantWireSnapshot backedUp tenantId).Fits) :
    RestoresTenant client cfg table tenantId other io backedUp before backup ↔
      Apart tenantId backedUp before := by
  have hrun : Run storeStep DistinctSnapshot {} before := hbackedUp.trans hbefore
  have hidx : IndexExact before :=
    hrun.invariant (fun _ _ _ h hg hs => storeStep_indexExact h hg hs) IndexExact.empty
  exact restoresTenant_iff hidx hmem cfg table io hdigest hbackup hfits

end Restore

/-! ### Two tenants and their sequences -/

section Sequences

/-- Digests that keep what they are given. -/
@[reducible] def SealDigests.verbatim : SealDigests := ⟨id, (· ++ ·)⟩

attribute [local instance] WireFormats.stored SealDigests.verbatim

/-- The configuration of a sequence comes to a store. -/
def withSequence (seqCode tenantId : String) (st : MbfPartitionStore) : MbfPartitionStore :=
  (st.sequenceConfigUpsert seqCode tenantId "INV-" 6 "GLOBAL" none 1000).getD st

theorem run_withSequence (seqCode tenantId : String) (st : MbfPartitionStore) :
    Run storeStep DistinctSnapshot st (withSequence seqCode tenantId st) := by
  refine Relation.ReflTransGen.single
    ⟨.operation (.sequenceConfigUpsert seqCode tenantId "INV-" 6 "GLOBAL" none) 1000, trivial, ?_⟩
  change some ((withSequence seqCode tenantId st).addDirty []) = _
  rw [addDirty_nil]

def inMemory : MbfStorageClient := ⟨"eav", none, fun _ => ""⟩

def noS3 : FlushIo where
  sync := ⟨0, .error none⟩
  remote := none
  put := ⟨.error none, false, "", by simp, by simp, by simp⟩
  doneMs := 0

/-- Outside the tenants' key space a row is a tenant's by its attribute. -/
theorem owner_of_belongs {other : String} {e : PrimaryKey × Item}
    (hkey : Text.startsWith e.1.pk "T#" = false) (h : recordBelongsToTenant other e = true) :
    (e.2.lookup "tenant_id").bind avString = some other := by
  cases Bool.or_eq_true_iff.mp h with
  | inl hstart =>
    have hstart' : Text.startsWith e.1.pk "T#" = true := by
      rw [Text.startsWith, List.isPrefixOf_iff_prefix] at hstart ⊢
      apply List.IsPrefix.trans _ hstart
      rw [tenantPkPrefix, String.toList_append, String.toList_append, List.append_assoc]
      exact List.prefix_append _ _
    rw [hkey] at hstart'
    cases hstart'
  | inr hattr => exact of_decide_eq_true hattr

def acmeStore : MbfPartitionStore := withSequence "acme:code_seq" "acme" {}

def bothStore : MbfPartitionStore := withSequence "globex:code_seq" "globex" acmeStore

def acmeBackup : MbfFile := packSnapshot {} "acme" "eav" (extractTenantWireSnapshot acmeStore "acme")

theorem acme_globex_apart : Apart "acme" acmeStore bothStore := by
  have hbefore : ∀ e ∈ bothStore.items.entries, Text.startsWith e.1.pk "T#" = false ∧
      ((e.2.lookup "tenant_id").bind avString ≠ some "acme" →
        recordBelongsToTenant "acme" e = false ∧ backupRow acmeStore "acme" e.1 = none) := by
    decide +kernel
  have hbackup : ∀ e ∈ acmeStore.items.entries, Text.startsWith e.1.pk "T#" = false ∧
      (e.2.lookup "tenant_id").bind avString = some "acme" := by
    decide +kernel
  refine ⟨?_, ?_, by decide +kernel⟩
  · intro other hother _ key item hitem howned hclash
    obtain ⟨hkey, hnone⟩ := hbefore (key, item) (OrdMap.lookup_eq_some.mp hitem)
    have howner := owner_of_belongs hkey howned
    obtain ⟨hnot, hrow⟩ := hnone (by rw [howner]; simpa using hother)
    cases hclash with
    | inl hmine => exact absurd (hnot.symm.trans hmine) (by simp)
    | inr hwritten => exact absurd hrow hwritten
  · intro other hother _ key item hrow howned
    have hentry : (key, item) ∈ acmeStore.items.entries :=
      OrdMap.lookup_eq_some.mp (Option.filter_eq_some_iff.mp hrow).1
    obtain ⟨hkey, howner⟩ := hbackup (key, item) hentry
    rw [owner_of_belongs hkey howned] at howner
    exact absurd (Option.some.inj howner) hother

/-- Two tenants with rows of their own: the backup of one is restored, and refused for the
other. -/
theorem acme_is_restored :
    RestoresTenant inMemory {} "eav" "acme" "globex" noS3 acmeStore bothStore acmeBackup :=
  (tenant_restore_iff (run_withSequence _ _ _) (run_withSequence _ _ _) rfl {} "eav" noS3
    (by decide +kernel) (if_neg (by decide)) (by decide +kernel)).mpr acme_globex_apart

def nestedBackup : MbfFile :=
  packSnapshot {} "a" "eav" (extractTenantWireSnapshot (withSequence "a:b:c_seq" "a" {}) "a")

/-- The sequence of a field `b:c` and that of another tenant `a:b` share their key: restoring
the one takes away the other. -/
theorem a_shared_sequence_is_taken :
    Run storeStep DistinctSnapshot {} (withSequence "a:b:c_seq" "a" {}) ∧
      Run storeStep DistinctSnapshot (withSequence "a:b:c_seq" "a" {})
        (withSequence "a:b:c_seq" "a:b" (withSequence "a:b:c_seq" "a" {})) ∧
      createTenantBackup {} "eav" "a" (withSequence "a:b:c_seq" "a" {}) = .ok nestedBackup ∧
      ¬ RestoresTenant inMemory {} "eav" "a" "a:b" noS3 (withSequence "a:b:c_seq" "a" {})
        (withSequence "a:b:c_seq" "a:b" (withSequence "a:b:c_seq" "a" {})) nestedBackup := by
  have hfirst := run_withSequence "a:b:c_seq" "a" {}
  have hsecond := run_withSequence "a:b:c_seq" "a:b" (withSequence "a:b:c_seq" "a" {})
  have hbackup : createTenantBackup {} "eav" "a" (withSequence "a:b:c_seq" "a" {}) =
      .ok nestedBackup := if_neg (by decide)
  refine ⟨hfirst, hsecond, hbackup, ?_⟩
  intro h
  have hrun : Run storeStep DistinctSnapshot {} (withSequence "a:b:c_seq" "a:b"
      (withSequence "a:b:c_seq" "a" {})) := hfirst.trans hsecond
  have hidx := hrun.invariant (fun _ _ _ h hg hs => storeStep_indexExact h hg hs) IndexExact.empty
  have hapart := (restoresTenant_iff hidx rfl {} "eav" noS3 (by decide +kernel) hbackup
    (by decide +kernel)).mp h
  have htaken : ∃ e ∈ (withSequence "a:b:c_seq" "a:b" (withSequence "a:b:c_seq" "a" {})).items.entries,
      recordBelongsToTenant "a:b" e = true ∧
      backupRow (withSequence "a:b:c_seq" "a" {}) "a" e.1 ≠ none ∧
      backupRow (withSequence "a:b:c_seq" "a" {}) "a" e.1 ≠ some e.2 := by
    decide +kernel
  obtain ⟨⟨key, item⟩, hmem, howned, hwritten, hother⟩ := htaken
  exact hother (hapart.displaced "a:b" (by decide) (by decide) key item
    (OrdMap.lookup_eq_some.mpr hmem) howned (Or.inr hwritten))

end Sequences
end MetriEngine.Storage

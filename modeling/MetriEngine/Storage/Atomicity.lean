import MetriEngine.Storage.Client

/-!
# A transactional batch in memory is all or nothing

Without an S3 store a batch either changes nothing or is written whole, and the
conditions of its puts are read in the items as they were before it.
-/
namespace MetriEngine.Storage
open Foundation

/-- A client without an S3 store. -/
def inMemoryClient (defaultTable : String) (computeEtag : VortexBody → String) :
    MbfStorageClient := ⟨defaultTable, none, computeEtag⟩

section Batch
variable {items : OrdMap PrimaryKey Item} {batch : List TransactWriteItem}

theorem batchPuts_keys (hpk : ∀ p ∈ batchPuts batch, p.1 ≠ none) :
    (batchPuts batch).map Prod.fst = ((batchItems batch).map Prod.fst).map some := by
  rw [batchItems_eq]
  generalize batchPuts batch = puts at hpk ⊢
  induction puts with
  | nil => rfl
  | cons p puts ih =>
    obtain ⟨hp, hputs⟩ := List.forall_mem_cons.mp hpk
    obtain ⟨key, hkey⟩ := Option.ne_none_iff_exists'.mp hp
    simp [hkey, ih hputs]

theorem BatchValid.keys_nodup (hv : BatchValid items batch) :
    ((batchItems batch).map Prod.fst).Nodup := by
  have hnd := hv.nodup
  rw [batchPuts_keys hv.hasPk] at hnd
  exact hnd.of_map some

/-- The ways in which a batch is not valid. -/
theorem not_batchValid_iff :
    ¬ BatchValid items batch ↔
      (∃ p ∈ batchPuts batch, p.1 = none) ∨
      ¬ ((batchItems batch).map Prod.fst).Nodup ∨
      ∃ p ∈ batchPuts batch, ∃ key, p.1 = some key ∧ ¬ p.2.ConditionHolds items key := by
  constructor
  · intro hv
    by_contra hnone
    push Not at hnone
    obtain ⟨hpk, hnd, hholds⟩ := hnone
    apply hv
    refine ⟨hpk, ?_, hholds⟩
    rw [batchPuts_keys hpk]
    exact hnd.map (Option.some_injective _)
  · rintro (⟨p, hp, hnone⟩ | hdup | ⟨p, hp, key, hkey, hfalse⟩) hv
    · exact hv.hasPk p hp hnone
    · exact hdup hv.keys_nodup
    · exact hfalse (hv.holds p hp key hkey)

end Batch

/-- Beside the dirty set, the in-memory client does what the section does. -/
theorem inMemory_transactWrite_eq (defaultTable : String) (computeEtag : VortexBody → String)
    (sync : SyncIo) (flush : FlushIo) (st : MbfPartitionStore) {batch : List TransactWriteItem}
    (hne : batch.isEmpty = false) :
    (inMemoryClient defaultTable computeEtag).transactWrite sync flush st batch =
      match st.transactWrite batch with
      | .error e => (.error e, st, flush.remote)
      | .ok (st', touched) => (.ok (), st'.addDirty touched, flush.remote) := by
  simp only [MbfStorageClient.transactWrite, hne, inMemoryClient, MbfStorageClient.syncFromS3,
    Bool.false_eq_true, if_false]
  cases st.transactWrite batch with
  | error e => rfl
  | ok r => simp [MbfStorageClient.flushToS3]

/-- A batch fails exactly when a put has no key, two puts share one, or some
condition is false in the items before it; it then leaves the store as it was.
Otherwise the items are overridden by the batch and by nothing else. -/
theorem inMemory_transactWrite_atomic (defaultTable : String) (computeEtag : VortexBody → String)
    (sync : SyncIo) (flush : FlushIo) (st : MbfPartitionStore) (batch : List TransactWriteItem) :
    let r := (inMemoryClient defaultTable computeEtag).transactWrite sync flush st batch
    ((∃ e, r.1 = .error e) ↔
      (∃ p ∈ batchPuts batch, p.1 = none) ∨
      ¬ ((batchItems batch).map Prod.fst).Nodup ∨
      ∃ p ∈ batchPuts batch, ∃ key, p.1 = some key ∧ ¬ p.2.ConditionHolds st.items key) ∧
    ((∃ e, r.1 = .error e) → r.2.1 = st) ∧
    (r.1 = .ok () →
      ((batchItems batch).map Prod.fst).Nodup ∧
      (∀ p ∈ batchPuts batch, ∃ key, p.1 = some key ∧ p.2.ConditionHolds st.items key) ∧
      (∀ e ∈ batchItems batch, r.2.1.items.lookup e.1 = some e.2) ∧
      (∀ key, key ∉ (batchItems batch).map Prod.fst →
        r.2.1.items.lookup key = st.items.lookup key)) := by
  intro r
  rw [← not_batchValid_iff]
  cases hempty : batch.isEmpty with
  | true =>
    obtain rfl := List.isEmpty_iff.mp hempty
    have hr : r = (.ok (), st, flush.remote) := rfl
    simp [hr, batchValid_nil, batchItems, batchPuts]
  | false =>
    have hr := inMemory_transactWrite_eq defaultTable computeEtag sync flush st hempty
    have hvalid : (∃ s, st.transactWrite batch = .ok s) ↔ _ :=
      MbfPartitionStore.transactWrite_isOk_iff
    cases htx : st.transactWrite batch with
    | error e =>
      have hr' : r = (.error e, st, flush.remote) := by rw [htx] at hr; exact hr
      have hinvalid : ¬ BatchValid st.items batch := by simp [← hvalid, htx]
      simp [hr', hinvalid]
    | ok s =>
      obtain ⟨st', touched⟩ := s
      have hr' : r = (.ok (), st'.addDirty touched, flush.remote) := by rw [htx] at hr; exact hr
      have hv : BatchValid st.items batch := hvalid.mp ⟨_, htx⟩
      have hitems := MbfPartitionStore.transactWrite_items htx
      have hkeep : (st'.addDirty touched).items = st'.items := rfl
      simp only [hr', hkeep, hitems, hv, not_true_eq_false, reduceCtorEq, exists_false,
        false_implies, true_and, true_implies]
      refine ⟨hv.keys_nodup, ?_, ?_, ?_⟩
      · intro p hp
        obtain ⟨key, hkey⟩ := Option.ne_none_iff_exists'.mp (hv.hasPk p hp)
        exact ⟨key, hkey, hv.holds p hp key hkey⟩
      · intro e he
        exact OrdMap.lookup_insertList_of_mem _ hv.keys_nodup he
      · intro key hkey
        exact OrdMap.lookup_insertList_of_notMem _ hkey

end MetriEngine.Storage

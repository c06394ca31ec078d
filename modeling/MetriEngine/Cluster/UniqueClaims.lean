import MetriEngine.Cluster.Watermark

/-!
# Unique claims across instances

A batch that claims a key is checked against the memory of its own instance only.
The level of a claimed key is whether an item is there.
-/
namespace MetriEngine.Cluster
open Foundation Storage

/-- The batch puts an item under `key` on condition that the key is free. -/
def claims (key : PrimaryKey) : StoreOp → Bool
  | .transactWrite batch => (batchPuts batch).any fun p =>
    p.1 = some key && MbfWriteCondition.parse p.2.conditionExpression = .uniqueClaimKey
  | _ => false

/-- Two calls of different instances both claimed the key and returned `Ok`. -/
def ClaimedTwice {ι : Type} (key : PrimaryKey) (w : World ι) : Prop :=
  ∃ (c d : ℕ) (call call' : Call ι), w.calls[c]? = some call ∧ w.calls[d]? = some call' ∧
    call.inst ≠ call'.inst ∧ claims key call.op = true ∧ claims key call'.op = true ∧
    call.phase.isOk = true ∧ call'.phase.isOk = true

section Claim
variable {key : PrimaryKey} {st st' : MbfPartitionStore} {batch : List TransactWriteItem}

theorem mem_batchItems_of_claims (h : claims key (.transactWrite batch) = true) :
    ∃ p ∈ batchPuts batch, p.1 = some key ∧
      MbfWriteCondition.parse p.2.conditionExpression = .uniqueClaimKey ∧
      key ∈ (batchItems batch).map Prod.fst := by
  obtain ⟨p, hp, hpkey⟩ := List.any_eq_true.mp h
  simp only [Bool.and_eq_true, decide_eq_true_eq] at hpkey
  obtain ⟨hkey, hcond⟩ := hpkey
  refine ⟨p, hp, hkey, hcond, List.mem_map.mpr ⟨(key, p.2.item), ?_, rfl⟩⟩
  rw [batchItems_eq]
  exact List.mem_filterMap.mpr ⟨p, hp, by rw [hkey]; rfl⟩

/-- A claim that succeeds found its key free and takes it. -/
theorem claim_commits {touched : List TouchedEntity}
    (h : claims key (.transactWrite batch) = true)
    (hok : st.transactWrite batch = .ok (st', touched)) :
    st.items.lookup key = none ∧ (st'.items.lookup key).isSome = true := by
  obtain ⟨p, hp, hkey, hcond, hmem⟩ := mem_batchItems_of_claims h
  have hvalid := MbfPartitionStore.transactWrite_isOk_iff.mp ⟨_, hok⟩
  have hholds := hvalid.holds p hp key hkey
  rw [Put.ConditionHolds, hcond] at hholds
  refine ⟨hholds, ?_⟩
  rw [MbfPartitionStore.transactWrite_items hok, Option.isSome_iff_ne_none, ne_eq,
    OrdMap.lookup_insertList_eq_none]
  exact fun hnone => hnone.2 hmem

end Claim

/-- Whether the key is taken. Every call may run that does not delete the key; a
claim raises the level where it finds the key free. -/
def claimWatermark (key : PrimaryKey) : Watermark Bool where
  key := key
  read := Option.isSome
  Readable _ := True
  bot_le _ := Bool.false_le _
  merge_le newer localItem remoteItem _ _ := by split_ifs <;> exact le_rfl
  marks := claims key
  raises st op := claims key op && (st.items.lookup key).isNone
  value _ := true
  allows _ op := !op.deletes key
  commit_keeps := by
    intro st op nowMs st' touched reply _ hallows hcommit
    refine ⟨fun _ _ => trivial, ?_⟩
    have hkeep := StoreOp.commit_lookup_isSome hcommit (by simpa using hallows)
    exact Bool.le_iff_imp.mpr hkeep
  commit_marks := by
    intro st op nowMs st' touched reply _ _ hmarks hcommit
    cases op with
    | transactWrite batch =>
      simp only [StoreOp.commit] at hcommit
      cases htx : st.transactWrite batch with
      | error e => simp [htx] at hcommit
      | ok r =>
        simp only [htx, Outcome.changed.injEq] at hcommit
        obtain ⟨hfree, htaken⟩ := claim_commits hmarks htx
        rw [hcommit.1] at htaken
        simp [Gauge.ofStore, hmarks, hfree, htaken]
    | _ => simp [claims] at hmarks
  answered_failed := by
    intro st op nowMs reply hmarks hcommit
    cases op with
    | transactWrite batch =>
      simp only [StoreOp.commit] at hcommit
      cases htx : st.transactWrite batch <;> simp [htx] at hcommit
    | _ => simp [claims] at hmarks
  marks_synced := by
    intro op hmarks
    cases op with
    | transactWrite batch =>
      cases batch with
      | nil => simp [claims, batchPuts] at hmarks
      | cons txItem rest => rfl
    | _ => simp [claims] at hmarks

section Runs
variable {ι : Type} [DecidableEq ι] {contentOf : String → MbfPartitionWireSnapshot}

/-- When a claim finds its key free in memory, the object does not hold it or is
what the memory is a copy of, and no other instance has a claim of the key waiting
for its PUT; an item in memory goes into the snapshot; a PUT keeps the key or
replaces the object its flush merged; nobody deletes the key. -/
abbrev ClaimGuard (contentOf : String → MbfPartitionWireSnapshot) (key : PrimaryKey) :
    World ι → ClusterAction ι → Prop := (claimWatermark key).Guard contentOf

/-- In runs that keep to the guard no key is claimed twice. -/
theorem transactWrite_claims_once {key : PrimaryKey} {object : Option String}
    (hobject : ∀ etag, object = some etag → ∃ st, contentOf etag = MbfPartitionStore.toWireSnapshot st)
    {w : World ι} (hrun : Run (World.step contentOf) (ClaimGuard contentOf key)
      (initialWorld object) w) : ¬ ClaimedTwice key w := by
  rintro ⟨c, d, call, call', hc, hd, hne, hclaim, hclaim', hok, hok'⟩
  have hwritten : Watermark.Written (claimWatermark key) contentOf object := by
    intro etag he
    obtain ⟨st, hst⟩ := hobject etag he
    exact ⟨st, hst, fun _ _ => trivial⟩
  have hmark (call : Call ι) (hclaim : claims key call.op = true) (hok : call.phase.isOk = true) :
      (claimWatermark key).mark call = some true := by
    have hmarks : (claimWatermark key).marks call.op = true := hclaim
    unfold Phase.isOk at hok
    split at hok
    · rename_i hphase
      simp only [Watermark.mark, hmarks, if_true, hphase, Phase.reply?, Option.map_some]
      rfl
    · cases hok
  have hcd : c ≠ d := by
    rintro rfl
    rw [hc] at hd
    cases hd
    exact hne rfl
  obtain ⟨hdistinct, _⟩ := Watermark.marks_of_run hwritten hrun
  exact hdistinct c d call call' true hcd hc hd (hmark call hclaim hok) (hmark call' hclaim' hok')

end Runs

/-! ### Two instances that claim one key -/

def claimedKey : PrimaryKey := ⟨"U#a", []⟩

def claimedItem : Item := (∅ : Item).insert "PK" (.s "U#a")

def claimBatch : StoreOp :=
  .transactWrite [⟨some ⟨"t", claimedItem, some "attribute_not_exists(PK)", ∅⟩⟩]

/-- The object after the first flush and after the second. -/
def claimContent (etag : String) : MbfPartitionWireSnapshot :=
  ⟨if etag = "e1" then 1 else 2, [(claimedKey, claimedItem)], [], []⟩

/-- Both instances look before either has flushed. -/
def racingClaims : List (ClusterAction Bool) :=
  [.start false claimBatch, .start true claimBatch] ++ syncSteps 0 10 ++ syncSteps 1 11 ++
    [.call 0 (.commit 12), .call 1 (.commit 13)] ++ flushSteps 0 14 "e1" ++ flushSteps 1 15 "e2"

/-- A decidable form of `ClaimedTwice` for two given calls. -/
def bothClaimed (key : PrimaryKey) (c d : ℕ) (w : World Bool) : Bool :=
  match w.calls[c]?, w.calls[d]? with
  | some call, some call' => call.inst ≠ call'.inst && claims key call.op &&
    claims key call'.op && call.phase.isOk && call'.phase.isOk
  | _, _ => false

theorem claimedTwice_of_bothClaimed {key : PrimaryKey} {c d : ℕ} {w : World Bool}
    (h : bothClaimed key c d w = true) : ClaimedTwice key w := by
  unfold bothClaimed at h
  split at h
  · rename_i call call' hc hd
    simp only [Bool.and_eq_true, decide_eq_true_eq] at h
    obtain ⟨⟨⟨⟨hne, hclaim⟩, hclaim'⟩, hok⟩, hok'⟩ := h
    exact ⟨c, d, call, call', hc, hd, hne, hclaim, hclaim', hok, hok'⟩
  · cases h

theorem racing_claims_both_succeed :
    ∃ w : World Bool, Run (World.step claimContent) (fun _ _ => True) (initialWorld none) w ∧
      ClaimedTwice claimedKey w := by
  have hrun : (exec (World.step claimContent) (fun _ _ => True) (initialWorld none)
      racingClaims).any (bothClaimed claimedKey 0 1) = true := by decide +kernel
  obtain ⟨w, hw, hboth⟩ := exists_run_of_exec hrun
  exact ⟨w, hw, claimedTwice_of_bothClaimed hboth⟩

/-- The second instance looks after the first has flushed. -/
def orderedClaims : List (ClusterAction Bool) :=
  [.start false claimBatch] ++ syncSteps 0 10 ++ [.call 0 (.commit 12)] ++
    flushSteps 0 14 "e1" ++ [.start true claimBatch] ++ syncSteps 1 15 ++ [.call 1 (.commit 16)]

theorem ordered_claims_once :
    ∃ w : World Bool, exec (World.step claimContent) (ClaimGuard claimContent claimedKey)
        (initialWorld none) orderedClaims = some w ∧ ¬ ClaimedTwice claimedKey w := by
  have hsome : (exec (World.step claimContent) (ClaimGuard claimContent claimedKey)
      (initialWorld none) orderedClaims).isSome = true := by decide +kernel
  obtain ⟨w, hw⟩ := Option.isSome_iff_exists.mp hsome
  exact ⟨w, hw, transactWrite_claims_once (fun _ h => by cases h) (run_of_exec hw)⟩

end MetriEngine.Cluster

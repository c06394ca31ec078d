import MetriEngine.Cluster.Instances

/-!
# Deletions and later merges

A deletion leaves no trace: a merge inserts every key that the local store lacks.
A deleted key therefore stays absent exactly as long as no snapshot that the
instance merges carries it.
-/
namespace MetriEngine.Cluster
open Foundation Storage

variable {ι : Type} {contentOf : String → MbfPartitionWireSnapshot} {key : PrimaryKey}

/-- The snapshot that a GET brought, if any. -/
def snapshotOf : MbfConditionalGet VortexBody → Option MbfPartitionWireSnapshot
  | .modified payload => payload.bytes
  | _ => none

/-- The snapshot that the instance merges next. -/
def IoSection.fetched? : IoSection → Option MbfPartitionWireSnapshot
  | .syncing _ _ cond => snapshotOf cond
  | .flushing _ _ cond => snapshotOf cond
  | _ => none

/-- No section writes the key; deleting it again is no write. -/
def NobodyWrites (key : PrimaryKey) (w : World ι) : ClusterAction ι → Prop
  | .call c (.commit _) => ∀ call ∈ w.calls[c]?,
    call.op.deletes key = true ∨ key ∉ call.op.writtenKeys
  | _ => True

/-- A snapshot that instance `i` merges does not bring the key. -/
def MergeLacks [DecidableEq ι] (i : ι) (key : PrimaryKey) (w : World ι) : ClusterAction ι → Prop
  | .call c .syncApply => ∀ call ∈ w.calls[c]?, call.inst = i →
    ∀ snap ∈ (w.insts i).io.fetched?,
      Text.contains key.pk "#FTS#" = true ∨ key ∉ snap.items.map Prod.fst
  | .call c .flushApply => ∀ call ∈ w.calls[c]?, call.inst = i →
    ∀ snap ∈ (w.insts i).io.fetched?,
      Text.contains key.pk "#FTS#" = true ∨ key ∉ snap.items.map Prod.fst
  | _ => True

instance (w : World ι) (a : ClusterAction ι) : Decidable (NobodyWrites key w a) := by
  unfold NobodyWrites
  split <;> infer_instance

instance [DecidableEq ι] (i : ι) (w : World ι) (a : ClusterAction ι) :
    Decidable (MergeLacks i key w a) := by
  unfold MergeLacks
  split <;> infer_instance

abbrev DeletionGuard [DecidableEq ι] (i : ι) (key : PrimaryKey) (w : World ι)
    (a : ClusterAction ι) : Prop := NobodyWrites key w a ∧ MergeLacks i key w a

/-! ### Reads have no flush -/

/-- The phases that a read goes through. -/
def Phase.ofRead : Phase → Bool
  | .syncing => true
  | .fetched => true
  | .synced => true
  | .returned _ => true
  | _ => false

def ReadsReturn (w : World ι) : Prop :=
  ∀ (c : ℕ) (call : Call ι) (key : PrimaryKey), w.calls[c]? = some call →
    call.op = .getItem key → call.phase.ofRead = true

section Reads
variable {object : Option String} {c : ℕ} {call : Call ι} {inst : Instance} {s : CallStep}
  {r : Option String × Phase × Instance}

/-- A read that moves stays a read, and returns what its instance holds. -/
theorem Call.Moved.read (h : call.Moved contentOf object c inst s r) (hop : call.op = .getItem key)
    (hphase : call.phase.ofRead = true) :
    r.2.1.ofRead = true ∧ ∀ result, r.2.1 = .returned result →
      result = .ok (.found (inst.store.items.lookup key)) := by
  cases h with
  | skipped => simp [Phase.ofRead]
  | syncGet => simp [Phase.ofRead]
  | syncApply => simp [Phase.ofRead]
  | answered hsynced hcommit =>
    rw [hop] at hcommit
    cases hcommit
    simp [Phase.ofRead]
  | changed hsynced hcommit =>
    rw [hop] at hcommit
    cases hcommit
  | markDirty hp => simp [hp, Phase.ofRead] at hphase
  | flushGet hp => simp [hp, Phase.ofRead] at hphase
  | flushApply hp => simp [hp, Phase.ofRead] at hphase
  | serialize hp => simp [hp, Phase.ofRead] at hphase
  | put hp => simp [hp, Phase.ofRead] at hphase
  | finish hp => simp [hp, Phase.ofRead] at hphase

variable [DecidableEq ι] {w w' : World ι}

theorem ReadsReturn.step (h : ReadsReturn w) {a : ClusterAction ι}
    (hstep : w.step contentOf a = some w') : ReadsReturn w' := by
  intro d other key hd hop
  cases a with
  | start i op =>
    rcases World.start_calls hstep hd with hd | ⟨_, rfl⟩
    · exact h d other key hd hop
    · obtain rfl : op = .getItem key := hop
      rfl
  | call c s =>
    obtain ⟨call, r, hcall, hmoved, rfl⟩ := World.moved_of_step hstep
    rw [World.advance_calls hcall] at hd
    split_ifs at hd with hcd
    · cases hd
      exact (hmoved.read hop (h c call key hcall hop)).1
    · exact h d other key hd hop

theorem readsReturn_of_run (hrun : Run (World.step contentOf) (fun _ _ => True)
    (initialWorld object) w) : ReadsReturn w := by
  apply hrun.invariant (fun _ _ _ h _ hstep => h.step hstep)
  intro c call key hcall
  simp [initialWorld] at hcall

end Reads

/-! ### What merges do to an absent key -/

section Absent
variable {st : MbfPartitionStore} {cond : MbfConditionalGet VortexBody}

/-- The merge of a GET leaves a key absent exactly if it brought no snapshot with it. -/
theorem applyConditionalGet_lookup_eq_none (nowMs : ℤ) (h : st.items.lookup key = none) :
    (st.applyConditionalGet nowMs cond).items.lookup key = none ↔
      ∀ snap ∈ snapshotOf cond,
        Text.contains key.pk "#FTS#" = true ∨ key ∉ snap.items.map Prod.fst := by
  cases cond with
  | notModified => simp [MbfPartitionStore.applyConditionalGet, snapshotOf, h]
  | notFound =>
    simp only [MbfPartitionStore.applyConditionalGet, snapshotOf]
    split_ifs <;> simp [h]
  | modified payload =>
    obtain ⟨bytes, etag⟩ := payload
    cases bytes with
    | none => simp [MbfPartitionStore.applyConditionalGet, snapshotOf, h]
    | some snap =>
      simp [MbfPartitionStore.applyConditionalGet, snapshotOf,
        MbfPartitionStore.mergeItems_lookup_eq_none, h]

variable [DecidableEq ι] {w w' : World ι} {c : ℕ} {call : Call ι} {s : CallStep}
  {r : Option String × Phase × Instance}

/-- A guarded step of a call leaves the key absent from its instance. -/
theorem absent_of_moved (hcall : w.calls[c]? = some call)
    (hguard : DeletionGuard call.inst key w (.call c s))
    (hmoved : call.Moved contentOf w.object c (w.insts call.inst) s r)
    (h : (w.insts call.inst).store.items.lookup key = none) :
    r.2.2.store.items.lookup key = none := by
  cases hmoved with
  | @syncApply nowMs cond hphase hio =>
    have hlacks := hguard.2 call hcall rfl
    simp only [hio, IoSection.fetched?] at hlacks
    exact (applyConditionalGet_lookup_eq_none nowMs h).mpr hlacks
  | @flushApply nowMs cond reply hphase hio =>
    have hlacks := hguard.2 call hcall rfl
    simp only [hio, IoSection.fetched?] at hlacks
    exact (applyConditionalGet_lookup_eq_none nowMs h).mpr hlacks
  | @changed nowMs st touched reply hphase hcommit =>
    rcases hguard.1 call hcall with hdelete | hother
    · exact StoreOp.commit_lookup_of_deletes hcommit hdelete
    · dsimp only
      rw [StoreOp.commit_lookup_of_notMem hcommit hother, h]
  | _ => exact h

end Absent

/-! ### After a deletion -/

section Runs
variable [DecidableEq ι] {i : ι} {w₁ w w' : World ι}

/-- The key is absent from instance `i`, and whatever read of it has returned there
since `w₁` returned that. -/
structure StaysDeleted (i : ι) (key : PrimaryKey) (w₁ w : World ι) : Prop where
  reads : ReadsReturn w
  absent : (w.insts i).store.items.lookup key = none
  replies : ∀ (c : ℕ) (call : Call ι) (result : Except DomainError Reply),
    w.calls[c]? = some call → call.inst = i → call.op = .getItem key →
    call.phase = .returned result →
    (∃ call₁, w₁.calls[c]? = some call₁ ∧ call₁.phase = .returned result) ∨
      result = .ok (.found none)

theorem StaysDeleted.step (h : StaysDeleted i key w₁ w) {a : ClusterAction ι}
    (hguard : DeletionGuard i key w a) (hstep : w.step contentOf a = some w') :
    StaysDeleted i key w₁ w' := by
  refine ⟨h.reads.step hstep, ?_, ?_⟩
  · cases a with
    | start j op =>
      cases hstep
      exact h.absent
    | call c s =>
      obtain ⟨call, r, hcall, hmoved, rfl⟩ := World.moved_of_step hstep
      by_cases hi : i = call.inst
      · subst hi
        have habsent := absent_of_moved hcall hguard hmoved h.absent
        simpa [World.advance] using habsent
      · have habsent := h.absent
        simpa [World.advance, hi] using habsent
  · intro d other result hd hinst hop hphase
    cases a with
    | start j op =>
      rcases World.start_calls hstep hd with hd | ⟨_, rfl⟩
      · exact h.replies d other result hd hinst hop hphase
      · obtain rfl : op = .getItem key := hop
        cases hphase
    | call c s =>
      obtain ⟨call, r, hcall, hmoved, rfl⟩ := World.moved_of_step hstep
      rw [World.advance_calls hcall] at hd
      split_ifs at hd with hcd
      · cases hd
        right
        have hread := (hmoved.read hop (h.reads c call key hcall hop)).2 result hphase
        obtain rfl : call.inst = i := hinst
        rw [hread, h.absent]
      · exact h.replies d other result hd hinst hop hphase

/-- The deletion itself. -/
theorem staysDeleted_of_commit {w₀ : World ι} (hreads : ReadsReturn w₀) {d : ℕ} {call : Call ι}
    {nowMs : ℤ} (hcall : w₀.calls[d]? = some call) (hop : call.op = .deleteItem key)
    (hstep : w₀.step contentOf (.call d (.commit nowMs)) = some w₁) :
    StaysDeleted call.inst key w₁ w₁ := by
  refine ⟨hreads.step hstep, ?_, ?_⟩
  · obtain ⟨call', r, hcall', hmoved, rfl⟩ := World.moved_of_step hstep
    obtain rfl := Option.some.inj (hcall.symm.trans hcall')
    have habsent : r.2.2.store.items.lookup key = none := by
      cases hmoved with
      | skipped hphase hread => simp [hop, StoreOp.forcesSync] at hread
      | answered hphase hcommit => simp [hop, StoreOp.commit] at hcommit
      | changed hphase hcommit =>
        exact StoreOp.commit_lookup_of_deletes hcommit (by simp [hop, StoreOp.deletes])
    simpa [World.advance] using habsent
  · intro c other result hc _ _ hphase
    exact Or.inl ⟨other, hc, hphase⟩

/-- A merge that the guard excludes puts the key back. -/
theorem restored_of_merge {a : ClusterAction ι} (habsent : (w.insts i).store.items.lookup key = none)
    (hbrings : ¬ MergeLacks i key w a) (hstep : w.step contentOf a = some w') :
    ((w'.insts i).store.items.lookup key).isSome = true := by
  rw [Option.isSome_iff_ne_none]
  intro hnone
  apply hbrings
  cases a with
  | start j op => trivial
  | call c s =>
    cases s with
    | syncApply =>
      intro call hcall hinst
      subst hinst
      obtain ⟨call', r, hcall', hmoved, rfl⟩ := World.moved_of_step hstep
      obtain rfl := Option.some.inj (hcall.symm.trans hcall')
      cases hmoved with
      | skipped hphase hread hs => simp at hs
      | @syncApply nowMs cond hphase hio =>
        simp only [World.advance, Function.update_self] at hnone
        rw [hio]
        exact (applyConditionalGet_lookup_eq_none nowMs habsent).mp hnone
    | flushApply =>
      intro call hcall hinst
      subst hinst
      obtain ⟨call', r, hcall', hmoved, rfl⟩ := World.moved_of_step hstep
      obtain rfl := Option.some.inj (hcall.symm.trans hcall')
      cases hmoved with
      | skipped hphase hread hs => simp at hs
      | @flushApply nowMs cond reply hphase hio =>
        simp only [World.advance, Function.update_self] at hnone
        rw [hio]
        exact (applyConditionalGet_lookup_eq_none nowMs habsent).mp hnone
    | _ => trivial

/-- While nobody writes the key and no snapshot that the instance merges brings it,
every read of it there that returns after the section of the deletion finds nothing;
a merge that does bring it puts it back. -/
theorem deleteItem_stays_deleted {object : Option String} {w₀ : World ι}
    (hrun₀ : Run (World.step contentOf) (fun _ _ => True) (initialWorld object) w₀) {d : ℕ}
    {call : Call ι} {nowMs : ℤ} (hcall : w₀.calls[d]? = some call)
    (hop : call.op = .deleteItem key)
    (hdelete : w₀.step contentOf (.call d (.commit nowMs)) = some w₁)
    (hrun : Run (World.step contentOf) (DeletionGuard call.inst key) w₁ w) :
    (∀ (c : ℕ) (read : Call ι) (result : Except DomainError Reply), w.calls[c]? = some read →
      read.inst = call.inst → read.op = .getItem key → read.phase = .returned result →
      (∀ read₁, w₁.calls[c]? = some read₁ → read₁.phase ≠ .returned result) →
      result = .ok (.found none)) ∧
    (∀ a w', ¬ MergeLacks call.inst key w a → w.step contentOf a = some w' →
      ((w'.insts call.inst).store.items.lookup key).isSome = true) := by
  have hdeleted : StaysDeleted call.inst key w₁ w :=
    hrun.invariant (fun _ _ _ h hguard hstep => h.step hguard hstep)
      (staysDeleted_of_commit (readsReturn_of_run hrun₀) hcall hop hdelete)
  refine ⟨?_, fun a w' => restored_of_merge hdeleted.absent⟩
  intro c read result hc hinst hread hphase hlater
  rcases hdeleted.replies c read result hc hinst hread hphase with ⟨read₁, hread₁, hphase₁⟩ | hnone
  · exact absurd hphase₁ (hlater read₁ hread₁)
  · exact hnone

end Runs

/-! ### A deletion beside a write of another key -/

def deletedKey : PrimaryKey := ⟨"a", []⟩

def deletedItem : Item := (∅ : Item).insert "PK" (.s "a")

def otherItem : Item := (∅ : Item).insert "PK" (.s "b")

/-- The object at the start, and after each of the two flushes. -/
def restoredContent (etag : String) : MbfPartitionWireSnapshot :=
  if etag = "e0" then ⟨5, [(deletedKey, deletedItem)], [], []⟩
  else ⟨if etag = "e1" then 6 else 7, [(deletedKey, deletedItem), (⟨"b", []⟩, otherItem)], [], []⟩

/-- The call read the key on the first instance and found `item`. -/
def Found (call : Call Bool) (item : Option Item) : Prop :=
  call.inst = false ∧ call.op = .getItem deletedKey ∧ call.phase = .returned (.ok (.found item))

def deletionAt (w : World Bool) (c : ℕ) (p : Phase → Bool) : Bool :=
  match w.calls[c]? with
  | some ⟨false, .deleteItem k, phase⟩ => k = deletedKey && p phase
  | _ => false

def readFound (w : World Bool) (c : ℕ) : Option (Option Item) :=
  match w.calls[c]? with
  | some ⟨false, .getItem k, .returned (.ok (.found item))⟩ =>
    if k = deletedKey then some item else none
  | _ => none

theorem call_of_deletionAt {w : World Bool} {c : ℕ} {p : Phase → Bool}
    (h : deletionAt w c p = true) :
    ∃ call, w.calls[c]? = some call ∧ call.inst = false ∧ call.op = .deleteItem deletedKey ∧
      p call.phase = true := by
  unfold deletionAt at h
  split at h
  · rename_i k phase hcall
    obtain ⟨rfl, hp⟩ : k = deletedKey ∧ p phase = true := by simpa using h
    exact ⟨_, hcall, rfl, rfl, hp⟩
  · cases h

theorem found_of_readFound {w : World Bool} {c : ℕ} {item : Option Item}
    (h : readFound w c = some item) : ∃ call, w.calls[c]? = some call ∧ Found call item := by
  unfold readFound at h
  split at h
  · rename_i k item' hcall
    split_ifs at h with hkey
    cases h
    subst hkey
    exact ⟨_, hcall, rfl, rfl, rfl⟩
  · cases h

/-- The second instance merges the old object before the deletion's flush and PUTs it
with its own item in between: the deletion's own flush brings the key back. -/
theorem deleted_item_returns :
    ∃ w₀ w₁ w₂ w : World Bool,
      Run (World.step restoredContent) (fun _ _ => True) (initialWorld (some "e0")) w₀ ∧
      w₀.step restoredContent (.call 0 (.commit 12)) = some w₁ ∧
      Run (World.step restoredContent) (NobodyWrites deletedKey) w₁ w₂ ∧
      (∃ call, w₂.calls[0]? = some call ∧ call.inst = false ∧
        call.op = .deleteItem deletedKey ∧ call.phase.isOk = true) ∧
      Run (World.step restoredContent) (NobodyWrites deletedKey) w₂ w ∧
      w₂.calls[2]? = none ∧ ∃ read, w.calls[2]? = some read ∧ Found read (some deletedItem) := by
  have hrun : ((exec (World.step restoredContent) (fun _ _ => True) (initialWorld (some "e0"))
      ([.start false (.deleteItem deletedKey), .start true (.putItem otherItem)] ++
        syncSteps 0 10 ++ syncSteps 1 11)).bind fun w₀ =>
      (w₀.step restoredContent (.call 0 (.commit 12))).bind fun w₁ =>
      (exec (World.step restoredContent) (NobodyWrites deletedKey) w₁
        ([.call 1 (.commit 13)] ++ flushSteps 1 14 "e1" ++ flushSteps 0 15 "e2")).bind fun w₂ =>
      (exec (World.step restoredContent) (NobodyWrites deletedKey) w₂
        [.start false (.getItem deletedKey), .call 2 (.skipSync 16), .call 2 (.commit 17)]).map
      fun w => deletionAt w₂ 0 Phase.isOk && w₂.calls.length = 2 &&
        readFound w 2 = some (some deletedItem)) = some true := by decide +kernel
  obtain ⟨w₀, hw₀, hrun⟩ := Option.bind_eq_some_iff.mp hrun
  obtain ⟨w₁, hw₁, hrun⟩ := Option.bind_eq_some_iff.mp hrun
  obtain ⟨w₂, hw₂, hrun⟩ := Option.bind_eq_some_iff.mp hrun
  obtain ⟨w, hw, hend⟩ := Option.map_eq_some_iff.mp hrun
  simp only [Bool.and_eq_true, decide_eq_true_eq] at hend
  obtain ⟨⟨hdeleted, hlength⟩, hfound⟩ := hend
  exact ⟨w₀, w₁, w₂, w, run_of_exec hw₀, hw₁, run_of_exec hw₂,
    call_of_deletionAt hdeleted, run_of_exec hw,
    List.getElem?_eq_none hlength.le, found_of_readFound hfound⟩

/-- The object at the start and after the deletion's flush. -/
def loneContent (etag : String) : MbfPartitionWireSnapshot :=
  if etag = "e0" then ⟨5, [(deletedKey, deletedItem)], [], []⟩ else ⟨6, [], [], []⟩

/-- With nobody else at work the deletion lasts. -/
theorem lone_deletion_lasts :
    ∃ w₀ w₁ w : World Bool,
      Run (World.step loneContent) (fun _ _ => True) (initialWorld (some "e0")) w₀ ∧
      w₀.step loneContent (.call 0 (.commit 12)) = some w₁ ∧
      Run (World.step loneContent) (DeletionGuard false deletedKey) w₁ w ∧
      ∃ read item, w.calls[1]? = some read ∧ Found read item ∧ item = none := by
  have hrun : ((exec (World.step loneContent) (fun _ _ => True) (initialWorld (some "e0"))
      ([.start false (.deleteItem deletedKey)] ++ syncSteps 0 10)).bind fun w₀ =>
      (w₀.step loneContent (.call 0 (.commit 12))).bind fun w₁ =>
      (exec (World.step loneContent) (DeletionGuard false deletedKey) w₁
        (flushSteps 0 13 "e1" ++ [.start false (.getItem deletedKey), .call 1 (.skipSync 14),
          .call 1 (.commit 15)])).map
      fun w => deletionAt w₀ 0 (fun _ => true) && w₁.calls.length = 1 &&
        (readFound w 1).isSome) = some true := by decide +kernel
  obtain ⟨w₀, hw₀, hrun⟩ := Option.bind_eq_some_iff.mp hrun
  obtain ⟨w₁, hw₁, hrun⟩ := Option.bind_eq_some_iff.mp hrun
  obtain ⟨w, hw, hend⟩ := Option.map_eq_some_iff.mp hrun
  simp only [Bool.and_eq_true, decide_eq_true_eq] at hend
  obtain ⟨⟨hdeletion, hlength⟩, hfound⟩ := hend
  obtain ⟨call, hcall, hinst, hop, _⟩ := call_of_deletionAt hdeletion
  obtain ⟨item, hitem⟩ := Option.isSome_iff_exists.mp hfound
  obtain ⟨read, hread, hfound⟩ := found_of_readFound hitem
  have hrun := run_of_exec hw
  obtain ⟨hlasts, _⟩ :=
    deleteItem_stays_deleted (run_of_exec hw₀) hcall hop hw₁ (hinst.symm ▸ hrun)
  have hnone := hlasts 1 read _ hread (hfound.1.trans hinst.symm) hfound.2.1 hfound.2.2
    fun read₁ hread₁ => by simp [List.getElem?_eq_none hlength.le] at hread₁
  simp only [Except.ok.injEq, Reply.found.injEq] at hnone
  exact ⟨w₀, w₁, w, run_of_exec hw₀, hw₁, hrun, read, item, hread, hfound, hnone⟩

end MetriEngine.Cluster

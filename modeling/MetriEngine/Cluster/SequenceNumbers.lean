import MetriEngine.Cluster.Watermark

/-!
# Sequence numbers across instances

The level of a sequence is its `current_value`: a merge keeps the larger one, an
increment raises it by one and returns what it raised it to.
-/
namespace MetriEngine.Cluster
open Foundation Storage

/-- The `current_value` of an item as a level, below all numbers where there is none. -/
def sequenceLevel (item : Option Item) : WithBot ℤ := item.bind MbfPartitionStore.currentValue

def incrementsSequence (seqCode : String) : StoreOp → Bool
  | .sequenceIncrement code _ => code = seqCode
  | _ => false

section Increment
variable {seqCode tenantId : String} {st : MbfPartitionStore}

/-- The number that an increment finds: the stored one, or zero. -/
def numberBefore (seqCode : String) (st : MbfPartitionStore) : ℤ :=
  ((st.items.lookup (sequenceKey seqCode)).bind MbfPartitionStore.currentValue).getD 0

theorem numberBefore_bounds : -2 ^ 63 ≤ numberBefore seqCode st ∧ numberBefore seqCode st < 2 ^ 63 := by
  unfold numberBefore
  cases h : (st.items.lookup (sequenceKey seqCode)).bind MbfPartitionStore.currentValue with
  | none => simp
  | some v =>
    obtain ⟨item, _, hv⟩ := Option.bind_eq_some_iff.mp h
    obtain ⟨text, _, hv⟩ := Option.bind_eq_some_iff.mp hv
    exact parseInRange_bounds hv

/-- Below the largest `i64` an increment returns the next number and stores it. -/
theorem sequenceIncrement_number (nowMs : ℤ) (hmax : numberBefore seqCode st < 2 ^ 63 - 1) :
    (st.sequenceIncrement seqCode tenantId nowMs).2 = numberBefore seqCode st + 1 ∧
      ∃ item, (st.sequenceIncrement seqCode tenantId nowMs).1.items.lookup (sequenceKey seqCode) =
          some item ∧
        MbfPartitionStore.currentValue item = some (numberBefore seqCode st + 1) := by
  have hcurrent : (MbfPartitionStore.currentValue (st.sequenceEntry seqCode
      (((∅ : Item).insert "PK" (.s seqCode)).insert "tenant_id" (.s tenantId)))).getD 0 =
      numberBefore seqCode st := by
    unfold MbfPartitionStore.sequenceEntry numberBefore
    cases st.items.lookup (sequenceKey seqCode) with
    | none => simp [MbfPartitionStore.currentValue]
    | some item => rfl
  have hbounds : -2 ^ 63 ≤ numberBefore seqCode st ∧ numberBefore seqCode st < 2 ^ 63 :=
    numberBefore_bounds
  have hwrap : wrapI64 (numberBefore seqCode st + 1) = numberBefore seqCode st + 1 :=
    wrapI64_of_bounds (by omega) (by omega)
  unfold MbfPartitionStore.sequenceIncrement MbfPartitionStore.setSequence
  dsimp only
  rw [hcurrent, hwrap]
  refine ⟨rfl, _, OrdMap.lookup_insert_self _ _ _, ?_⟩
  have hparse : parseI64 (toString (numberBefore seqCode st + 1)) =
      some (numberBefore seqCode st + 1) := parseI64_toString (by omega) (by omega)
  unfold MbfPartitionStore.currentValue orInsert
  split_ifs
  · simpa [avNumber] using hparse
  · simpa [avNumber] using hparse

/-- What is stored is at most the number that an increment finds. -/
theorem sequenceLevel_le_numberBefore :
    sequenceLevel (st.items.lookup (sequenceKey seqCode)) ≤ (numberBefore seqCode st : WithBot ℤ) := by
  unfold sequenceLevel numberBefore
  cases (st.items.lookup (sequenceKey seqCode)).bind MbfPartitionStore.currentValue with
  | none => exact bot_le
  | some v => exact le_rfl

/-- The section of an increment, below the largest `i64`. -/
theorem increment_commit {op : StoreOp} {nowMs : ℤ} {st' : MbfPartitionStore}
    {touched : List TouchedEntity} {reply : Reply} (hinc : incrementsSequence seqCode op = true)
    (hmax : numberBefore seqCode st < 2 ^ 63 - 1)
    (hcommit : op.commit st nowMs = .changed st' touched reply) :
    reply = .number (numberBefore seqCode st + 1) ∧
      (∀ item, st'.items.lookup (sequenceKey seqCode) = some item →
        (MbfPartitionStore.currentValue item).isSome = true) ∧
      sequenceLevel (st'.items.lookup (sequenceKey seqCode)) =
        ((numberBefore seqCode st + 1 : ℤ) : WithBot ℤ) := by
  cases op with
  | sequenceIncrement code tenantId =>
    obtain rfl : code = seqCode := by simpa [incrementsSequence] using hinc
    obtain ⟨hnumber, item, hitem, hvalue⟩ :=
      sequenceIncrement_number nowMs hmax
    simp only [StoreOp.commit, Outcome.changed.injEq] at hcommit
    obtain ⟨rfl, _, rfl⟩ := hcommit
    refine ⟨congrArg Reply.number hnumber, ?_, ?_⟩
    · intro item' hitem'
      obtain rfl := Option.some.inj (hitem.symm.trans hitem')
      exact Option.isSome_iff_exists.mpr ⟨_, hvalue⟩
    · rw [hitem]
      exact hvalue
  | _ => simp [incrementsSequence] at hinc

/-- An increment waits for the exchange with the object. -/
theorem increment_synced (seqCode : String) {op : StoreOp}
    (hinc : incrementsSequence seqCode op = true) : op.returnsAtOnce = false := by
  cases op with
  | sequenceIncrement code tenantId => rfl
  | _ => simp [incrementsSequence] at hinc

end Increment

/-- The current value of a sequence. Every call may run that does not write the
sequence's item, and increments below the largest `i64`. -/
def sequenceWatermark (seqCode : String) : Watermark (WithBot ℤ) where
  key := sequenceKey seqCode
  read := sequenceLevel
  Readable item := (MbfPartitionStore.currentValue item).isSome = true
  bot_le _ := bot_le
  merge_le := by
    intro newer localItem remoteItem hlocal hremote
    obtain ⟨l, hl⟩ := Option.isSome_iff_exists.mp hlocal
    obtain ⟨r, hr⟩ := Option.isSome_iff_exists.mp hremote
    have hlocal : sequenceLevel (some localItem) = (l : WithBot ℤ) := hl
    have hremote : sequenceLevel (some remoteItem) = (r : WithBot ℤ) := hr
    rw [hlocal, hremote]
    simp only [MbfPartitionStore.takesRemote, hl, hr, WithBot.coe_le_coe]
    split_ifs with h
    · simp only [Bool.or_eq_true, decide_eq_true_eq, Bool.and_eq_true, beq_iff_eq] at h
      omega
    · simp only [Bool.or_eq_true, decide_eq_true_eq, not_or] at h
      omega
  marks := incrementsSequence seqCode
  raises _ op := incrementsSequence seqCode op
  value
    | .number n => n
    | _ => ⊥
  allows st op :=
    if incrementsSequence seqCode op then numberBefore seqCode st < 2 ^ 63 - 1
    else sequenceKey seqCode ∉ op.writtenKeys
  commit_keeps := by
    intro st op nowMs st' touched reply hok hallows hcommit
    by_cases hinc : incrementsSequence seqCode op = true
    · simp only [hinc, if_true, decide_eq_true_eq] at hallows
      obtain ⟨_, hreadable, hraised⟩ := increment_commit hinc hallows hcommit
      have hstep : ((numberBefore seqCode st : ℤ) : WithBot ℤ) ≤
          ((numberBefore seqCode st + 1 : ℤ) : WithBot ℤ) := WithBot.coe_le_coe.mpr (by omega)
      exact ⟨hreadable, (sequenceLevel_le_numberBefore.trans hstep).trans hraised.ge⟩
    · simp only [hinc, Bool.false_eq_true, if_false, decide_eq_true_eq] at hallows
      have hsame := StoreOp.commit_lookup_of_notMem hcommit hallows
      refine ⟨?_, ?_⟩
      · intro item hitem
        exact hok item (hsame ▸ hitem)
      · exact le_of_eq (congrArg sequenceLevel hsame.symm)
  commit_marks := by
    intro st op nowMs st' touched reply _ hallows hinc hcommit
    simp only [hinc, if_true, decide_eq_true_eq] at hallows
    obtain ⟨rfl, _, hraised⟩ := increment_commit hinc hallows hcommit
    have hstep : ((numberBefore seqCode st : ℤ) : WithBot ℤ) <
        ((numberBefore seqCode st + 1 : ℤ) : WithBot ℤ) := WithBot.coe_lt_coe.mpr (by omega)
    exact ⟨hinc, sequenceLevel_le_numberBefore.trans_lt hstep, hraised.ge⟩
  answered_failed := by
    intro st op nowMs reply hmarks hcommit
    cases op with
    | sequenceIncrement code tenantId => simp [StoreOp.commit] at hcommit
    | _ => simp [incrementsSequence] at hmarks
  marks_synced := @increment_synced seqCode

section Runs
variable {ι : Type} [DecidableEq ι] {contentOf : String → MbfPartitionWireSnapshot}

/-- When an increment commits, its store is not behind the object or is a copy of
it, no other instance has an increment of the sequence waiting for its PUT, and the
number is below the largest `i64`; the sequence's item goes into the snapshot; a PUT
does not lower the stored number or replaces the object its flush merged; nothing
else writes the item. -/
abbrev SequenceGuard (contentOf : String → MbfPartitionWireSnapshot) (seqCode : String) :
    World ι → ClusterAction ι → Prop := (sequenceWatermark seqCode).Guard contentOf

/-- The stored `current_value` of a sequence. -/
def storedNumber (contentOf : String → MbfPartitionWireSnapshot) (object : Option String)
    (seqCode : String) : Option ℤ :=
  object.bind fun etag =>
    ((contentOf etag).itemAt (sequenceKey seqCode)).bind MbfPartitionStore.currentValue

/-- The call incremented the sequence and returned `n`. -/
def Incremented (seqCode : String) (call : Call ι) (n : ℤ) : Prop :=
  incrementsSequence seqCode call.op = true ∧ call.phase = .returned (.ok (.number n))

/-- In runs that keep to the guard the returned numbers differ, and none exceeds the
stored one. -/
theorem sequenceIncrement_unique {seqCode : String} {object : Option String}
    (hobject : ∀ etag, object = some etag → ∃ st, contentOf etag = MbfPartitionStore.toWireSnapshot st ∧
      ∀ item, st.items.lookup (sequenceKey seqCode) = some item →
        (MbfPartitionStore.currentValue item).isSome = true)
    {w : World ι} (hrun : Run (World.step contentOf) (SequenceGuard contentOf seqCode)
      (initialWorld object) w) :
    (∀ (c d : ℕ) (call call' : Call ι) (n n' : ℤ), c ≠ d → w.calls[c]? = some call →
      w.calls[d]? = some call' → Incremented seqCode call n → Incremented seqCode call' n' →
      n ≠ n') ∧
    (∀ (c : ℕ) (call : Call ι) (n : ℤ), w.calls[c]? = some call → Incremented seqCode call n →
      ∃ stored, storedNumber contentOf w.object seqCode = some stored ∧ n ≤ stored) := by
  obtain ⟨hdistinct, hreached⟩ :=
    Watermark.marks_of_run (m := sequenceWatermark seqCode) hobject hrun
  have hmark (call : Call ι) (n : ℤ) (h : Incremented seqCode call n) :
      (sequenceWatermark seqCode).mark call = some ((n : ℤ) : WithBot ℤ) := by
    have hmarks : (sequenceWatermark seqCode).marks call.op = true := h.1
    simp only [Watermark.mark, hmarks, if_true, h.2, Phase.reply?, Option.map_some]
    rfl
  refine ⟨?_, ?_⟩
  · intro c d call call' n n' hcd hc hd hn hn' heq
    subst heq
    exact hdistinct c d call call' _ hcd hc hd (hmark call n hn) (hmark call' n hn')
  · intro c call n hc hn
    have hle := hreached c call _ hc (hmark call n hn) (by rw [hn.2]; rfl)
    have hlevel : (sequenceWatermark seqCode).ofObject contentOf w.object =
        (storedNumber contentOf w.object seqCode : WithBot ℤ) := by
      unfold storedNumber
      cases w.object <;> rfl
    rw [hlevel] at hle
    cases hstored : storedNumber contentOf w.object seqCode with
    | none =>
      rw [hstored] at hle
      exact absurd hle (not_le.mpr (WithBot.bot_lt_coe n))
    | some stored =>
      rw [hstored] at hle
      exact ⟨stored, rfl, WithBot.coe_le_coe.mp hle⟩

end Runs

/-! ### Two instances that increment one sequence -/

/-- The item of a sequence after an increment. -/
def numberedItem (n nowMs : ℤ) : Item :=
  ((((∅ : Item).insert "PK" (.s "INV")).insert "tenant_id" (.s "t")).insert
    "current_value" (.n (toString n))).insert "updated_at" (.n (toString nowMs))

def nextInvoice : StoreOp := .sequenceIncrement "INV" "t"

/-- Both instances look before either has flushed. -/
def racingIncrements : List (ClusterAction Bool) :=
  [.start false nextInvoice, .start true nextInvoice] ++ syncSteps 0 10 ++ syncSteps 1 11 ++
    [.call 0 (.commit 12), .call 1 (.commit 13)] ++ flushSteps 0 14 "e1" ++ flushSteps 1 15 "e2"

/-- The merge of the second flush takes the first number, which it ties with. -/
def racingContent (etag : String) : MbfPartitionWireSnapshot :=
  ⟨if etag = "e1" then 1 else 2, [(sequenceKey "INV", numberedItem 1 12)], [], []⟩

/-- The number that a call returned. -/
def returnedNumber (w : World Bool) (c : ℕ) : Option ℤ :=
  match w.calls[c]? with
  | some ⟨_, .sequenceIncrement "INV" _, .returned (.ok (.number n))⟩ => some n
  | _ => none

theorem incremented_of_returnedNumber {w : World Bool} {c : ℕ} {n : ℤ}
    (h : returnedNumber w c = some n) :
    ∃ call, w.calls[c]? = some call ∧ Incremented "INV" call n := by
  unfold returnedNumber at h
  split at h
  · rename_i i tenantId m hcall
    cases h
    exact ⟨_, hcall, rfl, rfl⟩
  · cases h

theorem racing_increments_collide :
    ∃ w : World Bool, Run (World.step racingContent) (fun _ _ => True) (initialWorld none) w ∧
      ∃ (call call' : Call Bool), w.calls[0]? = some call ∧ w.calls[1]? = some call' ∧
        Incremented "INV" call 1 ∧ Incremented "INV" call' 1 := by
  have hrun : (exec (World.step racingContent) (fun _ _ => True) (initialWorld none)
      racingIncrements).any (fun w => returnedNumber w 0 = some 1 && returnedNumber w 1 = some 1) =
      true := by decide +kernel
  obtain ⟨w, hw, hboth⟩ := exists_run_of_exec hrun
  simp only [Bool.and_eq_true, decide_eq_true_eq] at hboth
  obtain ⟨call, hcall, hn⟩ := incremented_of_returnedNumber hboth.1
  obtain ⟨call', hcall', hn'⟩ := incremented_of_returnedNumber hboth.2
  exact ⟨w, hw, call, call', hcall, hcall', hn, hn'⟩

/-- The second instance looks after the first has flushed. -/
def orderedIncrements : List (ClusterAction Bool) :=
  [.start false nextInvoice] ++ syncSteps 0 10 ++ [.call 0 (.commit 12)] ++
    flushSteps 0 14 "e1" ++ [.start true nextInvoice] ++ syncSteps 1 15 ++
    [.call 1 (.commit 16)] ++ flushSteps 1 17 "e2"

def orderedContent (etag : String) : MbfPartitionWireSnapshot :=
  if etag = "e1" then ⟨1, [(sequenceKey "INV", numberedItem 1 12)], [], []⟩
  else ⟨2, [(sequenceKey "INV", numberedItem 2 16)], [], []⟩

theorem ordered_increments_unique :
    ∃ w : World Bool, exec (World.step orderedContent) (SequenceGuard orderedContent "INV")
        (initialWorld none) orderedIncrements = some w ∧
      ∀ (c d : ℕ) (call call' : Call Bool) (n n' : ℤ), c ≠ d → w.calls[c]? = some call →
        w.calls[d]? = some call' → Incremented "INV" call n → Incremented "INV" call' n' →
        n ≠ n' := by
  have hsome : (exec (World.step orderedContent) (SequenceGuard orderedContent "INV")
      (initialWorld none) orderedIncrements).isSome = true := by decide +kernel
  obtain ⟨w, hw⟩ := Option.isSome_iff_exists.mp hsome
  obtain ⟨hdistinct, _⟩ := sequenceIncrement_unique (fun _ h => by cases h) (run_of_exec hw)
  exact ⟨w, hw, hdistinct⟩

end MetriEngine.Cluster

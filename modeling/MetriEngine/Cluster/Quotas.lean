import MetriEngine.Cluster.Instances
import MetriEngine.Storage.QuotaLedger

/-!
# Quotas across instances

When every quota call that takes effect does so on a copy of the current object,
while no other instance is between such a section and its PUT, the order of the
sections is a serial order: the object holds the result of a prefix of it, the store
of the one instance at work the result of all of it, and every other store an older
object that the next merge replaces.
-/
namespace MetriEngine.Cluster
open Foundation Storage

variable {ι : Type} (contentOf : String → MbfPartitionWireSnapshot)

/-! ### Versions of the object -/

def objectLedger (object : Option String) : Ledger :=
  match object with
  | none => {}
  | some etag => (contentOf etag).ledger

def objectEpoch (object : Option String) : ℕ :=
  match object with
  | none => 0
  | some etag => (contentOf etag).epochId

/-- `a` is the object `b`, or was before it. -/
def Older (a b : Option String) : Prop :=
  a = none ∨ a = b ∨ objectEpoch contentOf a < objectEpoch contentOf b ∧
    (objectLedger contentOf a).Before (objectLedger contentOf b)

section Older
variable {contentOf} {a b c : Option String}

theorem Older.refl (a : Option String) : Older contentOf a a := Or.inr (Or.inl rfl)

theorem Older.epoch_le (h : Older contentOf a b) : objectEpoch contentOf a ≤ objectEpoch contentOf b := by
  rcases h with rfl | rfl | h
  · exact Nat.zero_le _
  · exact le_rfl
  · exact h.1.le

theorem Older.before (h : Older contentOf a b) :
    (objectLedger contentOf a).Before (objectLedger contentOf b) := by
  rcases h with rfl | rfl | h
  · exact Ledger.empty_before _
  · exact Ledger.Before.refl _
  · exact h.2

theorem Older.trans (hab : Older contentOf a b) (hbc : Older contentOf b c) :
    Older contentOf a c := by
  rcases hab with rfl | rfl | hab
  · exact Or.inl rfl
  · exact hbc
  · exact Or.inr (Or.inr ⟨hab.1.trans_le hbc.epoch_le, hab.2.trans hbc.before⟩)

theorem Older.antisymm (hab : Older contentOf a b) (hba : Older contentOf b a) : a = b := by
  rcases hab with rfl | rfl | hab
  · rcases hba with rfl | rfl | hba
    · rfl
    · rfl
    · exact absurd hba.1 (Nat.not_lt_zero _)
  · rfl
  · exact absurd hba.epoch_le (not_le.mpr hab.1)

end Older

/-! ### Calls that took effect -/

/-- The call with its reply, if it took effect. -/
def Call.effect? (call : Call ι) : Option (StoreOp × Reply) :=
  call.phase.reply?.bind fun reply =>
    if call.op.tookEffect reply then some (call.op, reply) else none

def World.effectAt (w : World ι) (c : ℕ) : Option (StoreOp × Reply) :=
  (w.calls[c]?).bind Call.effect?

/-- Call `c` of instance `i` is between its section and its PUT. -/
def World.Pending (w : World ι) (c : ℕ) (i : ι) : Prop :=
  ∃ call, w.calls[c]? = some call ∧ call.inst = i ∧ call.phase.isPending = true

/-- Only quota calls run. One that takes effect on its store does so on a copy of the
object, while no other instance has a call between its section and its PUT; epochs
do not wrap. -/
def QuotaGuard [DecidableEq ι] (w : World ι) : ClusterAction ι → Prop
  | .call c (.commit _) => ∀ call ∈ w.calls[c]?, call.op.isQuota = true ∧
    (((w.insts call.inst).store.ledger.serialStep call.op).isSome = true →
      (w.insts call.inst).copyEtag = w.object ∧
      ∀ other ∈ w.calls, other.inst ≠ call.inst → other.phase.isPending = false)
  | .call c .serialize => ∀ call ∈ w.calls[c]?, (w.insts call.inst).store.epochId + 1 < 2 ^ 64
  | _ => True

instance [DecidableEq ι] (w : World ι) : ∀ a : ClusterAction ι, Decidable (QuotaGuard w a)
  | .call c (.commit _) => inferInstanceAs (Decidable (∀ call ∈ w.calls[c]?, call.op.isQuota = true ∧
      (((w.insts call.inst).store.ledger.serialStep call.op).isSome = true →
        (w.insts call.inst).copyEtag = w.object ∧
        ∀ other ∈ w.calls, other.inst ≠ call.inst → other.phase.isPending = false)))
  | .call c .serialize => inferInstanceAs (Decidable (∀ call ∈ w.calls[c]?,
      (w.insts call.inst).store.epochId + 1 < 2 ^ 64))
  | .call _ (.skipSync _) => isTrue trivial
  | .call _ (.syncGet _) => isTrue trivial
  | .call _ .syncApply => isTrue trivial
  | .call _ .markDirty => isTrue trivial
  | .call _ (.flushGet _) => isTrue trivial
  | .call _ .flushApply => isTrue trivial
  | .call _ (.put _) => isTrue trivial
  | .call _ (.finish _) => isTrue trivial
  | .start _ _ => isTrue trivial

/-! ### One instance -/

/-- What a GET brought to an instance that knows `known`. -/
def CondOlder (object known : Option String) : MbfConditionalGet VortexBody → Prop
  | .notModified => True
  | .notFound => known = none
  | .modified payload => payload.bytes = some (contentOf payload.etag) ∧
    known ≠ some payload.etag ∧ Older contentOf known (some payload.etag) ∧
    Older contentOf (some payload.etag) object

/-- The epoch of a store is that of the object it copies, or of the snapshot it is
about to PUT. -/
def EpochOk (inst : Instance) : Prop :=
  match inst.io with
  | .serialized _ snap => inst.store.epochId = snap.epochId ∧
    objectEpoch contentOf inst.store.lastS3Etag < snap.epochId ∧
    (objectLedger contentOf inst.store.lastS3Etag).Before snap.ledger
  | _ => inst.store.epochId = objectEpoch contentOf inst.copyEtag

def CondOk (object : Option String) (inst : Instance) : Prop :=
  match inst.io with
  | .syncing _ _ cond => CondOlder contentOf object inst.store.lastS3Etag cond
  | .flushing _ _ cond => CondOlder contentOf object inst.store.lastS3Etag cond
  | _ => True

structure Exchanged (object : Option String) (inst : Instance) : Prop where
  older : Older contentOf inst.copyEtag object
  epoch : EpochOk contentOf inst
  cond : CondOk contentOf object inst

section Exchange
variable {contentOf} {object object' known : Option String} {inst : Instance}
  {st : MbfPartitionStore} {cond : MbfConditionalGet VortexBody}

/-- Outside the time between serialisation and the end of the flush, a store is a copy
of the object it knows. -/
theorem Exchanged.copied (h : Exchanged contentOf object inst)
    (hserialized : ∀ d snap, inst.io ≠ .serialized d snap)
    (hstored : ∀ d etag, inst.io ≠ .stored d etag) :
    inst.copyEtag = inst.store.lastS3Etag ∧ Older contentOf inst.store.lastS3Etag object ∧
      inst.store.epochId = objectEpoch contentOf inst.store.lastS3Etag := by
  have hcopy : inst.copyEtag = inst.store.lastS3Etag := by
    unfold Instance.copyEtag
    cases hio : inst.io with
    | stored d etag => exact absurd hio (hstored d etag)
    | _ => rfl
  have holder := h.older
  have hepoch := h.epoch
  unfold EpochOk at hepoch
  rw [hcopy] at holder hepoch
  refine ⟨hcopy, holder, ?_⟩
  cases hio : inst.io with
  | serialized d snap => exact absurd hio (hserialized d snap)
  | _ => simpa only [hio] using hepoch

theorem condOlder_conditionalGet (h : Older contentOf known object) :
    CondOlder contentOf object known (conditionalGet contentOf object known) := by
  cases object with
  | none =>
    rcases h with h | h | h
    · exact h
    · exact h
    · exact absurd h.1 (Nat.not_lt_zero _)
  | some etag =>
    by_cases hknown : known = some etag
    · simp [conditionalGet, CondOlder, hknown]
    · simp only [conditionalGet, hknown, if_false]
      exact ⟨rfl, hknown, h, Older.refl _⟩

theorem CondOlder.mono (h : CondOlder contentOf object known cond)
    (hobject : Older contentOf object object') : CondOlder contentOf object' known cond := by
  cases cond with
  | notModified => trivial
  | notFound => exact h
  | modified payload =>
    obtain ⟨hbytes, hne, hknown, holder⟩ := h
    exact ⟨hbytes, hne, hknown, holder.trans hobject⟩

/-- A store whose copy is the object has fetched nothing to merge. -/
theorem CondOlder.not_modified (h : CondOlder contentOf object known cond) (hknown : known = object)
    (payload : MbfObjectPayload VortexBody) : cond ≠ .modified payload := by
  rintro rfl
  obtain ⟨_, hne, hbefore, hafter⟩ := h
  subst hknown
  exact hne (hbefore.antisymm hafter)

/-- The other instances see the object replaced by a later one. -/
theorem Exchanged.mono (h : Exchanged contentOf object inst)
    (hobject : Older contentOf object object') : Exchanged contentOf object' inst := by
  refine ⟨h.older.trans hobject, h.epoch, ?_⟩
  have hcond := h.cond
  unfold CondOk at hcond ⊢
  cases hio : inst.io with
  | syncing c nowMs cond =>
    simp only [hio] at hcond ⊢
    exact hcond.mono hobject
  | flushing c nowMs cond =>
    simp only [hio] at hcond ⊢
    exact hcond.mono hobject
  | _ => trivial

/-- A step in the store that leaves epoch and ETag alone. -/
theorem Exchanged.withStore (h : Exchanged contentOf object inst)
    (hepoch : st.epochId = inst.store.epochId) (hetag : st.lastS3Etag = inst.store.lastS3Etag) :
    Exchanged contentOf object { inst with store := st } := by
  refine ⟨?_, ?_, ?_⟩
  · rw [copyEtag_withStore hetag]
    exact h.older
  · have hold := h.epoch
    unfold EpochOk at hold ⊢
    rw [copyEtag_withStore hetag]
    dsimp only
    rw [hepoch, hetag]
    exact hold
  · have hold := h.cond
    unfold CondOk at hold ⊢
    dsimp only
    rw [hetag]
    exact hold

/-- The merge of a GET into a store that is a copy of `known`, or has nothing to merge. -/
theorem applyConditionalGet_exchange (nowMs : ℤ)
    (hcond : CondOlder contentOf object st.lastS3Etag cond)
    (hknown : Older contentOf st.lastS3Etag object)
    (hepoch : st.epochId = objectEpoch contentOf st.lastS3Etag) :
    Older contentOf (st.applyConditionalGet nowMs cond).lastS3Etag object ∧
      (st.applyConditionalGet nowMs cond).epochId =
        objectEpoch contentOf (st.applyConditionalGet nowMs cond).lastS3Etag ∧
      (((st.applyConditionalGet nowMs cond).ledger = st.ledger ∧
        (st.applyConditionalGet nowMs cond).lastS3Etag = st.lastS3Etag) ∨
      ((∃ payload, cond = .modified payload) ∧
        (st.ledger = objectLedger contentOf st.lastS3Etag →
          (st.applyConditionalGet nowMs cond).ledger =
            objectLedger contentOf (st.applyConditionalGet nowMs cond).lastS3Etag))) := by
  cases cond with
  | notModified => exact ⟨hknown, hepoch, Or.inl ⟨rfl, rfl⟩⟩
  | notFound =>
    have hnone : st.lastS3Etag = none := hcond
    have hsame : st.applyConditionalGet nowMs .notFound = { st with lastSyncMs := nowMs } := by
      simp [MbfPartitionStore.applyConditionalGet, hnone]
    rw [hsame]
    exact ⟨hknown, hepoch, Or.inl ⟨rfl, rfl⟩⟩
  | modified payload =>
    obtain ⟨bytes, etag⟩ := payload
    obtain ⟨hbytes, hne, hbefore, hafter⟩ := hcond
    dsimp only at hbytes hbefore hafter
    subst hbytes
    have hle : st.epochId ≤ (contentOf etag).epochId := hepoch ▸ hbefore.epoch_le
    refine ⟨hafter, max_eq_right hle, Or.inr ⟨⟨_, rfl⟩, ?_⟩⟩
    intro hledger
    exact applyWireSnapshot_ledger etag nowMs hle (hledger ▸ hbefore.before)

end Exchange

/-! ### The invariant -/

/-- `log` lists the calls that took effect in the order of their sections, `all` is
the ledger they lead to. An instance with pending calls holds all of it and is a copy
of the object; any other holds the ledger of the object it is a copy of. -/
structure QuotaInv (start : Ledger) (log : List ℕ) (all : Ledger) (w : World ι) : Prop where
  exchanged : ∀ i, Exchanged contentOf w.object (w.insts i)
  linked : ∀ i c snap, (w.insts i).io = .serialized c snap → w.Pending c i
  nodup : log.Nodup
  mem : ∀ c, c ∈ log ↔ (w.effectAt c).isSome = true
  serial : start.serialRun (log.filterMap w.effectAt) = some all
  reached : (objectLedger contentOf w.object).Before all
  dirty : ∀ c i, w.Pending c i →
    (w.insts i).copyEtag = w.object ∧ (w.insts i).store.ledger = all
  exclusive : ∀ c d i j, w.Pending c i → w.Pending d j → i = j
  clean : ∀ i, (∀ c, ¬ w.Pending c i) →
    (w.insts i).store.ledger = objectLedger contentOf (w.insts i).copyEtag
  settled : (∀ c i, ¬ w.Pending c i) → objectLedger contentOf w.object = all
  written : ∀ i c snap, (w.insts i).io = .serialized c snap →
    snap.ledger.Before all ∧ ((∀ d, w.Pending d i → d = c) → snap.ledger = all)

section Preservation
variable {contentOf} {start all : Ledger} {log : List ℕ} {w w' : World ι}
  {c : ℕ} {call : Call ι} {r : Option String × Phase × Instance}

theorem pending_iff (hcall : w.calls[c]? = some call) (j : ι) :
    w.Pending c j ↔ call.inst = j ∧ call.phase.isPending = true := by
  simp [World.Pending, hcall]

/-- The merge of what a GET brought: it changes only a store with nothing pending. -/
theorem QuotaInv.merge (hinv : QuotaInv contentOf start log all w) (nowMs : ℤ)
    {cond : MbfConditionalGet VortexBody}
    (hcopy : (w.insts call.inst).copyEtag = (w.insts call.inst).store.lastS3Etag)
    (holder : Older contentOf (w.insts call.inst).store.lastS3Etag w.object)
    (hepoch : (w.insts call.inst).store.epochId =
      objectEpoch contentOf (w.insts call.inst).store.lastS3Etag)
    (hcond : CondOlder contentOf w.object (w.insts call.inst).store.lastS3Etag cond)
    {st : MbfPartitionStore} (hst : (w.insts call.inst).store.applyConditionalGet nowMs cond = st) :
    Older contentOf st.lastS3Etag w.object ∧
      st.epochId = objectEpoch contentOf st.lastS3Etag ∧
      ((st.ledger = (w.insts call.inst).store.ledger ∧
        st.lastS3Etag = (w.insts call.inst).copyEtag) ∨
      ((∀ d, ¬ w.Pending d call.inst) ∧ st.ledger = objectLedger contentOf st.lastS3Etag)) := by
  subst hst
  obtain ⟨holder', hepoch', hstore⟩ := applyConditionalGet_exchange nowMs hcond holder hepoch
  refine ⟨holder', hepoch', ?_⟩
  rcases hstore with hsame | ⟨⟨payload, hpayload⟩, hmerged⟩
  · exact Or.inl ⟨hsame.1, hsame.2.trans hcopy.symm⟩
  · have hclean : ∀ d, ¬ w.Pending d call.inst := by
      intro d hd
      have hcurrent := (hinv.dirty d call.inst hd).1
      exact hcond.not_modified (hcopy.symm.trans hcurrent) payload hpayload
    have hledger := hinv.clean call.inst hclean
    rw [hcopy] at hledger
    exact Or.inr ⟨hclean, hmerged hledger⟩

variable [DecidableEq ι]

theorem pending_advance (hcall : w.calls[c]? = some call) (d : ℕ) (j : ι) :
    (w.advance c call r).Pending d j ↔
      if d = c then call.inst = j ∧ r.2.1.isPending = true else w.Pending d j := by
  unfold World.Pending
  rw [World.advance_calls hcall]
  by_cases hd : d = c
  · simp [hd]
  · have hcd : c ≠ d := fun h => hd h.symm
    simp [hd, hcd]

theorem effectAt_advance (hcall : w.calls[c]? = some call) (d : ℕ) :
    (w.advance c call r).effectAt d =
      if d = c then ({ call with phase := r.2.1 } : Call ι).effect? else w.effectAt d := by
  unfold World.effectAt
  rw [World.advance_calls hcall]
  by_cases hd : d = c
  · simp [hd]
  · have hcd : c ≠ d := fun h => hd h.symm
    simp [hd, hcd]

theorem insts_advance (i : ι) :
    (w.advance c call r).insts i = if i = call.inst then r.2.2 else w.insts i := by
  simp [World.advance, Function.update_apply]

/-- A step that changes neither the object nor what is pending, and leaves the ledger
and the copy of its instance alone unless nothing there is pending. -/
theorem QuotaInv.quiet (hinv : QuotaInv contentOf start log all w)
    (hcall : w.calls[c]? = some call) (hobject : r.1 = w.object)
    (hpending : r.2.1.isPending = call.phase.isPending)
    (heffect : ({ call with phase := r.2.1 } : Call ι).effect? = call.effect?)
    (hexchanged : Exchanged contentOf w.object r.2.2)
    (hstore : (r.2.2.store.ledger = (w.insts call.inst).store.ledger ∧
        r.2.2.copyEtag = (w.insts call.inst).copyEtag) ∨
      ((∀ d, ¬ w.Pending d call.inst) ∧
        r.2.2.store.ledger = objectLedger contentOf r.2.2.copyEtag))
    (hsnap : ∀ d snap, r.2.2.io = .serialized d snap →
      (w.insts call.inst).io = .serialized d snap ∨
        d = c ∧ call.phase.isPending = true ∧ snap.ledger = (w.insts call.inst).store.ledger) :
    QuotaInv contentOf start log all (w.advance c call r) := by
  have hpend : (w.advance c call r).Pending = w.Pending := by
    funext d j
    rw [pending_advance hcall, hpending, ← pending_iff hcall]
    split_ifs with hd
    · rw [hd]
    · rfl
  have heff : (w.advance c call r).effectAt = w.effectAt := by
    funext d
    rw [effectAt_advance hcall, heffect]
    split_ifs with hd
    · rw [hd, World.effectAt, hcall]
      rfl
    · rfl
  have hobj : (w.advance c call r).object = w.object := hobject
  refine ⟨?_, ?_, hinv.nodup, ?_, ?_, ?_, ?_, ?_, ?_, ?_, ?_⟩
  · intro i
    rw [hobj, insts_advance]
    split_ifs
    · exact hexchanged
    · exact hinv.exchanged i
  · intro i d snap hio
    rw [hpend]
    rw [insts_advance] at hio
    split_ifs at hio with hi
    · rcases hsnap d snap hio with hold | ⟨rfl, hp, _⟩
      · exact hi ▸ hinv.linked _ d snap hold
      · exact (pending_iff hcall i).mpr ⟨hi.symm, hp⟩
    · exact hinv.linked i d snap hio
  · rw [heff]
    exact hinv.mem
  · rw [heff]
    exact hinv.serial
  · rw [hobj]
    exact hinv.reached
  · intro d i hd
    rw [hpend] at hd
    rw [hobj, insts_advance]
    split_ifs with hi
    · subst hi
      obtain ⟨hcopy, hledger⟩ := hinv.dirty d call.inst hd
      rcases hstore with hsame | hclean
      · exact ⟨hsame.2.trans hcopy, hsame.1.trans hledger⟩
      · exact absurd hd (hclean.1 d)
    · exact hinv.dirty d i hd
  · rw [hpend]
    exact hinv.exclusive
  · intro i hclean
    rw [hpend] at hclean
    rw [insts_advance]
    split_ifs with hi
    · subst hi
      rcases hstore with hsame | hmerged
      · rw [hsame.1, hsame.2]
        exact hinv.clean call.inst hclean
      · exact hmerged.2
    · exact hinv.clean i hclean
  · intro hnone
    rw [hpend] at hnone
    rw [hobj]
    exact hinv.settled hnone
  · intro i d snap hio
    rw [hpend]
    rw [insts_advance] at hio
    split_ifs at hio with hi
    · subst hi
      rcases hsnap d snap hio with hold | ⟨rfl, hp, hledger⟩
      · exact hinv.written call.inst d snap hold
      · have hall := (hinv.dirty d call.inst ((pending_iff hcall _).mpr ⟨rfl, hp⟩)).2
        rw [hledger, hall]
        exact ⟨Ledger.Before.refl all, fun _ => rfl⟩
    · exact hinv.written i d snap hio

/-- A section that takes effect: the next call of the serial order. -/
theorem QuotaInv.commit (hinv : QuotaInv contentOf start log all w)
    (hcall : w.calls[c]? = some call) (hphase : call.phase = .synced) {nowMs : ℤ}
    {st : MbfPartitionStore} {touched : List TouchedEntity} {reply : Reply}
    (hcommit : call.op.commit (w.insts call.inst).store nowMs = .changed st touched reply)
    (hguard : QuotaGuard w (.call c (.commit nowMs))) :
    ∃ all', QuotaInv contentOf start (log ++ [c]) all'
      (w.advance c call (w.object, .committed touched reply,
        { w.insts call.inst with store := st })) := by
  obtain ⟨hquota, hcurrent⟩ := hguard call hcall
  obtain ⟨hstep, heffect⟩ := commit_serialStep hquota hcommit
  obtain ⟨hcopy, hothers⟩ := hcurrent (by rw [hstep]; rfl)
  have hlone : ∀ d i, w.Pending d i → i = call.inst := by
    rintro d i ⟨other, hd, rfl, hp⟩
    by_contra hne
    simp [hothers other (List.mem_of_getElem? hd) hne] at hp
  -- the store holds the whole serial run so far
  have hall : (w.insts call.inst).store.ledger = all := by
    by_cases hpending : ∃ d, w.Pending d call.inst
    · obtain ⟨d, hd⟩ := hpending
      exact (hinv.dirty d call.inst hd).2
    · have hnone : ∀ d i, ¬ w.Pending d i := fun d i hd => hpending ⟨d, hlone d i hd ▸ hd⟩
      rw [hinv.clean call.inst fun d => hnone d call.inst, hcopy, hinv.settled hnone]
  have hexchange := StoreOp.commit_exchange hcommit
  have hnot : ∀ i, ¬ w.Pending c i := by
    rintro i ⟨other, hd, _, hp⟩
    obtain rfl := Option.some.inj (hcall.symm.trans hd)
    simp [hphase, Phase.isPending] at hp
  have hfresh : c ∉ log := by
    rw [hinv.mem]
    simp [World.effectAt, hcall, Call.effect?, hphase, Phase.reply?]
  rw [hall] at hstep
  generalize hr : (w.object, Phase.committed touched reply,
    ({ w.insts call.inst with store := st } : Instance)) = r
  have hpend (d : ℕ) (j : ι) : (w.advance c call r).Pending d j ↔
      w.Pending d j ∨ d = c ∧ j = call.inst := by
    subst hr
    rw [pending_advance hcall]
    split_ifs with hd
    · subst hd
      simp [hnot j, Phase.isPending, eq_comm]
    · simp [hd]
  have heff (d : ℕ) : (w.advance c call r).effectAt d =
      if d = c then some (call.op, reply) else w.effectAt d := by
    subst hr
    rw [effectAt_advance hcall]
    simp [Call.effect?, Phase.reply?, heffect]
  have hinst (i : ι) : (w.advance c call r).insts i =
      if i = call.inst then { w.insts call.inst with store := st } else w.insts i := by
    subst hr
    exact insts_advance i
  have hobj : (w.advance c call r).object = w.object := by
    subst hr
    rfl
  refine ⟨st.ledger, ?_, ?_, ?_, ?_, ?_, ?_, ?_, ?_, ?_, ?_, ?_⟩
  · intro i
    rw [hobj, hinst]
    split_ifs
    · exact (hinv.exchanged call.inst).withStore hexchange.epochId hexchange.lastS3Etag
    · exact hinv.exchanged i
  · intro i d snap hio
    rw [hinst] at hio
    rw [hpend]
    split_ifs at hio with hi
    · exact Or.inl (hi ▸ hinv.linked _ d snap hio)
    · exact Or.inl (hinv.linked i d snap hio)
  · rw [List.nodup_append]
    refine ⟨hinv.nodup, by simp, ?_⟩
    rintro a ha b hb rfl
    rw [List.mem_singleton.mp hb] at ha
    exact hfresh ha
  · intro d
    rw [heff, List.mem_append, List.mem_singleton, hinv.mem]
    split_ifs with hd <;> simp [hd]
  · have hsame : log.filterMap (w.advance c call r).effectAt = log.filterMap w.effectAt := by
      apply List.filterMap_congr
      intro d hd
      have hne : d ≠ c := by
        rintro rfl
        exact hfresh hd
      rw [heff, if_neg hne]
    rw [List.filterMap_append, hsame, List.filterMap_cons_some (heff c ▸ if_pos rfl),
      List.filterMap_nil]
    exact Ledger.serialRun_concat hinv.serial hstep
  · rw [hobj]
    exact hinv.reached.trans (Ledger.serialStep_before hstep)
  · intro d i hd
    rw [hobj, hinst]
    obtain rfl : i = call.inst := by
      rcases (hpend d i).mp hd with hd | ⟨_, hi⟩
      · exact hlone d i hd
      · exact hi
    rw [if_pos rfl]
    exact ⟨(copyEtag_withStore hexchange.lastS3Etag).trans hcopy, rfl⟩
  · intro d e i j hd he
    have hone (d : ℕ) (i : ι) (hd : (w.advance c call r).Pending d i) : i = call.inst := by
      rcases (hpend d i).mp hd with hd | ⟨_, hi⟩
      · exact hlone d i hd
      · exact hi
    rw [hone d i hd, hone e j he]
  · intro i hclean
    have hi : i ≠ call.inst := fun hi => hclean c ((hpend c i).mpr (Or.inr ⟨rfl, hi⟩))
    rw [hinst, if_neg hi]
    exact hinv.clean i fun d hd => hclean d ((hpend d i).mpr (Or.inl hd))
  · intro hnone
    exact absurd ((hpend c call.inst).mpr (Or.inr ⟨rfl, rfl⟩)) (hnone c call.inst)
  · intro i d snap hio
    have hio' : (w.insts i).io = .serialized d snap := by
      rw [hinst] at hio
      split_ifs at hio with hi
      · exact hi ▸ hio
      · exact hio
    have hd := hinv.linked i d snap hio'
    obtain rfl := hlone d i hd
    refine ⟨(hinv.written _ d snap hio').1.trans (Ledger.serialStep_before hstep), ?_⟩
    intro honly
    have hcd := honly c ((hpend c call.inst).mpr (Or.inr ⟨rfl, rfl⟩))
    exact absurd (hcd ▸ hd) (hnot call.inst)

/-- The PUT of a call: what it serialised becomes the object. -/
theorem QuotaInv.put (hinv : QuotaInv contentOf start log all w)
    (hcall : w.calls[c]? = some call) {etag : String} {reply : Reply}
    (hphase : call.phase = .exchanging reply)
    (hio : (w.insts call.inst).io = .serialized c (contentOf etag)) :
    QuotaInv contentOf start log all (w.advance c call (some etag, .stored reply,
      { w.insts call.inst with io := .stored c etag })) := by
  have hmine : w.Pending c call.inst :=
    (pending_iff hcall _).mpr ⟨rfl, by simp [hphase, Phase.isPending]⟩
  obtain ⟨hcopy, hall⟩ := hinv.dirty c call.inst hmine
  obtain ⟨hbefore, hwhole⟩ := hinv.written call.inst c _ hio
  have hepoch := (hinv.exchanged call.inst).epoch
  simp only [EpochOk, hio] at hepoch
  have hknown : (w.insts call.inst).store.lastS3Etag = w.object := by
    simpa only [Instance.copyEtag, hio] using hcopy
  have holder : Older contentOf w.object (some etag) := by
    rw [← hknown]
    exact Or.inr (Or.inr hepoch.2)
  have hother (d : ℕ) (i : ι) (hd : w.Pending d i) : i = call.inst :=
    hinv.exclusive d c i call.inst hd hmine
  generalize hr : (some etag, Phase.stored reply,
    ({ w.insts call.inst with io := .stored c etag } : Instance)) = r
  have hpend (d : ℕ) (j : ι) : (w.advance c call r).Pending d j ↔ d ≠ c ∧ w.Pending d j := by
    subst hr
    rw [pending_advance hcall]
    split_ifs with hd
    · simp [hd, Phase.isPending]
    · simp [hd]
  have heff : (w.advance c call r).effectAt = w.effectAt := by
    subst hr
    funext d
    rw [effectAt_advance hcall]
    split_ifs with hd
    · simp [hd, World.effectAt, hcall, Call.effect?, hphase, Phase.reply?]
    · rfl
  have hinst (i : ι) : (w.advance c call r).insts i =
      if i = call.inst then { w.insts call.inst with io := .stored c etag } else w.insts i := by
    subst hr
    exact insts_advance i
  have hobj : (w.advance c call r).object = some etag := by
    subst hr
    rfl
  refine ⟨?_, ?_, hinv.nodup, ?_, ?_, ?_, ?_, ?_, ?_, ?_, ?_⟩
  · intro i
    rw [hobj, hinst]
    split_ifs
    · exact ⟨Older.refl _, hepoch.1, trivial⟩
    · exact (hinv.exchanged i).mono holder
  · intro i d snap hserialized
    rw [hinst] at hserialized
    split_ifs at hserialized with hi
    exact absurd (hother d i (hinv.linked i d snap hserialized)) hi
  · rw [heff]
    exact hinv.mem
  · rw [heff]
    exact hinv.serial
  · rw [hobj]
    exact hbefore
  · intro d i hd
    obtain rfl := hother d i ((hpend d i).mp hd).2
    rw [hobj, hinst, if_pos rfl]
    exact ⟨rfl, hall⟩
  · intro d e i j hd he
    exact hinv.exclusive d e i j ((hpend d i).mp hd).2 ((hpend e j).mp he).2
  · intro i hclean
    rw [hinst]
    have honly (d : ℕ) (hd : w.Pending d i) : d = c := by
      by_contra hne
      exact hclean d ((hpend d i).mpr ⟨hne, hd⟩)
    split_ifs with hi
    · subst hi
      exact hall.trans (hwhole honly).symm
    · refine hinv.clean i fun d hd => hi (hother d i hd)
  · intro hnone
    rw [hobj]
    apply hwhole
    intro d hd
    by_contra hne
    exact hnone d call.inst ((hpend d _).mpr ⟨hne, hd⟩)
  · intro i d snap hserialized
    rw [hinst] at hserialized
    split_ifs at hserialized with hi
    exact absurd (hother d i (hinv.linked i d snap hserialized)) hi

/-- A guarded step of a call. -/
theorem QuotaInv.moved (hinv : QuotaInv contentOf start log all w)
    (hcall : w.calls[c]? = some call) {s : CallStep} (hguard : QuotaGuard w (.call c s))
    (hmoved : call.Moved contentOf w.object c (w.insts call.inst) s r) :
    ∃ log' all', QuotaInv contentOf start log' all' (w.advance c call r) := by
  have hex := hinv.exchanged call.inst
  cases hmoved with
  | skipped hphase hread hs =>
    exact ⟨log, all, hinv.quiet hcall rfl (by simp [hphase, Phase.isPending])
      (by simp [Call.effect?, hphase, Phase.reply?]) hex (Or.inl ⟨rfl, rfl⟩)
      fun d snap h => Or.inl h⟩
  | syncGet hphase hio =>
    obtain ⟨hcopy, holder, hepoch⟩ := hex.copied (by simp [hio]) (by simp [hio])
    exact ⟨log, all, hinv.quiet hcall rfl (by simp [hphase, Phase.isPending])
      (by simp [Call.effect?, hphase, Phase.reply?])
      ⟨holder, hepoch, condOlder_conditionalGet holder⟩ (Or.inl ⟨rfl, hcopy.symm⟩)
      fun d snap h => by cases h⟩
  | @syncApply nowMs cond hphase hio =>
    obtain ⟨hcopy, holder, hepoch⟩ := hex.copied (by simp [hio]) (by simp [hio])
    have hcond := hex.cond
    simp only [CondOk, hio] at hcond
    obtain ⟨holder', hepoch', hstore⟩ := hinv.merge nowMs hcopy holder hepoch hcond rfl
    exact ⟨log, all, hinv.quiet hcall rfl (by simp [hphase, Phase.isPending])
      (by simp [Call.effect?, hphase, Phase.reply?]) ⟨holder', hepoch', trivial⟩ hstore
      fun d snap h => by cases h⟩
  | @answered nowMs result hphase hcommit =>
    have hnone : ({ call with phase := .returned result } : Call ι).effect? = none := by
      cases result with
      | error e => rfl
      | ok reply => simp [Call.effect?, Phase.reply?, tookEffect_answered hcommit]
    exact ⟨log, all, hinv.quiet hcall rfl (by simp [hphase, Phase.isPending])
      (by rw [hnone]; simp [Call.effect?, hphase, Phase.reply?]) hex (Or.inl ⟨rfl, rfl⟩)
      fun d snap h => Or.inl h⟩
  | changed hphase hcommit =>
    obtain ⟨all', hinv'⟩ := hinv.commit hcall hphase hcommit hguard
    exact ⟨_, all', hinv'⟩
  | markDirty hphase =>
    exact ⟨log, all, hinv.quiet hcall rfl (by simp [hphase, Phase.isPending])
      (by simp [Call.effect?, hphase, Phase.reply?]) (hex.withStore rfl rfl)
      (Or.inl ⟨rfl, copyEtag_withStore rfl⟩) fun d snap h => Or.inl h⟩
  | flushGet hphase hio =>
    obtain ⟨hcopy, holder, hepoch⟩ := hex.copied (by simp [hio]) (by simp [hio])
    exact ⟨log, all, hinv.quiet hcall rfl (by simp [hphase, Phase.isPending])
      (by simp [Call.effect?, hphase, Phase.reply?])
      ⟨holder, hepoch, condOlder_conditionalGet holder⟩ (Or.inl ⟨rfl, hcopy.symm⟩)
      fun d snap h => by cases h⟩
  | @flushApply nowMs cond reply hphase hio =>
    obtain ⟨hcopy, holder, hepoch⟩ := hex.copied (by simp [hio]) (by simp [hio])
    have hcond := hex.cond
    simp only [CondOk, hio] at hcond
    obtain ⟨holder', hepoch', hstore⟩ := hinv.merge nowMs hcopy holder hepoch hcond rfl
    exact ⟨log, all, hinv.quiet hcall rfl (by simp [hphase, Phase.isPending])
      (by simp [Call.effect?, hphase, Phase.reply?]) ⟨holder', hepoch', trivial⟩ hstore
      fun d snap h => by cases h⟩
  | @serialize reply hphase hio =>
    obtain ⟨hcopy, holder, hepoch⟩ := hex.copied (by simp [hio]) (by simp [hio])
    have hmine : w.Pending c call.inst :=
      (pending_iff hcall _).mpr ⟨rfl, by simp [hphase, Phase.isPending]⟩
    obtain ⟨hcurrent, hall⟩ := hinv.dirty c call.inst hmine
    have hwrap : (w.insts call.inst).store.serializeFlushArtifacts.2.epochId =
        (w.insts call.inst).store.epochId + 1 := Nat.mod_eq_of_lt (hguard call hcall)
    have hledger : (w.insts call.inst).store.serializeFlushArtifacts.2.ledger =
        (w.insts call.inst).store.ledger := toWireSnapshot_ledger _
    have hepochOk : EpochOk contentOf ⟨(w.insts call.inst).store.serializeFlushArtifacts.1,
        .serialized c (w.insts call.inst).store.serializeFlushArtifacts.2⟩ := by
      refine ⟨rfl, ?_, ?_⟩
      · rw [hwrap, hepoch]
        exact Nat.lt_succ_self _
      · rw [hledger, hall]
        exact holder.before.trans hinv.reached
    exact ⟨log, all, hinv.quiet hcall rfl (by simp [hphase, Phase.isPending])
      (by simp [Call.effect?, hphase, Phase.reply?]) ⟨holder, hepochOk, trivial⟩
      (Or.inl ⟨rfl, hcopy.symm⟩) fun d snap h => by
        cases h
        exact Or.inr ⟨rfl, by simp [hphase, Phase.isPending], hledger⟩⟩
  | @put etag reply hphase hio => exact ⟨log, all, hinv.put hcall hphase hio⟩
  | @finish nowMs etag reply hphase hio =>
    have holder := hex.older
    have hepoch := hex.epoch
    simp only [Instance.copyEtag, hio] at holder
    simp only [EpochOk, Instance.copyEtag, hio] at hepoch
    exact ⟨log, all, hinv.quiet hcall rfl (by simp [hphase, Phase.isPending])
      (by simp [Call.effect?, hphase, Phase.reply?]) ⟨holder, hepoch, trivial⟩
      (Or.inl ⟨rfl, by simp only [Instance.copyEtag, hio]; rfl⟩) fun d snap h => by cases h⟩

/-- A new call took no effect yet. -/
theorem QuotaInv.started (hinv : QuotaInv contentOf start log all w) {i : ι} {op : StoreOp}
    (hstep : w.step contentOf (.start i op) = some w') : QuotaInv contentOf start log all w' := by
  cases hstep
  have hcalls (c : ℕ) : (w.calls ++ [Call.start i op])[c]? =
      if c = w.calls.length then some (Call.start i op) else w.calls[c]? := by
    split_ifs with hc
    · rw [hc, List.getElem?_concat_length]
    · rcases lt_or_gt_of_ne hc with hlt | hgt
      · exact List.getElem?_append_left hlt
      · rw [List.getElem?_eq_none hgt.le, List.getElem?_eq_none (by simp; omega)]
  have heff : World.effectAt { w with calls := w.calls ++ [Call.start i op] } = w.effectAt := by
    funext c
    unfold World.effectAt
    rw [hcalls]
    split_ifs with hc
    · rw [hc, List.getElem?_eq_none le_rfl]
      simp only [Call.start, Call.effect?, Option.bind_some, Option.bind_none]
      -- a batch call is no quota call
      cases op with
      | transactWrite batch => split_ifs <;> rfl
      | batchWriteItem writeRequests => split_ifs <;> rfl
      | _ => rfl
    · rfl
  have hpend : World.Pending { w with calls := w.calls ++ [Call.start i op] } = w.Pending := by
    funext c j
    unfold World.Pending
    rw [hcalls]
    split_ifs with hc
    · rw [hc, List.getElem?_eq_none le_rfl]
      simp only [Call.start, Option.some.injEq, exists_eq_left', reduceCtorEq, false_and,
        exists_false, eq_iff_iff, iff_false, not_and]
      intro _
      split_ifs <;> simp [Phase.isPending]
    · rfl
  constructor
  · exact hinv.exchanged
  · rw [hpend]
    exact hinv.linked
  · exact hinv.nodup
  · rw [heff]
    exact hinv.mem
  · rw [heff]
    exact hinv.serial
  · exact hinv.reached
  · rw [hpend]
    exact hinv.dirty
  · rw [hpend]
    exact hinv.exclusive
  · rw [hpend]
    exact hinv.clean
  · rw [hpend]
    exact hinv.settled
  · rw [hpend]
    exact hinv.written

theorem QuotaInv.step (hinv : QuotaInv contentOf start log all w) {a : ClusterAction ι}
    (hguard : QuotaGuard w a) (hstep : w.step contentOf a = some w') :
    ∃ log' all', QuotaInv contentOf start log' all' w' := by
  cases a with
  | start i op => exact ⟨log, all, hinv.started hstep⟩
  | call c s =>
    obtain ⟨call, r, hcall, hmoved, rfl⟩ := World.moved_of_step hstep
    exact hinv.moved hcall hguard hmoved

end Preservation

section Runs
variable {contentOf}

theorem quotaInv_initial (object : Option String) :
    QuotaInv contentOf (objectLedger contentOf object) [] (objectLedger contentOf object)
      (initialWorld object : World ι) := by
  have hpend : ∀ c i, ¬ (initialWorld object : World ι).Pending c i := by
    rintro c i ⟨call, hcall, _⟩
    simp [initialWorld] at hcall
  constructor
  · intro i
    exact ⟨Or.inl rfl, rfl, trivial⟩
  · intro i c snap hio
    cases hio
  · exact List.nodup_nil
  · intro c
    simp [World.effectAt, initialWorld]
  · rfl
  · exact Ledger.Before.refl _
  · intro c i hc
    exact absurd hc (hpend c i)
  · intro c d i j hc
    exact absurd hc (hpend c i)
  · intro i _
    rfl
  · intro _
    rfl
  · intro i c snap hio
    cases hio

/-- No call is between its section and its PUT. -/
def World.allFlushed (w : World ι) : Bool := w.calls.all fun call => !call.phase.isPending

/-- The idempotence key that call `c` settled. -/
def World.settledAt (w : World ι) (c : ℕ) : Option QuotaKey :=
  (w.effectAt c).bind Ledger.settledKey

/-- The object holds what some serial order makes of the calls that took effect. -/
def World.Serialized (contentOf : String → MbfPartitionWireSnapshot) (object : Option String)
    (w : World ι) : Prop :=
  ∃ order : List ℕ, order.Nodup ∧ (∀ c, c ∈ order ↔ (w.effectAt c).isSome = true) ∧
    (objectLedger contentOf object).serialRun (order.filterMap w.effectAt) =
      some (objectLedger contentOf w.object)

/-- No idempotence key is settled by two calls. -/
def World.SettledOnce (w : World ι) : Prop :=
  ∀ c d k, w.settledAt c = some k → w.settledAt d = some k → c = d

theorem QuotaInv.settledOnce {start all : Ledger} {log : List ℕ} {w : World ι}
    (hinv : QuotaInv contentOf start log all w) : w.SettledOnce := by
  intro c d k hc hd
  have hmem (c : ℕ) (hc : w.settledAt c = some k) : c ∈ log := by
    obtain ⟨e, he, _⟩ := Option.bind_eq_some_iff.mp hc
    rw [hinv.mem, he]
    rfl
  -- the keys settled along the serial order are pairwise distinct
  have hnodup := (Ledger.serialRun_idem hinv.serial).1
  rw [List.filterMap_filterMap] at hnodup
  have hpairs : log.Pairwise fun c d => ∀ k, w.settledAt c = some k →
      ∀ k', w.settledAt d = some k' → k ≠ k' := List.pairwise_filterMap.mp hnodup
  have hsymm : Std.Symm fun c d => ∀ k, w.settledAt c = some k →
      ∀ k', w.settledAt d = some k' → k ≠ k' :=
    ⟨fun c d h k hk k' hk' => (h k' hk' k hk).symm⟩
  by_contra hne
  exact hpairs.forall (hmem c hc) (hmem d hd) hne k hc k hd rfl

variable [DecidableEq ι]

theorem quotaInv_of_run {object : Option String} {w : World ι}
    (hrun : Run (World.step contentOf) QuotaGuard (initialWorld object) w) :
    ∃ log all, QuotaInv contentOf (objectLedger contentOf object) log all w := by
  apply Run.invariant (I := fun w => ∃ log all,
    QuotaInv contentOf (objectLedger contentOf object) log all w) _ hrun
  · exact ⟨_, _, quotaInv_initial object⟩
  · rintro s a t ⟨log, all, hinv⟩ hguard hstep
    exact hinv.step hguard hstep

/-- In runs that keep to the guard, once no PUT is ahead the object is the result of
all quota calls that took effect, each once, and no idempotence key was settled twice. -/
theorem quotas_serialize {object : Option String} {w : World ι}
    (hrun : Run (World.step contentOf) QuotaGuard (initialWorld object) w) :
    (w.allFlushed = true → w.Serialized contentOf object) ∧ w.SettledOnce := by
  obtain ⟨log, all, hinv⟩ := quotaInv_of_run hrun
  refine ⟨?_, hinv.settledOnce⟩
  intro hflushed
  refine ⟨log, hinv.nodup, hinv.mem, ?_⟩
  rw [hinv.settled]
  · exact hinv.serial
  · rintro c i ⟨call, hcall, _, hp⟩
    have hdone := List.all_eq_true.mp hflushed call (List.mem_of_getElem? hcall)
    simp [hp] at hdone

end Runs

/-! ### Two instances that debit or settle at once -/

def debitOp : StoreOp := .quotaTryDebit "t" "q" 5 100 0

def refundOp : StoreOp := .quotaSettleOnce "t" "q" 5 "job"

/-- Both instances look before either has flushed. -/
def racing (op : StoreOp) : List (ClusterAction Bool) :=
  [.start false op, .start true op] ++ syncSteps 0 10 ++ syncSteps 1 11 ++
    [.call 0 (.commit 12), .call 1 (.commit 13)] ++ flushSteps 0 14 "e1" ++ flushSteps 1 15 "e2"

/-- The object after the first flush and after the second of two debits. -/
def debitContent (etag : String) : MbfPartitionWireSnapshot :=
  ⟨if etag = "e1" then 1 else 2, [], [(toLex ("t", "q"), 5)], []⟩

/-- The same for two settlements. -/
def refundContent (etag : String) : MbfPartitionWireSnapshot :=
  { debitContent etag with quotaIdem := [(toLex ("t", "job"), "q", 5)] }

/-- Two calls with one effect `e` do not serialise when `e` cannot come twice. -/
theorem not_serialized_of_effects {contentOf : String → MbfPartitionWireSnapshot}
    {object : Option String} {w : World Bool} {e : StoreOp × Reply}
    (heffects : w.calls.map Call.effect? = [some e, some e])
    (htwice : (objectLedger contentOf object).serialRun [e, e] = none) :
    ¬ w.Serialized contentOf object := by
  rintro ⟨order, hnodup, hmem, hserial⟩
  have heff (c : ℕ) : w.effectAt c = if c < 2 then some e else none := by
    have hget : w.effectAt c = ((w.calls.map Call.effect?)[c]?).join := by
      rw [List.getElem?_map]
      unfold World.effectAt
      cases w.calls[c]? <;> rfl
    rw [hget, heffects]
    match c with
    | 0 => rfl
    | 1 => rfl
    | c + 2 => simp
  have hperm : order.Perm [0, 1] := by
    apply (List.perm_ext_iff_of_nodup hnodup (by decide)).mpr
    intro c
    rw [hmem, heff]
    split_ifs with hc <;> simp <;> omega
  have hrun : order.filterMap w.effectAt = [e, e] := by
    have hpair := hperm.filterMap w.effectAt
    rw [List.filterMap_cons_some (heff 0), List.filterMap_cons_some (heff 1),
      List.filterMap_nil] at hpair
    exact (List.perm_replicate (n := 2)).mp hpair
  rw [hrun, htwice] at hserial
  cases hserial

theorem racing_quotas_collide :
    (∃ w : World Bool, Run (World.step debitContent) (fun _ _ => True) (initialWorld none) w ∧
      w.allFlushed = true ∧ w.calls.map Call.effect? =
        [some (debitOp, .debited true 5), some (debitOp, .debited true 5)] ∧
      (objectLedger debitContent w.object).counters.lookup (toLex ("t", "q")) = some 5 ∧
      ¬ w.Serialized debitContent none) ∧
    ∃ w : World Bool, Run (World.step refundContent) (fun _ _ => True) (initialWorld none) w ∧
      w.allFlushed = true ∧ ¬ w.SettledOnce := by
  constructor
  · have hrun : (exec (World.step debitContent) (fun _ _ => True) (initialWorld none)
        (racing debitOp)).any (fun w => decide (w.allFlushed = true ∧ w.calls.map Call.effect? =
          [some (debitOp, .debited true 5), some (debitOp, .debited true 5)] ∧
        (objectLedger debitContent w.object).counters.lookup (toLex ("t", "q")) = some 5)) =
        true := by decide +kernel
    obtain ⟨w, hw, hp⟩ := exists_run_of_exec hrun
    simp only [decide_eq_true_eq] at hp
    obtain ⟨hflushed, heffects, hcounter⟩ := hp
    exact ⟨w, hw, hflushed, heffects, hcounter, not_serialized_of_effects heffects (by decide)⟩
  · have hrun : (exec (World.step refundContent) (fun _ _ => True) (initialWorld none)
        (racing refundOp)).any (fun w => decide (w.allFlushed = true ∧
          w.settledAt 0 = some (toLex ("t", "job")) ∧ w.settledAt 1 = w.settledAt 0)) =
        true := by decide +kernel
    obtain ⟨w, hw, hp⟩ := exists_run_of_exec hrun
    simp only [decide_eq_true_eq] at hp
    obtain ⟨hflushed, hfirst, hsecond⟩ := hp
    refine ⟨w, hw, hflushed, ?_⟩
    intro honce
    exact absurd (honce 0 1 _ hfirst (hsecond.trans hfirst)) (by decide)

/-- The second instance looks after the first has flushed. -/
def ledgerContent (etag : String) : MbfPartitionWireSnapshot :=
  if etag = "e1" then ⟨1, [], [(toLex ("t", "q"), 5)], []⟩
  else ⟨2, [], [(toLex ("t", "q"), 10)], [(toLex ("t", "job"), "q", 5)]⟩

def orderedQuotas : List (ClusterAction Bool) :=
  [.start false debitOp] ++ syncSteps 0 10 ++ [.call 0 (.commit 12)] ++ flushSteps 0 14 "e1" ++
    [.start true refundOp] ++ syncSteps 1 15 ++ [.call 1 (.commit 16)] ++ flushSteps 1 17 "e2"

theorem ordered_quotas_serialize :
    ∃ w : World Bool, exec (World.step ledgerContent) QuotaGuard (initialWorld none)
        orderedQuotas = some w ∧ w.allFlushed = true ∧ w.Serialized ledgerContent none ∧
      w.SettledOnce := by
  have hflushed : (exec (World.step ledgerContent) QuotaGuard (initialWorld none)
      orderedQuotas).any World.allFlushed = true := by decide +kernel
  obtain ⟨w, hw, hall⟩ := (Option.any_eq_true _ _).mp hflushed
  obtain ⟨hserial, honce⟩ := quotas_serialize (run_of_exec hw)
  exact ⟨w, hw, hall, hserial hall, honce⟩

end MetriEngine.Cluster

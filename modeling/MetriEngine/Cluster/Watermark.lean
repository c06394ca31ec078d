import MetriEngine.Cluster.Instances

/-!
# Watermarks of one key across instances

A gauge reads the item under one key as a level of a linear order, such that a
merge never lowers the level of either side. Some calls commit a value above the
level they find and raise the level to it: a claim that finds its key free, an
increment that takes the next number. When such calls commit on a copy that is
not behind the shared object, and no PUT lowers the object, their values differ
and the object reaches each value whose call returned.
-/
namespace MetriEngine.Cluster
open Foundation Storage

/-! ### Gauges -/

/-- A reading of the item under `key`. Of two readable items a merge keeps one
that reads no lower than the other. -/
structure Gauge (L : Type) [LinearOrder L] where
  key : PrimaryKey
  read : Option Item → L
  Readable : Item → Prop
  bot_le : ∀ item, read none ≤ read (some item)
  merge_le : ∀ newer localItem remoteItem, Readable localItem → Readable remoteItem →
    if MbfPartitionStore.takesRemote newer (some localItem) remoteItem
    then read (some localItem) ≤ read (some remoteItem)
    else read (some remoteItem) ≤ read (some localItem)

namespace Gauge
variable {L : Type} [LinearOrder L] (g : Gauge L)

def ofStore (st : MbfPartitionStore) : L := g.read (st.items.lookup g.key)

def ofSnapshot (snap : MbfPartitionWireSnapshot) : L := g.read (snap.itemAt g.key)

def ofObject (contentOf : String → MbfPartitionWireSnapshot) (object : Option String) : L :=
  match object with
  | none => g.read none
  | some etag => g.ofSnapshot (contentOf etag)

def StoreOk (st : MbfPartitionStore) : Prop :=
  ∀ item, st.items.lookup g.key = some item → g.Readable item

structure SnapshotOk (snap : MbfPartitionWireSnapshot) : Prop where
  nodup : (snap.items.map Prod.fst).Nodup
  readable : ∀ item, snap.itemAt g.key = some item → g.Readable item

/-- Trigram postings are not exchanged. -/
def IsLocal : Prop := Text.contains g.key.pk "#FTS#" = true

variable {g} {st : MbfPartitionStore} {snap : MbfPartitionWireSnapshot}

theorem read_none_le (item : Option Item) : g.read none ≤ g.read item := by
  cases item with
  | none => exact le_rfl
  | some item => exact g.bot_le item

theorem StoreOk.congr {st' : MbfPartitionStore} (hok : g.StoreOk st) (h : st'.items = st.items) :
    g.StoreOk st' := by
  unfold StoreOk
  rw [h]
  exact hok

/-- A merge raises the store to the snapshot, unless the key is not exchanged. -/
theorem mergeItems_level (hst : g.StoreOk st) (hsnap : g.SnapshotOk snap) :
    g.StoreOk (st.mergeItems snap) ∧ g.ofStore st ≤ g.ofStore (st.mergeItems snap) ∧
      (¬ g.IsLocal → g.ofSnapshot snap ≤ g.ofStore (st.mergeItems snap)) := by
  have hlookup := @mergeItems_lookup st snap g.key hsnap.nodup
  unfold StoreOk ofStore ofSnapshot IsLocal
  rw [hlookup]
  cases hr : snap.itemAt g.key with
  | none => exact ⟨hst, le_rfl, fun _ => read_none_le _⟩
  | some remoteItem =>
    have hremote := hsnap.readable remoteItem hr
    dsimp only
    split_ifs with hkeep
    · refine ⟨hst, le_rfl, ?_⟩
      intro hexchanged
      have htakes := hkeep.resolve_left hexchanged
      cases hl : st.items.lookup g.key with
      | none => simp [hl, MbfPartitionStore.takesRemote] at htakes
      | some localItem =>
        rw [hl] at htakes
        have hle := g.merge_le (st.remoteIsNewer snap) localItem remoteItem (hst _ hl) hremote
        simpa [htakes] using hle
    · refine ⟨?_, ?_, fun _ => le_rfl⟩
      · intro item hitem
        cases hitem
        exact hremote
      · cases hl : st.items.lookup g.key with
        | none => exact read_none_le _
        | some localItem =>
          have htakes : MbfPartitionStore.takesRemote (st.remoteIsNewer snap) (some localItem)
              remoteItem = true := by
            rw [← hl]
            exact Bool.of_not_eq_false fun hf => hkeep (Or.inr hf)
          have hle := g.merge_le (st.remoteIsNewer snap) localItem remoteItem (hst _ hl) hremote
          simpa [htakes] using hle

theorem toWireSnapshot_ok (hst : g.StoreOk st) : g.SnapshotOk st.toWireSnapshot := by
  refine ⟨toWireSnapshot_nodup st, ?_⟩
  intro item hitem
  rw [toWireSnapshot_itemAt] at hitem
  split_ifs at hitem
  exact hst item hitem

theorem toWireSnapshot_le : g.ofSnapshot st.toWireSnapshot ≤ g.ofStore st := by
  unfold ofSnapshot ofStore
  rw [toWireSnapshot_itemAt]
  split_ifs
  · exact le_rfl
  · exact read_none_le _

/-- A snapshot reads like the store where the item, if any, is persisted. -/
theorem toWireSnapshot_eq
    (h : (st.items.lookup g.key).isSome = true → st.persists g.key = true) :
    g.ofSnapshot st.toWireSnapshot = g.ofStore st := by
  unfold ofSnapshot ofStore
  rw [toWireSnapshot_itemAt]
  split_ifs with hp
  · rfl
  · cases hl : st.items.lookup g.key with
    | none => rfl
    | some item => exact absurd (h (by rw [hl]; rfl)) hp

end Gauge

/-! ### Watermarks -/

/-- A gauge together with the calls that raise it: `marks` tells which they are,
`raises` when their section succeeds, `value` what a reply raised the level to, and
`allows` which sections may run. -/
structure Watermark (L : Type) [LinearOrder L] extends Gauge L where
  marks : StoreOp → Bool
  raises : MbfPartitionStore → StoreOp → Bool
  value : Reply → L
  allows : MbfPartitionStore → StoreOp → Bool
  commit_keeps : ∀ {st op nowMs st' touched reply}, toGauge.StoreOk st → allows st op = true →
    op.commit st nowMs = .changed st' touched reply →
    toGauge.StoreOk st' ∧ toGauge.ofStore st ≤ toGauge.ofStore st'
  commit_marks : ∀ {st op nowMs st' touched reply}, toGauge.StoreOk st → allows st op = true →
    marks op = true → op.commit st nowMs = .changed st' touched reply →
    raises st op = true ∧ toGauge.ofStore st < value reply ∧ value reply ≤ toGauge.ofStore st'
  answered_failed : ∀ {st op nowMs reply}, marks op = true →
    op.commit st nowMs ≠ .answered (.ok reply)
  marks_synced : ∀ {op}, marks op = true → op.returnsAtOnce = false

namespace Watermark
variable {L ι : Type} [LinearOrder L] (m : Watermark L)
  (contentOf : String → MbfPartitionWireSnapshot)

/-- The value that a call raised the level to. -/
def mark (call : Call ι) : Option L :=
  if m.marks call.op then call.phase.reply?.map m.value else none

/-- What the exchange must meet. A section that raises the level runs on a store that is
not behind the object, while no other instance has such a call waiting for its PUT; what
a store holds of the key goes into its snapshots; and a PUT replaces the object its
flush merged, unless it does not lower it. -/
def CallGuard [DecidableEq ι] (w : World ι) (call : Call ι) : CallStep → Prop
  | .commit _ =>
    m.allows (w.insts call.inst).store call.op = true ∧
    (m.raises (w.insts call.inst).store call.op = true →
      (m.ofObject contentOf w.object ≤ m.ofStore (w.insts call.inst).store ∨
        (w.insts call.inst).copyEtag = w.object) ∧
      ∀ other ∈ w.calls, other.inst ≠ call.inst → other.phase.isPending = true →
        m.marks other.op = false)
  | .serialize =>
    ((w.insts call.inst).store.items.lookup m.key).isSome = true →
      (w.insts call.inst).store.persists m.key = true
  | .put etag =>
    m.ofObject contentOf w.object ≤ m.ofSnapshot (contentOf etag) ∨
      (w.insts call.inst).copyEtag = w.object
  | _ => True

def Guard [DecidableEq ι] (w : World ι) : ClusterAction ι → Prop
  | .start _ _ => True
  | .call c s => ∀ call ∈ w.calls[c]?, m.CallGuard contentOf w call s

instance [DecidableEq ι] (w : World ι) (call : Call ι) (s : CallStep) :
    Decidable (m.CallGuard contentOf w call s) := by
  unfold CallGuard
  split <;> infer_instance

instance [DecidableEq ι] (w : World ι) : ∀ a : ClusterAction ι, Decidable (m.Guard contentOf w a)
  | .start _ _ => isTrue trivial
  | .call c s => inferInstanceAs (Decidable (∀ call ∈ w.calls[c]?, m.CallGuard contentOf w call s))

/-! ### The invariant -/

/-- What a GET brought. -/
def CondInv (object known : Option String) : MbfConditionalGet VortexBody → Prop
  | .notModified => True
  | .notFound => known = none
  | .modified payload =>
    object.isSome = true ∧ payload.bytes = some (contentOf payload.etag) ∧
      m.SnapshotOk (contentOf payload.etag)

def IoInv (object : Option String) (inst : Instance) : Prop :=
  match inst.io with
  | .syncing _ _ cond => m.CondInv contentOf object inst.store.lastS3Etag cond
  | .flushing _ _ cond => m.CondInv contentOf object inst.store.lastS3Etag cond
  | .serialized _ snap =>
    m.SnapshotOk snap ∧ m.ofSnapshot snap ≤ m.ofStore inst.store ∧
      (¬ m.IsLocal → ∀ etag, inst.store.lastS3Etag = some etag →
        m.ofSnapshot (contentOf etag) ≤ m.ofSnapshot snap)
  | _ => True

/-- A store that knows an ETag contains the content it names. -/
structure Copied (object known : Option String) (st : MbfPartitionStore) : Prop where
  present : known.isSome = true → object.isSome = true
  contained : ¬ m.IsLocal → ∀ etag, known = some etag →
    m.ofSnapshot (contentOf etag) ≤ m.ofStore st

structure InstanceInv (object : Option String) (inst : Instance) : Prop where
  readable : m.StoreOk inst.store
  copied : m.Copied contentOf object inst.copyEtag inst.store
  io : m.IoInv contentOf object inst

/-- A value whose call is past its PUT is in the object. -/
structure CallInv (object : Option String) (c : ℕ) (call : Call ι) (inst : Instance) (v : L) :
    Prop where
  pos : m.read none < v
  held : v ≤ m.ofStore inst.store
  written : ∀ reply snap, call.phase = .exchanging reply → inst.io = .serialized c snap →
    ¬ m.IsLocal ∧ v ≤ m.ofSnapshot snap
  published : call.phase.isPending = false → ¬ m.IsLocal ∧ v ≤ m.ofObject contentOf object

structure Inv (w : World ι) : Prop where
  object : ∀ etag, w.object = some etag → m.SnapshotOk (contentOf etag)
  insts : ∀ i, m.InstanceInv contentOf w.object (w.insts i)
  calls : ∀ (c : ℕ) (call : Call ι) (v : L), w.calls[c]? = some call → m.mark call = some v →
    m.CallInv contentOf w.object c call (w.insts call.inst) v
  distinct : ∀ (c d : ℕ) (call call' : Call ι) (v : L), c ≠ d → w.calls[c]? = some call →
    w.calls[d]? = some call' → m.mark call = some v → m.mark call' ≠ some v

/-! ### What a step keeps of its instance -/

section Preservation
variable {m contentOf} {object object' known : Option String} {inst inst' : Instance}
  {st st' : MbfPartitionStore} {cond : MbfConditionalGet VortexBody}

theorem condInv_conditionalGet
    (hobject : ∀ etag, object = some etag → m.SnapshotOk (contentOf etag))
    (hknown : known.isSome = true → object.isSome = true) :
    m.CondInv contentOf object known (conditionalGet contentOf object known) := by
  cases object with
  | none => simpa [conditionalGet, CondInv] using hknown
  | some etag =>
    by_cases h : known = some etag
    · simp [conditionalGet, CondInv, h]
    · simpa [conditionalGet, CondInv, h] using hobject etag rfl

theorem CondInv.mono (h : m.CondInv contentOf object known cond)
    (hobject : object.isSome = true → object'.isSome = true) :
    m.CondInv contentOf object' known cond := by
  cases cond with
  | notModified => trivial
  | notFound => exact h
  | modified payload => exact ⟨hobject h.1, h.2⟩

theorem Copied.mono (h : m.Copied contentOf object known st)
    (hobject : object.isSome = true → object'.isSome = true)
    (hlevel : m.ofStore st ≤ m.ofStore st') : m.Copied contentOf object' known st' :=
  ⟨fun hk => hobject (h.present hk), fun hx etag he => (h.contained hx etag he).trans hlevel⟩

/-- The merge of what a GET brought. -/
theorem applyConditionalGet_level (nowMs : ℤ) (hst : m.StoreOk st)
    (hcopied : m.Copied contentOf object st.lastS3Etag st)
    (hcond : m.CondInv contentOf object st.lastS3Etag cond) :
    m.StoreOk (st.applyConditionalGet nowMs cond) ∧
      m.ofStore st ≤ m.ofStore (st.applyConditionalGet nowMs cond) ∧
      m.Copied contentOf object (st.applyConditionalGet nowMs cond).lastS3Etag
        (st.applyConditionalGet nowMs cond) := by
  cases cond with
  | notModified => exact ⟨hst.congr rfl, le_rfl, hcopied.present, hcopied.contained⟩
  | notFound =>
    have hnone : st.lastS3Etag = none := hcond
    simp only [MbfPartitionStore.applyConditionalGet, hnone, Option.isSome_none,
      Bool.false_eq_true, if_false]
    rw [hnone] at hcopied
    exact ⟨hst.congr rfl, le_rfl, hcopied.present, hcopied.contained⟩
  | modified payload =>
    obtain ⟨bytes, etag⟩ := payload
    obtain ⟨hobject, hbytes, hsnap⟩ := hcond
    dsimp only at hbytes hsnap
    subst hbytes
    obtain ⟨hok, hle, hreach⟩ := Gauge.mergeItems_level hst hsnap
    refine ⟨hok.congr rfl, hle, fun _ => hobject, ?_⟩
    intro hx etag' he
    cases he
    exact hreach hx

/-- What one step of a call does to its instance and to the object. -/
structure Progress (m : Watermark L) (contentOf : String → MbfPartitionWireSnapshot)
    (object object' : Option String) (inst inst' : Instance) : Prop where
  inv : m.InstanceInv contentOf object' inst'
  level : m.ofStore inst.store ≤ m.ofStore inst'.store
  readable : ∀ etag, object' = some etag → m.SnapshotOk (contentOf etag)
  stays : object.isSome = true → object'.isSome = true
  reached : ¬ m.IsLocal → m.ofObject contentOf object ≤ m.ofObject contentOf object'

/-- While its copy is the object, a store is not behind the object. -/
theorem InstanceInv.ofObject_le (h : m.InstanceInv contentOf object inst) (hx : ¬ m.IsLocal)
    (hcurrent : inst.copyEtag = object) : m.ofObject contentOf object ≤ m.ofStore inst.store := by
  cases object with
  | none => exact Gauge.read_none_le _
  | some etag => exact h.copied.contained hx etag hcurrent

/-- A step that leaves the object alone. -/
theorem Progress.of_inst (hobject : ∀ etag, object = some etag → m.SnapshotOk (contentOf etag))
    (hinst : m.InstanceInv contentOf object inst')
    (hlevel : m.ofStore inst.store ≤ m.ofStore inst'.store) :
    m.Progress contentOf object object inst inst' :=
  ⟨hinst, hlevel, hobject, id, fun _ => le_rfl⟩

theorem serialize_level (hst : m.StoreOk st)
    (hpersists : (st.items.lookup m.key).isSome = true → st.persists m.key = true) :
    m.SnapshotOk st.serializeFlushArtifacts.2 ∧
      m.ofSnapshot st.serializeFlushArtifacts.2 ≤ m.ofStore st.serializeFlushArtifacts.1 ∧
      m.ofSnapshot st.serializeFlushArtifacts.2 = m.ofStore st :=
  ⟨Gauge.toWireSnapshot_ok (hst.congr rfl), Gauge.toWireSnapshot_le,
    Gauge.toWireSnapshot_eq hpersists⟩

/-- What is persisted is exchanged. -/
theorem not_isLocal_of_lt
    (hpersists : (st.items.lookup m.key).isSome = true → st.persists m.key = true)
    (hlt : m.read none < m.ofStore st) : ¬ m.IsLocal := by
  have hsome : (st.items.lookup m.key).isSome = true := by
    cases hl : st.items.lookup m.key with
    | none => simp [Gauge.ofStore, hl] at hlt
    | some item => rfl
  have hp := hpersists hsome
  simp only [MbfPartitionStore.persists, Bool.and_eq_true, Bool.not_eq_true'] at hp
  simp [Gauge.IsLocal, hp.1]

/-- A section that raises the level keeps its instance. -/
theorem InstanceInv.changed (h : m.InstanceInv contentOf object inst) (hok : m.StoreOk st)
    (hlevel : m.ofStore inst.store ≤ m.ofStore st)
    (hetag : st.lastS3Etag = inst.store.lastS3Etag) :
    m.InstanceInv contentOf object { inst with store := st } := by
  refine ⟨hok, ?_, ?_⟩
  · rw [copyEtag_withStore hetag]
    exact h.copied.mono id hlevel
  · have hio := h.io
    unfold IoInv at hio ⊢
    dsimp only
    rw [hetag]
    cases hi : inst.io with
    | serialized d snap =>
      simp only [hi] at hio ⊢
      exact ⟨hio.1, hio.2.1.trans hlevel, hio.2.2⟩
    | syncing d nowMs cond => simpa [hi] using hio
    | flushing d nowMs cond => simpa [hi] using hio
    | _ => trivial

theorem InstanceInv.object_mono (h : m.InstanceInv contentOf object inst)
    (hobject : object.isSome = true → object'.isSome = true) :
    m.InstanceInv contentOf object' inst := by
  refine ⟨h.readable, h.copied.mono hobject le_rfl, ?_⟩
  have hio := h.io
  unfold IoInv at hio ⊢
  cases hi : inst.io with
  | serialized d snap => simpa [hi] using hio
  | syncing d nowMs cond =>
    simp only [hi] at hio ⊢
    exact hio.mono hobject
  | flushing d nowMs cond =>
    simp only [hi] at hio ⊢
    exact hio.mono hobject
  | _ => trivial

/-- The instance takes the lock and sends its GET. -/
theorem InstanceInv.fetching (h : m.InstanceInv contentOf object inst) (hio : inst.io = .idle)
    (hobject : ∀ etag, object = some etag → m.SnapshotOk (contentOf etag)) :
    m.CondInv contentOf object inst.store.lastS3Etag
        (conditionalGet contentOf object inst.store.lastS3Etag) ∧
      m.Copied contentOf object inst.store.lastS3Etag inst.store := by
  have hcopied := h.copied
  simp only [Instance.copyEtag, hio] at hcopied
  exact ⟨condInv_conditionalGet hobject hcopied.present, hcopied⟩

variable [DecidableEq ι]

/-- Every guarded step of a call keeps its instance and raises store and object. -/
theorem Progress.of_moved {w : World ι} {c : ℕ} {call : Call ι} {s : CallStep}
    {r : Option String × Phase × Instance}
    (hobject : ∀ etag, w.object = some etag → m.SnapshotOk (contentOf etag))
    (hinst : m.InstanceInv contentOf w.object (w.insts call.inst))
    (hguard : m.CallGuard contentOf w call s)
    (hmoved : call.Moved contentOf w.object c (w.insts call.inst) s r) :
    m.Progress contentOf w.object r.1 (w.insts call.inst) r.2.2 := by
  cases hmoved with
  | skipped hphase hread => exact .of_inst hobject hinst le_rfl
  | syncGet hphase hio =>
    obtain ⟨hcond, hcopied⟩ := hinst.fetching hio hobject
    exact .of_inst hobject ⟨hinst.readable, hcopied, hcond⟩ le_rfl
  | @syncApply nowMs cond hphase hio =>
    have hcond := hinst.io
    have hcopied := hinst.copied
    simp only [IoInv, hio] at hcond
    simp only [Instance.copyEtag, hio] at hcopied
    obtain ⟨hok, hle, hcopied'⟩ := applyConditionalGet_level nowMs hinst.readable hcopied hcond
    exact .of_inst hobject ⟨hok, hcopied', trivial⟩ hle
  | answered hphase hcommit => exact .of_inst hobject hinst le_rfl
  | @changed nowMs st touched reply hphase hcommit =>
    obtain ⟨hok, hle⟩ := m.commit_keeps hinst.readable hguard.1 hcommit
    exact .of_inst hobject (hinst.changed hok hle (StoreOp.commit_exchange hcommit).lastS3Etag) hle
  | markDirty hphase =>
    exact .of_inst hobject (hinst.changed (hinst.readable.congr rfl) le_rfl rfl) le_rfl
  | flushGet hphase hio =>
    obtain ⟨hcond, hcopied⟩ := hinst.fetching hio hobject
    exact .of_inst hobject ⟨hinst.readable, hcopied, hcond⟩ le_rfl
  | @flushApply nowMs cond reply hphase hio =>
    have hcond := hinst.io
    have hcopied := hinst.copied
    simp only [IoInv, hio] at hcond
    simp only [Instance.copyEtag, hio] at hcopied
    obtain ⟨hok, hle, hcopied'⟩ := applyConditionalGet_level nowMs hinst.readable hcopied hcond
    exact .of_inst hobject ⟨hok, hcopied', trivial⟩ hle
  | serialize hphase hio =>
    have hcopied := hinst.copied
    simp only [Instance.copyEtag, hio] at hcopied
    obtain ⟨hok, hle, heq⟩ := serialize_level hinst.readable hguard
    exact .of_inst hobject ⟨hinst.readable.congr rfl, hcopied.mono id le_rfl, hok, hle,
      fun hx etag he => (hcopied.contained hx etag he).trans heq.ge⟩ le_rfl
  | @put etag reply hphase hio =>
    have hwritten := hinst.io
    simp only [IoInv, hio] at hwritten
    obtain ⟨hok, hle, hknown⟩ := hwritten
    refine ⟨⟨hinst.readable, ⟨fun _ => rfl, ?_⟩, trivial⟩, le_rfl, ?_, fun _ => rfl, ?_⟩
    · intro hx etag' he
      cases he
      exact hle
    · intro etag' he
      cases he
      exact hok
    · intro hx
      rcases hguard with hlevel | hcurrent
      · exact hlevel
      · -- the object that is replaced is the one that the flush merged
        simp only [Instance.copyEtag, hio] at hcurrent
        cases hobj : w.object with
        | none => exact Gauge.read_none_le _
        | some etag' => exact hknown hx etag' (hcurrent.trans hobj)
  | @finish nowMs etag reply hphase hio =>
    have hcopied := hinst.copied
    simp only [Instance.copyEtag, hio] at hcopied
    exact .of_inst hobject ⟨hinst.readable.congr rfl, hcopied.mono id le_rfl, trivial⟩ le_rfl

end Preservation

/-! ### What a step keeps of the calls -/

section Calls
variable {m contentOf} {w w' : World ι}

theorem mark_of_reply {call : Call ι} {phase : Phase} (h : phase.reply? = call.phase.reply?) :
    m.mark { call with phase } = m.mark call := by
  simp only [mark, h]

/-- A section that answers at once sets no mark. -/
theorem mark_answered {call : Call ι} {st : MbfPartitionStore} {nowMs : ℤ}
    {result : Except DomainError Reply} (h : call.op.commit st nowMs = .answered result) :
    m.mark { call with phase := .returned result } = none := by
  cases result with
  | error e => simp [mark, Phase.reply?]
  | ok reply =>
    have hno : m.marks call.op = false :=
      Bool.eq_false_iff.mpr fun hm => m.answered_failed hm h
    simp [mark, hno]

variable {c : ℕ} {call : Call ι} {s : CallStep} {r : Option String × Phase × Instance}

/-- A call that moves with its reply unchanged keeps its mark. -/
theorem CallInv.moved {object object' : Option String} {inst inst' : Instance} {v : L}
    (h : m.CallInv contentOf object c call inst v) {phase : Phase}
    (hlevel : m.ofStore inst.store ≤ m.ofStore inst'.store)
    (hwritten : ∀ reply snap, phase = .exchanging reply → inst'.io = .serialized c snap →
      ¬ m.IsLocal ∧ v ≤ m.ofSnapshot snap)
    (hpublished : phase.isPending = false → ¬ m.IsLocal ∧ v ≤ m.ofObject contentOf object') :
    m.CallInv contentOf object' c { call with phase } inst' v :=
  ⟨h.pos, h.held.trans hlevel, hwritten, hpublished⟩

/-- A call that starts carries no mark. -/
theorem mark_start (i : ι) (op : StoreOp) : m.mark (Call.start i op) = none := by
  unfold mark Call.start
  by_cases hm : m.marks op = true
  · simp [hm, m.marks_synced hm, Phase.reply?]
  · simp [hm]

/-- The object that is there at the start, if any, is the dump of a store that the
gauge can read. -/
def Written (m : Watermark L) (contentOf : String → MbfPartitionWireSnapshot)
    (object : Option String) : Prop :=
  ∀ etag, object = some etag → ∃ st, contentOf etag = st.toWireSnapshot ∧ m.StoreOk st

theorem inv_initial {object : Option String} (hobject : Written m contentOf object) :
    m.Inv contentOf (initialWorld object : World ι) := by
  refine ⟨?_, ?_, ?_, ?_⟩
  · intro etag he
    obtain ⟨st, hst, hok⟩ := hobject etag he
    exact hst ▸ Gauge.toWireSnapshot_ok hok
  · intro i
    refine ⟨?_, ⟨?_, ?_⟩, trivial⟩
    · intro item hitem
      cases hitem
    · intro hknown
      cases hknown
    · intro _ etag hknown
      cases hknown
  · intro c call v hcall
    simp [initialWorld] at hcall
  · intro c d call call' v _ hcall
    simp [initialWorld] at hcall

variable [DecidableEq ι]

/-- Before a section raises the level, the store it runs on has reached every mark. -/
theorem marks_le_of_raise (hinv : m.Inv contentOf w)
    (hguard : (m.ofObject contentOf w.object ≤ m.ofStore (w.insts call.inst).store ∨
        (w.insts call.inst).copyEtag = w.object) ∧
      ∀ other ∈ w.calls, other.inst ≠ call.inst → other.phase.isPending = true →
        m.marks other.op = false)
    {d : ℕ} {other : Call ι} {v : L} (hd : w.calls[d]? = some other)
    (hmark : m.mark other = some v) : v ≤ m.ofStore (w.insts call.inst).store := by
  have hother := hinv.calls d other v hd hmark
  by_cases hi : other.inst = call.inst
  · rw [← hi]
    exact hother.held
  · cases hpending : other.phase.isPending with
    | true =>
      have hnone := hguard.2 other (List.mem_of_getElem? hd) hi hpending
      simp [mark, hnone] at hmark
    | false =>
      obtain ⟨hx, hle⟩ := hother.published hpending
      apply hle.trans
      rcases hguard.1 with hlevel | hcurrent
      · exact hlevel
      · exact (hinv.insts call.inst).ofObject_le hx hcurrent

/-- The call that moves. -/
theorem callInv_of_moved (hinv : m.Inv contentOf w) (hcall : w.calls[c]? = some call)
    (hguard : m.CallGuard contentOf w call s)
    (hmoved : call.Moved contentOf w.object c (w.insts call.inst) s r)
    (hlevel : m.ofStore (w.insts call.inst).store ≤ m.ofStore r.2.2.store) {v : L}
    (hmark : m.mark { call with phase := r.2.1 } = some v) :
    m.CallInv contentOf r.1 c { call with phase := r.2.1 } r.2.2 v := by
  have hold := fun hm : m.mark call = some v => hinv.calls c call v hcall hm
  cases hmoved with
  | skipped hphase hread => simp [mark, Phase.reply?] at hmark
  | syncGet hphase hio => simp [mark, Phase.reply?] at hmark
  | syncApply hphase hio => simp [mark, Phase.reply?] at hmark
  | @answered nowMs result hphase hcommit => simp [mark_answered hcommit] at hmark
  | @changed nowMs st touched reply hphase hcommit =>
    obtain ⟨hm, rfl⟩ : m.marks call.op = true ∧ m.value reply = v := by
      simpa [mark, Phase.reply?] using hmark
    obtain ⟨_, hlt, hle⟩ := m.commit_marks (hinv.insts call.inst).readable hguard.1 hm hcommit
    exact ⟨(Gauge.read_none_le _).trans_lt hlt, hle, by simp, by simp [Phase.isPending]⟩
  | markDirty hphase =>
    rw [mark_of_reply (by simp [hphase, Phase.reply?])] at hmark
    exact (hold hmark).moved hlevel (by simp) (by simp [Phase.isPending])
  | flushGet hphase hio =>
    rw [mark_of_reply (by simp [hphase, Phase.reply?])] at hmark
    exact (hold hmark).moved hlevel (by simp) (by simp [Phase.isPending])
  | flushApply hphase hio =>
    rw [mark_of_reply (by simp [hphase, Phase.reply?])] at hmark
    exact (hold hmark).moved hlevel (by simp) (by simp [Phase.isPending])
  | serialize hphase hio =>
    rw [mark_of_reply (by simp [hphase, Phase.reply?])] at hmark
    obtain ⟨_, _, heq⟩ := serialize_level (hinv.insts call.inst).readable hguard
    refine (hold hmark).moved hlevel ?_ (by simp [Phase.isPending])
    intro reply snap _ hio'
    cases hio'
    exact ⟨not_isLocal_of_lt hguard ((hold hmark).pos.trans_le (hold hmark).held),
      heq ▸ (hold hmark).held⟩
  | @put etag reply hphase hio =>
    rw [mark_of_reply (by simp [hphase, Phase.reply?])] at hmark
    have hwritten := (hold hmark).written reply _ hphase hio
    exact (hold hmark).moved hlevel (by simp) fun _ => hwritten
  | @finish nowMs etag reply hphase hio =>
    rw [mark_of_reply (by simp [hphase, Phase.reply?])] at hmark
    have hpublished := (hold hmark).published (by simp [hphase, Phase.isPending])
    exact (hold hmark).moved hlevel (by simp) fun _ => hpublished

/-- A mark that a step sets is above every mark there is. -/
theorem mark_of_moved (hinv : m.Inv contentOf w) (hguard : m.CallGuard contentOf w call s)
    (hmoved : call.Moved contentOf w.object c (w.insts call.inst) s r) {v : L}
    (hmark : m.mark { call with phase := r.2.1 } = some v) :
    m.mark call = some v ∨
      ∀ (d : ℕ) (other : Call ι), w.calls[d]? = some other → m.mark other ≠ some v := by
  rcases hmoved.reply? with hkeep | ⟨nowMs, rfl, _⟩
  · rw [mark_of_reply hkeep] at hmark
    exact Or.inl hmark
  · right
    cases hmoved with
    | skipped hphase hread => simp [mark, Phase.reply?] at hmark
    | @answered nowMs result hphase hcommit => simp [mark_answered hcommit] at hmark
    | @changed nowMs st touched reply hphase hcommit =>
      obtain ⟨hm, rfl⟩ : m.marks call.op = true ∧ m.value reply = v := by
        simpa [mark, Phase.reply?] using hmark
      obtain ⟨hraises, hlt, _⟩ :=
        m.commit_marks (hinv.insts call.inst).readable hguard.1 hm hcommit
      intro d other hd hother
      exact (marks_le_of_raise hinv (hguard.2 hraises) hd hother).not_gt hlt

/-- The other calls: their instance rose, and so did the object. -/
theorem callInv_of_other (hinv : m.Inv contentOf w)
    (hmoved : call.Moved contentOf w.object c (w.insts call.inst) s r)
    (hprogress : m.Progress contentOf w.object r.1 (w.insts call.inst) r.2.2)
    {d : ℕ} {other : Call ι} {v : L} (hne : c ≠ d) (hd : w.calls[d]? = some other)
    (hmark : m.mark other = some v) :
    m.CallInv contentOf r.1 d other ((w.advance c call r).insts other.inst) v := by
  have hold := hinv.calls d other v hd hmark
  have hpublished : other.phase.isPending = false →
      ¬ m.IsLocal ∧ v ≤ m.ofObject contentOf r.1 := fun hp =>
    ⟨(hold.published hp).1, (hold.published hp).2.trans (hprogress.reached (hold.published hp).1)⟩
  by_cases hi : other.inst = call.inst
  · have hinst : (w.advance c call r).insts other.inst = r.2.2 := by
      simp [World.advance, hi]
    rw [hinst]
    rw [hi] at hold
    refine ⟨hold.pos, hold.held.trans hprogress.level, ?_, hpublished⟩
    intro reply snap hphase hio
    have hio' := hmoved.io_serialized hio
    exact hold.written reply snap hphase (hio'.resolve_left hne)
  · have hinst : (w.advance c call r).insts other.inst = w.insts other.inst := by
      simp [World.advance, hi]
    rw [hinst]
    exact ⟨hold.pos, hold.held, hold.written, hpublished⟩

/-- A guarded step of a call keeps the invariant. -/
theorem Inv.moved (hinv : m.Inv contentOf w) (hcall : w.calls[c]? = some call)
    (hguard : m.CallGuard contentOf w call s)
    (hmoved : call.Moved contentOf w.object c (w.insts call.inst) s r) :
    m.Inv contentOf (w.advance c call r) := by
  have hprogress := Progress.of_moved hinv.object (hinv.insts call.inst) hguard hmoved
  have hget := World.advance_calls (r := r) hcall
  refine ⟨hprogress.readable, ?_, ?_, ?_⟩
  · intro i
    by_cases hi : i = call.inst
    · subst hi
      simpa [World.advance] using hprogress.inv
    · have hold := hinv.insts i
      simpa [World.advance, hi] using hold.object_mono hprogress.stays
  · intro d other v hd hmark
    rw [hget] at hd
    split_ifs at hd with hcd
    · cases hd
      subst hcd
      have hinst : (w.advance c call r).insts call.inst = r.2.2 := by simp [World.advance]
      rw [show ({ call with phase := r.2.1 } : Call ι).inst = call.inst from rfl, hinst]
      exact callInv_of_moved hinv hcall hguard hmoved hprogress.level hmark
    · exact callInv_of_other hinv hmoved hprogress hcd hd hmark
  · intro d e other other' v hne hd he hmark hmark'
    rw [hget] at hd he
    split_ifs at hd he with hcd hce hce
    · exact hne (hcd.symm.trans hce)
    · cases hd
      rcases mark_of_moved hinv hguard hmoved hmark with hold | hfresh
      · exact hinv.distinct c e call other' v hce hcall he hold hmark'
      · exact hfresh e other' he hmark'
    · cases he
      rcases mark_of_moved hinv hguard hmoved hmark' with hold | hfresh
      · exact hinv.distinct c d call other v hcd hcall hd hold hmark
      · exact hfresh d other hd hmark
    · exact hinv.distinct d e other other' v hne hd he hmark hmark'

theorem Inv.start (hinv : m.Inv contentOf w) {i : ι} {op : StoreOp}
    (hstep : w.step contentOf (.start i op) = some w') : m.Inv contentOf w' := by
  have hold : ∀ (d : ℕ) (other : Call ι) (v : L), w'.calls[d]? = some other →
      m.mark other = some v → w.calls[d]? = some other := by
    intro d other v hd hmark
    rcases World.start_calls hstep hd with hd | ⟨_, rfl⟩
    · exact hd
    · rw [mark_start] at hmark
      cases hmark
  have hsame : w'.object = w.object ∧ w'.insts = w.insts := by
    cases hstep
    exact ⟨rfl, rfl⟩
  refine ⟨?_, ?_, ?_, ?_⟩
  · rw [hsame.1]
    exact hinv.object
  · rw [hsame.1, hsame.2]
    exact hinv.insts
  · intro d other v hd hmark
    rw [hsame.1, hsame.2]
    exact hinv.calls d other v (hold d other v hd hmark) hmark
  · intro d e other other' v hne hd he hmark hmark'
    exact hinv.distinct d e other other' v hne (hold d other v hd hmark)
      (hold e other' v he hmark') hmark hmark'

theorem Inv.step (hinv : m.Inv contentOf w) {a : ClusterAction ι}
    (hguard : m.Guard contentOf w a) (hstep : w.step contentOf a = some w') :
    m.Inv contentOf w' := by
  cases a with
  | start i op => exact hinv.start hstep
  | call c s =>
    obtain ⟨call, r, hcall, hmoved, rfl⟩ := World.moved_of_step hstep
    exact hinv.moved hcall (hguard call hcall) hmoved

/-- In every guarded run two calls never carry one mark, and the mark of a call
that returned is in the object. -/
theorem marks_of_run {object : Option String} (hobject : Written m contentOf object)
    (hrun : Run (World.step contentOf) (m.Guard contentOf) (initialWorld object) w) :
    (∀ (c d : ℕ) (call call' : Call ι) (v : L), c ≠ d → w.calls[c]? = some call →
      w.calls[d]? = some call' → m.mark call = some v → m.mark call' ≠ some v) ∧
    (∀ (c : ℕ) (call : Call ι) (v : L), w.calls[c]? = some call → m.mark call = some v →
      call.phase.isPending = false → v ≤ m.ofObject contentOf w.object) := by
  have hinv : m.Inv contentOf w :=
    hrun.invariant (fun _ _ _ hinv hguard hstep => hinv.step hguard hstep) (inv_initial hobject)
  exact ⟨hinv.distinct, fun c call v hcall hmark hp => ((hinv.calls c call v hcall hmark).published hp).2⟩

end Calls
end Watermark
end MetriEngine.Cluster

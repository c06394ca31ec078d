import MetriEngine.Foundation.Transition
import MetriEngine.Storage.Client

/-!
# Engine instances that share one partition object

Every instance keeps its own partition store. A call runs in atomic steps: the
conditional GET of its synchronisation, the merge of what it brought, the section
under the partition lock, and the flush as GET, merge, serialisation and PUT. The
exchange with S3 is under a lock of the instance, the steps of different instances
and the sections of other calls fall anywhere in between.

S3 serves every request: a GET returns the last object written, a PUT replaces it
in one step, and an ETag names one content. No bulk scope is open.
-/
namespace MetriEngine.Cluster
open Foundation Storage

deriving instance DecidableEq for MbfPartitionWireSnapshot

/-! ### S3 -/

section S3
variable (contentOf : String → MbfPartitionWireSnapshot)

/-- S3 names an object by a text without quotes, and sends it between quotes. -/
def IsEtag (etag : String) : Prop := etag ≠ "" ∧ '"' ∉ etag.toList

instance (etag : String) : Decidable (IsEtag etag) := inferInstanceAs (Decidable (_ ∧ _))

def quoted (etag : String) : String := String.ofList ('"' :: etag.toList ++ ['"'])

/-- S3's answer to a GET with `If-None-Match`, on the object it holds. -/
def s3Get (object known : Option String) : S3GetAnswer VortexBody :=
  match object with
  | none => .error (some 404)
  | some etag =>
    if known = some etag then .error (some 304)
    else .ok (some (quoted etag)) (.ok (some (contentOf etag)))

/-- What a conditional GET makes of it. -/
def conditionalGet (object known : Option String) : MbfConditionalGet VortexBody :=
  match object with
  | none => .notFound
  | some etag =>
    if known = some etag then .notModified else .modified ⟨some (contentOf etag), etag⟩

end S3

/-! ### Instances and calls -/

/-- What an instance does under its S3 lock, for which call. -/
inductive IoSection
  | idle
  | syncing (c : ℕ) (nowMs : ℤ) (cond : MbfConditionalGet VortexBody)
  | flushing (c : ℕ) (nowMs : ℤ) (cond : MbfConditionalGet VortexBody)
  | merged (c : ℕ)
  | serialized (c : ℕ) (snap : MbfPartitionWireSnapshot)
  | stored (c : ℕ) (etag : String)

structure Instance where
  store : MbfPartitionStore := {}
  io : IoSection := .idle

/-- Where a call stands: before its synchronisation or with its GET answered; before
its section; with the reply its section gave and the flush ahead, in the exchange
of its flush, or with its PUT done; at its end. -/
inductive Phase
  | syncing
  | fetched
  | synced
  | committed (touched : List TouchedEntity) (reply : Reply)
  | flushing (reply : Reply)
  | exchanging (reply : Reply)
  | stored (reply : Reply)
  | returned (result : Except DomainError Reply)

/-- The reply of a call whose section is done, unless it failed. -/
def Phase.reply? : Phase → Option Reply
  | .committed _ reply => some reply
  | .flushing reply => some reply
  | .exchanging reply => some reply
  | .stored reply => some reply
  | .returned (.ok reply) => some reply
  | _ => none

def Phase.isOk : Phase → Bool
  | .returned (.ok _) => true
  | _ => false

/-- Committed in memory, with the PUT still ahead. -/
def Phase.isPending : Phase → Bool
  | .committed .. => true
  | .flushing _ => true
  | .exchanging _ => true
  | _ => false

/-- The object that the store of an instance is a copy of. -/
def Instance.copyEtag (inst : Instance) : Option String :=
  match inst.io with
  | .stored _ etag => some etag
  | _ => inst.store.lastS3Etag

theorem copyEtag_withStore {inst : Instance} {st : MbfPartitionStore}
    (hetag : st.lastS3Etag = inst.store.lastS3Etag) :
    ({ inst with store := st } : Instance).copyEtag = inst.copyEtag := by
  unfold Instance.copyEtag
  cases inst.io <;> first | rfl | exact hetag

structure Call (ι : Type) where
  inst : ι
  op : StoreOp
  phase : Phase

/-- The ETag of the shared object, the instances, and the calls in the order they
were made. -/
structure World (ι : Type) where
  object : Option String
  insts : ι → Instance
  calls : List (Call ι)

/-- The steps of one call. -/
inductive CallStep
  | skipSync (nowMs : ℤ)
  | syncGet (nowMs : ℤ)
  | syncApply
  | commit (nowMs : ℤ)
  | markDirty
  | flushGet (nowMs : ℤ)
  | flushApply
  | serialize
  | put (etag : String)
  | finish (nowMs : ℤ)

inductive ClusterAction (ι : Type)
  | start (i : ι) (op : StoreOp)
  | call (c : ℕ) (step : CallStep)

/-- The steps of a call up to its section. -/
def syncSteps {ι : Type} (c : ℕ) (nowMs : ℤ) : List (ClusterAction ι) :=
  [.call c (.syncGet nowMs), .call c .syncApply]

/-- The steps of a call from its section on. -/
def flushSteps {ι : Type} (c : ℕ) (nowMs : ℤ) (etag : String) : List (ClusterAction ι) :=
  [.call c .markDirty, .call c (.flushGet nowMs), .call c .flushApply, .call c .serialize,
    .call c (.put etag), .call c (.finish nowMs)]

section Steps
variable {ι : Type} (contentOf : String → MbfPartitionWireSnapshot)

/-- One step of call `c`: the object, the phase and the instance it leaves. -/
def Call.step (object : Option String) (c : ℕ) (call : Call ι) (inst : Instance) :
    CallStep → Option (Option String × Phase × Instance)
  | .skipSync nowMs =>
    match call.phase with
    | .syncing =>
      if !call.op.forcesSync && inst.store.isRecent nowMs then some (object, .synced, inst)
      else none
    | _ => none
  | .syncGet nowMs =>
    match call.phase, inst.io with
    | .syncing, .idle =>
      if !call.op.forcesSync && inst.store.isRecent nowMs then some (object, .synced, inst)
      else some (object, .fetched, { inst with
        io := .syncing c nowMs (conditionalGet contentOf object inst.store.lastS3Etag) })
    | _, _ => none
  | .syncApply =>
    match call.phase, inst.io with
    | .fetched, .syncing d nowMs cond =>
      if d = c then some (object, .synced, ⟨inst.store.applyConditionalGet nowMs cond, .idle⟩)
      else none
    | _, _ => none
  | .commit nowMs =>
    match call.phase with
    | .synced =>
      match call.op.commit inst.store nowMs with
      | .answered result => some (object, .returned result, inst)
      | .changed st touched reply =>
        some (object, .committed touched reply, { inst with store := st })
    | _ => none
  | .markDirty =>
    match call.phase with
    | .committed touched reply =>
      some (object, .flushing reply, { inst with store := inst.store.addDirty touched })
    | _ => none
  | .flushGet nowMs =>
    match call.phase, inst.io with
    | .flushing reply, .idle =>
      some (object, .exchanging reply, { inst with
        io := .flushing c nowMs (conditionalGet contentOf object inst.store.lastS3Etag) })
    | _, _ => none
  | .flushApply =>
    match call.phase, inst.io with
    | .exchanging reply, .flushing d nowMs cond =>
      if d = c then
        some (object, .exchanging reply, ⟨inst.store.applyConditionalGet nowMs cond, .merged c⟩)
      else none
    | _, _ => none
  | .serialize =>
    match call.phase, inst.io with
    | .exchanging reply, .merged d =>
      if d = c then
        let (st, snap) := inst.store.serializeFlushArtifacts
        some (object, .exchanging reply, ⟨st, .serialized c snap⟩)
      else none
    | _, _ => none
  | .put etag =>
    match call.phase, inst.io with
    | .exchanging reply, .serialized d snap =>
      if d = c ∧ IsEtag etag ∧ contentOf etag = snap then
        some (some etag, .stored reply, { inst with io := .stored c etag })
      else none
    | _, _ => none
  | .finish nowMs =>
    match call.phase, inst.io with
    | .stored reply, .stored d etag =>
      if d = c then
        some (object, .returned (.ok reply), ⟨inst.store.recordFlush etag nowMs, .idle⟩)
      else none
    | _, _ => none

/-- What each step needs and what it leads to. -/
inductive Call.Moved (object : Option String) (c : ℕ) (call : Call ι) (inst : Instance) :
    CallStep → Option String × Phase × Instance → Prop
  | skipped {s nowMs} (hphase : call.phase = .syncing) (hread : call.op.forcesSync = false)
      (hs : s = .skipSync nowMs ∨ s = .syncGet nowMs) :
      Moved object c call inst s (object, .synced, inst)
  | syncGet {nowMs} (hphase : call.phase = .syncing) (hio : inst.io = .idle) :
      Moved object c call inst (.syncGet nowMs) (object, .fetched, { inst with
        io := .syncing c nowMs (conditionalGet contentOf object inst.store.lastS3Etag) })
  | syncApply {nowMs cond} (hphase : call.phase = .fetched)
      (hio : inst.io = .syncing c nowMs cond) :
      Moved object c call inst .syncApply
        (object, .synced, ⟨inst.store.applyConditionalGet nowMs cond, .idle⟩)
  | answered {nowMs result} (hphase : call.phase = .synced)
      (hcommit : call.op.commit inst.store nowMs = .answered result) :
      Moved object c call inst (.commit nowMs) (object, .returned result, inst)
  | changed {nowMs st touched reply} (hphase : call.phase = .synced)
      (hcommit : call.op.commit inst.store nowMs = .changed st touched reply) :
      Moved object c call inst (.commit nowMs)
        (object, .committed touched reply, { inst with store := st })
  | markDirty {touched reply} (hphase : call.phase = .committed touched reply) :
      Moved object c call inst .markDirty
        (object, .flushing reply, { inst with store := inst.store.addDirty touched })
  | flushGet {nowMs reply} (hphase : call.phase = .flushing reply) (hio : inst.io = .idle) :
      Moved object c call inst (.flushGet nowMs) (object, .exchanging reply, { inst with
        io := .flushing c nowMs (conditionalGet contentOf object inst.store.lastS3Etag) })
  | flushApply {nowMs cond reply} (hphase : call.phase = .exchanging reply)
      (hio : inst.io = .flushing c nowMs cond) :
      Moved object c call inst .flushApply
        (object, .exchanging reply, ⟨inst.store.applyConditionalGet nowMs cond, .merged c⟩)
  | serialize {reply} (hphase : call.phase = .exchanging reply) (hio : inst.io = .merged c) :
      Moved object c call inst .serialize (object, .exchanging reply,
        ⟨inst.store.serializeFlushArtifacts.1,
          .serialized c inst.store.serializeFlushArtifacts.2⟩)
  | put {etag reply} (hphase : call.phase = .exchanging reply)
      (hio : inst.io = .serialized c (contentOf etag)) :
      Moved object c call inst (.put etag)
        (some etag, .stored reply, { inst with io := .stored c etag })
  | finish {nowMs etag reply} (hphase : call.phase = .stored reply)
      (hio : inst.io = .stored c etag) :
      Moved object c call inst (.finish nowMs)
        (object, .returned (.ok reply), ⟨inst.store.recordFlush etag nowMs, .idle⟩)

/-- The call made by `start`: an empty batch returns at once. -/
def Call.start (i : ι) (op : StoreOp) : Call ι :=
  ⟨i, op, if op.returnsAtOnce then .returned (.ok .unit) else .syncing⟩

variable [DecidableEq ι]

/-- The world after call `c` moved. -/
def World.advance (w : World ι) (c : ℕ) (call : Call ι)
    (r : Option String × Phase × Instance) : World ι where
  object := r.1
  insts := Function.update w.insts call.inst r.2.2
  calls := w.calls.set c { call with phase := r.2.1 }

def World.step (w : World ι) : ClusterAction ι → Option (World ι)
  | .start i op => some { w with calls := w.calls ++ [Call.start i op] }
  | .call c s =>
    (w.calls[c]?).bind fun call =>
      (call.step contentOf w.object c (w.insts call.inst) s).map (w.advance c call)

/-- Fresh instances beside the object that is there. -/
def initialWorld (object : Option String) : World ι where
  object := object
  insts := fun _ => {}
  calls := []

end Steps

/-! ### What a step can do -/

section Moves
variable {ι : Type} {contentOf : String → MbfPartitionWireSnapshot}

theorem Call.moved_of_step {object : Option String} {c : ℕ} {call : Call ι} {inst : Instance}
    {s : CallStep} {r : Option String × Phase × Instance}
    (h : call.step contentOf object c inst s = some r) :
    call.Moved contentOf object c inst s r := by
  cases s with
  | skipSync nowMs =>
    simp only [Call.step] at h
    split at h
    · rename_i hphase
      split_ifs at h with hread
      cases h
      simp only [Bool.and_eq_true, Bool.not_eq_true'] at hread
      exact .skipped hphase hread.1 (Or.inl rfl)
    · cases h
  | syncGet nowMs =>
    simp only [Call.step] at h
    split at h
    · rename_i hphase hio
      split_ifs at h with hread
      · cases h
        simp only [Bool.and_eq_true, Bool.not_eq_true'] at hread
        exact .skipped hphase hread.1 (Or.inr rfl)
      · cases h
        exact .syncGet hphase hio
    · cases h
  | syncApply =>
    simp only [Call.step] at h
    split at h
    · rename_i hphase hio
      split_ifs at h with hc
      cases h
      exact .syncApply hphase (hc ▸ hio)
    · cases h
  | commit nowMs =>
    simp only [Call.step] at h
    split at h
    · rename_i hphase
      cases hcommit : call.op.commit inst.store nowMs with
      | answered result =>
        simp only [hcommit, Option.some.injEq] at h
        exact h ▸ .answered hphase hcommit
      | changed st touched reply =>
        simp only [hcommit, Option.some.injEq] at h
        exact h ▸ .changed hphase hcommit
    · cases h
  | markDirty =>
    simp only [Call.step] at h
    split at h
    · rename_i hphase
      cases h
      exact .markDirty hphase
    · cases h
  | flushGet nowMs =>
    simp only [Call.step] at h
    split at h
    · rename_i hphase hio
      cases h
      exact .flushGet hphase hio
    · cases h
  | flushApply =>
    simp only [Call.step] at h
    split at h
    · rename_i hphase hio
      split_ifs at h with hc
      cases h
      exact .flushApply hphase (hc ▸ hio)
    · cases h
  | serialize =>
    simp only [Call.step] at h
    split at h
    · rename_i hphase hio
      split_ifs at h with hc
      cases h
      exact .serialize hphase (hc ▸ hio)
    · cases h
  | put etag =>
    simp only [Call.step] at h
    split at h
    · rename_i hphase hio
      split_ifs at h with hc
      cases h
      obtain ⟨rfl, _, rfl⟩ := hc
      exact .put hphase hio
    · cases h
  | finish nowMs =>
    simp only [Call.step] at h
    split at h
    · rename_i hphase hio
      split_ifs at h with hc
      cases h
      exact .finish hphase (hc ▸ hio)
    · cases h

/-- Only the section of a call gives it a reply. -/
theorem Call.Moved.reply? {object : Option String} {c : ℕ} {call : Call ι} {inst : Instance}
    {s : CallStep} {r : Option String × Phase × Instance}
    (h : call.Moved contentOf object c inst s r) :
    r.2.1.reply? = call.phase.reply? ∨ ∃ nowMs, s = .commit nowMs ∧ call.phase = .synced := by
  cases h with
  | @answered nowMs result hphase hcommit => exact Or.inr ⟨nowMs, rfl, hphase⟩
  | @changed nowMs st touched reply hphase hcommit => exact Or.inr ⟨nowMs, rfl, hphase⟩
  | skipped hphase hread => simp [hphase, Phase.reply?]
  | syncGet hphase hio => simp [hphase, Phase.reply?]
  | syncApply hphase hio => simp [hphase, Phase.reply?]
  | markDirty hphase => simp [hphase, Phase.reply?]
  | flushGet hphase hio => simp [hphase, Phase.reply?]
  | flushApply hphase hio => simp [hphase, Phase.reply?]
  | serialize hphase hio => simp [hphase, Phase.reply?]
  | put hphase hio => simp [hphase, Phase.reply?]
  | finish hphase hio => simp [hphase, Phase.reply?]

/-- A snapshot in the lock section is the moving call's own or was there before. -/
theorem Call.Moved.io_serialized {object : Option String} {c : ℕ} {call : Call ι}
    {inst : Instance} {s : CallStep} {r : Option String × Phase × Instance}
    (h : call.Moved contentOf object c inst s r) {d : ℕ} {snap : MbfPartitionWireSnapshot}
    (hio : r.2.2.io = .serialized d snap) : c = d ∨ inst.io = .serialized d snap := by
  cases h with
  | serialize hphase hmerged =>
    cases hio
    exact Or.inl rfl
  | skipped => exact Or.inr hio
  | answered => exact Or.inr hio
  | changed => exact Or.inr hio
  | markDirty => exact Or.inr hio
  | _ => cases hio

variable [DecidableEq ι]

theorem World.advance_calls {w : World ι} {c : ℕ} {call : Call ι}
    {r : Option String × Phase × Instance} (hcall : w.calls[c]? = some call) (d : ℕ) :
    (w.advance c call r).calls[d]? =
      if c = d then some { call with phase := r.2.1 } else w.calls[d]? := by
  have hlt := (List.getElem?_eq_some_iff.mp hcall).1
  simp only [World.advance, List.getElem?_set, hlt, if_true]

theorem World.start_calls {w w' : World ι} {i : ι} {op : StoreOp}
    (hstep : w.step contentOf (.start i op) = some w') {d : ℕ} {call : Call ι}
    (hd : w'.calls[d]? = some call) :
    w.calls[d]? = some call ∨ d = w.calls.length ∧ call = Call.start i op := by
  cases hstep
  rcases lt_trichotomy d w.calls.length with hlt | rfl | hgt
  · rw [List.getElem?_append_left hlt] at hd
    exact Or.inl hd
  · rw [List.getElem?_concat_length] at hd
    exact Or.inr ⟨rfl, (Option.some.inj hd).symm⟩
  · rw [List.getElem?_eq_none (by simp; omega)] at hd
    cases hd

theorem World.moved_of_step {w w' : World ι} {c : ℕ} {s : CallStep}
    (h : w.step contentOf (.call c s) = some w') :
    ∃ call r, w.calls[c]? = some call ∧
      call.Moved contentOf w.object c (w.insts call.inst) s r ∧ w' = w.advance c call r := by
  obtain ⟨call, hcall, hnext⟩ := Option.bind_eq_some_iff.mp h
  obtain ⟨r, hr, hw⟩ := Option.map_eq_some_iff.mp hnext
  exact ⟨call, r, hcall, Call.moved_of_step hr, hw.symm⟩

end Moves
end MetriEngine.Cluster

import MetriEngine.Tx.Coordinator

/-!
# Committed transactions are serializable on their masks

The invariant of a run ties every call in flight to the growing frame list: the
frames it builds on are a prefix of the list, its ETag names exactly that prefix,
and none of the frames past the one it started from conflicts with its masks.
-/
namespace MetriEngine.Tx
open Foundation Storage

section Invariant
variable {β ε : Type} (codec : HotHeadCodec β ε) (xxh64 : List Byte → ℕ → ℕ)
  (key : String)

/-- The keys of the request meet no key that the frame wrote. -/
def Request.DisjointFrom (request : Request) (f : CommittedDeltaFrame) : Prop :=
  TxConflictSignature.computeBloom64 xxh64 request.readKeys &&& f.signature.writeSetBloom = 0 ∧
    TxConflictSignature.computeBloom64 xxh64 request.writeKeys &&& f.signature.writeSetBloom = 0

/-- The frame carries the masks and the payload of the request. -/
structure Request.Wrote (request : Request) (f : CommittedDeltaFrame) : Prop where
  readSet : f.signature.readSetBloom =
    TxConflictSignature.computeBloom64 xxh64 request.readKeys
  writeSet : f.signature.writeSetBloom =
    TxConflictSignature.computeBloom64 xxh64 request.writeKeys
  payload : f.payloadJson = request.payloadJson

/-- An expected ETag names the object that holds the frames. -/
def EtagNames (frames : List CommittedDeltaFrame) : Option ε → Prop
  | none => frames = []
  | some etag => ∃ bytes, codec.computeEtag bytes = etag ∧
      codec.decodeHotHeadBinary bytes = .ok frames

/-- What is known of a call while the list is `frames`. -/
def CallInv (frames : List CommittedDeltaFrame) (call : Call ε) : Prop :=
  match call.phase with
  | .candidate _ baseEpoch baseFrames currentEtag =>
    baseEpoch = call.baseLen ∧ call.baseLen ≤ baseFrames.length ∧ baseFrames <+: frames ∧
      EtagNames codec baseFrames currentEtag ∧
      ∀ f ∈ baseFrames.drop call.baseLen, call.request.DisjointFrom xxh64 f
  | .collided _ baseEpoch mySig _ =>
    baseEpoch = call.baseLen ∧ call.baseLen ≤ frames.length ∧
      mySig.readSetBloom = TxConflictSignature.computeBloom64 xxh64 call.request.readKeys ∧
      mySig.writeSetBloom = TxConflictSignature.computeBloom64 xxh64 call.request.writeKeys
  | _ => True

/-- The frame at position `p` belongs to a call that returned its epoch and that
conflicts with no frame between its start and its commit. -/
structure Owned (w : World β ε) (p c : ℕ) (f : CommittedDeltaFrame) (call : Call ε) : Prop where
  called : w.calls[c]? = some call
  returned : call.phase = .returned (.ok (p + 1))
  wrote : call.request.Wrote xxh64 f
  disjoint : ∀ (q : ℕ) (g : CommittedDeltaFrame), call.baseLen ≤ q → q < p → (w.frames codec)[q]? = some g →
    call.request.DisjointFrom xxh64 g

structure Inv (w : World β ε) : Prop where
  named : ∀ obj, w.object = some obj → obj.etag = codec.computeEtag obj.bytes ∧
    ∃ frames, codec.decodeHotHeadBinary obj.bytes = .ok frames
  epochs : ∀ (p : ℕ) (f : CommittedDeltaFrame), (w.frames codec)[p]? = some f → f.signature.newEpochId = p + 1
  length : w.owners.length = (w.frames codec).length
  nodup : w.owners.Nodup
  owned : ∀ (p c : ℕ) (f : CommittedDeltaFrame), w.owners[p]? = some c → (w.frames codec)[p]? = some f →
    ∃ call, Owned codec xxh64 w p c f call
  committed : ∀ (c : ℕ) (call : Call ε) (e : ℕ), w.calls[c]? = some call → call.phase = .returned (.ok e) →
    ∃ p, e = p + 1 ∧ w.owners[p]? = some c
  calls : ∀ (c : ℕ) (call : Call ε), w.calls[c]? = some call → CallInv codec xxh64 (w.frames codec) call

variable {codec xxh64 key}

theorem inv_initial (requests : List Request) :
    Inv codec xxh64 (initialWorld requests : World β ε) := by
  have hframes : (initialWorld requests : World β ε).frames codec = [] := rfl
  have hwaiting : ∀ (c : ℕ) (call : Call ε), (initialWorld requests : World β ε).calls[c]? = some call →
      call.phase = .waiting := by
    intro c call hcall
    simp only [initialWorld, List.getElem?_map, Option.map_eq_some_iff] at hcall
    obtain ⟨_, _, rfl⟩ := hcall
    rfl
  constructor
  · intro obj hobj
    simp [initialWorld] at hobj
  · simp [hframes]
  · rw [hframes]
    rfl
  · simp [initialWorld]
  · simp [hframes]
  · intro c call e hcall hphase
    simp [hwaiting c call hcall] at hphase
  · intro c call hcall
    simp [CallInv, hwaiting c call hcall]

/-! ### Epochs are positions -/

theorem lastEpoch_eq_length {frames : List CommittedDeltaFrame}
    (h : ∀ (p : ℕ) (f : CommittedDeltaFrame), frames[p]? = some f → f.signature.newEpochId = p + 1) :
    lastEpoch frames = frames.length := by
  unfold lastEpoch
  cases hlast : frames.getLast? with
  | none => simp [List.getLast?_eq_none_iff.mp hlast]
  | some f =>
    rw [List.getLast?_eq_getElem?] at hlast
    have hpos : frames ≠ [] := by
      rintro rfl
      simp at hlast
    have hlen := List.length_pos_of_ne_nil hpos
    have he := h _ f hlast
    simp only [Option.map_some, Option.getD_some]
    omega

theorem mySignature_epoch (xxh64 : List Byte → ℕ → ℕ) {frames : List CommittedDeltaFrame}
    (h : ∀ (p : ℕ) (f : CommittedDeltaFrame), frames[p]? = some f → f.signature.newEpochId = p + 1) (request : Request)
    (baseEpoch : ℕ) :
    (mySignature xxh64 request baseEpoch frames).newEpochId = frames.length + 1 := by
  have hlast := lastEpoch_eq_length h
  unfold lastEpoch at hlast
  unfold mySignature TxConflictSignature.fromKeys
  cases hl : frames.getLast? with
  | none => simp [List.getLast?_eq_none_iff.mp hl]
  | some f =>
    simp only [hl, Option.map_some, Option.getD_some] at hlast ⊢
    omega

theorem getElem?_of_extends {α : Type} {l m : List α} (h : l <+: m) {p : ℕ} {x : α}
    (hp : l[p]? = some x) : m[p]? = some x := by
  obtain ⟨t, rfl⟩ := h
  rw [List.getElem?_append_left (List.getElem?_eq_some_iff.mp hp).1]
  exact hp

theorem getElem?_concat_iff {α : Type} {l : List α} {x y : α} {p : ℕ} :
    (l ++ [x])[p]? = some y ↔ l[p]? = some y ∨ p = l.length ∧ x = y := by
  rcases lt_trichotomy p l.length with hlt | rfl | hgt
  · rw [List.getElem?_append_left hlt]
    simp [hlt.ne]
  · simp
  · rw [List.getElem?_eq_none (by simp; omega), List.getElem?_eq_none (by omega)]
    simp [hgt.ne']

/-- The frames past the base epoch are the ones past the base position. -/
theorem mem_filter_of_mem_drop {frames : List CommittedDeltaFrame}
    (h : ∀ (p : ℕ) (f : CommittedDeltaFrame), frames[p]? = some f → f.signature.newEpochId = p + 1) {n : ℕ}
    {f : CommittedDeltaFrame} (hf : f ∈ frames.drop n) :
    f ∈ frames.filter fun g => n < g.signature.newEpochId := by
  obtain ⟨i, hi⟩ := List.mem_iff_getElem?.mp hf
  rw [List.getElem?_drop] at hi
  have he := h _ f hi
  rw [List.mem_filter]
  refine ⟨List.mem_of_getElem? hi, ?_⟩
  simp only [decide_eq_true_eq]
  omega

/-! ### What a step keeps -/

/-- A call keeps its invariant while the list grows. -/
theorem CallInv.mono {frames frames' : List CommittedDeltaFrame} {call : Call ε}
    (hinv : CallInv codec xxh64 frames call) (hext : frames <+: frames') :
    CallInv codec xxh64 frames' call := by
  unfold CallInv at hinv ⊢
  cases hphase : call.phase with
  | waiting => trivial
  | candidate attempt baseEpoch baseFrames currentEtag =>
    simp only [hphase] at hinv
    obtain ⟨he, hle, hpre, hnames, hdis⟩ := hinv
    exact ⟨he, hle, hpre.trans hext, hnames, hdis⟩
  | collided attempt baseEpoch mySig err =>
    simp only [hphase] at hinv
    obtain ⟨he, hle, hmasks⟩ := hinv
    exact ⟨he, hle.trans hext.length_le, hmasks⟩
  | returned result => trivial

/-- A step that moves one call without committing it keeps the invariant. -/
theorem Inv.setCall {w : World β ε} (hinv : Inv codec xxh64 w) {c : ℕ} {call call' : Call ε}
    (hcall : w.calls[c]? = some call) (hold : ∀ e, call.phase ≠ .returned (.ok e))
    (hnew : ∀ e, call'.phase ≠ .returned (.ok e))
    (hcallInv : CallInv codec xxh64 (w.frames codec) call') :
    Inv codec xxh64 (w.setCall c call') := by
  have hlt := (List.getElem?_eq_some_iff.mp hcall).1
  have hget (d : ℕ) : (w.setCall c call').calls[d]? = if c = d then some call' else w.calls[d]? := by
    simp only [World.setCall, List.getElem?_set, hlt, if_true]
  refine ⟨hinv.named, hinv.epochs, hinv.length, hinv.nodup, ?_, ?_, ?_⟩
  · intro p d f hd hf
    obtain ⟨call'', howned⟩ := hinv.owned p d f hd hf
    have hne : c ≠ d := by
      rintro rfl
      obtain rfl := Option.some.inj (hcall.symm.trans howned.called)
      exact hold _ howned.returned
    refine ⟨call'', ?_, howned.returned, howned.wrote, howned.disjoint⟩
    rw [hget, if_neg hne]
    exact howned.called
  · intro d call'' e hd hphase
    rw [hget] at hd
    split_ifs at hd with heq
    · cases hd
      exact absurd hphase (hnew e)
    · exact hinv.committed d call'' e hd hphase
  · intro d call'' hd
    rw [hget] at hd
    split_ifs at hd with heq
    · cases hd
      exact hcallInv
    · exact hinv.calls d call'' hd

theorem frames_of_object {w : World β ε} {obj : MbfObjectPayload β ε}
    {frames : List CommittedDeltaFrame} (hobj : w.object = some obj)
    (hdec : codec.decodeHotHeadBinary obj.bytes = .ok frames) : w.frames codec = frames := by
  simp [World.frames, objectFrames, hobj, hdec]

/-- The initial GET of a call. -/
theorem callInv_beginCommit {w : World β ε} (hinv : Inv codec xxh64 w) (call : Call ε) :
    CallInv codec xxh64 (w.frames codec) { call with
      phase := beginCommit codec w.object
      baseLen := (w.frames codec).length } ∧
    ∀ e, beginCommit codec w.object ≠ .returned (.ok e) := by
  unfold beginCommit
  cases hobj : w.object with
  | none =>
    have hframes : w.frames codec = [] := by simp [World.frames, objectFrames, hobj]
    simp [CallInv, hframes, EtagNames]
  | some obj =>
    obtain ⟨hetag, frames, hdec⟩ := hinv.named obj hobj
    have hframes := frames_of_object hobj hdec
    have hlast : lastEpoch frames = frames.length :=
      lastEpoch_eq_length fun p f hf => hinv.epochs p f (hframes ▸ hf)
    simp only [hdec, hframes]
    refine ⟨⟨hlast, le_rfl, List.prefix_rfl, ⟨obj.bytes, hetag.symm, hdec⟩, ?_⟩, by simp⟩
    simp

/-- The re-read of a call whose PUT was refused. -/
theorem callInv_autoRebase {w : World β ε} (hinv : Inv codec xxh64 w) {call : Call ε}
    {attempt baseEpoch : ℕ} {mySig : TxConflictSignature} {err : DomainError}
    (hphase : call.phase = .collided attempt baseEpoch mySig err)
    (hcall : CallInv codec xxh64 (w.frames codec) call) :
    CallInv codec xxh64 (w.frames codec) { call with
      phase := autoRebase codec w.object attempt baseEpoch mySig err } ∧
    ∀ e, autoRebase codec w.object attempt baseEpoch mySig err ≠ .returned (.ok e) := by
  simp only [CallInv, hphase] at hcall
  obtain ⟨hbase, hle, hread, hwrite⟩ := hcall
  unfold autoRebase
  cases hobj : w.object with
  | none => simp [CallInv]
  | some obj =>
    obtain ⟨hetag, frames, hdec⟩ := hinv.named obj hobj
    have hframes := frames_of_object hobj hdec
    have hepochs : ∀ (p : ℕ) (f : CommittedDeltaFrame), frames[p]? = some f →
        f.signature.newEpochId = p + 1 := fun p f hf => hinv.epochs p f (hframes ▸ hf)
    simp only [hdec, hframes] at hle ⊢
    split_ifs with hconflict hattempt
    · simp [CallInv]
    · refine ⟨⟨hbase, hle, List.prefix_rfl, ⟨obj.bytes, hetag.symm, hdec⟩, ?_⟩, by simp⟩
      intro f hf
      have hmem := mem_filter_of_mem_drop hepochs hf
      rw [← hbase] at hmem
      have hno : mySig.conflictsWith f.signature = false := by
        by_contra hc
        exact hconflict (List.any_eq_true.mpr ⟨f, hmem, by simpa using hc⟩)
      rw [TxConflictSignature.conflictsWith_eq_false_iff, hread, hwrite] at hno
      exact hno
    · simp [CallInv]

/-! ### The conditional PUT -/

/-- An accepted PUT was built on the whole list. -/
theorem baseFrames_eq_frames {w : World β ε} (hinv : Inv codec xxh64 w)
    {baseFrames : List CommittedDeltaFrame} {currentEtag : Option ε}
    (hnames : EtagNames codec baseFrames currentEtag)
    (hmatch : w.object.map MbfObjectPayload.etag = currentEtag) :
    baseFrames = w.frames codec := by
  subst hmatch
  cases hobj : w.object with
  | none =>
    have hnil : baseFrames = [] := by simpa [EtagNames, hobj] using hnames
    simp [hnil, World.frames, objectFrames, hobj]
  | some obj =>
    obtain ⟨hetag, frames, hdec⟩ := hinv.named obj hobj
    obtain ⟨bytes, hsame, hdec'⟩ : ∃ bytes, codec.computeEtag bytes = obj.etag ∧
        codec.decodeHotHeadBinary bytes = .ok baseFrames := by simpa [EtagNames, hobj] using hnames
    obtain rfl : bytes = obj.bytes := codec.computeEtag_injective (hsame.trans hetag)
    rw [frames_of_object hobj hdec]
    exact Except.ok.inj (hdec'.symm.trans hdec)

/-- The world after the PUT of call `c` was accepted. -/
def committedWorld (codec : HotHeadCodec β ε) (w : World β ε) (c : ℕ) (call : Call ε)
    (bytes : β) : World β ε where
  object := some ⟨bytes, codec.computeEtag bytes⟩
  owners := w.owners ++ [c]
  calls := w.calls.set c { call with
    phase := .returned (.ok ((w.frames codec).length + 1)) }

theorem committedWorld_frames (w : World β ε) (c : ℕ) (call : Call ε) (nowMs : ℤ)
    (frames : List CommittedDeltaFrame) :
    (committedWorld codec w c call (codec.encodeHotHeadBinary nowMs frames)).frames codec =
      frames := by
  simp [World.frames, objectFrames, committedWorld, codec.decode_encode]

/-- A commit appends the frame of a call that conflicts with none past its base. -/
theorem Inv.commit {w : World β ε} (hinv : Inv codec xxh64 w) {c : ℕ} {call : Call ε}
    (hcall : w.calls[c]? = some call) (hold : ∀ e, call.phase ≠ .returned (.ok e))
    (hdisjoint : ∀ f ∈ (w.frames codec).drop call.baseLen, call.request.DisjointFrom xxh64 f)
    (nowMs : ℤ) (frame : CommittedDeltaFrame) (hwrote : call.request.Wrote xxh64 frame)
    (hepoch : frame.signature.newEpochId = (w.frames codec).length + 1) :
    Inv codec xxh64 (committedWorld codec w c call
      (codec.encodeHotHeadBinary nowMs (w.frames codec ++ [frame]))) := by
  generalize hw' : committedWorld codec w c call
    (codec.encodeHotHeadBinary nowMs (w.frames codec ++ [frame])) = w'
  have hframes : w'.frames codec = w.frames codec ++ [frame] := by
    rw [← hw', committedWorld_frames]
  have howners : w'.owners = w.owners ++ [c] := by
    subst hw'
    rfl
  have hlt := (List.getElem?_eq_some_iff.mp hcall).1
  have hget (d : ℕ) : w'.calls[d]? = if c = d then
      some { call with phase := .returned (.ok ((w.frames codec).length + 1)) }
      else w.calls[d]? := by
    subst hw'
    simp only [committedWorld, List.getElem?_set, hlt, if_true]
  have hlen := hinv.length
  have hfresh : c ∉ w.owners := by
    intro hmem
    obtain ⟨p, hp⟩ := List.mem_iff_getElem?.mp hmem
    have hpl := (List.getElem?_eq_some_iff.mp hp).1
    obtain ⟨f, hf⟩ : ∃ f, (w.frames codec)[p]? = some f :=
      ⟨_, List.getElem?_eq_getElem (hlen ▸ hpl)⟩
    obtain ⟨call', howned⟩ := hinv.owned p c f hp hf
    obtain rfl := Option.some.inj (hcall.symm.trans howned.called)
    exact hold _ howned.returned
  constructor
  · intro obj hobj
    subst hw'
    cases hobj
    exact ⟨rfl, _, codec.decode_encode _ _⟩
  · intro p f hf
    rw [hframes, getElem?_concat_iff] at hf
    rcases hf with hf | ⟨rfl, rfl⟩
    · exact hinv.epochs p f hf
    · exact hepoch
  · rw [howners, hframes]
    simp [hlen]
  · rw [howners, List.nodup_append]
    refine ⟨hinv.nodup, by simp, ?_⟩
    rintro a ha b hb rfl
    rw [List.mem_singleton.mp hb] at ha
    exact hfresh ha
  · intro p d f hd hf
    rw [howners, getElem?_concat_iff] at hd
    rw [hframes, getElem?_concat_iff] at hf
    rcases hd with hd | ⟨rfl, rfl⟩
    · -- an earlier frame: its call and the frames before it are as they were
      have hp := (List.getElem?_eq_some_iff.mp hd).1
      have hf' : (w.frames codec)[p]? = some f := by
        rcases hf with hf | ⟨rfl, _⟩
        · exact hf
        · omega
      obtain ⟨call', howned⟩ := hinv.owned p d f hd hf'
      have hne : c ≠ d := by
        rintro rfl
        exact hfresh (List.mem_of_getElem? hd)
      refine ⟨call', ?_, howned.returned, howned.wrote, ?_⟩
      · rw [hget, if_neg hne]
        exact howned.called
      · intro q g hq hqp hg
        rw [hframes, getElem?_concat_iff] at hg
        rcases hg with hg | ⟨rfl, _⟩
        · exact howned.disjoint q g hq hqp hg
        · omega
    · -- the new frame
      have hf' : f = frame := by
        rcases hf with hf | ⟨_, rfl⟩
        · have := (List.getElem?_eq_some_iff.mp hf).1
          omega
        · rfl
      subst hf'
      refine ⟨{ call with phase := .returned (.ok ((w.frames codec).length + 1)) },
        by rw [hget, if_pos rfl], by rw [hlen], hwrote, ?_⟩
      intro q g hq hqp hg
      rw [hframes, getElem?_concat_iff] at hg
      rcases hg with hg | ⟨rfl, _⟩
      · have hdrop : ((w.frames codec).drop call.baseLen)[q - call.baseLen]? = some g := by
          rwa [List.getElem?_drop, Nat.add_sub_cancel' hq]
        exact hdisjoint g (List.mem_of_getElem? hdrop)
      · omega
  · intro d call' e hd hphase
    rw [hget] at hd
    rw [howners]
    split_ifs at hd with heq
    · cases hd
      cases hphase
      subst heq
      exact ⟨w.owners.length, by rw [hlen], by simp⟩
    · obtain ⟨p, he, hp⟩ := hinv.committed d call' e hd hphase
      exact ⟨p, he, getElem?_concat_iff.mpr (Or.inl hp)⟩
  · intro d call' hd
    rw [hget] at hd
    rw [hframes]
    split_ifs at hd with heq
    · cases hd
      trivial
    · exact (hinv.calls d call' hd).mono (List.prefix_append _ _)

/-! ### Steps and runs -/

section Run
variable [DecidableEq ε]

/-- The PUT of a call: it commits, or the call collides or fails. -/
theorem Inv.putIfMatch {w : World β ε} (hinv : Inv codec xxh64 w) {c : ℕ} {call : Call ε}
    (hcall : w.calls[c]? = some call) {attempt baseEpoch : ℕ}
    {baseFrames : List CommittedDeltaFrame} {currentEtag : Option ε}
    (hphase : call.phase = .candidate attempt baseEpoch baseFrames currentEtag) (nowMs : ℤ)
    {w' : World β ε} (hstep : w.step codec xxh64 key (.putIfMatch c nowMs) = some w') :
    Inv codec xxh64 w' ∧ w.frames codec <+: w'.frames codec := by
  have hcallInv := hinv.calls c call hcall
  simp only [CallInv, hphase] at hcallInv
  obtain ⟨hbase, hle, hpre, hnames, hdis⟩ := hcallInv
  have hold : ∀ e, call.phase ≠ .returned (.ok e) := by simp [hphase]
  have hepochs : ∀ (p : ℕ) (f : CommittedDeltaFrame), baseFrames[p]? = some f →
      f.signature.newEpochId = p + 1 := fun p f hf =>
    hinv.epochs p f (getElem?_of_extends hpre hf)
  simp only [World.step, hcall, hphase, Option.some.injEq] at hstep
  unfold putCandidate chaosPutIfMatch at hstep
  by_cases hmatch : w.object.map MbfObjectPayload.etag = currentEtag
  · obtain rfl := baseFrames_eq_frames hinv hnames hmatch
    simp only [hmatch, if_true] at hstep
    have hepoch := mySignature_epoch xxh64 hepochs call.request baseEpoch
    have hcommit := hinv.commit hcall hold hdis nowMs ⟨mySignature xxh64 call.request baseEpoch
      (w.frames codec), call.request.payloadJson⟩ ⟨rfl, rfl, rfl⟩ hepoch
    have hw' : w' = committedWorld codec w c call (codec.encodeHotHeadBinary nowMs
        (w.frames codec ++ [⟨mySignature xxh64 call.request baseEpoch (w.frames codec),
          call.request.payloadJson⟩])) := by
      rw [← hstep, hepoch]
      rfl
    rw [hw']
    refine ⟨hcommit, ?_⟩
    rw [committedWorld_frames]
    exact List.prefix_append _ _
  · simp only [hmatch, if_false, true_and] at hstep
    by_cases hattempt : attempt < 7
    · simp only [hattempt, if_true] at hstep
      rw [← hstep]
      refine ⟨hinv.setCall hcall hold (by simp) ?_, List.prefix_rfl⟩
      exact ⟨hbase, hle.trans hpre.length_le, rfl, rfl⟩
    · simp only [hattempt, if_false] at hstep
      rw [← hstep]
      exact ⟨hinv.setCall hcall hold (by simp) trivial, List.prefix_rfl⟩

/-- One step keeps the invariant and at most extends the list. -/
theorem Inv.step {w w' : World β ε} (hinv : Inv codec xxh64 w) {a : CoordinatorAction}
    (hstep : w.step codec xxh64 key a = some w') :
    Inv codec xxh64 w' ∧ w.frames codec <+: w'.frames codec := by
  cases a with
  | getObject c =>
    cases hcall : w.calls[c]? with
    | none => simp [World.step, hcall] at hstep
    | some call =>
      cases hphase : call.phase with
      | waiting =>
        simp only [World.step, hcall, hphase] at hstep
        split_ifs at hstep with hlock
        obtain ⟨hbegin, hnew⟩ := callInv_beginCommit hinv call
        cases hstep
        exact ⟨hinv.setCall hcall (by simp [hphase]) hnew hbegin, List.prefix_rfl⟩
      | candidate attempt baseEpoch baseFrames currentEtag =>
        simp [World.step, hcall, hphase] at hstep
      | collided attempt baseEpoch mySig err =>
        simp only [World.step, hcall, hphase, Option.some.injEq] at hstep
        obtain ⟨hrebase, hnew⟩ := callInv_autoRebase hinv hphase (hinv.calls c call hcall)
        rw [← hstep]
        exact ⟨hinv.setCall hcall (by simp [hphase]) hnew hrebase, List.prefix_rfl⟩
      | returned result => simp [World.step, hcall, hphase] at hstep
  | putIfMatch c nowMs =>
    cases hcall : w.calls[c]? with
    | none => simp [World.step, hcall] at hstep
    | some call =>
      cases hphase : call.phase with
      | candidate attempt baseEpoch baseFrames currentEtag =>
        exact hinv.putIfMatch hcall hphase nowMs hstep
      | waiting => simp [World.step, hcall, hphase] at hstep
      | collided attempt baseEpoch mySig err => simp [World.step, hcall, hphase] at hstep
      | returned result => simp [World.step, hcall, hphase] at hstep

/-- The step relation of the coordinators, without a guard. -/
abbrev Reaches (codec : HotHeadCodec β ε) (xxh64 : List Byte → ℕ → ℕ) (key : String) :
    World β ε → World β ε → Prop :=
  Run (World.step codec xxh64 key) fun _ _ => True

theorem inv_of_reaches {requests : List Request} {w : World β ε}
    (hrun : Reaches codec xxh64 key (initialWorld requests) w) : Inv codec xxh64 w :=
  hrun.invariant (fun _ _ _ hinv _ hstep => (hinv.step hstep).1) (inv_initial requests)

/-- The list is only ever extended at its end. -/
theorem frames_prefix_of_reaches {w w' : World β ε} (hinv : Inv codec xxh64 w)
    (hrun : Reaches codec xxh64 key w w') : w.frames codec <+: w'.frames codec := by
  have hboth : Inv codec xxh64 w' ∧ w.frames codec <+: w'.frames codec := by
    refine hrun.invariant (I := fun u => Inv codec xxh64 u ∧ w.frames codec <+: u.frames codec)
      ?_ ⟨hinv, List.prefix_rfl⟩
    intro s a t hs _ hstep
    exact ⟨(hs.1.step hstep).1, hs.2.trans (hs.1.step hstep).2⟩
  exact hboth.2

/-- In every run from an absent object: the list grows at its end only, its epochs
are 1, 2, 3, …, a call that returned `e` wrote exactly one frame and that frame has
epoch `e`, a call that failed wrote none, and no frame writes on the masks of a
later one whose call read its base before the earlier frame was there. -/
theorem commitTransaction_serializable {requests : List Request} {w : World β ε}
    (hrun : Reaches codec xxh64 key (initialWorld requests) w) :
    (∀ w', Reaches codec xxh64 key w w' → w.frames codec <+: w'.frames codec) ∧
    (w.frames codec).map (fun f => f.signature.newEpochId) =
      List.range' 1 (w.frames codec).length ∧
    w.owners.length = (w.frames codec).length ∧
    (∀ (c : ℕ) (call : Call ε) (e : ℕ), w.calls[c]? = some call →
      call.phase = .returned (.ok e) →
      ∃ (p : ℕ) (f : CommittedDeltaFrame), w.owners[p]? = some c ∧
        (w.frames codec)[p]? = some f ∧ f.signature.newEpochId = e ∧
        call.request.Wrote xxh64 f ∧ ∀ q : ℕ, w.owners[q]? = some c → q = p) ∧
    (∀ (c : ℕ) (call : Call ε) (err : DomainError), w.calls[c]? = some call →
      call.phase = .returned (.error err) → c ∉ w.owners) ∧
    (∀ (p q c : ℕ) (f g : CommittedDeltaFrame) (call : Call ε), p < q →
      (w.frames codec)[p]? = some f → (w.frames codec)[q]? = some g →
      w.owners[q]? = some c → w.calls[c]? = some call → call.baseLen ≤ p →
      g.signature.readSetBloom &&& f.signature.writeSetBloom = 0 ∧
        g.signature.writeSetBloom &&& f.signature.writeSetBloom = 0) := by
  have hinv := inv_of_reaches hrun
  have hframe (p c : ℕ) (hp : w.owners[p]? = some c) :
      ∃ f call, (w.frames codec)[p]? = some f ∧ Owned codec xxh64 w p c f call := by
    have hlt := (List.getElem?_eq_some_iff.mp hp).1
    rw [hinv.length] at hlt
    have hf := List.getElem?_eq_getElem hlt
    obtain ⟨call, howned⟩ := hinv.owned p c _ hp hf
    exact ⟨_, call, hf, howned⟩
  refine ⟨fun w' => frames_prefix_of_reaches hinv, ?_, hinv.length, ?_, ?_, ?_⟩
  · apply List.ext_getElem?
    intro p
    rw [List.getElem?_map]
    cases hf : (w.frames codec)[p]? with
    | none =>
      have hlen := List.getElem?_eq_none_iff.mp hf
      rw [List.getElem?_eq_none (by simpa using hlen)]
      rfl
    | some f =>
      have hlt := (List.getElem?_eq_some_iff.mp hf).1
      rw [List.getElem?_range' hlt, Option.map_some, hinv.epochs p f hf]
      congr 1
      omega
  · intro c call e hcall hphase
    obtain ⟨p, rfl, hp⟩ := hinv.committed c call e hcall hphase
    obtain ⟨f, call', hf, howned⟩ := hframe p c hp
    obtain rfl := Option.some.inj (hcall.symm.trans howned.called)
    refine ⟨p, f, hp, hf, hinv.epochs p f hf, howned.wrote, ?_⟩
    intro q hq
    obtain ⟨hpl, hpc⟩ := List.getElem?_eq_some_iff.mp hp
    obtain ⟨hql, hqc⟩ := List.getElem?_eq_some_iff.mp hq
    exact (List.Nodup.getElem_inj_iff hinv.nodup).mp (hqc.trans hpc.symm)
  · intro c call err hcall hphase hmem
    obtain ⟨p, hp⟩ := List.mem_iff_getElem?.mp hmem
    obtain ⟨f, call', hf, howned⟩ := hframe p c hp
    obtain rfl := Option.some.inj (hcall.symm.trans howned.called)
    have hreturned := howned.returned
    simp [hphase] at hreturned
  · intro p q c f g call hpq hf hg hq hcall hbase
    obtain ⟨g', call', hg', howned⟩ := hframe q c hq
    obtain rfl := Option.some.inj (hg.symm.trans hg')
    obtain rfl := Option.some.inj (hcall.symm.trans howned.called)
    rw [howned.wrote.readSet, howned.wrote.writeSet]
    exact howned.disjoint p f hbase hpq hf

end Run
end Invariant

/-! ### Two coordinators that collide on disjoint keys -/

/-- A cell whose object is the frame list itself. -/
def plainCodec : HotHeadCodec (List CommittedDeltaFrame) (List CommittedDeltaFrame) where
  encodeHotHeadBinary _ frames := frames
  decodeHotHeadBinary bytes := .ok bytes
  computeEtag bytes := bytes
  decode_encode _ _ := rfl
  computeEtag_injective _ _ h := h

/-- A stand-in for the hash: the sum of the bytes and the seed. -/
def byteSum (bytes : List Byte) (seed : ℕ) : ℕ := bytes.foldl (fun n b => n + b.val) seed

def twoRequests : List Request := [⟨0, [], ["a"], "x"⟩, ⟨1, [], ["b"], "y"⟩]

/-- Both calls read the empty cell; the second loses the race and rebases. -/
def collidingSchedule : List CoordinatorAction :=
  [.getObject 0, .getObject 1, .putIfMatch 0 10, .putIfMatch 1 11, .getObject 1, .putIfMatch 1 12]

theorem colliding_calls_serialize :
    ∃ w, exec (World.step plainCodec byteSum "HOT_HEAD_c0.mbf") (fun _ _ => True)
        (initialWorld twoRequests) collidingSchedule = some w ∧
      (w.frames plainCodec).map (fun f => f.signature.newEpochId) =
        List.range' 1 (w.frames plainCodec).length ∧
      w.owners.length = (w.frames plainCodec).length := by
  have hsome : (exec (World.step plainCodec byteSum "HOT_HEAD_c0.mbf") (fun _ _ => True)
      (initialWorld twoRequests) collidingSchedule).isSome = true := by decide
  obtain ⟨w, hw⟩ := Option.isSome_iff_exists.mp hsome
  obtain ⟨_, hepochs, hlength, _⟩ := commitTransaction_serializable (run_of_exec hw)
  exact ⟨w, hw, hepochs, hlength⟩

end MetriEngine.Tx

import MetriEngine.Foundation.Transition
import MetriEngine.Tx.HotHead

/-!
# The write coordinator on one cell

Several coordinators commit transactions on the cell they share. A call reads the
frame list, then alternates conditional PUTs with re-reads that rebase it on the
list it lost to, until it commits, meets a conflict or runs out of attempts. Each
GET and each PUT is one atomic step; a coordinator runs one call at a time.
-/
namespace MetriEngine.Tx
open Foundation Storage

/-- The arguments of one `commit_transaction` call. -/
structure Request where
  coordinator : ℕ
  readKeys : List String
  writeKeys : List String
  payloadJson : String
deriving DecidableEq

/-- Where a call stands between two accesses to the object store. -/
inductive Phase (ε : Type)
  | waiting
  | candidate (attempt baseEpoch : ℕ) (baseFrames : List CommittedDeltaFrame)
      (currentEtag : Option ε)
  | collided (attempt baseEpoch : ℕ) (mySig : TxConflictSignature) (err : DomainError)
  | returned (result : Except DomainError ℕ)

/-- A call, with the number of frames the list had when the call read its base. -/
structure Call (ε : Type) where
  request : Request
  phase : Phase ε := .waiting
  baseLen : ℕ := 0

/-- The object, the calls, and for each frame in order the call that wrote it. -/
structure World (β ε : Type) where
  object : Option (MbfObjectPayload β ε) := none
  owners : List ℕ := []
  calls : List (Call ε)

section Steps
variable {β ε : Type} (codec : HotHeadCodec β ε) (xxh64 : List Byte → ℕ → ℕ)
  (key : String)

/-- The frames that an object decodes to. -/
def objectFrames (object : Option (MbfObjectPayload β ε)) : List CommittedDeltaFrame :=
  match object with
  | none => []
  | some obj =>
    match codec.decodeHotHeadBinary obj.bytes with
    | .ok frames => frames
    | .error _ => []

def World.frames (w : World β ε) : List CommittedDeltaFrame := objectFrames codec w.object

def lastEpoch (frames : List CommittedDeltaFrame) : ℕ :=
  (frames.getLast?.map fun f => f.signature.newEpochId).getD 0

/-- Up to the loop: the initial GET. -/
def beginCommit (object : Option (MbfObjectPayload β ε)) : Phase ε :=
  match object with
  | none => .candidate 0 0 [] none
  | some obj =>
    match codec.decodeHotHeadBinary obj.bytes with
    | .ok frames => .candidate 0 (lastEpoch frames) frames (some obj.etag)
    | .error e => .returned (.error e)

def mySignature (request : Request) (baseEpoch : ℕ) (baseFrames : List CommittedDeltaFrame) :
    TxConflictSignature :=
  TxConflictSignature.fromKeys xxh64 baseEpoch
    ((baseFrames.getLast?.map fun f => f.signature.newEpochId + 1).getD 1)
    request.readKeys request.writeKeys

/-- The first half of an attempt: the conditional PUT of the extended list. -/
def putCandidate [DecidableEq ε] (object : Option (MbfObjectPayload β ε)) (request : Request) (nowMs : ℤ)
    (attempt baseEpoch : ℕ) (baseFrames : List CommittedDeltaFrame) (currentEtag : Option ε) :
    Phase ε × Option (MbfObjectPayload β ε) :=
  let mySig := mySignature xxh64 request baseEpoch baseFrames
  let serialized := codec.encodeHotHeadBinary nowMs
    (baseFrames ++ [⟨mySig, request.payloadJson⟩])
  match chaosPutIfMatch codec.computeEtag key object serialized currentEtag with
  | (.ok _, object') => (.returned (.ok mySig.newEpochId), object')
  | (.error err, object') =>
    if err.code = .mbfCasConflict001 ∧ attempt < 7 then
      (.collided attempt baseEpoch mySig err, object')
    else (.returned (.error err), object')

/-- The second half of an attempt that collided: the re-read and the rebase. -/
def autoRebase (object : Option (MbfObjectPayload β ε)) (attempt baseEpoch : ℕ)
    (mySig : TxConflictSignature) (err : DomainError) : Phase ε :=
  match object with
  | none => .returned (.error err)
  | some remoteObj =>
    match codec.decodeHotHeadBinary remoteObj.bytes with
    | .error e => .returned (.error e)
    | .ok remoteFrames =>
      if (remoteFrames.filter fun f => baseEpoch < f.signature.newEpochId).any
          fun winner => mySig.conflictsWith winner.signature then
        .returned (.error ⟨.mbfCasConflict001,
          "True SSI Read/Write conflict detected during CAS commit"⟩)
      else if attempt + 1 < 8 then
        .candidate (attempt + 1) baseEpoch remoteFrames (some remoteObj.etag)
      else .returned (.error ⟨.mbfCasConflict001, "Exhausted CAS auto-rebase retries"⟩)

/-- A call holds its coordinator's lock from its initial GET to its return. -/
def Call.holdsLock (call : Call ε) : Bool :=
  match call.phase with
  | .candidate .. => true
  | .collided .. => true
  | _ => false

def World.setCall (w : World β ε) (c : ℕ) (call : Call ε) : World β ε :=
  { w with calls := w.calls.set c call }

inductive CoordinatorAction
  | getObject (c : ℕ)
  | putIfMatch (c : ℕ) (nowMs : ℤ)

def World.step [DecidableEq ε] (w : World β ε) : CoordinatorAction → Option (World β ε)
  | .getObject c =>
    match w.calls[c]? with
    | none => none
    | some call =>
      match call.phase with
      | .waiting =>
        if w.calls.any fun d => d.holdsLock && d.request.coordinator = call.request.coordinator
        then none
        else some (w.setCall c { call with
          phase := beginCommit codec w.object
          baseLen := (w.frames codec).length })
      | .collided attempt baseEpoch mySig err =>
        some (w.setCall c { call with
          phase := autoRebase codec w.object attempt baseEpoch mySig err })
      | _ => none
  | .putIfMatch c nowMs =>
    match w.calls[c]? with
    | none => none
    | some call =>
      match call.phase with
      | .candidate attempt baseEpoch baseFrames currentEtag =>
        let r := putCandidate codec xxh64 key w.object call.request nowMs attempt baseEpoch
          baseFrames currentEtag
        let owners := match r.1 with
          | .returned (.ok _) => w.owners ++ [c]
          | _ => w.owners
        some { object := r.2, owners := owners, calls := w.calls.set c { call with phase := r.1 } }
      | _ => none

/-- No object and no call begun. -/
def initialWorld (requests : List Request) : World β ε :=
  { calls := requests.map fun r => { request := r } }

end Steps
end MetriEngine.Tx

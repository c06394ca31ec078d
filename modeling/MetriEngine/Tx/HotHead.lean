import MetriEngine.Storage.ObjectStore

/-!
# Conflict signatures, delta frames and the in-memory object store

A cell's object is a list of committed frames, each with the Bloom masks of the
keys its transaction read and wrote. The hash, the binary layout of the list and
the ETag of an object are parameters. Epochs are not reduced modulo `2 ^ 64`: no
list gets that long.
-/
namespace MetriEngine.Tx
open Foundation Storage

structure TxConflictSignature where
  baseEpochId : ℕ
  newEpochId : ℕ
  readSetBloom : BitVec 64
  writeSetBloom : BitVec 64
deriving DecidableEq

structure CommittedDeltaFrame where
  signature : TxConflictSignature
  payloadJson : String
deriving DecidableEq

namespace TxConflictSignature

/-- Two bits for every key, at its two hashes modulo 64. -/
def computeBloom64 (xxh64 : List Byte → ℕ → ℕ) (keys : List String) : BitVec 64 :=
  keys.foldl (fun mask k =>
    let h1 := xxh64 (utf8 k) 0x12345678
    let h2 := xxh64 (utf8 k) 0x87654321
    mask ||| (1 <<< (h1 % 64)) ||| (1 <<< (h2 % 64))) 0

def fromKeys (xxh64 : List Byte → ℕ → ℕ) (baseEpochId newEpochId : ℕ)
    (reads writes : List String) : TxConflictSignature where
  baseEpochId := baseEpochId
  newEpochId := newEpochId
  readSetBloom := computeBloom64 xxh64 reads
  writeSetBloom := computeBloom64 xxh64 writes

def conflictsWith (sig concurrentWinner : TxConflictSignature) : Bool :=
  let rwConflict := sig.readSetBloom &&& concurrentWinner.writeSetBloom ≠ 0
  let wwConflict := sig.writeSetBloom &&& concurrentWinner.writeSetBloom ≠ 0
  rwConflict || wwConflict

theorem conflictsWith_eq_false_iff {sig winner : TxConflictSignature} :
    sig.conflictsWith winner = false ↔ sig.readSetBloom &&& winner.writeSetBloom = 0 ∧
      sig.writeSetBloom &&& winner.writeSetBloom = 0 := by
  simp [conflictsWith]

end TxConflictSignature

/-- How a cell's frames are written and named: `decode_hot_head_binary` undoes
`encode_hot_head_binary`, and distinct contents have distinct ETags. -/
structure HotHeadCodec (β ε : Type) where
  encodeHotHeadBinary : ℤ → List CommittedDeltaFrame → β
  decodeHotHeadBinary : β → Except DomainError (List CommittedDeltaFrame)
  computeEtag : β → ε
  decode_encode : ∀ nowMs frames,
    decodeHotHeadBinary (encodeHotHeadBinary nowMs frames) = .ok frames
  computeEtag_injective : Function.Injective computeEtag

/-- `InMemoryChaosS3Store::put_if_match` without an injected winner: an atomic
compare-and-swap on the ETag. -/
def chaosPutIfMatch {β ε : Type} [DecidableEq ε] (computeEtag : β → ε) (key : String)
    (object : Option (MbfObjectPayload β ε)) (bytes : β) (expectedEtag : Option ε) :
    Except DomainError ε × Option (MbfObjectPayload β ε) :=
  if object.map MbfObjectPayload.etag = expectedEtag then
    (.ok (computeEtag bytes), some ⟨bytes, computeEtag bytes⟩)
  else
    (.error ⟨.mbfCasConflict001, s!"ETag mismatch on conditional put for {key}"⟩, object)

end MetriEngine.Tx

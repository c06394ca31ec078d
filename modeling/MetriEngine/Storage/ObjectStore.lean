import MetriEngine.Storage.Value

/-!
# The client of the shared object store

The calls of the S3 client that the partition store and the write coordinator
rest on. S3 is outside the program: what it answers, and whether it executed a
write whose answer was lost, is an input. The digest that names bytes locally is
a parameter.
-/
namespace MetriEngine.Storage
open Foundation

variable {β ε : Type}

/-- An object and the ETag that names its content. -/
structure MbfObjectPayload (β : Type) (ε : Type := String) where
  bytes : β
  etag : ε
deriving DecidableEq

inductive MbfConditionalGet (β : Type)
  | modified (payload : MbfObjectPayload β)
  | notModified
  | notFound

/-- The outcome of a GET: the `ETag` header with the body or the text of the
error that reading it raised; or the status of a failed request, if any came. -/
inductive S3GetAnswer (β : Type)
  | ok (eTag : Option String) (body : Except String β)
  | error (status : Option ℕ)

inductive S3PutAnswer
  | ok (eTag : Option String)
  | error (status : Option ℕ)
deriving DecidableEq

/-- What S3 does with a PUT that carries `ifMatch`: its answer, whether the object
was replaced, and the ETag of the new object. S3 acknowledges only what it
executed, answers 412 only to what it refused, and refuses a failed `If-Match`. -/
structure S3PutReply (remote : Option (MbfObjectPayload β)) (ifMatch : Option String) where
  answer : S3PutAnswer
  executed : Bool
  etag : String
  executed_of_ok : ∀ header, answer = .ok header → executed = true
  refused_of_412 : answer = .error (some 412) → executed = false
  matched : executed = true → ∀ e, ifMatch = some e → ∃ o, remote = some o ∧ o.etag = e

/-- The object after the PUT. -/
def S3PutReply.remoteAfter {remote : Option (MbfObjectPayload β)} {ifMatch : Option String}
    (reply : S3PutReply remote ifMatch) (bytes : β) : Option (MbfObjectPayload β) :=
  if reply.executed then some ⟨bytes, reply.etag⟩ else remote

/-- The ETag of a PUT's answer: the header without its quotes, else the digest. -/
def resolvePutEtag (header : Option String) (fallback : String) : String :=
  ((header.map fun h => Text.trimMatches h '"').filter fun h => h ≠ "").getD fallback

section Client
variable (computeEtag : β → String)

/-- `put_raw_mbf`: a PUT without precondition whose failure is only logged. -/
def putRawMbf (bytes : β) : S3PutAnswer → String
  | .ok header => resolvePutEtag header (computeEtag bytes)
  | .error _ => computeEtag bytes

def fetchPartitionIfChanged (key : String) :
    S3GetAnswer β → Except DomainError (MbfConditionalGet β)
  | .ok eTag body =>
    match body with
    | .error e => .error ⟨.mbfCorrupt001, s!"Failed reading S3 body for {key}: {e}"⟩
    | .ok bytes =>
      let etag := (eTag.map fun h => Text.trimMatches h '"').getD ""
      .ok (.modified ⟨bytes, if etag = "" then computeEtag bytes else etag⟩)
  | .error (some 304) => .ok .notModified
  | .error (some 404) => .ok .notFound
  | .error _ => .ok .notModified

/-- The local check of `put_if_match`: it compares a cached file's digest. -/
def cacheRejects (cache : Option β) (expectedEtag : Option String) : Bool :=
  match expectedEtag, cache with
  | some exp, some existing => computeEtag existing ≠ exp
  | _, _ => false

/-- `put_if_match`: the result, the object and the cached file it leaves. -/
def putIfMatch (key : String) (cache : Option β) (bytes : β) (expectedEtag : Option String)
    {remote : Option (MbfObjectPayload β)} (reply : S3PutReply remote expectedEtag) :
    Except DomainError String × Option (MbfObjectPayload β) × Option β :=
  if cacheRejects computeEtag cache expectedEtag then
    (.error ⟨.mbfCasConflict001, s!"ETag mismatch on {key}"⟩, remote, cache)
  else
    match reply.answer with
    | .ok header =>
      (.ok (resolvePutEtag header (computeEtag bytes)), reply.remoteAfter bytes, some bytes)
    | .error (some 412) =>
      (.error ⟨.mbfCasConflict001, s!"S3 If-Match PreconditionFailed (412) on {key}"⟩,
        reply.remoteAfter bytes, none)
    | .error _ => (.ok (computeEtag bytes), reply.remoteAfter bytes, some bytes)

end Client

/-! ### The compare-and-swap contract -/

/-- The object is where a writer that expects `expectedEtag` left it. -/
def MatchesExpected (remote : Option (MbfObjectPayload β ε)) (expectedEtag : Option ε) : Prop :=
  remote.map MbfObjectPayload.etag = expectedEtag

/-- Success swaps an object that was as expected; failure leaves the object alone. -/
def CasContract (remote : Option (MbfObjectPayload β ε)) (expectedEtag : Option ε) (bytes : β)
    (result : Except DomainError ε) (remote' : Option (MbfObjectPayload β ε)) : Prop :=
  match result with
  | .ok _ => MatchesExpected remote expectedEtag ∧ remote'.map MbfObjectPayload.bytes = some bytes
  | .error _ => remote' = remote

section Contract
variable (computeEtag : β → String) (key : String) (cache : Option β) (bytes : β)
  {expectedEtag : Option String} {remote : Option (MbfObjectPayload β)}

theorem putIfMatch_of_cacheRejects (reply : S3PutReply remote expectedEtag)
    (hcache : cacheRejects computeEtag cache expectedEtag = true) :
    putIfMatch computeEtag key cache bytes expectedEtag reply =
      (.error ⟨.mbfCasConflict001, s!"ETag mismatch on {key}"⟩, remote, cache) := by
  rw [putIfMatch, if_pos hcache]

/-- A request that was refused with 412 fails and leaves the object alone. -/
theorem putIfMatch_of_412 (reply : S3PutReply remote expectedEtag)
    (hsent : cacheRejects computeEtag cache expectedEtag = false)
    (h412 : reply.answer = .error (some 412)) :
    ∃ e, putIfMatch computeEtag key cache bytes expectedEtag reply = (.error e, remote, none) := by
  have hrefused := reply.refused_of_412 h412
  simp [putIfMatch, hsent, h412, S3PutReply.remoteAfter, hrefused]

/-- Every other answer is reported as success, executed or not. -/
theorem putIfMatch_of_not_412 (reply : S3PutReply remote expectedEtag)
    (hsent : cacheRejects computeEtag cache expectedEtag = false)
    (h412 : reply.answer ≠ .error (some 412)) :
    ∃ e, putIfMatch computeEtag key cache bytes expectedEtag reply =
      (.ok e, reply.remoteAfter bytes, some bytes) := by
  unfold putIfMatch
  rw [hsent, if_neg (by simp)]
  split
  · exact ⟨_, rfl⟩
  · rename_i heq
    exact absurd heq h412
  · exact ⟨_, rfl⟩

/-- What success asks for, once S3's part in it is known. -/
theorem success_contract_iff (reply : S3PutReply remote expectedEtag) :
    (MatchesExpected remote expectedEtag ∧
        (reply.remoteAfter bytes).map MbfObjectPayload.bytes = some bytes) ↔
      reply.executed = true ∧ (expectedEtag = none → remote = none) ∨
      reply.executed = false ∧ ∃ e, expectedEtag = some e ∧ remote = some ⟨bytes, e⟩ := by
  cases hx : reply.executed with
  | true =>
    have hmatched := reply.matched hx
    cases expectedEtag with
    | none => simp [MatchesExpected, S3PutReply.remoteAfter, hx]
    | some e =>
      obtain ⟨o, rfl, rfl⟩ := hmatched e rfl
      simp [MatchesExpected, S3PutReply.remoteAfter, hx]
  | false =>
    simp only [MatchesExpected, S3PutReply.remoteAfter, hx, Bool.false_eq_true, if_false,
      false_and, true_and, false_or]
    cases remote with
    | none => simp
    | some o =>
      obtain ⟨b, e⟩ := o
      simp only [Option.map_some, Option.some.injEq, MbfObjectPayload.mk.injEq]
      constructor
      · rintro ⟨rfl, rfl⟩
        exact ⟨e, rfl, rfl, rfl⟩
      · rintro ⟨e', rfl, rfl, rfl⟩
        exact ⟨rfl, rfl⟩

/-- The client meets the contract exactly when the cached file already refuses,
or S3 answers 412, or S3 executed the PUT and the object was absent if none was
expected, or the PUT was lost where it would have changed nothing. -/
theorem putIfMatch_meets_contract_iff (reply : S3PutReply remote expectedEtag) :
    CasContract remote expectedEtag bytes
        (putIfMatch computeEtag key cache bytes expectedEtag reply).1
        (putIfMatch computeEtag key cache bytes expectedEtag reply).2.1 ↔
      cacheRejects computeEtag cache expectedEtag = true ∨
      reply.answer = .error (some 412) ∨
      reply.executed = true ∧ (expectedEtag = none → remote = none) ∨
      reply.executed = false ∧ ∃ e, expectedEtag = some e ∧ remote = some ⟨bytes, e⟩ := by
  cases hcache : cacheRejects computeEtag cache expectedEtag with
  | true =>
    rw [putIfMatch_of_cacheRejects computeEtag key cache bytes reply hcache]
    simp [CasContract]
  | false =>
    by_cases h412 : reply.answer = .error (some 412)
    · obtain ⟨e, h⟩ := putIfMatch_of_412 computeEtag key cache bytes reply hcache h412
      simp [h, h412, CasContract]
    · obtain ⟨e, h⟩ := putIfMatch_of_not_412 computeEtag key cache bytes reply hcache h412
      rw [h]
      simp only [CasContract, success_contract_iff, h412, Bool.false_eq_true, false_or]

end Contract

/-- S3's reply to a PUT without precondition over an object that is there. -/
def overwritingReply : S3PutReply (some ⟨[1], "a"⟩ : Option (MbfObjectPayload (List ℕ))) none where
  answer := .ok (some "b")
  executed := true
  etag := "b"
  executed_of_ok := by simp
  refused_of_412 := by simp
  matched := by simp

/-- A first write, which expects no object, replaces one that is there and succeeds. -/
theorem putIfMatch_overwrites_present :
    ¬ CasContract (some ⟨[1], "a"⟩) none [2]
      (putIfMatch (fun bytes => toString bytes) "HOT_HEAD_c0.mbf" none [2] none
        overwritingReply).1
      (putIfMatch (fun bytes => toString bytes) "HOT_HEAD_c0.mbf" none [2] none
        overwritingReply).2.1 := by
  rintro ⟨hexpected, _⟩
  simp [MatchesExpected] at hexpected

end MetriEngine.Storage

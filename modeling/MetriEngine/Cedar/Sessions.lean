import MetriEngine.Eav.Json
import MetriEngine.Storage.Wire

/-!
# Sessions and their revocation

A token carries its claims and their MAC. It opens a session while it has not expired, unless its
identifier is on the blacklist: rows of the store that a revocation puts and an unrevocation deletes,
and that are read at each request. A read that fails counts as a hit.

The encodings of the token are parameters: unpadded URL-safe Base64, HMAC-SHA256 and `serde_json`.
-/
namespace MetriEngine.Cedar
open Foundation Storage Eav

class TokenCodecs where
  encode64 : List Byte → String
  decode64 : String → Option (List Byte)
  hmacSha256 : List Byte → List Byte → List Byte
  toVec : JsonValue → List Byte
  fromSlice : List Byte → Option JsonValue

/-! ### Tokens -/

/-- A verified token, and the session it opens. -/
structure Session where
  tenantId : String
  userId : String
  jti : String
  exp : ℤ
deriving DecidableEq

/-- `claims[name]`: null where there is none. -/
def claim (claims : JsonValue) (name : String) : JsonValue :=
  (claims.asObject.bind fun map => map.lookup name).getD .null

def asI64 : JsonValue → Option (Signed 64)
  | .number n => n.asI64
  | _ => none

section Tokens
variable [TokenCodecs]

/-- `mk_<payload>.<mac>` -/
def verify (secret : List Byte) (now : ℤ) (rawToken : String) (skewSeconds : ℤ) : Option Session := do
  let token ← Text.stripPrefix "mk_" rawToken
  let (payload64, sig64) ← Text.splitOnce "." token
  let payloadBytes ← TokenCodecs.decode64 payload64
  let providedSig ← TokenCodecs.decode64 sig64
  if TokenCodecs.hmacSha256 secret payloadBytes ≠ providedSig then none
  else
    let claims ← TokenCodecs.fromSlice payloadBytes
    let exp ← asI64 (claim claims "exp")
    if wrapI64 (exp.val + skewSeconds) ≤ now then none
    else
      let tenantId ← (claim claims "tid").asStr
      let userId ← (claim claims "uid").asStr
      let jti ← (claim claims "jti").asStr
      return ⟨tenantId, userId, jti, exp.val⟩

def toSigned (z : ℤ) : Signed 64 := ⟨wrapI64 z, wrapI64_bounds z⟩

def issuedClaims (tenantId userId jti : String) (now : ℤ) (ttlSeconds : ℕ) :
    List (String × JsonValue) :=
  [("tid", .string tenantId), ("uid", .string userId), ("iat", .number (.ofSigned (toSigned now))),
    ("exp", .number (.ofSigned (toSigned (now + wrapI64 ttlSeconds)))), ("jti", .string jti)]

def issueToken (secret : List Byte) (tenantId userId : String) (ttlSeconds : ℕ) (jti : String)
    (now : ℤ) : String :=
  let payloadBytes := TokenCodecs.toVec (.object (issuedClaims tenantId userId jti now ttlSeconds))
  "mk_" ++ TokenCodecs.encode64 payloadBytes ++ "." ++
    TokenCodecs.encode64 (TokenCodecs.hmacSha256 secret payloadBytes)

end Tokens

/-! ### The blacklist -/

def revokedKey (jti : String) : PrimaryKey := ⟨"REVOKED#" ++ jti, utf8 "REVOKED"⟩

/-- The row that `revoke_session` puts. -/
def revokedItem (jti : String) (ttlSeconds : ℕ) (now : ℤ) : Item :=
  (((∅ : Item).insert "PK" (.s ("REVOKED#" ++ jti))).insert "SK" (.b (utf8 "REVOKED"))).insert "ttl"
    (.n (toString (((now % 2 ^ 64).toNat + ttlSeconds) % 2 ^ 64)))

/-- What the read of a row answers: the store's item, or an error. -/
abbrev ReadAnswer := Except DomainError (Option Item)

/-- Found is revoked, and so is an error. -/
def isBlacklisted : ReadAnswer → Bool
  | .ok (some _) => true
  | .ok none => false
  | .error _ => true

/-- `Auth401`, in the stage of Cedar. -/
structure Unauthenticated where
  detail : String
deriving DecidableEq

/-- The headers of a request. -/
structure AuthRequest where
  authorization : Option String := none
  sid : Option String := none
  action : Option String := none
  entityType : Option String := none
  entityId : Option String := none
  domains : Option String := none
  devTestTenant : Option String := none
  devTestUser : Option String := none
  devTestRoles : Option String := none

def AuthRequest.sessionToken (auth : AuthRequest) : Option String :=
  match auth.authorization with
  | some header => some (Text.trim
      (((Text.stripPrefix "Bearer " header).orElse fun _ => Text.stripPrefix "bearer " header).getD
        header))
  | none => auth.sid.map Text.trim

section Step
variable [TokenCodecs]

/-- `get_session` of the token store, with what its read of the blacklist answers. -/
def getSession (secret : List Byte) (now : ℤ) (readRow : PrimaryKey → ReadAnswer) (token : String) :
    Option Session := do
  let claims ← verify secret now token 0
  if isBlacklisted (readRow (revokedKey claims.jti)) then none else some claims

/-- `step1_extract_token`. The secret of the configuration is checked first, with the clock as it is
then; the store has its secret, and reads the clock again. -/
def step1ExtractToken (configSecret storeSecret : List Byte) (now storeNow : ℤ)
    (readRow : PrimaryKey → ReadAnswer) (auth : AuthRequest) : Except Unauthenticated Session :=
  match auth.sessionToken with
  | none => .error ⟨"Missing authorization or sid header"⟩
  | some token =>
    if Text.startsWith token "mk_" && (verify configSecret now token 0).isNone then
      .error ⟨"Invalid or expired token"⟩
    else
      match getSession storeSecret storeNow readRow token with
      | none => .error ⟨"Invalid or expired token"⟩
      | some session =>
        if session.userId = "" || session.tenantId = "" then
          .error ⟨"Malformed session payload from Valkey"⟩
        else .ok session

end Step

/-! ### Runs of the store -/

/-- What happens at the store between requests. -/
inductive SessionEvent
  | revoke (jti : String) (ttlSeconds : ℕ) (now : ℤ)
  | unrevoke (jti : String)
  | other (op : StoreOp) (nowMs : ℤ)

namespace SessionEvent

/-- The section of the store that an event runs. -/
def op : SessionEvent → StoreOp × ℤ
  | revoke jti ttlSeconds now => (.putItem (revokedItem jti ttlSeconds now), now)
  | unrevoke jti => (.deleteItem (revokedKey jti), 0)
  | other op nowMs => (op, nowMs)

/-- Other writes leave the rows of the blacklist alone. -/
def LeavesBlacklist : SessionEvent → Prop
  | other op _ => ∀ jti, revokedKey jti ∉ op.writtenKeys
  | _ => True

/-- What an event says of an identifier, if anything. -/
def verdict (jti : String) : SessionEvent → Option Bool
  | revoke jti' _ _ => if jti' = jti then some true else none
  | unrevoke jti' => if jti' = jti then some false else none
  | other _ _ => none

end SessionEvent

/-- The store after a section. -/
def afterOp (st : MbfPartitionStore) (event : SessionEvent) : MbfPartitionStore :=
  match event.op.1.commit st event.op.2 with
  | .changed st' _ _ => st'
  | .answered _ => st

def runStore (st : MbfPartitionStore) (events : List SessionEvent) : MbfPartitionStore :=
  events.foldl afterOp st

/-- The last word on an identifier is that it is revoked. -/
def Revoked (jti : String) (events : List SessionEvent) : Prop :=
  (events.filterMap (SessionEvent.verdict jti)).getLast? = some true

instance (jti : String) (events : List SessionEvent) : Decidable (Revoked jti events) :=
  inferInstanceAs (Decidable (_ = _))

theorem revokedKey_inj {jti jti' : String} : revokedKey jti = revokedKey jti' ↔ jti = jti' := by
  constructor
  · intro h
    have hpk := congrArg (fun key => key.pk.toList) h
    simp only [revokedKey, String.toList_append, List.append_cancel_left_eq] at hpk
    exact String.toList_injective hpk
  · rintro rfl
    rfl

theorem extractPkSk_revokedItem (jti : String) (ttlSeconds : ℕ) (now : ℤ) :
    extractPkSk (revokedItem jti ttlSeconds now) = some (revokedKey jti) := by
  simp [extractPkSk, extractIndexKey, revokedItem, revokedKey, avString]

/-- An event decides the row of an identifier, or leaves it as it was. -/
theorem lookup_afterOp (st : MbfPartitionStore) {event : SessionEvent} (jti : String)
    (hleaves : event.LeavesBlacklist) :
    ((afterOp st event).items.lookup (revokedKey jti)).isSome =
      (event.verdict jti).getD (st.items.lookup (revokedKey jti)).isSome := by
  cases event with
  | revoke jti' ttlSeconds now =>
    have hput : afterOp st (.revoke jti' ttlSeconds now) =
        st.insertIndexed (revokedKey jti') (revokedItem jti' ttlSeconds now) := by
      simp [afterOp, SessionEvent.op, StoreOp.commit, MbfPartitionStore.putItem,
        extractPkSk_revokedItem]
    rw [hput, MbfPartitionStore.insertIndexed_items, OrdMap.lookup_insert]
    by_cases hsame : jti' = jti
    · simp [SessionEvent.verdict, hsame]
    · simp [SessionEvent.verdict, hsame, revokedKey_inj, Ne.symm hsame]
  | unrevoke jti' =>
    have hdelete : afterOp st (.unrevoke jti') = st.removeIndexed (revokedKey jti') := rfl
    rw [hdelete, MbfPartitionStore.removeIndexed_items, OrdMap.lookup_erase]
    by_cases hsame : jti' = jti
    · simp [SessionEvent.verdict, hsame]
    · simp [SessionEvent.verdict, hsame, revokedKey_inj, Ne.symm hsame]
  | other op nowMs =>
    simp only [SessionEvent.verdict, Option.getD_none, afterOp, SessionEvent.op]
    cases hcommit : op.commit st nowMs with
    | answered result => rfl
    | changed st' touched reply =>
      rw [StoreOp.commit_lookup_of_notMem hcommit (hleaves jti)]

/-- After a run the row of an identifier is there exactly if it is revoked. -/
theorem lookup_runStore_iff {events : List SessionEvent} (st : MbfPartitionStore)
    (hempty : ∀ jti, st.items.lookup (revokedKey jti) = none)
    (hleaves : ∀ event ∈ events, event.LeavesBlacklist) (jti : String) :
    ((runStore st events).items.lookup (revokedKey jti)).isSome = true ↔ Revoked jti events := by
  induction events using List.reverseRecOn with
  | nil => simp [runStore, Revoked, hempty]
  | append_singleton events event ih =>
    have hbefore := ih fun e he => hleaves e (List.mem_append_left _ he)
    have hlast := lookup_afterOp (runStore st events) jti (hleaves event (by simp))
    rw [runStore, List.foldl_concat, ← runStore, hlast, Revoked, List.filterMap_append]
    cases hverdict : event.verdict jti with
    | none => simpa [Revoked, hverdict] using hbefore
    | some revoked => simp [hverdict]

/-- The reads of a request: the store's row, or an error where the read fails. -/
def readsOf (st : MbfPartitionStore) (fails : PrimaryKey → Option DomainError) (key : PrimaryKey) :
    ReadAnswer :=
  match fails key with
  | some e => .error e
  | none => .ok (st.items.lookup key)

/-- The blacklist is read as clear exactly if the read succeeds and the identifier is not revoked. -/
theorem not_blacklisted_iff {st : MbfPartitionStore}
    (hempty : ∀ jti, st.items.lookup (revokedKey jti) = none) {events : List SessionEvent}
    (hleaves : ∀ event ∈ events, event.LeavesBlacklist) {fails : PrimaryKey → Option DomainError}
    {jti : String} :
    isBlacklisted (readsOf (runStore st events) fails (revokedKey jti)) = false ↔
      fails (revokedKey jti) = none ∧ ¬Revoked jti events := by
  rw [← lookup_runStore_iff st hempty hleaves, readsOf]
  cases fails (revokedKey jti) with
  | some e => simp [isBlacklisted]
  | none => cases (runStore st events).items.lookup (revokedKey jti) <;> simp [isBlacklisted]

/-! ### Requests -/

theorem stripPrefix_append (p s : String) : Text.stripPrefix p (p ++ s) = some s := by
  rw [Text.stripPrefix, String.toList_append,
    if_pos (List.isPrefixOf_iff_prefix.mpr (List.prefix_append _ _)), List.drop_left,
    String.ofList_toList]

theorem splitOnce_dot {a : String} (h : '.' ∉ a.toList) (b : String) :
    Text.splitOnce "." (a ++ "." ++ b) = some (a, b) := by
  have hcut (l r : List Char) (hl : '.' ∉ l) :
      splitOnceList ['.'] (l ++ '.' :: r) = some (l, r) := by
    induction l with
    | nil => simp [splitOnceList]
    | cons c l ih =>
      have hc : ¬ '.' = c := fun hc => hl (hc ▸ List.mem_cons_self)
      simp [splitOnceList, hc, ih fun hmem => hl (List.mem_cons_of_mem _ hmem)]
  have hdot : ".".toList = ['.'] := rfl
  rw [Text.splitOnce, String.toList_append, String.toList_append, hdot, List.append_assoc,
    List.singleton_append, hcut _ _ h]
  simp

section Requests
variable [TokenCodecs]

theorem startsWith_of_verify {secret : List Byte} {now : ℤ} {token : String} {skew : ℤ}
    (h : (verify secret now token skew).isSome = true) : Text.startsWith token "mk_" = true := by
  rw [verify] at h
  cases hstrip : Text.stripPrefix "mk_" token with
  | none => simp [hstrip] at h
  | some rest =>
    rw [stripPrefix_eq_some hstrip, Text.startsWith, String.toList_append]
    exact List.isPrefixOf_iff_prefix.mpr (List.prefix_append _ _)

theorem getSession_eq_some_iff {secret : List Byte} {now : ℤ} {readRow : PrimaryKey → ReadAnswer}
    {token : String} {session : Session} :
    getSession secret now readRow token = some session ↔
      verify secret now token 0 = some session ∧
        isBlacklisted (readRow (revokedKey session.jti)) = false := by
  rw [getSession]
  cases verify secret now token 0 with
  | none => simp
  | some claims =>
    by_cases hsame : claims = session
    · subst hsame
      cases hrow : isBlacklisted (readRow (revokedKey claims.jti)) <;> simp [hrow]
    · cases isBlacklisted (readRow (revokedKey claims.jti)) <;> simp [hsame]

/-- Who a token lets in. A token that does not have the form is none that the store verifies, so the
check of the configuration passes where the request does. -/
theorem step1_ok_iff {configSecret storeSecret : List Byte} {now storeNow : ℤ}
    {readRow : PrimaryKey → ReadAnswer} {auth : AuthRequest} {session : Session} :
    step1ExtractToken configSecret storeSecret now storeNow readRow auth = .ok session ↔
      ∃ token, auth.sessionToken = some token ∧ (verify configSecret now token 0).isSome = true ∧
        getSession storeSecret storeNow readRow token = some session ∧
        session.userId ≠ "" ∧ session.tenantId ≠ "" := by
  rw [step1ExtractToken]
  cases auth.sessionToken with
  | none => simp
  | some token =>
    constructor
    · intro h
      dsimp only at h
      split_ifs at h with hearly
      split at h
      · cases h
      · rename_i session' hstore
        split_ifs at h with hnames
        cases h
        have hmarked := startsWith_of_verify
          (Option.isSome_of_eq_some (getSession_eq_some_iff.mp hstore).1)
        rw [hmarked, Bool.true_and, Option.isNone_iff_eq_none, ← ne_eq,
          Option.ne_none_iff_isSome] at hearly
        simp only [Bool.or_eq_true, decide_eq_true_eq, not_or] at hnames
        exact ⟨token, rfl, hearly, hstore, hnames⟩
    · rintro ⟨token', htoken, hconfig, hstore, huser, htenant⟩
      cases htoken
      simp [hstore, huser, htenant, Option.isNone_eq_false_iff.mpr hconfig]

/-- The codecs read back the two parts of a token as they were written. -/
structure ReadsBack (claims : List (String × JsonValue)) (mac : List Byte) : Prop where
  payload : TokenCodecs.decode64 (TokenCodecs.encode64 (TokenCodecs.toVec (.object claims))) =
    some (TokenCodecs.toVec (.object claims))
  mac : TokenCodecs.decode64 (TokenCodecs.encode64 mac) = some mac
  noDot : '.' ∉ (TokenCodecs.encode64 (TokenCodecs.toVec (.object claims))).toList
  json : ∃ v, TokenCodecs.fromSlice (TokenCodecs.toVec (.object claims)) = some v ∧
    v.asObject = (JsonValue.object claims).asObject

section Issued
variable {secret : List Byte} {tenantId userId jti : String} {ttlSeconds : ℕ} {issuedAt : ℤ}

/-- An issued token verifies until its time, with its own claims. -/
theorem verify_issueToken (hissued : 0 ≤ issuedAt) (hexp : issuedAt + ttlSeconds < 2 ^ 63)
    (hcodecs : ReadsBack (issuedClaims tenantId userId jti issuedAt ttlSeconds)
      (TokenCodecs.hmacSha256 secret (TokenCodecs.toVec
        (.object (issuedClaims tenantId userId jti issuedAt ttlSeconds)))))
    (now : ℤ) :
    verify secret now (issueToken secret tenantId userId ttlSeconds jti issuedAt) 0 =
      if issuedAt + ttlSeconds ≤ now then none
      else some ⟨tenantId, userId, jti, issuedAt + ttlSeconds⟩ := by
  obtain ⟨v, hv, hobject⟩ := hcodecs.json
  have httl : wrapI64 ttlSeconds = ttlSeconds := wrapI64_of_bounds (by omega) (by omega)
  have hsum : wrapI64 (issuedAt + ttlSeconds) = issuedAt + ttlSeconds :=
    wrapI64_of_bounds (by omega) hexp
  have hclaim (name : String) :
      claim v name = claim (.object (issuedClaims tenantId userId jti issuedAt ttlSeconds)) name := by
    rw [claim, claim, hobject]
  have hexpClaim : asI64 (claim v "exp") = some (toSigned (issuedAt + wrapI64 ttlSeconds)) := by
    rw [hclaim]
    simp [claim, issuedClaims, JsonValue.asObject, OrdMap.lookup_insert, asI64]
  have htid : (claim v "tid").asStr = some tenantId := by
    rw [hclaim]
    simp [claim, issuedClaims, JsonValue.asObject, OrdMap.lookup_insert, JsonValue.asStr]
  have huid : (claim v "uid").asStr = some userId := by
    rw [hclaim]
    simp [claim, issuedClaims, JsonValue.asObject, OrdMap.lookup_insert, JsonValue.asStr]
  have hjti : (claim v "jti").asStr = some jti := by
    rw [hclaim]
    simp [claim, issuedClaims, JsonValue.asObject, OrdMap.lookup_insert, JsonValue.asStr]
  have hval : (toSigned (issuedAt + wrapI64 ttlSeconds)).val = issuedAt + ttlSeconds := by
    rw [httl]
    exact hsum
  rw [verify, issueToken, String.append_assoc, String.append_assoc, stripPrefix_append]
  simp only [Option.bind_eq_bind, Option.bind_some]
  rw [← String.append_assoc, splitOnce_dot hcodecs.noDot]
  simp only [Option.bind_some, hcodecs.payload, hcodecs.mac, ne_eq, not_true_eq_false, if_false, hv,
    hexpClaim, htid, huid, hjti, hval, add_zero, hsum, Option.pure_def]

end Issued

end Requests

/-! ### A token of an hour -/

def firstPayload : String :=
  "\x7b\"exp\":1700003600,\"iat\":1700000000,\"jti\":\"j1\",\"tid\":\"t1\",\"uid\":\"u1\"\x7d"

/-- HMAC-SHA256 of the payload under the secret of development. -/
def firstMac : List Byte :=
  [76, 26, 164, 64, 52, 174, 29, 4, 68, 169, 245, 186, 134, 153, 118, 195,
    152, 125, 162, 244, 88, 84, 125, 102, 67, 97, 62, 38, 186, 76, 17, 85]

def firstClaims : List (String × JsonValue) := issuedClaims "t1" "u1" "j1" 1700000000 3600

/-- The codecs on this token. -/
@[reducible] def firstTokenCodecs : TokenCodecs where
  encode64 bytes :=
    if bytes = firstMac then "TBqkQDSuHQREqfW6hpl2w5h9ovRYVH1mQ2E-JrpMEVU"
    else "eyJleHAiOjE3MDAwMDM2MDAsImlhdCI6MTcwMDAwMDAwMCwianRpIjoiajEiLCJ0aWQiOiJ0MSIsInVpZCI6InUxIn0"
  decode64 text :=
    if text = "TBqkQDSuHQREqfW6hpl2w5h9ovRYVH1mQ2E-JrpMEVU" then some firstMac
    else if text = "eyJleHAiOjE3MDAwMDM2MDAsImlhdCI6MTcwMDAwMDAwMCwianRpIjoiajEiLCJ0aWQiOiJ0MSIsInVpZCI6InUxIn0"
    then some (utf8 firstPayload)
    else none
  hmacSha256 _ _ := firstMac
  toVec _ := utf8 firstPayload
  fromSlice bytes := if bytes = utf8 firstPayload then some (.object firstClaims) else none

theorem readsBack_first : @ReadsBack firstTokenCodecs firstClaims firstMac := by
  apply @ReadsBack.mk firstTokenCodecs
  · decide +kernel
  · decide +kernel
  · decide +kernel
  · exact ⟨.object firstClaims, by decide +kernel, rfl⟩

def devSecret : List Byte := utf8 "secret-key-development-metri-256-bits!!!"

/-- Revoked and restored, while another token is revoked. -/
def revocations : List SessionEvent :=
  [.revoke "j1" 3600 1700000100, .revoke "j2" 3600 1700000200, .unrevoke "j1"]

def firstRequest : AuthRequest where
  authorization := some
    ("Bearer " ++ @issueToken firstTokenCodecs devSecret "t1" "u1" 3600 "j1" 1700000000)

end MetriEngine.Cedar

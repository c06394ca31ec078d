import MetriEngine.Cedar.Principal
import MetriEngine.Foundation.Transition

/-!
# Resolution of principals

The cache of principals is looked up by the id of the user alone. Runs of resolutions for
the sessions of many tenants, each a lookup, a reading of the tenant's entities and a store
with steps of others between them.
-/
namespace MetriEngine.Cedar
open Foundation Storage Eav

/-! ### The cache -/

def maxPrincipalCacheSize : ℕ := 5000

/-- The life of an entry, in nanoseconds. -/
def principalCacheTtl : ℕ := 300 * 10 ^ 9

structure Entry where
  principal : PrincipalData
  storedAt : ℕ
deriving DecidableEq

abbrev PrincipalCache := OrdMap String Entry

def Entry.isFresh (entry : Entry) (now : ℕ) : Bool := now - entry.storedAt < principalCacheTtl

namespace PrincipalCache

/-- The principal of an entry that has not expired; one that has goes. -/
def lookupPrincipal (cache : PrincipalCache) (now : ℕ) (userId : String) :
    Option PrincipalData × PrincipalCache :=
  match cache.lookup userId with
  | some entry =>
    if entry.isFresh now then (some entry.principal, cache) else (none, cache.erase userId)
  | none => (none, cache)

/-- A full cache drops a fifth of its keys; which ones is the order `keys` of the hash map. -/
def storePrincipal (cache : PrincipalCache) (now : ℕ) (keys : List String) (userId : String)
    (principal : PrincipalData) : PrincipalCache :=
  let cache :=
    if maxPrincipalCacheSize ≤ cache.entries.length ∧ cache.contains userId = false then
      (keys.take (maxPrincipalCacheSize / 5)).foldl OrdMap.erase cache
    else cache
  cache.insert userId { principal, storedAt := now }

/-- The entries that satisfy `p`. -/
def retain (cache : PrincipalCache) (p : Entry → Bool) : PrincipalCache :=
  cache.collect fun _ entry => if p entry then some entry else none

theorem lookup_retain {cache : PrincipalCache} {p : Entry → Bool} {userId : String} {entry : Entry}
    (h : (cache.retain p).lookup userId = some entry) : cache.lookup userId = some entry := by
  rw [retain, OrdMap.lookup_collect] at h
  obtain ⟨kept, hkept, hif⟩ := Option.bind_eq_some_iff.mp h
  split_ifs at hif
  cases hif
  exact hkept

theorem lookup_of_erase {cache : PrincipalCache} {key userId : String} {entry : Entry}
    (h : (cache.erase key).lookup userId = some entry) : cache.lookup userId = some entry := by
  rw [OrdMap.lookup_erase] at h
  split_ifs at h
  exact h

theorem lookup_of_erases {keys : List String} {cache : PrincipalCache} {userId : String}
    {entry : Entry} (h : (keys.foldl OrdMap.erase cache).lookup userId = some entry) :
    cache.lookup userId = some entry := by
  induction keys generalizing cache with
  | nil => exact h
  | cons key keys ih => exact lookup_of_erase (ih h)

theorem lookup_of_lookupPrincipal {cache : PrincipalCache} {now : ℕ} {key userId : String}
    {entry : Entry} (h : (cache.lookupPrincipal now key).2.lookup userId = some entry) :
    cache.lookup userId = some entry := by
  unfold lookupPrincipal at h
  split at h
  · split_ifs at h
    · exact h
    · exact lookup_of_erase h
  · exact h

/-- A store leaves the entry that it writes and no other new one. -/
theorem lookup_storePrincipal {cache : PrincipalCache} {now : ℕ} {keys : List String}
    {key userId : String} {principal : PrincipalData} {entry : Entry}
    (h : (cache.storePrincipal now keys key principal).lookup userId = some entry) :
    userId = key ∧ entry.principal = principal ∨ cache.lookup userId = some entry := by
  rw [storePrincipal, OrdMap.lookup_insert] at h
  split_ifs at h with hkey hfull
  · cases h
    exact .inl ⟨hkey, rfl⟩
  · exact .inr (lookup_of_erases h)
  · exact .inr h

end PrincipalCache

structure InvalidationMsg where
  tenantId : String
  entityType : String
  entityId : String

def evict (cache : PrincipalCache) (msg : InvalidationMsg) : PrincipalCache :=
  match msg.entityType with
  | "user" => cache.erase msg.entityId
  | "role" => cache.retain fun entry => msg.entityId ∉ entry.principal.roles
  | "user_group" => cache.retain fun entry => msg.entityId ∉ entry.principal.groups
  | _ => cache

theorem lookup_of_evict {cache : PrincipalCache} {msg : InvalidationMsg} {userId : String}
    {entry : Entry} (h : (evict cache msg).lookup userId = some entry) :
    cache.lookup userId = some entry := by
  unfold evict at h
  split at h
  · exact PrincipalCache.lookup_of_erase h
  · exact PrincipalCache.lookup_retain h
  · exact PrincipalCache.lookup_retain h
  · exact h

/-! ### One resolution -/

section Resolution
variable [Codecs] (masterTenantId : String)

def ensureNotSuspended (status userId : String) : Except DomainError Unit :=
  if status = "SUSPENDED" then .error ⟨.auth403, s!"User {userId} is suspended"⟩ else .ok ()

/-- The account of the system, which may take every action on every domain. -/
def systemBffPrincipal (tenantId : String) : PrincipalData where
  userId := "usr_system_bff"
  tenantId := tenantId
  status := "ACTIVE"
  userType := "INTERNAL"
  companyId := ""
  roles := ["system-bff"]
  rolesBoundaries := [{
    roleId := "system-bff"
    grants := [.object [
      ("domain", .string "*"),
      ("actions", .strings ["VIEW", "CREATE", "UPDATE", "DELETE", "EXECUTE", "EXPORT"]),
      ("scope", .string "ALL")]]
    permittedLocations := []
    permittedAssets := [] }]
  timeRestrictions := []
  groupAllowedLocations := []
  groupAllowedAssets := []
  groups := []

/-- What `step2_query_oltp` reads where the cache has nothing. -/
def queryPrincipal (reader : EntityReader) (tenantId userId : String) :
    Except DomainError PrincipalData := do
  let userMap ← reader.pull tenantId userId
  if userMap.isEmpty then .error ⟨.auth403, s!"User {userId} not found"⟩
  else do
    ensureNotSuspended (asText "ACTIVE" (attr userMap "user" "status")) userId
    assemblePrincipalGraph masterTenantId reader tenantId userId userMap

theorem queryPrincipal_ok {reader : EntityReader} {tenantId userId : String}
    {principal : PrincipalData}
    (h : queryPrincipal masterTenantId reader tenantId userId = .ok principal) :
    principal.tenantId = tenantId ∧ reader.pull tenantId userId ≠ .ok ∅ := by
  rw [queryPrincipal] at h
  cases hpull : reader.pull tenantId userId with
  | error e => simp [hpull, bind, Except.bind] at h
  | ok userMap =>
    simp only [hpull, bind, Except.bind] at h
    split_ifs at h with hempty
    split at h
    · cases h
    · refine ⟨assemblePrincipalGraph_tenantId masterTenantId reader tenantId h, ?_⟩
      intro heq
      cases heq
      exact hempty rfl

/-- What the cache alone answers. -/
def cachedPrincipal (cache : PrincipalCache) (now : ℕ) (userId : String) :
    Option (Except DomainError PrincipalData) :=
  (cache.lookupPrincipal now userId).1.map fun cached => do
    ensureNotSuspended cached.status userId
    return cached

/-! ### Histories -/

inductive Phase
  | asked
  | missed
  | assembled (principal : PrincipalData)
  | answered (result : Except DomainError PrincipalData)
deriving DecidableEq

/-- The principal that a resolution was answered with. -/
def Phase.principal? : Phase → Option PrincipalData
  | .answered (.ok principal) => some principal
  | _ => none

omit [Codecs] in
theorem Phase.principal?_eq_some {phase : Phase} {principal : PrincipalData}
    (h : phase.principal? = some principal) : phase = .answered (.ok principal) := by
  cases phase with
  | answered result =>
    cases result with
    | ok p => exact congrArg (Phase.answered ∘ Except.ok) (Option.some.inj h)
    | error e => cases h
  | _ => cases h

/-- A resolution that a session has asked for. -/
structure Resolution where
  tenantId : String
  userId : String
  phase : Phase := .asked
deriving DecidableEq

structure World where
  reader : EntityReader
  cache : PrincipalCache := ∅
  now : ℕ := 0
  calls : List Resolution := []
  /-- Of whom the entities were read, and what they were then. -/
  readings : List (String × String × EntityReader) := []

inductive Action
  | wait (elapsed : ℕ)
  | change (reader : EntityReader)
  | invalidate (msg : InvalidationMsg)
  | ask (tenantId userId : String)
  | lookup (call : ℕ)
  | query (call : ℕ)
  | store (call : ℕ) (keys : List String)

namespace World

def setPhase (w : World) (call : ℕ) (r : Resolution) (phase : Phase) : World :=
  { w with calls := w.calls.set call { r with phase } }

end World

/-- A step of `step2_query_oltp` for one of the sessions, or of the system around it. -/
def step (w : World) : Action → Option World
  | .wait elapsed => some { w with now := w.now + elapsed }
  | .change reader => some { w with reader }
  | .invalidate msg => some { w with cache := evict w.cache msg }
  | .ask tenantId userId => some { w with calls := w.calls ++ [{ tenantId, userId }] }
  | .lookup call => do
    let r ← w.calls[call]?
    guard (r.phase = .asked)
    if r.userId = "usr_system_bff" then
      return w.setPhase call r (.answered (.ok (systemBffPrincipal r.tenantId)))
    else
      let w' := { w with cache := (w.cache.lookupPrincipal w.now r.userId).2 }
      match cachedPrincipal w.cache w.now r.userId with
      | some result => return w'.setPhase call r (.answered result)
      | none => return w'.setPhase call r .missed
  | .query call => do
    let r ← w.calls[call]?
    guard (r.phase = .missed)
    let w' := { w with readings := w.readings ++ [(r.tenantId, r.userId, w.reader)] }
    match queryPrincipal masterTenantId w.reader r.tenantId r.userId with
    | .ok principal => return w'.setPhase call r (.assembled principal)
    | .error e => return w'.setPhase call r (.answered (.error e))
  | .store call keys => do
    let r ← w.calls[call]?
    match r.phase with
    | .assembled principal =>
      let w' := { w with cache := w.cache.storePrincipal w.now keys r.userId principal }
      return w'.setPhase call r (.answered (.ok principal))
    | _ => none

/-! ### Answers of the own tenant -/

/-- The principal is the one that the tenant's entities gave at a reading. -/
def Read (w : World) (tenantId userId : String) (principal : PrincipalData) : Prop :=
  ∃ reader, (tenantId, userId, reader) ∈ w.readings ∧
    queryPrincipal masterTenantId reader tenantId userId = .ok principal

/-- A resolution answers with a principal of its own tenant, as it was read there for the same
session; a user whom the tenant has never had is rejected. -/
structure Isolated (w : World) (r : Resolution) : Prop where
  tenant : ∀ principal, r.phase = .answered (.ok principal) → principal.tenantId = r.tenantId
  read : ∀ principal, r.phase = .answered (.ok principal) →
    Read masterTenantId w r.tenantId r.userId principal
  unknown : (∀ reader, (r.tenantId, r.userId, reader) ∈ w.readings →
    reader.pull r.tenantId r.userId = .ok ∅) → ∀ principal, r.phase ≠ .answered (.ok principal)

/-- A session of a user of the tenant, not of the system's account, finds in the cache no fresh
entry that another tenant's session has left under the same user id. -/
def LooksUpOwn (w : World) : Action → Prop
  | .lookup call => ∀ r ∈ w.calls[call]?, r.userId ≠ "usr_system_bff" ∧
    ∀ entry ∈ w.cache.lookup r.userId, entry.isFresh w.now = true →
      entry.principal.tenantId = r.tenantId
  | _ => True

structure Inv (w : World) : Prop where
  entries : ∀ userId entry, w.cache.lookup userId = some entry →
    Read masterTenantId w entry.principal.tenantId userId entry.principal
  calls : ∀ r ∈ w.calls, ∀ principal,
    r.phase = .assembled principal ∨ r.phase = .answered (.ok principal) →
      Read masterTenantId w r.tenantId r.userId principal

variable {masterTenantId}

theorem Read.tenant {w : World} {tenantId userId : String} {principal : PrincipalData}
    (h : Read masterTenantId w tenantId userId principal) : principal.tenantId = tenantId := by
  obtain ⟨reader, _, hquery⟩ := h
  exact (queryPrincipal_ok masterTenantId hquery).1

/-- What was read stays read. -/
theorem Read.mono {w w' : World} {tenantId userId : String} {principal : PrincipalData}
    (h : Read masterTenantId w tenantId userId principal) (hsub : w.readings ⊆ w'.readings) :
    Read masterTenantId w' tenantId userId principal := by
  obtain ⟨reader, hmem, hquery⟩ := h
  exact ⟨reader, hsub hmem, hquery⟩

theorem Inv.isolated {w : World} (h : Inv masterTenantId w) {r : Resolution} (hr : r ∈ w.calls) :
    Isolated masterTenantId w r where
  tenant principal hphase := (h.calls r hr principal (.inr hphase)).tenant
  read principal hphase := h.calls r hr principal (.inr hphase)
  unknown hunknown principal hphase := by
    obtain ⟨reader, hmem, hquery⟩ := h.calls r hr principal (.inr hphase)
    exact (queryPrincipal_ok masterTenantId hquery).2 (hunknown reader hmem)

/-- A new phase of one call, with more readings and with a cache whose entries were read. -/
theorem Inv.setPhase {w w' : World} (h : Inv masterTenantId w) {call : ℕ} {r : Resolution}
    {phase : Phase} (hsub : w.readings ⊆ w'.readings) (hcalls : w'.calls = w.calls)
    (hcache : ∀ userId entry, w'.cache.lookup userId = some entry →
      Read masterTenantId w' entry.principal.tenantId userId entry.principal)
    (hphase : ∀ principal, phase = .assembled principal ∨ phase = .answered (.ok principal) →
      Read masterTenantId w' r.tenantId r.userId principal) :
    Inv masterTenantId (w'.setPhase call r phase) where
  entries := hcache
  calls := by
    intro r' hr' principal hr'phase
    rw [World.setPhase, hcalls] at hr'
    cases List.mem_or_eq_of_mem_set hr' with
    | inl hold => exact (h.calls r' hold principal hr'phase).mono hsub
    | inr hnew =>
      subst hnew
      exact hphase principal hr'phase

theorem lookup_inv {w w' : World} {call : ℕ} (h : Inv masterTenantId w)
    (hguard : LooksUpOwn w (.lookup call)) (hstep : step masterTenantId w (.lookup call) = some w') :
    Inv masterTenantId w' := by
  obtain ⟨r, hr, hstep⟩ := Option.bind_eq_some_iff.mp hstep
  obtain ⟨hsystem, hown⟩ := hguard r hr
  obtain ⟨_, _, hstep⟩ := Option.bind_eq_some_iff.mp hstep
  rw [if_neg hsystem] at hstep
  have hcache : ∀ userId entry, (w.cache.lookupPrincipal w.now r.userId).2.lookup userId = some entry →
      Read masterTenantId w entry.principal.tenantId userId entry.principal :=
    fun userId entry hentry => h.entries userId entry (PrincipalCache.lookup_of_lookupPrincipal hentry)
  dsimp only at hstep
  split at hstep
  next result hcached =>
    cases hstep
    refine h.setPhase (fun _ => id) rfl hcache ?_
    intro principal hphase
    -- what the cache answers is the entry of the user, of this tenant by the guard
    rw [cachedPrincipal, PrincipalCache.lookupPrincipal] at hcached
    split at hcached
    next entry hentry =>
      split_ifs at hcached with hfresh
      · simp only [Option.map_some, Option.some.injEq] at hcached
        have heq : entry.principal = principal := by
          rw [← hcached] at hphase
          cases hsusp : ensureNotSuspended entry.principal.status r.userId with
          | error e => simp [hsusp, bind, Except.bind] at hphase
          | ok _ => simpa [hsusp, bind, Except.bind, pure, Except.pure] using hphase
        have hread := h.entries r.userId entry hentry
        rw [hown entry hentry hfresh, heq] at hread
        exact hread
      · cases hcached
    next => cases hcached
  next =>
    cases hstep
    refine h.setPhase (fun _ => id) rfl hcache ?_
    simp

theorem query_inv {w w' : World} {call : ℕ} (h : Inv masterTenantId w)
    (hstep : step masterTenantId w (.query call) = some w') : Inv masterTenantId w' := by
  obtain ⟨r, hr, hstep⟩ := Option.bind_eq_some_iff.mp hstep
  obtain ⟨_, _, hstep⟩ := Option.bind_eq_some_iff.mp hstep
  have hsub : w.readings ⊆ w.readings ++ [(r.tenantId, r.userId, w.reader)] :=
    List.subset_append_left _ _
  have hcache : ∀ userId entry, w.cache.lookup userId = some entry →
      Read masterTenantId { w with readings := w.readings ++ [(r.tenantId, r.userId, w.reader)] }
        entry.principal.tenantId userId entry.principal :=
    fun userId entry hentry => (h.entries userId entry hentry).mono hsub
  dsimp only at hstep
  split at hstep
  next principal hquery =>
    cases hstep
    refine h.setPhase hsub rfl hcache ?_
    intro principal' hphase
    have heq : principal = principal' := by simpa using hphase
    subst heq
    exact ⟨w.reader, by simp, hquery⟩
  next =>
    cases hstep
    refine h.setPhase hsub rfl hcache ?_
    simp

theorem store_inv {w w' : World} {call : ℕ} {keys : List String} (h : Inv masterTenantId w)
    (hstep : step masterTenantId w (.store call keys) = some w') : Inv masterTenantId w' := by
  obtain ⟨r, hr, hstep⟩ := Option.bind_eq_some_iff.mp hstep
  split at hstep
  next principal hphase =>
    cases hstep
    have hread := h.calls r (List.mem_of_getElem? hr) principal (.inl hphase)
    refine h.setPhase (fun _ => id) rfl ?_ ?_
    · intro userId entry hentry
      cases PrincipalCache.lookup_storePrincipal hentry with
      | inl hnew =>
        obtain ⟨rfl, rfl⟩ := hnew
        rw [hread.tenant]
        exact hread
      | inr hold => exact h.entries userId entry hold
    · intro principal' hphase'
      have heq : principal = principal' := by simpa using hphase'
      subst heq
      exact hread
  next => cases hstep

theorem step_inv {w w' : World} {action : Action} (h : Inv masterTenantId w)
    (hguard : LooksUpOwn w action) (hstep : step masterTenantId w action = some w') :
    Inv masterTenantId w' := by
  cases action with
  | wait elapsed =>
    cases hstep
    exact ⟨h.entries, h.calls⟩
  | change reader =>
    cases hstep
    exact ⟨h.entries, h.calls⟩
  | invalidate msg =>
    cases hstep
    exact ⟨fun userId entry hentry => h.entries userId entry (lookup_of_evict hentry), h.calls⟩
  | ask tenantId userId =>
    cases hstep
    refine ⟨h.entries, fun r hr principal hphase => ?_⟩
    cases List.mem_append.mp hr with
    | inl hold => exact h.calls r hold principal hphase
    | inr hnew =>
      rw [List.mem_singleton.mp hnew] at hphase
      simp at hphase
  | lookup call => exact lookup_inv h hguard hstep
  | query call => exact query_inv h hstep
  | store call keys => exact store_inv h hstep

/-- In a history of resolutions whose lookups find no entry of another tenant, each answer is
a principal of the session's own tenant. -/
theorem resolutions_are_isolated (reader : EntityReader) {w : World}
    (hrun : Run (step masterTenantId) LooksUpOwn { reader } w) :
    ∀ r ∈ w.calls, Isolated masterTenantId w r := by
  have hinv : Inv masterTenantId w := by
    apply Run.invariant (I := Inv masterTenantId) (fun _ _ _ h hg hs => step_inv h hg hs) hrun
    exact ⟨fun _ _ h => by simp at h, by simp⟩
  exact fun r hr => hinv.isolated hr

end Resolution

instance (w : World) (action : Action) : Decidable (LooksUpOwn w action) := by
  cases action <;> unfold LooksUpOwn <;> infer_instance

/-- A tenant with one user, and no other entity. -/
def acmeReader : EntityReader where
  pull tenantId entityId :=
    .ok (if tenantId = "acme" ∧ entityId = "ana" then
      (∅ : EntityMap).insert "user_type" (.str "CONTRACTOR") else ∅)
  childrenWithAttr _ _ _ := .ok []
  known tenantId := if tenantId = "acme" then ["ana"] else []
  pull_unknown := by
    intro tenantId entityId h
    by_cases htenant : tenantId = "acme" <;> simp_all

/-- The steps of the first session of a user, up to the store. -/
def firstResolution (tenantId userId : String) : List Action :=
  [.ask tenantId userId, .lookup 0, .query 0, .store 0 []]

theorem anas_sessions_are_isolated : ∃ w,
    Run (@step plainCodecs "system") LooksUpOwn { reader := acmeReader } w ∧
    (∃ r ∈ w.calls[1]?, ∃ principal, r.phase = .answered (.ok principal) ∧
      principal.userType = "CONTRACTOR") ∧
    ∀ r ∈ w.calls, @Isolated plainCodecs "system" w r := by
  have hexec : (exec (@step plainCodecs "system") LooksUpOwn { reader := acmeReader }
      (firstResolution "acme" "ana" ++ [.ask "acme" "ana", .lookup 1])).any (fun w =>
        w.calls[1]?.any fun r => r.phase.principal?.any fun principal =>
          principal.userType = "CONTRACTOR") = true := by decide +kernel
  obtain ⟨w, hrun, hcall⟩ := exists_run_of_exec hexec
  refine ⟨w, hrun, ?_, @resolutions_are_isolated plainCodecs "system" acmeReader w hrun⟩
  obtain ⟨r, hr, hphase⟩ := (Option.any_eq_true ..).mp hcall
  obtain ⟨principal, hprincipal, htype⟩ := (Option.any_eq_true ..).mp hphase
  exact ⟨r, hr, principal, Phase.principal?_eq_some hprincipal, of_decide_eq_true htype⟩

/-- The globex session of a user id that only acme has is answered with acme's principal. -/
theorem another_tenants_principal : ¬ ∀ reader w,
    Run (@step plainCodecs "system") (fun _ _ => True) { reader } w →
    ∀ r ∈ w.calls, @Isolated plainCodecs "system" w r := by
  intro h
  have hexec : (exec (@step plainCodecs "system") (fun _ _ => True) { reader := acmeReader }
      (firstResolution "acme" "ana" ++ [.ask "globex" "ana", .lookup 1])).any (fun w =>
        w.calls[1]?.any fun r => r.phase.principal?.any fun principal =>
          r.tenantId = "globex" && principal.tenantId = "acme") = true := by decide +kernel
  obtain ⟨w, hrun, hcall⟩ := exists_run_of_exec hexec
  obtain ⟨r, hr, hphase⟩ := (Option.any_eq_true ..).mp hcall
  obtain ⟨principal, hprincipal, htenants⟩ := (Option.any_eq_true ..).mp hphase
  simp only [Bool.and_eq_true, decide_eq_true_eq] at htenants
  obtain ⟨htenant, _, _⟩ := h acmeReader w hrun r (List.mem_of_getElem? hr)
  have hsame := htenant principal (Phase.principal?_eq_some hprincipal)
  rw [htenants.1, htenants.2] at hsame
  exact absurd hsame (by decide)

end MetriEngine.Cedar

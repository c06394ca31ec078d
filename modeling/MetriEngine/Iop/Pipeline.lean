import MetriEngine.Cedar.Sessions
import MetriEngine.Foundation.Programs
import MetriEngine.Janus.Abac
import MetriEngine.Quota.Ledger
import MetriEngine.Quota.Resolver

/-!
# The request pipeline

A mutation passes three steps: authorization, the quota, and the router that writes. The quota is
debited before anything is written; where a later step fails, the steps that were done are undone in
reverse order, with the context as it was before the last of them that found something to undo.

Each step is a program over the calls that the service makes: any number of requests run at once, call
by call. A call on the counter may be refused without effect, or have its effect and lose its answer.
-/
namespace MetriEngine.Iop
open Foundation Storage Eav Cedar Janus Quota

inductive IopError
  | domain (e : DomainError)
  | quota001 (detail : String) (context : Option JsonValue)
deriving DecidableEq

/-- A number of units: one where there is none, or none above zero. -/
def unitsOf (n : Option ℤ) : ℤ := (n.filter fun n => 0 < n).getD 1

theorem unitsOf_some {n : ℤ} (h : 0 < n) : unitsOf (some n) = n := by simp [unitsOf, Option.filter, h]

theorem unitsOf_pos (n : Option ℤ) : 0 < unitsOf n := by
  cases n with
  | none => simp [unitsOf]
  | some n => by_cases h : 0 < n <;> simp [unitsOf, Option.filter, h]

theorem unitsOf_lt {n : Option ℤ} {bound : ℤ} (hone : 1 < bound) (h : ∀ z ∈ n, z < bound) :
    unitsOf n < bound := by
  cases n with
  | none => simpa [unitsOf] using hone
  | some z =>
    have hz := h z rfl
    by_cases hpos : 0 < z
    · rwa [unitsOf_some hpos]
    · simpa [unitsOf, Option.filter, hpos] using hone

structure IopContext where
  tenantId : String
  userId : String
  request : JsonMap
  entityType : String
  operation : String
  roles : List String
  grantedActionKeys : Finset String
  isSuperMaster : Bool
  crossTenantScope : String
  domainBoundaries : JsonValue
  quotaReservation : Option JsonValue

namespace IopContext

def new (tenantId userId entityType operation : String) (request : JsonMap) : IopContext where
  tenantId := tenantId
  userId := userId
  request := request
  entityType := entityType
  operation := operation
  roles := []
  grantedActionKeys := ∅
  isSuperMaster := false
  crossTenantScope := "NONE"
  domainBoundaries := .object []
  quotaReservation := none

def hasReversibleEffects (ctx : IopContext) : Bool := ctx.quotaReservation.isSome

/-- One unit, or one for each record in `data`. -/
def debitUnits (ctx : IopContext) : ℤ :=
  unitsOf (((ctx.request.lookup "data").bind asArray).map fun records => wrapI64 records.length)

theorem debitUnits_pos (ctx : IopContext) : 0 < ctx.debitUnits := unitsOf_pos _

theorem debitUnits_lt (ctx : IopContext) : ctx.debitUnits < 2 ^ 63 := by
  apply unitsOf_lt (by norm_num)
  intro z hz
  obtain ⟨records, -, rfl⟩ := Option.map_eq_some_iff.mp hz
  exact (wrapI64_bounds _).2

end IopContext

/-! ### Calls -/

/-- How a call on the counter goes: as it should, refused without effect, or answered as failed after
its effect. -/
inductive Delivery (α : Type)
  | done (answer : α)
  | refused (e : DomainError)
  | lost (answer : α) (e : DomainError)

/-- What the caller gets to know. -/
def Delivery.answer {α : Type} : Delivery α → Except DomainError α
  | done answer => .ok answer
  | refused e => .error e
  | lost _ e => .error e

/-- A refusal of a handler. -/
inductive Status
  | unauthenticated (message : String)
  | permissionDenied (message : String)
  | invalidArgument (message : String)
  | domain (e : DomainError)
  | quota001 (detail : String)
deriving DecidableEq

/-- Who calls a handler. -/
structure Caller where
  tenantId : String
  userId : String

/-- An entity that is to be written. -/
structure PlannedEntity where
  tenantId : String
  entityType : String
  entityId : String
  attrs : EntityMap

structure TransactResult where
  txId : ℕ
  datoms : ℕ
  outboxCount : ℕ

structure CedarContext where
  tenantId : String
  userId : String
  roles : List String
  domainBoundaries : JsonValue

inductive IopCall
  | interceptAuth (auth : AuthRequest)
  | principalData (auth : AuthRequest)
  | activeQuota (tenantId resourceDomain limitType : String)
  | tryDebit (tenantId quotaId : String) (amount maxLimit seed : ℤ)
  | release (tenantId quotaId : String) (amount : ℤ)
  | route (ctx : IopContext)
  | validateEntity (caller : Caller) (tenantId entityType entityId : String) (payload : JsonValue)
  | transactWithProjections (madre : PlannedEntity) (projections : List PlannedEntity)
    (suppressEvents : Bool) (actor : String)

abbrev IopCall.Answer : IopCall → Type
  | interceptAuth _ => Except DomainError CedarContext
  | principalData _ => Except DomainError Caller
  | activeQuota _ _ _ => Except DomainError (Option QuotaSpec)
  | tryDebit _ _ _ _ _ => Delivery DebitOutcome
  | release _ _ _ => Delivery Unit
  | route _ => Except DomainError JsonValue
  | validateEntity _ _ _ _ _ => Except Status EntityMap
  | transactWithProjections _ _ _ _ => Except DomainError TransactResult

abbrev IopProgram := Program IopCall IopCall.Answer

/-- A step of the pipeline, and how it is undone. -/
structure IopStep where
  execute : IopContext → IopProgram (Except IopError IopContext)
  compensate : IopContext → IopProgram Unit := fun _ => .done ()

/-! ### Authorization -/

def authRequestOf (ctx : IopContext) : AuthRequest :=
  let reqStr key := (ctx.request.lookup key).bind JsonValue.asStr
  let fallback (s : String) := if s = "" then none else some s
  { authorization := reqStr "authorization"
    sid := reqStr "sid"
    action := (reqStr "x-metri-action").or (fallback ctx.operation)
    entityType := (reqStr "x-metri-entity-type").or (fallback ctx.entityType)
    entityId := reqStr "x-metri-entity-id"
    domains := reqStr "x-metri-domains"
    devTestTenant := reqStr "test-tenant"
    devTestUser := reqStr "test-user"
    devTestRoles := reqStr "test-roles" }

/-- The context of an authorized request. A master may act for the tenant it names. -/
def authorized (masterTenantId : String) (ctx : IopContext) (cedar : CedarContext) : IopContext :=
  let master := isMasterTenant masterTenantId cedar.tenantId
  { ctx with
    tenantId := if ctx.tenantId = "" || !master then cedar.tenantId else ctx.tenantId
    userId := cedar.userId
    roles := cedar.roles
    domainBoundaries := cedar.domainBoundaries
    isSuperMaster := master
    crossTenantScope := if master then "FULL" else "NONE"
    grantedActionKeys := if master then ∅
      else ctx.grantedActionKeys ∪
        {ctx.entityType ++ ":VIEW", ctx.entityType ++ ":CREATE", ctx.entityType ++ ":UPDATE"} }

def cedarAuthorizerStep (masterTenantId : String) : IopStep where
  execute ctx := .call (.interceptAuth (authRequestOf ctx)) fun
    | .error e => .done (.error (.domain e))
    | .ok cedar => .done (.ok (authorized masterTenantId ctx cedar))

/-! ### The quota -/

/-- `MASTER_ONLY_ENTITIES` -/
def isQuotaExempt (entityType : String) : Bool :=
  entityType ∈ ["tenant", "domain_quota", "quota", "domain_plugin", "tenant_plugin"]

/-- What a request is counted as, if it is counted. -/
def limitType (ctx : IopContext) : Option String :=
  if ctx.isSuperMaster || ctx.userId = "usr_system_bff" || ctx.userId = "usr_master" ||
    isQuotaExempt ctx.entityType then none
  else if toUppercase ctx.operation = "CREATE" then some "WRITE_COUNT"
  else if toUppercase ctx.operation = "GET" then some "READ_COUNT"
  else none

def i64Json (z : ℤ) : JsonValue := .number (.ofSigned ⟨wrapI64 z, wrapI64_bounds z⟩)

/-- `id` is what was debited, `quota_id` the row that it was configured by. -/
def reservation (ctx : IopContext) (quota : QuotaSpec) (newUsage : ℤ) : JsonValue := .object
  [("id", .string quota.counterId), ("quota_id", .string quota.id),
    ("debit", i64Json ctx.debitUnits), ("domain", .string ctx.entityType),
    ("period_key", .string quota.periodKey), ("new_usage", i64Json newUsage),
    ("status", .string "pending")]

def notConfigured (ctx : IopContext) (limitType : String) : IopError :=
  .quota001 ("No quota configured for tenant=" ++ ctx.tenantId ++ " resource_domain=" ++
    ctx.entityType ++ " limit_type=" ++ limitType) none

def exhausted (ctx : IopContext) (quota : QuotaSpec) (currentUsage limit : ℤ) : IopError :=
  .quota001 "Quota exhausted — upgrade plan or wait for reset" (some (.object
    [("limit", i64Json limit), ("current_usage", i64Json currentUsage),
      ("resource_domain", .string ctx.entityType), ("period_key", .string quota.periodKey)]))

/-- The ceiling and the increment in one call: the quota that was read says where to debit. -/
def debitQuota (ctx : IopContext) (quota : QuotaSpec) :
    IopProgram (Except IopError IopContext) :=
  .call (.tryDebit ctx.tenantId quota.counterId ctx.debitUnits quota.maxLimit quota.seedUsage)
    fun delivery => match delivery.answer with
      | .error e => .done (.error (.domain e))
      | .ok (.exhausted currentUsage limit) => .done (.error (exhausted ctx quota currentUsage limit))
      | .ok (.debited newUsage) =>
        .done (.ok { ctx with quotaReservation := some (reservation ctx quota newUsage) })

def asI64 : JsonValue → Option ℤ
  | .number n => n.asI64.map Subtype.val
  | _ => none

/-- The counter and the units that a reservation tells; one unit where it tells none. -/
def reserved (reservation : JsonValue) : Option (String × ℤ) :=
  ((member reservation "id").bind JsonValue.asStr).map fun id =>
    (id, unitsOf ((member reservation "debit").bind asI64))

theorem asI64_i64Json {z : ℤ} (hlo : -2 ^ 63 ≤ z) (hhi : z < 2 ^ 63) : asI64 (i64Json z) = some z := by
  simp [asI64, i64Json, wrapI64_of_bounds hlo hhi]

/-- What the quota step notes down is what it has debited. -/
theorem reserved_reservation (ctx : IopContext) (quota : QuotaSpec) (newUsage : ℤ) :
    reserved (reservation ctx quota newUsage) = some (quota.counterId, ctx.debitUnits) := by
  have hpos := ctx.debitUnits_pos
  have hdebit : asI64 (i64Json ctx.debitUnits) = some ctx.debitUnits :=
    asI64_i64Json (by omega) ctx.debitUnits_lt
  simp [reserved, reservation, member, JsonValue.asObject, OrdMap.lookup_insert, JsonValue.asStr,
    hdebit, unitsOf_some hpos]

def quotaGuardStep : IopStep where
  execute ctx := match limitType ctx with
    | none => .done (.ok ctx)
    | some limitType => .call (.activeQuota ctx.tenantId ctx.entityType limitType) fun
      | .error e => .done (.error (.domain e))
      | .ok none => .done (.error (notConfigured ctx limitType))
      | .ok (some quota) => debitQuota ctx quota
  compensate ctx := match ctx.quotaReservation.bind reserved with
    | none => .done ()
    | some (id, debitUnits) => .call (.release ctx.tenantId id debitUnits) fun _ => .done ()

/-! ### The router -/

/-- The result under `result`, merged into the object that is there. -/
def withResult (request : JsonMap) (result : JsonValue) : JsonMap :=
  match request.lookup "result" with
  | none => request.insert "result" result
  | some old =>
    match old.asObject, result.asObject with
    | some old, some new => request.insert "result" (.object (old.insertList new.entries).entries)
    | _, _ => request

def janusRouterStep : IopStep where
  execute ctx := .call (.route ctx) fun
    | .error e => .done (.error (.domain e))
    | .ok result => .done (.ok { ctx with request := withResult ctx.request result })

/-! ### The orchestrator -/

/-- The steps that were done, the last one first. -/
def compensateAll (undo : IopContext) : List IopStep → IopProgram Unit
  | [] => .done ()
  | step :: executed => (step.compensate undo).bind fun _ => compensateAll undo executed

/-- `run_steps` with the steps that were done, the last one first, and the context to undo them with. -/
def runSteps (executed : List IopStep) (undo : Option IopContext) :
    List IopStep → IopContext → IopProgram (Except IopError IopContext)
  | [], current => .done (.ok current)
  | step :: steps, current =>
    let undo := if current.hasReversibleEffects then some current else undo
    (step.execute current).bind fun
      | .ok next => runSteps (step :: executed) undo steps next
      | .error e => match undo with
        | some undo => (compensateAll undo executed).bind fun _ => .done (.error e)
        | none => .done (.error e)

/-- With nothing to undo, a failed step ends the run. -/
theorem runSteps_fresh {ctx : IopContext} (h : ctx.quotaReservation = none) (executed : List IopStep)
    (step : IopStep) (steps : List IopStep) :
    runSteps executed none (step :: steps) ctx = (step.execute ctx).bind fun
      | .ok next => runSteps (step :: executed) none steps next
      | .error e => .done (.error e) := by
  simp [runSteps, IopContext.hasReversibleEffects, h]

/-- With something to undo, the context before a failed step is what the steps are undone with. -/
theorem runSteps_reserved {ctx : IopContext} (h : ctx.quotaReservation.isSome = true)
    (executed : List IopStep) (undo : Option IopContext) (step : IopStep) (steps : List IopStep) :
    runSteps executed undo (step :: steps) ctx = (step.execute ctx).bind fun
      | .ok next => runSteps (step :: executed) (some ctx) steps next
      | .error e => (compensateAll ctx executed).bind fun _ => .done (.error e) := by
  simp [runSteps, IopContext.hasReversibleEffects, h]

/-- The steps of the service, in their order. -/
def pipeline (masterTenantId : String) : List IopStep :=
  [cedarAuthorizerStep masterTenantId, quotaGuardStep, janusRouterStep]

def request (masterTenantId : String) (ctx : IopContext) : IopProgram (Except IopError IopContext) :=
  runSteps [] none (pipeline masterTenantId) ctx


/-! ### What a request holds of a counter -/

/-- The units of a counter that a request has debited and not released, and the domains that the
resolver has put on the counter. Some units are stranded where a debit had its effect and was answered
as failed, a release was refused, or the quota of a further debit could not be read. -/
structure Tally where
  held : ℤ := 0
  stranded : Bool := false
  domains : Finset String := ∅

def Tally.afterDebit (t : Tally) (amount : ℤ) : Delivery DebitOutcome → Tally
  | .done (.debited _) => { t with held := t.held + amount }
  | .lost (.debited _) _ => { t with held := t.held + amount, stranded := true }
  | _ => t

def Tally.afterRelease (t : Tally) (amount : ℤ) : Delivery Unit → Tally
  | .refused _ => { t with stranded := true }
  | _ => { t with held := t.held - amount }

section Counter
variable (row : Ceiling)

/-- The call is on the counter of the row. -/
def Names (tenantId quotaId : String) : Prop := tenantId = row.tenantId ∧ quotaId = row.quotaId

instance (tenantId quotaId : String) : Decidable (Names row tenantId quotaId) :=
  inferInstanceAs (Decidable (_ ∧ _))

def Tally.observe (t : Tally) : (c : IopCall) → c.Answer → Tally
  | .tryDebit tenantId quotaId amount _ _, delivery =>
    if Names row tenantId quotaId then t.afterDebit amount delivery else t
  | .release tenantId quotaId amount, delivery =>
    if Names row tenantId quotaId then t.afterRelease amount delivery else t
  | .activeQuota _ _ _, .error _ => { t with stranded := t.stranded || decide (0 < t.held) }
  | .activeQuota tenantId resourceDomain _, .ok (some quota) =>
    if Names row tenantId quota.counterId then { t with domains := insert resourceDomain t.domains }
    else t
  | _, _ => t

/-- What the resolver answers moves no units. -/
theorem held_activeQuota (t : Tally) (tenantId resourceDomain limitType : String)
    (answer : Except DomainError (Option QuotaSpec)) :
    (t.observe row (.activeQuota tenantId resourceDomain limitType) answer).held = t.held := by
  rcases answer with e | _ | quota
  · rfl
  · rfl
  · exact (apply_ite Tally.held _ _ _).trans (ite_self _)

/-- Debits of the counter are made with the seed of its row, and cannot overflow below its ceiling. No
more is released than is held. The resolver answers the row where it answers the counter. -/
def counterContract : Program.Contract IopCall IopCall.Answer Tally where
  invariant t := 0 ≤ t.held
  permits t
    | .tryDebit tenantId quotaId amount maxLimit seed =>
      Names row tenantId quotaId → seed = row.seed ∧ 0 < amount ∧ maxLimit + amount < 2 ^ 63
    | .release tenantId quotaId amount => Names row tenantId quotaId → 0 < amount ∧ amount ≤ t.held
    | _ => True
  promises
    | .activeQuota tenantId _ _, .ok (some quota) =>
      Names row tenantId quota.counterId → quota.seedUsage = row.seed ∧ quota.maxLimit = row.maxLimit
    | _, _ => True
  observe := Tally.observe row

/-! ### Calls on the store -/

def counterKey : Lex (String × String) := toLex (row.tenantId, row.quotaId)

/-- The store may have changed, but not at the counter. -/
def Untouched (st st' : MbfPartitionStore) : Prop :=
  st'.quotaCounters.lookup (counterKey row) = st.quotaCounters.lookup (counterKey row)

/-- What a call may do to the store, for an answer. -/
def Performs (st : MbfPartitionStore) : (c : IopCall) → c.Answer → MbfPartitionStore → Prop
  | .tryDebit tenantId quotaId amount maxLimit seed, delivery, st' => match delivery with
    | .refused _ => Untouched row st st'
    | .done outcome => Quota.tryDebit st tenantId quotaId amount maxLimit seed = (st', outcome)
    | .lost outcome _ => Quota.tryDebit st tenantId quotaId amount maxLimit seed = (st', outcome)
  | .release tenantId quotaId amount, delivery, st' => match delivery with
    | .refused _ => Untouched row st st'
    | _ => st' = (st.quotaSettle tenantId quotaId (-amount)).1
  | c, answer, st' => (counterContract row).promises c answer ∧ Untouched row st st'

/-- The counter is a 64-bit number, and it is `base` or its row's seed while it is not there. -/
structure Sound (base : ℤ) (st : MbfPartitionStore) : Prop where
  seed : st.quotaCounters.lookup (counterKey row) = none → base = row.seed
  bounded : row.current st < 2 ^ 63

variable {row}

theorem Untouched.current {st st' : MbfPartitionStore} (h : Untouched row st st') :
    row.current st' = row.current st := by
  rw [Ceiling.current, Ceiling.current]
  exact congrArg (Option.getD · row.seed) h

theorem Untouched.sound {base : ℤ} {st st' : MbfPartitionStore} (h : Untouched row st st')
    (hsound : Sound row base st) : Sound row base st' where
  seed hnone := hsound.seed (h.symm.trans hnone)
  bounded := h.current ▸ hsound.bounded

/-- Calls on other counters leave this one alone. -/
theorem counterKey_ne {tenantId quotaId : String} (h : ¬Names row tenantId quotaId) :
    counterKey row ≠ toLex (tenantId, quotaId) := by
  intro heq
  obtain ⟨htenant, hquota⟩ := Prod.mk.inj (toLex.injective heq)
  exact h ⟨htenant.symm, hquota.symm⟩

theorem untouched_tryDebit {st st' : MbfPartitionStore} {tenantId quotaId : String}
    {amount maxLimit seed : ℤ} {outcome : DebitOutcome} (hother : ¬Names row tenantId quotaId)
    (h : Quota.tryDebit st tenantId quotaId amount maxLimit seed = (st', outcome)) :
    Untouched row st st' := by
  rw [Quota.tryDebit, MbfPartitionStore.quotaTryDebit] at h
  dsimp only at h
  split_ifs at h <;> cases h
  · rfl
  · exact OrdMap.lookup_insert_of_ne _ _ (counterKey_ne hother)

theorem untouched_settle (st : MbfPartitionStore) {tenantId quotaId : String} (delta : ℤ)
    (hother : ¬Names row tenantId quotaId) :
    Untouched row st (st.quotaSettle tenantId quotaId delta).1 :=
  OrdMap.lookup_insert_of_ne _ _ (counterKey_ne hother)

end Counter


/-! ### What a call moves -/

section Moves
variable {row : Ceiling} {base : ℤ} {st st' : MbfPartitionStore}

/-- A counter that was set is there, and has a value of 64 bits. -/
theorem sound_of_lookup {n : ℤ} (h : st.quotaCounters.lookup (counterKey row) = some (wrapI64 n)) :
    row.current st = wrapI64 n ∧ Sound row base st := by
  have hcurrent : row.current st = wrapI64 n := by
    rw [Ceiling.current]
    exact congrArg (Option.getD · row.seed) h
  refine ⟨hcurrent, ?_, ?_⟩
  · intro hnone
    rw [h] at hnone
    cases hnone
  · exact hcurrent ▸ (wrapI64_bounds n).2

theorem tryDebit_named {amount maxLimit seed : ℤ} {outcome : DebitOutcome}
    (h : Quota.tryDebit st row.tenantId row.quotaId amount maxLimit seed = (st', outcome)) :
    (outcome.isDebited = false ∧ st' = st) ∨
      outcome.isDebited = true ∧
        (st.quotaCounters.lookup (counterKey row)).getD seed < maxLimit ∧
        st'.quotaCounters.lookup (counterKey row) =
          some (wrapI64 ((st.quotaCounters.lookup (counterKey row)).getD seed + amount)) := by
  rw [Quota.tryDebit, MbfPartitionStore.quotaTryDebit] at h
  dsimp only at h
  split_ifs at h with hfull <;> cases h
  · exact .inl ⟨rfl, rfl⟩
  · exact .inr ⟨rfl, not_le.mp hfull, OrdMap.lookup_insert_self _ _ _⟩

theorem settle_named (st : MbfPartitionStore) (row : Ceiling) (delta : ℤ) :
    (st.quotaSettle row.tenantId row.quotaId delta).1.quotaCounters.lookup (counterKey row) =
      some (max (wrapI64 ((st.quotaCounters.lookup (counterKey row)).getD 0 + delta)) 0) :=
  OrdMap.lookup_insert_self _ _ _

/-- A debit of the counter adds its units to it, unless the ceiling is reached. -/
theorem debit_moves (hbase : 0 ≤ base) (hlow : base ≤ row.current st) {amount maxLimit : ℤ}
    {outcome : DebitOutcome} (hamount : 0 < amount) (hfits : maxLimit + amount < 2 ^ 63)
    (h : Quota.tryDebit st row.tenantId row.quotaId amount maxLimit row.seed = (st', outcome)) :
    row.current st' = row.current st + if outcome.isDebited then amount else 0 := by
  rcases tryDebit_named h with ⟨hnot, rfl⟩ | ⟨hdebited, hroom, hafter⟩
  · simp [hnot]
  · have hroom : row.current st < maxLimit := hroom
    have hsum : wrapI64 (row.current st + amount) = row.current st + amount :=
      wrapI64_of_bounds (by omega) (by omega)
    rw [if_pos hdebited, (@sound_of_lookup row base _ _ hafter).1]
    exact hsum

/-- A release takes its units off the counter: the floor of the counter is not met. -/
theorem release_moves (hbase : 0 ≤ base) {amount : ℤ} (hamount : 0 < amount)
    (hheld : base + amount ≤ row.current st) (hsound : Sound row base st) :
    row.current (st.quotaSettle row.tenantId row.quotaId (-amount)).1 =
      row.current st - amount := by
  have hthere : st.quotaCounters.lookup (counterKey row) = some (row.current st) := by
    rw [Ceiling.current]
    cases hlookup : st.quotaCounters.lookup (counterKey row) with
    | none =>
      -- the counter would be at its seed, and nothing is held of it
      have hseed : row.current st = row.seed := by
        rw [Ceiling.current]
        exact congrArg (Option.getD · row.seed) hlookup
      have hstart := hsound.seed hlookup
      omega
    | some n => exact congrArg some (congrArg (Option.getD · row.seed) hlookup).symm
  have hbounded := hsound.bounded
  have hsum : wrapI64 (row.current st + -amount) = row.current st + -amount :=
    wrapI64_of_bounds (by omega) (by omega)
  have hafter := settle_named st row (-amount)
  rw [hthere, Option.getD_some, hsum, max_eq_left (by omega)] at hafter
  rw [Ceiling.current]
  exact congrArg (Option.getD · row.seed) hafter

theorem sound_debit {amount maxLimit seed : ℤ} {outcome : DebitOutcome}
    (h : Quota.tryDebit st row.tenantId row.quotaId amount maxLimit seed = (st', outcome))
    (hsound : Sound row base st) : Sound row base st' := by
  rcases tryDebit_named h with ⟨-, rfl⟩ | ⟨-, -, hafter⟩
  · exact hsound
  · exact (sound_of_lookup hafter).2

theorem sound_settle (st : MbfPartitionStore) (delta : ℤ) :
    Sound row base (st.quotaSettle row.tenantId row.quotaId delta).1 := by
  have hafter := settle_named st row delta
  constructor
  · intro hnone
    rw [hafter] at hnone
    cases hnone
  · rw [Ceiling.current]
    refine (congrArg (Option.getD · row.seed) hafter).trans_lt ?_
    exact max_lt (wrapI64_bounds _).2 (by norm_num)

theorem counter_accounts (row : Ceiling) (hbase : 0 ≤ base) :
    Pool.Accounts (counterContract row) (Performs row) (Untouched row) (Sound row base) row.current
      Tally.held base where
  nonneg _ h := h
  promises {w c answer after} h := by
    cases c with
    | activeQuota tenantId domain limitType => exact h.1
    | _ => trivial
  sound_call {w c answer after} h hsound := by
    cases c with
    | tryDebit tenantId quotaId amount maxLimit seed =>
      by_cases hname : Names row tenantId quotaId
      · obtain ⟨rfl, rfl⟩ := hname
        cases answer with
        | refused e => exact Untouched.sound h hsound
        | done outcome => exact sound_debit h hsound
        | lost outcome e => exact sound_debit h hsound
      · cases answer with
        | refused e => exact Untouched.sound h hsound
        | done outcome => exact (untouched_tryDebit hname h).sound hsound
        | lost outcome e => exact (untouched_tryDebit hname h).sound hsound
    | release tenantId quotaId amount =>
      by_cases hname : Names row tenantId quotaId
      · obtain ⟨rfl, rfl⟩ := hname
        cases answer with
        | refused e => exact Untouched.sound h hsound
        | done outcome => exact h ▸ sound_settle w (-amount)
        | lost outcome e => exact h ▸ sound_settle w (-amount)
      · cases answer with
        | refused e => exact Untouched.sound h hsound
        | done outcome => exact h ▸ (untouched_settle w (-amount) hname).sound hsound
        | lost outcome e => exact h ▸ (untouched_settle w (-amount) hname).sound hsound
    | _ => exact h.2.sound hsound
  sound_other h hsound := h.sound hsound
  call {w t c answer after} h hsound hinv hpermits hheld := by
    have hlow : base ≤ row.current w := le_trans (le_add_of_nonneg_right hinv) hheld
    have hsame (hcall : Untouched row w after) (htally : (t.observe row c answer).held = t.held) :
        row.current after = row.current w + ((t.observe row c answer).held - t.held) := by
      rw [hcall.current, htally]
      omega
    cases c with
    | tryDebit tenantId quotaId amount maxLimit seed =>
      by_cases hname : Names row tenantId quotaId
      · obtain ⟨rfl, hamount, hfits⟩ := hpermits hname
        have hobserve (delivery : Delivery DebitOutcome) : t.observe row
            (.tryDebit tenantId quotaId amount maxLimit row.seed) delivery =
              t.afterDebit amount delivery := if_pos hname
        rw [show (counterContract row).observe t
          (.tryDebit tenantId quotaId amount maxLimit row.seed) answer = _ from hobserve answer]
        obtain ⟨rfl, rfl⟩ := hname
        cases answer with
        | refused e =>
          rw [Untouched.current h]
          simp [Tally.afterDebit]
        | done outcome =>
          rw [debit_moves hbase hlow hamount hfits h]
          cases outcome <;> simp [Tally.afterDebit, DebitOutcome.isDebited]
        | lost outcome e =>
          rw [debit_moves hbase hlow hamount hfits h]
          cases outcome <;> simp [Tally.afterDebit, DebitOutcome.isDebited]
      · have hobserve : (t.observe row (.tryDebit tenantId quotaId amount maxLimit seed) answer).held =
            t.held := congrArg Tally.held (if_neg hname)
        cases answer with
        | refused e => exact hsame h hobserve
        | done outcome => exact hsame (untouched_tryDebit hname h) hobserve
        | lost outcome e => exact hsame (untouched_tryDebit hname h) hobserve
    | release tenantId quotaId amount =>
      by_cases hname : Names row tenantId quotaId
      · obtain ⟨hamount, hle⟩ := hpermits hname
        have hobserve : t.observe row (.release tenantId quotaId amount) answer =
            t.afterRelease amount answer := if_pos hname
        rw [show (counterContract row).observe t (.release tenantId quotaId amount) answer = _
          from hobserve]
        obtain ⟨rfl, rfl⟩ := hname
        have hmoves := release_moves hbase hamount (by omega) hsound
        cases answer with
        | refused e =>
          rw [Untouched.current h]
          simp [Tally.afterRelease]
        | done outcome =>
          rw [h, hmoves]
          simp [Tally.afterRelease]
          omega
        | lost outcome e =>
          rw [h, hmoves]
          simp [Tally.afterRelease]
          omega
      · have hobserve : (t.observe row (.release tenantId quotaId amount) answer).held = t.held :=
          congrArg Tally.held (if_neg hname)
        have hsettle := untouched_settle w (-amount) hname
        cases answer with
        | refused e => exact hsame h hobserve
        | done outcome => exact hsame (h ▸ hsettle) hobserve
        | lost outcome e => exact hsame (h ▸ hsettle) hobserve
    | activeQuota tenantId domain limitType =>
      apply hsame h.2
      exact held_activeQuota row t tenantId domain limitType answer
    | _ => exact hsame h.2 rfl
  other h := h.current

end Moves

/-! ### What a request does -/

/-- What a context has reserved of the counter of a row. -/
def IopContext.charge (ctx : IopContext) (row : Ceiling) : ℤ :=
  match ctx.quotaReservation.bind reserved with
  | some (id, debitUnits) => if Names row ctx.tenantId id then debitUnits else 0
  | none => 0

/-- A request that succeeds holds what it has reserved, and one that fails holds nothing, unless some of
it is stranded. -/
def Settled (row : Ceiling) (t : Tally) : Except IopError IopContext → Prop
  | .ok ctx => t.held = ctx.charge row
  | .error _ => t.stranded = false → t.held = 0

section Requests
variable {row : Ceiling} {t : Tally} {ctx : IopContext}

theorem charge_of_none (h : ctx.quotaReservation = none) : ctx.charge row = 0 := by
  simp [IopContext.charge, h]

theorem charge_debited (quota : QuotaSpec) (newUsage : ℤ) :
    IopContext.charge { ctx with quotaReservation := some (reservation ctx quota newUsage) } row =
      if Names row ctx.tenantId quota.counterId then ctx.debitUnits else 0 := by
  simp only [IopContext.charge, Option.bind_some, reserved_reservation]

/-- Authorization reserves nothing, and leaves the records as they are. -/
theorem cedar_keeps (masterTenantId : String) (ht : 0 ≤ t.held) :
    Program.Keeps (counterContract row)
      (fun t' result => t' = t ∧ ∀ ctx', result = .ok ctx' →
        ctx'.quotaReservation = ctx.quotaReservation ∧ ctx'.debitUnits = ctx.debitUnits)
      t ((cedarAuthorizerStep masterTenantId).execute ctx) := by
  refine ⟨ht, trivial, fun answer _ => ?_⟩
  cases answer with
  | error e => exact ⟨ht, rfl, by simp⟩
  | ok cedar =>
    refine ⟨ht, rfl, ?_⟩
    intro ctx' hok
    cases hok
    exact ⟨rfl, rfl⟩

/-- The router reserves nothing. -/
theorem janus_keeps (ht : 0 ≤ t.held) :
    Program.Keeps (counterContract row)
      (fun t' result => t' = t ∧ ∀ ctx', result = .ok ctx' → ctx'.charge row = ctx.charge row)
      t (janusRouterStep.execute ctx) := by
  refine ⟨ht, trivial, fun answer _ => ?_⟩
  cases answer with
  | error e => exact ⟨ht, rfl, by simp⟩
  | ok result =>
    refine ⟨ht, rfl, ?_⟩
    intro ctx' hok
    cases hok
    rfl

/-- The debit holds what it notes down, or fails; a failed debit that held something is stranded. -/
theorem debitQuota_keeps (ht : t.held = 0) {quota : QuotaSpec}
    (hquota : Names row ctx.tenantId quota.counterId →
      quota.seedUsage = row.seed ∧ quota.maxLimit + ctx.debitUnits < 2 ^ 63) :
    Program.Keeps (counterContract row) (Settled row) t (debitQuota ctx quota) := by
  have hpos := ctx.debitUnits_pos
  have hheld : 0 ≤ t.held + ctx.debitUnits := by omega
  refine ⟨ht.ge, fun hname => ⟨(hquota hname).1, hpos, (hquota hname).2⟩, fun delivery _ => ?_⟩
  change Program.Keeps _ _ (Tally.observe row t _ delivery) _
  rw [Tally.observe]
  by_cases hname : Names row ctx.tenantId quota.counterId
  · rw [if_pos hname]
    rcases delivery with (newUsage | ⟨currentUsage, limit⟩) | e | ⟨newUsage | ⟨currentUsage, limit⟩, e⟩
    · exact ⟨hheld, by simp [Settled, Tally.afterDebit, charge_debited, hname, ht]⟩
    · exact ⟨ht.ge, fun _ => ht⟩
    · exact ⟨ht.ge, fun _ => ht⟩
    · exact ⟨hheld, by simp [Settled, Tally.afterDebit]⟩
    · exact ⟨ht.ge, fun _ => ht⟩
  · rw [if_neg hname]
    rcases delivery with (newUsage | ⟨currentUsage, limit⟩) | e | ⟨newUsage | ⟨currentUsage, limit⟩, e⟩
    · exact ⟨ht.ge, by simp [Settled, charge_debited, hname, ht]⟩
    all_goals exact ⟨ht.ge, fun _ => ht⟩

theorem quota_keeps (ht : t.held = 0) (hfresh : ctx.quotaReservation = none)
    (hunits : row.maxLimit + ctx.debitUnits < 2 ^ 63) :
    Program.Keeps (counterContract row) (Settled row) t (quotaGuardStep.execute ctx) := by
  rw [quotaGuardStep]
  dsimp only
  cases limitType ctx with
  | none => exact ⟨ht.ge, ht.trans (charge_of_none hfresh).symm⟩
  | some limitType =>
    refine ⟨ht.ge, trivial, fun answer hanswer => ?_⟩
    have hheld := (held_activeQuota row t ctx.tenantId ctx.entityType limitType answer).trans ht
    rcases answer with e | _ | quota
    · exact ⟨hheld.ge, fun _ => hheld⟩
    · exact ⟨hheld.ge, fun _ => hheld⟩
    · apply debitQuota_keeps hheld
      intro hname
      obtain ⟨hseed, hlimit⟩ := hanswer hname
      exact ⟨hseed, hlimit ▸ hunits⟩

theorem reserved_pos {reservation : JsonValue} {id : String} {units : ℤ}
    (h : reserved reservation = some (id, units)) : 0 < units := by
  obtain ⟨_, -, heq⟩ := Option.map_eq_some_iff.mp h
  cases heq
  exact unitsOf_pos _

/-- Undoing the quota step releases what the context has reserved. -/
theorem compensate_keeps (ht : 0 ≤ t.held) (hheld : t.held = ctx.charge row) :
    Program.Keeps (counterContract row) (fun t' _ => t'.stranded = false → t'.held = 0) t
      (quotaGuardStep.compensate ctx) := by
  rw [quotaGuardStep]
  dsimp only
  cases hreserved : ctx.quotaReservation.bind reserved with
  | none =>
    refine ⟨ht, fun _ => hheld.trans ?_⟩
    simp [IopContext.charge, hreserved]
  | some reserved =>
    obtain ⟨id, units⟩ := reserved
    have hpos : 0 < units := by
      obtain ⟨reservation, -, hunits⟩ := Option.bind_eq_some_iff.mp hreserved
      exact reserved_pos hunits
    have hcharge : t.held = if Names row ctx.tenantId id then units else 0 := by
      simp [hheld, IopContext.charge, hreserved]
    refine ⟨ht, ?_, fun delivery _ => ?_⟩
    · intro hname
      rw [if_pos hname] at hcharge
      exact ⟨hpos, hcharge.ge⟩
    · change Program.Keeps _ _ (Tally.observe row t _ delivery) _
      rw [Tally.observe]
      by_cases hname : Names row ctx.tenantId id
      · rw [if_pos hname] at hcharge ⊢
        have hzero : t.held - units = 0 := by omega
        rcases delivery with _ | e | ⟨_, e⟩
        · exact ⟨hzero.ge, fun _ => hzero⟩
        · exact ⟨ht, by simp [Tally.afterRelease]⟩
        · exact ⟨hzero.ge, fun _ => hzero⟩
      · rw [if_neg hname] at hcharge ⊢
        exact ⟨ht, fun _ => hcharge⟩

/-- A request that starts without a reservation settles with the counter. -/
theorem request_keeps (masterTenantId : String) (hfresh : ctx.quotaReservation = none)
    (hunits : row.maxLimit + ctx.debitUnits < 2 ^ 63) :
    Program.Keeps (counterContract row) (Settled row) {} (request masterTenantId ctx) := by
  rw [request, pipeline, runSteps_fresh hfresh]
  apply (cedar_keeps masterTenantId le_rfl).bind
  rintro t (e | ctx₁) - ⟨rfl, hok⟩
  · exact ⟨le_rfl, fun _ => rfl⟩
  obtain ⟨hfresh₁, hunits₁⟩ := hok ctx₁ rfl
  rw [hfresh] at hfresh₁
  rw [← hunits₁] at hunits
  dsimp only
  rw [runSteps_fresh hfresh₁]
  apply (quota_keeps rfl hfresh₁ hunits).bind
  rintro t (e | ctx₂) ht hsettled
  · exact ⟨ht, hsettled⟩
  dsimp only
  cases hreserved : ctx₂.quotaReservation with
  | none =>
    rw [runSteps_fresh hreserved]
    apply (janus_keeps ht).bind
    rintro t' (e | ctx₃) - ⟨rfl, hcharge⟩
    · exact ⟨ht, fun _ => hsettled.trans (charge_of_none hreserved)⟩
    · exact ⟨ht, hsettled.trans (hcharge ctx₃ rfl).symm⟩
  | some reservation =>
    rw [runSteps_reserved (by simp [hreserved])]
    apply (janus_keeps ht).bind
    rintro t' (e | ctx₃) - ⟨rfl, hcharge⟩
    · -- the router has failed: the quota step is undone, and there is nothing more to undo
      dsimp only [compensateAll]
      apply Program.Keeps.bind (Q := fun t' _ => t'.stranded = false → t'.held = 0)
      · apply (compensate_keeps ht hsettled).bind
        intro t' _ ht' hzero
        exact ⟨ht', hzero⟩
      · intro t' _ ht' hzero
        exact ⟨ht', hzero⟩
    · exact ⟨ht, hsettled.trans (hcharge ctx₃ rfl).symm⟩

end Requests

/-! ### Any number of requests at once -/

section Service
variable {Request : Type} [Fintype Request] [DecidableEq Request]

abbrev Service (α Request : Type) := Pool IopCall IopCall.Answer α Tally MbfPartitionStore Request

/-- The requests before their first steps. -/
def starting {α : Type} (st : MbfPartitionStore) (programs : Request → IopProgram α) :
    Service α Request where
  world := st
  threads := programs
  seen _ := {}

def start (masterTenantId : String) (st : MbfPartitionStore) (ctxs : Request → IopContext) :
    Service (Except IopError IopContext) Request :=
  starting st fun i => request masterTenantId (ctxs i)

/-- The requests in any order of their calls, with anything between them that leaves the counter
alone. -/
abbrev ServiceRuns {α : Type} (row : Ceiling) : Service α Request → Service α Request → Prop :=
  Pool.Runs (counterContract row) (Performs row) (Untouched row)

/-- Programs that keep the contract account for the counter, however they are interleaved. -/
theorem balanced_run {α : Type} {row : Ceiling} {st : MbfPartitionStore} (hlow : 0 ≤ row.current st)
    (hhigh : row.current st < 2 ^ 63) {Q : Request → Tally → α → Prop}
    {programs : Request → IopProgram α}
    (hkeeps : ∀ i, Program.Keeps (counterContract row) (Q i) {} (programs i)) {p : Service α Request}
    (hrun : ServiceRuns row (starting st programs) p) :
    Pool.Balanced (counterContract row) Q (Sound row (row.current st)) row.current Tally.held
      (row.current st) p := by
  apply Pool.Balanced.run (counter_accounts row hlow) _ hrun
  refine ⟨⟨fun hnone => ?_, hhigh⟩, by simp [starting], hkeeps⟩
  rw [Ceiling.current]
  exact congrArg (Option.getD · row.seed) hnone

section Conservation
variable (masterTenantId : String) (row : Ceiling) {st : MbfPartitionStore}
  (hlow : 0 ≤ row.current st) (hhigh : row.current st < 2 ^ 63) {ctxs : Request → IopContext}
  (hfresh : ∀ i, (ctxs i).quotaReservation = none)
  (hunits : ∀ i, row.maxLimit + (ctxs i).debitUnits < 2 ^ 63) {p : Service (Except IopError IopContext) Request}
  (hrun : ServiceRuns row (start masterTenantId st ctxs) p)
include hlow hhigh hfresh hunits hrun

theorem service_balanced : Pool.Balanced (counterContract row) (fun _ => Settled row)
    (Sound row (row.current st)) row.current Tally.held (row.current st) p := by
  apply balanced_run hlow hhigh _ hrun
  intro i
  exact request_keeps masterTenantId (hfresh i) (hunits i)

theorem service_settled {i : Request} {result : Except IopError IopContext}
    (hdone : p.threads i = .done result) : Settled row (p.seen i) result := by
  have hkeeps := (service_balanced masterTenantId row hlow hhigh hfresh hunits hrun).keeps i
  rw [hdone] at hkeeps
  exact hkeeps.2

end Conservation
end Service

/-! ### A request whose write fails -/

def writeQuota : Ceiling := ⟨"t1", "q1", 50, 3⟩

def writeSpec : QuotaSpec := ⟨"q1", "q1", 50, 3, "LIFETIME"⟩

def createTask : IopContext := .new "t1" "u1" "task" "CREATE" ∅

/-- The request after its authorization, and after its debit. -/
def authorizedTask : IopContext := authorized "tnt_master" createTask ⟨"t1", "u1", [], .null⟩

def debitedTask : IopContext :=
  { authorizedTask with quotaReservation := some (reservation authorizedTask writeSpec 4) }

/-- The next call of a request that is alone. -/
theorem next_call {α : Type} {row : Ceiling} {p : Service α Unit} {st : MbfPartitionStore} {t : Tally}
    {left left' : IopProgram α} (h : ServiceRuns row p ⟨st, fun _ => left, fun _ => t⟩) (c : IopCall)
    {next : c.Answer → IopProgram α} (answer : c.Answer) (after : MbfPartitionStore)
    (hcall : left = .call c next) (hperform : Performs row st c answer after)
    (hnext : next answer = left') :
    ServiceRuns row p ⟨after, fun _ => left', fun _ => t.observe row c answer⟩ := by
  subst hcall hnext
  have hupdate {α : Type} (f : Unit → α) (a : α) : Function.update f () a = fun _ => a := by
    funext i
    simp
  have hstep := h.tail (.call () rfl hperform)
  rwa [hupdate, hupdate] at hstep

end MetriEngine.Iop

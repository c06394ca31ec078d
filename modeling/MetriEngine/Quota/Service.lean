import MetriEngine.Foundation.Transition
import MetriEngine.Quota.Account
import MetriEngine.Quota.Ledger
import MetriEngine.Quota.Reservations

/-!
# Reserving, reconciling and sweeping

The calls of the token service on one quota row, in their atomic steps: each access to
the reservation store and each section of the partition store is one step. Steps of
different calls fall in any order; a step may be refused, or take place with its reply
lost; a call may stop for ever between two steps.

The world keeps what was applied to the counter, entry by entry, and which reservations
a sweep closed.
-/
namespace MetriEngine.Quota
open Foundation Storage

/-- A change of the counter made for a reservation. -/
structure Entry where
  id : String
  kind : EntryKind
  change : ℤ
deriving DecidableEq

/-- The quota row, and the input and output tokens that the client of a reservation reports. -/
structure Setting where
  row : Ceiling
  usage : String → ℤ × ℤ

/-- `actual_consumed` -/
def Setting.consumed (s : Setting) (id : String) : ℤ := wrapI64 ((s.usage id).1 + (s.usage id).2)

inductive ReserveAnswer
  | reserved
  | exhausted
  | failed
deriving DecidableEq

inductive ReserveStage
  | opening
  | debiting
  | marking
  | refunding
  | rejecting (answer : ReserveAnswer)
  | answered (answer : ReserveAnswer)
  | dead
deriving DecidableEq

inductive ReconcileAnswer
  | settled
  | aborted
  | notFound
  | failedPrecondition
  | failed
deriving DecidableEq

inductive ReconcileStage
  | claiming
  | settling (r : Reservation)
  | closing (r : Reservation)
  | late (r : Reservation)
  | answered (answer : ReconcileAnswer)
  | dead
deriving DecidableEq

inductive SweepStage
  | picking
  | settling (r : Reservation)
  | closing (r : Reservation)
  | dead
deriving DecidableEq

/-- A call and where it stands; `invalid` is a call refused for its arguments. -/
inductive ServiceCall
  | reserve (r : Reservation) (stage : ReserveStage)
  | reconcile (id : String) (stage : ReconcileStage)
  | sweeper (queue : List Reservation) (stage : SweepStage)
  | invalid
deriving DecidableEq

structure ServiceWorld where
  store : MbfPartitionStore
  items : MemoryReservationStore := ∅
  calls : List ServiceCall := []
  entries : List Entry := []
  swept : List String := []

/-- How a step goes: as it should, refused without effect, or with its reply lost. -/
inductive Happens
  | done
  | refused
  | lost
deriving DecidableEq

def Happens.applies : Happens → Bool
  | refused => false
  | _ => true

/-- `SWEEP_LEASE` and `RECONCILE_LEASE`, in seconds. -/
def leaseSeconds : ℤ := 30

/-- `SWEEP_BATCH` -/
def sweepBatch : ℕ := 25

namespace ServiceWorld

/-! ### Effects -/

/-- `try_debit` for a reservation. -/
def debit (w : ServiceWorld) (row : Ceiling) (r : Reservation) : ServiceWorld × DebitOutcome :=
  match row.tryDebit w.store r.estimated with
  | (st, .debited usage) =>
    ({ w with
      store := st
      entries := w.entries ++ [⟨r.id, .debit, row.current st - row.current w.store⟩] },
      .debited usage)
  | (_, outcome) => (w, outcome)

/-- The counter of a reservation as `quota_settle_once` reads it. -/
def counter (st : MbfPartitionStore) (r : Reservation) : ℤ :=
  (st.quotaCounters.lookup (toLex (r.tenantId, r.quotaId))).getD 0

/-- `settle_once` for a reservation. -/
def settle (w : ServiceWorld) (r : Reservation) (delta : ℤ) (idemKey : String)
    (kind : EntryKind) : ServiceWorld :=
  match settleOnce w.store r.tenantId r.quotaId delta idemKey with
  | (st, .applied) =>
    { w with
      store := st
      entries := w.entries ++ [⟨r.id, kind, counter st r - counter w.store r⟩] }
  | (_, .alreadyApplied) => w

def close (w : ServiceWorld) (r : Reservation) (reason : CloseReason) : ServiceWorld :=
  { w with items := MemoryReservationStore.close w.items r.tenantId r.id reason }

/-! ### The steps of each call -/

/-- The next step of a `reserve_tokens` call. -/
def reserveStep (row : Ceiling) (w : ServiceWorld) (r : Reservation) (h : Happens) :
    ReserveStage → Option (ServiceWorld × ReserveStage)
  | .opening =>
    let w' := if h.applies then
      { w with items := MemoryReservationStore.openReservation w.items r } else w
    some (w', if h = .done then .debiting else .answered .failed)
  | .debiting =>
    let (w', outcome) := w.debit row r
    match h with
    | .done => some (w', if outcome.isDebited then .marking else .rejecting .exhausted)
    | .refused => some (w, .answered .failed)
    | .lost => some (w', .answered .failed)
  | .marking =>
    let w' := if h.applies then
      { w with items := MemoryReservationStore.markDebited w.items r.tenantId r.id } else w
    some (w', if h = .done then .answered .reserved else .refunding)
  | .refunding =>
    let w' := if h.applies then w.settle r (-r.estimated) (settlementKey r.id) .rollback else w
    some (w', .rejecting .failed)
  | .rejecting answer =>
    some (if h.applies then w.close r .rejected else w, .answered answer)
  | .answered _ => none
  | .dead => none

/-- `reconcile_late`, up to its charge. -/
def reconcileLate (s : Setting) (r : Reservation) : CloseReason → ReconcileStage
  | .expired => if 0 < s.consumed r.id then .late r else .answered .settled
  | .settled => .answered .settled
  | .rejected => .answered .failedPrecondition
  | .abandoned => .answered .failedPrecondition

/-- The difference between what was debited and what was spent. -/
def reconcileDelta (s : Setting) (r : Reservation) : ℤ :=
  if r.debited then wrapI64 (s.consumed r.id - r.estimated) else s.consumed r.id

/-- The next step of a `reconcile_tokens` call. -/
def reconcileStep (s : Setting) (w : ServiceWorld) (id : String) (now : ℤ) (h : Happens) :
    ReconcileStage → Option (ServiceWorld × ReconcileStage)
  | .claiming =>
    let (items, result) := MemoryReservationStore.claim w.items s.row.tenantId id now leaseSeconds
    match h with
    | .refused => some (w, .answered .failed)
    | .lost => some ({ w with items }, .answered .failed)
    | .done => some ({ w with items }, match result with
      | .claimed r => .settling r
      | .closed r reason => reconcileLate s r reason
      | .leased _ => .answered .aborted
      | .notFound => .answered .notFound)
  | .settling r =>
    let w' := if h.applies then
      w.settle r (reconcileDelta s r) (settlementKey r.id) .reconciled else w
    some (w', if h = .done then .closing r else .answered .failed)
  | .closing r => some (if h.applies then w.close r .settled else w, .answered .settled)
  | .late r =>
    let w' := if h.applies then w.settle r (s.consumed r.id) (lateChargeKey r.id) .late else w
    some (w', if h = .done then .answered .settled else .answered .failed)
  | .answered _ => none
  | .dead => none

/-- The next step of a sweep, on the reservations it has listed. -/
def sweeperStep (w : ServiceWorld) (now : ℤ) (h : Happens) (queue : List Reservation) :
    SweepStage → Option (ServiceWorld × List Reservation × SweepStage)
  | .picking =>
    match queue with
    | [] => none
    | r :: queue =>
      let (items, result) :=
        MemoryReservationStore.claim w.items r.tenantId r.id now leaseSeconds
      match h with
      | .refused => some (w, queue, .picking)
      | .lost => some ({ w with items }, queue, .picking)
      | .done => some ({ w with items }, queue, match result with
        | .claimed _ => if r.debited then .settling r else .closing r
        | _ => .picking)
  | .settling r =>
    let w' := if h.applies then w.settle r (-r.estimated) (settlementKey r.id) .refunded else w
    some (w', queue, if h = .done then .closing r else .picking)
  | .closing r =>
    let w' := if h.applies then
      { w.close r (if r.debited then .expired else .abandoned) with swept := w.swept ++ [r.id] }
      else w
    some (w', queue, .picking)
  | .dead => none

def setCall (w : ServiceWorld) (c : ℕ) (call : ServiceCall) : ServiceWorld :=
  { w with calls := w.calls.set c call }

/-- The next step of call `c`. -/
def callStep (s : Setting) (w : ServiceWorld) (c : ℕ) (now : ℤ) (h : Happens) :
    ServiceCall → Option ServiceWorld
  | .reserve r stage =>
    (reserveStep s.row w r h stage).map fun n => n.1.setCall c (.reserve r n.2)
  | .reconcile id stage =>
    (reconcileStep s w id now h stage).map fun n => n.1.setCall c (.reconcile id n.2)
  | .sweeper queue stage =>
    (sweeperStep w now h queue stage).map fun n => n.1.setCall c (.sweeper n.2.1 n.2.2)
  | .invalid => none

/-- A call that takes no further step. -/
def killed : ServiceCall → ServiceCall
  | .reserve r _ => .reserve r .dead
  | .reconcile id _ => .reconcile id .dead
  | .sweeper queue _ => .sweeper queue .dead
  | .invalid => .invalid

end ServiceWorld

inductive ServiceAction
  | reserve (id : String) (estimated expiresAt : ℤ)
  | reconcile (id : String)
  | sweeper
  | list (c : ℕ) (shard : ℕ) (now : ℤ) (batch : List Reservation)
  | step (c : ℕ) (now : ℤ) (h : Happens)
  | die (c : ℕ)

/-- The reservation that `reserve_tokens` opens on a row. -/
def Setting.ticket (s : Setting) (id : String) (estimated expiresAt : ℤ) : Reservation where
  id := id
  tenantId := s.row.tenantId
  quotaId := s.row.quotaId
  estimated := estimated
  debited := false
  expiresAt := expiresAt

def ServiceWorld.step (s : Setting) (w : ServiceWorld) : ServiceAction → Option ServiceWorld
  | .reserve id estimated expiresAt =>
    some { w with calls := w.calls ++ [if estimated ≤ 0 then .invalid
      else .reserve (s.ticket id estimated expiresAt) .opening] }
  | .reconcile id =>
    some { w with calls := w.calls ++ [if (s.usage id).1 < 0 ∨ (s.usage id).2 < 0 then .invalid
      else .reconcile id .claiming] }
  | .sweeper => some { w with calls := w.calls ++ [.sweeper [] .picking] }
  | .list c shard now batch =>
    if w.calls[c]? = some (.sweeper [] .picking) ∧
        MemoryReservationStore.Sweeps w.items shard now sweepBatch batch then
      some (w.setCall c (.sweeper batch .picking))
    else none
  | .step c now h => (w.calls[c]?).bind (w.callStep s c now h)
  | .die c => (w.calls[c]?).map fun call =>
    match call with
    | .reserve _ (.answered _) => w
    | .reconcile _ (.answered _) => w
    | call => w.setCall c (ServiceWorld.killed call)

end MetriEngine.Quota

/-!
# What a reconciliation charges

The client reports what it spent; the difference to the estimate is settled on the counter of
the quota. An estimate that was never debited is not taken off, and the counter is never set
below zero. Sums are of 64 bits.
-/
namespace MetriEngine.Quota
open Foundation Storage ServiceWorld

section Charges
variable {s : Setting} {r : Reservation}

/-- The tokens that a client reports. -/
def Setting.reported (s : Setting) (id : String) : ℤ := (s.usage id).1 + (s.usage id).2

/-- The part of the estimate that the counter already carries. -/
def Reservation.carried (r : Reservation) : ℤ := if r.debited then r.estimated else 0

theorem reconcileDelta_eq (he : 0 ≤ r.estimated) (hmax : r.estimated < 2 ^ 63)
    (hlow : 0 ≤ s.reported r.id) (hfits : s.reported r.id < 2 ^ 63) :
    reconcileDelta s r = s.reported r.id - r.carried := by
  have hconsumed : s.consumed r.id = s.reported r.id := wrapI64_of_bounds (by unfold Setting.reported at hlow; omega) hfits
  unfold reconcileDelta Reservation.carried
  rw [hconsumed]
  split_ifs
  · exact wrapI64_of_bounds (by omega) (by omega)
  · exact (sub_zero _).symm

/-- A settlement sets the counter to the sum, or to zero where the sum is below it. -/
theorem quotaSettle_counter (st : MbfPartitionStore) {delta : ℤ}
    (hlow : -2 ^ 63 ≤ counter st r + delta)
    (hhigh : counter st r + delta < 2 ^ 63) :
    counter (st.quotaSettle r.tenantId r.quotaId delta).1 r =
      max (counter st r + delta) 0 := by
  have hnext : wrapI64 (counter st r + delta) = counter st r + delta :=
    wrapI64_of_bounds hlow hhigh
  have hinsert : counter (st.quotaSettle r.tenantId r.quotaId delta).1 r =
      max (wrapI64 (counter st r + delta)) 0 := by
    simp [counter, MbfPartitionStore.quotaSettle]
  rw [hinsert, hnext]

theorem settle_counter {w : ServiceWorld} {delta : ℤ} {key : String} (kind : EntryKind)
    (hnew : w.store.quotaIdem.contains (toLex (r.tenantId, key)) = false)
    (hlow : -2 ^ 63 ≤ counter w.store r + delta)
    (hhigh : counter w.store r + delta < 2 ^ 63) :
    counter (w.settle r delta key kind).store r =
      max (counter w.store r + delta) 0 := by
  rw [← quotaSettle_counter w.store hlow hhigh]
  simp only [ServiceWorld.settle, settleOnce, MbfPartitionStore.quotaSettleOnce, hnew,
    Bool.false_eq_true, if_false]
  rfl

/-- Within 64 bits a reconciliation settles what was reported less the debited estimate, more
reported is not less charged, and the counter takes the settlement up to its floor at zero. -/
theorem reconciliation_charges (he : 0 ≤ r.estimated ∧ r.estimated < 2 ^ 63)
    (hinput : 0 ≤ (s.usage r.id).1) (houtput : 0 ≤ (s.usage r.id).2)
    (hfits : s.reported r.id < 2 ^ 63) :
    reconcileDelta s r = s.reported r.id - r.carried ∧
    (∀ s' : Setting, (s.usage r.id).1 ≤ (s'.usage r.id).1 → (s.usage r.id).2 ≤ (s'.usage r.id).2 →
      s'.reported r.id < 2 ^ 63 → reconcileDelta s r ≤ reconcileDelta s' r) ∧
    ∀ (w : ServiceWorld) (key : String) (kind : EntryKind),
      w.store.quotaIdem.contains (toLex (r.tenantId, key)) = false →
      -2 ^ 63 ≤ counter w.store r + reconcileDelta s r →
      counter w.store r + reconcileDelta s r < 2 ^ 63 →
      counter (w.settle r (reconcileDelta s r) key kind).store r =
        max (counter w.store r + reconcileDelta s r) 0 := by
  have hreported : 0 ≤ s.reported r.id := add_nonneg hinput houtput
  have hdelta := reconcileDelta_eq he.1 he.2 hreported hfits
  refine ⟨hdelta, ?_, ?_⟩
  · intro s' hin hout hfits'
    have hmore : s.reported r.id ≤ s'.reported r.id := add_le_add hin hout
    rw [hdelta, reconcileDelta_eq he.1 he.2 (hreported.trans hmore) hfits']
    exact sub_le_sub_right hmore _
  · intro w key kind hnew hlow hhigh
    exact settle_counter kind hnew hlow hhigh

end Charges

/-! ### One reservation -/

/-- A reservation of five tokens on a row of ten; the client reports three and four. -/
def fiveTokens (debited : Bool) : Reservation where
  id := "r"
  tenantId := "acme"
  quotaId := "q"
  estimated := 5
  debited := debited
  expiresAt := 0

def sevenReported : Setting where
  row := ⟨"acme", "q", 10, 0⟩
  usage := fun _ => (3, 4)

def freshBooks : ServiceWorld := { store := {} }

/-- The seven that were spent make the counter of a fresh store two, the five taken off. -/
theorem five_of_seven_debited :
    reconcileDelta sevenReported (fiveTokens true) = 2 ∧
    counter (freshBooks.settle (fiveTokens true) 2 "k" .reconciled).store
      (fiveTokens true) = 2 := by
  obtain ⟨hdelta, _, hcounter⟩ := @reconciliation_charges sevenReported (fiveTokens true)
    ⟨by decide, by decide⟩ (by decide) (by decide) (by decide)
  have htwo : reconcileDelta sevenReported (fiveTokens true) = 2 := by
    rw [hdelta]
    decide
  have hsettled := hcounter freshBooks "k" .reconciled (by decide) (by decide) (by decide)
  rw [htwo] at hsettled
  refine ⟨htwo, hsettled.trans ?_⟩
  decide

/-- Where the estimate was never debited all seven are charged, not two. -/
theorem undebited_estimate_is_not_taken_off :
    ¬ ∀ (s : Setting) (r : Reservation), 0 ≤ r.estimated → 0 ≤ (s.usage r.id).1 →
      0 ≤ (s.usage r.id).2 → reconcileDelta s r = s.reported r.id - r.estimated := by
  intro h
  have hseven := h sevenReported (fiveTokens false) (by decide) (by decide) (by decide)
  exact absurd hseven (by decide)

end MetriEngine.Quota

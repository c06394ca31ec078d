import MetriEngine.Foundation.OrdMap
import MetriEngine.Storage.Value

/-!
# Token reservations and their in-memory store

A reservation is open or closed; being reconciled is being open under a live lease.
The lease shares the work out, the idempotence key of the settlement keeps it from
being applied twice.
-/
namespace MetriEngine.Quota
open Foundation Storage

structure Reservation where
  id : String
  tenantId : String
  quotaId : String
  estimated : ℤ
  debited : Bool
  expiresAt : ℤ
deriving DecidableEq

inductive ReservationStatus
  | opened
  | closed
deriving DecidableEq

inductive CloseReason
  | settled
  | expired
  | abandoned
  | rejected
deriving DecidableEq

structure Stored where
  reservation : Reservation
  status : ReservationStatus
  leaseUntil : ℤ
  closeReason : CloseReason
deriving DecidableEq

inductive ClaimResult
  | claimed (r : Reservation)
  | leased (r : Reservation)
  | closed (r : Reservation) (reason : CloseReason)
  | notFound
deriving DecidableEq

/-- The idempotence key of the entry that closes a reservation. -/
def settlementKey (id : String) : String := id ++ "#final"

/-- The idempotence key of the charge that comes after it was closed. -/
def lateChargeKey (id : String) : String := id ++ "#late"

theorem settlementKey_inj {a b : String} : settlementKey a = settlementKey b ↔ a = b := by
  simp [settlementKey, String.ext_iff]

theorem lateChargeKey_inj {a b : String} : lateChargeKey a = lateChargeKey b ↔ a = b := by
  simp [lateChargeKey, String.ext_iff]

theorem settlementKey_ne_lateChargeKey (a b : String) : settlementKey a ≠ lateChargeKey b := by
  intro h
  have hlast := congrArg (fun s : String => s.toList.getLast?) h
  simp [settlementKey, lateChargeKey] at hlast

/-- FNV-1a over the octets of the id, modulo the sixteen shards. -/
def shardOf (id : String) : ℕ :=
  (utf8 id).foldl (fun hash byte => Nat.xor hash byte.val * 0x100000001b3 % 2 ^ 64)
    0xcbf29ce484222325 % 16

abbrev MemoryReservationStore := OrdMap String Stored

namespace MemoryReservationStore
variable (items : MemoryReservationStore)

def key (tenantId id : String) : String := tenantId ++ "#" ++ id

theorem key_inj {tenantId a b : String} : key tenantId a = key tenantId b ↔ a = b := by
  simp [key, String.ext_iff]

/-- `open` -/
def openReservation (r : Reservation) : MemoryReservationStore :=
  items.insert (key r.tenantId r.id) ⟨r, .opened, 0, .settled⟩

/-- `get_mut` and a change of what it finds. -/
def update (k : String) (change : Stored → Stored) : MemoryReservationStore :=
  match items.lookup k with
  | some stored => items.insert k (change stored)
  | none => items

def markDebited (tenantId id : String) : MemoryReservationStore :=
  update items (key tenantId id) fun stored =>
    { stored with reservation := { stored.reservation with debited := true } }

def claim (tenantId id : String) (now lease : ℤ) : MemoryReservationStore × ClaimResult :=
  match items.lookup (key tenantId id) with
  | none => (items, .notFound)
  | some stored =>
    if stored.status = .closed then (items, .closed stored.reservation stored.closeReason)
    else if stored.leaseUntil > now then (items, .leased stored.reservation)
    else
      (items.insert (key tenantId id) { stored with leaseUntil := now + lease },
        .claimed stored.reservation)

def close (tenantId id : String) (reason : CloseReason) : MemoryReservationStore :=
  update items (key tenantId id) fun stored =>
    { stored with status := .closed, closeReason := reason, leaseUntil := 0 }

/-- The open reservations of a shard that have expired. -/
def due (shard : ℕ) (now : ℤ) : List Reservation :=
  (items.entries.map fun e => e.2).filterMap fun stored =>
    if stored.status = .opened ∧ stored.reservation.expiresAt < now ∧
        shardOf stored.reservation.id = shard then some stored.reservation
    else none

/-- What `sweep` may return: as many of them as the limit allows, in any order. -/
def Sweeps (shard : ℕ) (now : ℤ) (limit : ℕ) (batch : List Reservation) : Prop :=
  batch.Subperm (due items shard now) ∧ batch.length = min limit (due items shard now).length

instance (shard : ℕ) (now : ℤ) (limit : ℕ) (batch : List Reservation) :
    Decidable (Sweeps items shard now limit batch) :=
  inferInstanceAs (Decidable (_ ∧ _))

variable {items}

theorem lookup_update (k k' : String) (change : Stored → Stored) :
    (update items k change).lookup k' =
      if k' = k then (items.lookup k).map change else items.lookup k' := by
  unfold update
  cases h : items.lookup k with
  | none =>
    split_ifs with hk
    · rw [hk, h]
      rfl
    · rfl
  | some stored =>
    rw [OrdMap.lookup_insert]
    rfl

theorem mem_due {shard : ℕ} {now : ℤ} {r : Reservation} (h : r ∈ due items shard now) :
    ∃ k stored, items.lookup k = some stored ∧ stored.status = .opened ∧
      stored.reservation = r := by
  obtain ⟨stored, hmem, hr⟩ := List.mem_filterMap.mp h
  obtain ⟨⟨k, stored'⟩, he, rfl⟩ := List.mem_map.mp hmem
  split_ifs at hr with hdue
  exact ⟨k, stored', OrdMap.lookup_eq_some.mpr he, hdue.1, Option.some.inj hr⟩

/-- What `claim` leaves and answers. -/
theorem claim_cases (items : MemoryReservationStore) (tenantId id : String) (now lease : ℤ) :
    items.lookup (key tenantId id) = none ∧ claim items tenantId id now lease = (items, .notFound) ∨
      ∃ stored, items.lookup (key tenantId id) = some stored ∧
        (stored.status = .closed ∧ claim items tenantId id now lease =
            (items, .closed stored.reservation stored.closeReason) ∨
          claim items tenantId id now lease = (items, .leased stored.reservation) ∨
          stored.status = .opened ∧ claim items tenantId id now lease =
            (items.insert (key tenantId id) { stored with leaseUntil := now + lease },
              .claimed stored.reservation)) := by
  cases hl : items.lookup (key tenantId id) with
  | none =>
    left
    simp [claim, hl]
  | some stored =>
    right
    refine ⟨stored, rfl, ?_⟩
    cases hs : stored.status with
    | closed =>
      left
      simp [claim, hl, hs]
    | opened =>
      by_cases hlease : stored.leaseUntil > now
      · right
        left
        simp [claim, hl, hs, hlease]
      · right
        right
        simp [claim, hl, hs, hlease]

end MemoryReservationStore
end MetriEngine.Quota

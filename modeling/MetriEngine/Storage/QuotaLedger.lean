import MetriEngine.Storage.Operation

/-!
# Quota calls one after the other

The quota part of a store is its counters and its idempotence marks. A serial run
takes quota calls one by one, each with the reply it gives: a debit only where it is
allowed, a settlement under an idempotence key only where the key is new.
-/
namespace MetriEngine.Storage
open Foundation

@[ext] structure Ledger where
  counters : OrdMap QuotaKey ℤ := ∅
  idem : OrdMap QuotaKey (String × ℤ) := ∅
deriving DecidableEq

namespace Ledger

/-- `a` has no counter that `b` lacks, and no mark that `b` does not have. -/
structure Before (a b : Ledger) : Prop where
  counters : ∀ k, b.counters.lookup k = none → a.counters.lookup k = none
  idem : ∀ k v, a.idem.lookup k = some v → b.idem.lookup k = some v

theorem Before.refl (a : Ledger) : a.Before a := ⟨fun _ => id, fun _ _ => id⟩

theorem Before.trans {a b c : Ledger} (hab : a.Before b) (hbc : b.Before c) : a.Before c :=
  ⟨fun k h => hab.counters k (hbc.counters k h), fun k v h => hbc.idem k v (hab.idem k v h)⟩

theorem empty_before (a : Ledger) : Before {} a := ⟨fun _ _ => rfl, fun _ _ h => by cases h⟩

/-! ### Serial runs -/

/-- The adjusted counter of `settle`: never below zero. -/
def settle (l : Ledger) (tenantId quotaId : String) (delta : ℤ) : Ledger × ℤ :=
  let key := toLex (tenantId, quotaId)
  let next := max (wrapI64 ((l.counters.lookup key).getD 0 + delta)) 0
  ({ l with counters := l.counters.insert key next }, next)

/-- One quota call that takes effect, with its reply. -/
def serialStep (l : Ledger) : StoreOp → Option (Ledger × Reply)
  | .quotaTryDebit tenantId quotaId amount maxLimit seed =>
    let key := toLex (tenantId, quotaId)
    let current := (l.counters.lookup key).getD seed
    if current ≥ maxLimit then none
    else
      let next := wrapI64 (current + amount)
      some ({ l with counters := l.counters.insert key next }, .debited true next)
  | .quotaSettle tenantId quotaId delta =>
    let (l', next) := l.settle tenantId quotaId delta
    some (l', .number next)
  | .quotaSettleOnce tenantId quotaId delta idemKey =>
    let ikey := toLex (tenantId, idemKey)
    if l.idem.contains ikey then none
    else
      let (l', _) := l.settle tenantId quotaId delta
      some ({ l' with idem := l'.idem.insert ikey (quotaId, delta) }, .flag true)
  | _ => none

/-- The calls one after the other, each with the given reply. -/
def serialRun : Ledger → List (StoreOp × Reply) → Option Ledger
  | l, [] => some l
  | l, e :: es =>
    match l.serialStep e.1 with
    | some (l', reply) => if reply = e.2 then serialRun l' es else none
    | none => none

section Serial
variable {l l' : Ledger} {op : StoreOp} {reply : Reply}

theorem insert_counter_before (l : Ledger) (key : QuotaKey) (n : ℤ) :
    l.Before { l with counters := l.counters.insert key n } := by
  refine ⟨?_, fun _ _ => id⟩
  intro k hk
  by_cases h : k = key
  · simp [h] at hk
  · simpa [h] using hk

theorem serialStep_before (h : l.serialStep op = some (l', reply)) : l.Before l' := by
  cases op with
  | quotaTryDebit tenantId quotaId amount maxLimit seed =>
    simp only [serialStep] at h
    split_ifs at h
    cases h
    exact insert_counter_before _ _ _
  | quotaSettle tenantId quotaId delta =>
    cases h
    exact insert_counter_before _ _ _
  | quotaSettleOnce tenantId quotaId delta idemKey =>
    simp only [serialStep] at h
    split_ifs at h with hfresh
    cases h
    refine (insert_counter_before _ _ _).trans ⟨fun _ => id, ?_⟩
    intro k v hk
    have hne : k ≠ toLex (tenantId, idemKey) := by
      rintro rfl
      exact hfresh (OrdMap.contains_iff.mpr ⟨v, hk⟩)
    rw [OrdMap.lookup_insert_of_ne _ _ hne]
    exact hk
  | _ => cases h

theorem serialRun_append {es : List (StoreOp × Reply)} (h : serialRun l es = some l')
    (es' : List (StoreOp × Reply)) : serialRun l (es ++ es') = serialRun l' es' := by
  induction es generalizing l with
  | nil =>
    cases h
    rfl
  | cons e es ih =>
    rw [List.cons_append, serialRun]
    rw [serialRun] at h
    cases hstep : l.serialStep e.1 with
    | none => simp [hstep] at h
    | some r =>
      simp only [hstep] at h ⊢
      split_ifs at h with hreply
      rw [if_pos hreply]
      exact ih h

/-- Appending the call that comes next. -/
theorem serialRun_concat {es : List (StoreOp × Reply)} {l'' : Ledger}
    (h : serialRun l es = some l') (hstep : l'.serialStep op = some (l'', reply)) :
    serialRun l (es ++ [(op, reply)]) = some l'' := by
  rw [serialRun_append h, serialRun, hstep]
  simp [serialRun]

end Serial

/-! ### Idempotence -/

/-- The idempotence key that a call settles under. -/
def idemKey? : StoreOp → Option QuotaKey
  | .quotaSettleOnce tenantId _ _ idemKey => some (toLex (tenantId, idemKey))
  | _ => none

def settledKey (e : StoreOp × Reply) : Option QuotaKey := idemKey? e.1

/-- A step under a key finds it new and leaves it marked. -/
theorem serialStep_idemKey {l l' : Ledger} {op : StoreOp} {reply : Reply} {k : QuotaKey}
    (h : l.serialStep op = some (l', reply)) (hk : idemKey? op = some k) :
    l.idem.lookup k = none ∧ ∃ v, l'.idem.lookup k = some v := by
  cases op with
  | quotaSettleOnce tenantId quotaId delta idemKey =>
    cases hk
    simp only [serialStep] at h
    split_ifs at h with hseen
    cases h
    refine ⟨?_, _, OrdMap.lookup_insert_self _ _ _⟩
    rw [Option.eq_none_iff_forall_ne_some]
    intro v hv
    exact hseen (OrdMap.contains_iff.mpr ⟨v, hv⟩)
  | _ => cases hk

/-- In a serial run every idempotence key is settled at most once, and only if it is new. -/
theorem serialRun_idem {l l' : Ledger} {es : List (StoreOp × Reply)}
    (h : serialRun l es = some l') :
    (es.filterMap settledKey).Nodup ∧
      ∀ k ∈ es.filterMap settledKey, l.idem.lookup k = none := by
  induction es generalizing l with
  | nil => simp
  | cons e es ih =>
    rw [serialRun] at h
    cases hstep : l.serialStep e.1 with
    | none => simp [hstep] at h
    | some r =>
      obtain ⟨l₁, reply⟩ := r
      simp only [hstep] at h
      split_ifs at h
      obtain ⟨hnodup, hnew⟩ := ih h
      have hnew' : ∀ k ∈ es.filterMap settledKey, l.idem.lookup k = none := by
        intro k hk
        rw [Option.eq_none_iff_forall_ne_some]
        intro v hv
        have hlater := (serialStep_before hstep).idem k v hv
        simp [hnew k hk] at hlater
      cases hk : settledKey e with
      | none =>
        rw [List.filterMap_cons_none hk]
        exact ⟨hnodup, hnew'⟩
      | some k =>
        obtain ⟨hfresh, v, hmarked⟩ := serialStep_idemKey hstep hk
        rw [List.filterMap_cons_some hk]
        refine ⟨List.nodup_cons.mpr ⟨?_, hnodup⟩, ?_⟩
        · intro hmem
          simp [hnew k hmem] at hmarked
        · intro k' hk'
          rcases List.mem_cons.mp hk' with rfl | hk'
          · exact hfresh
          · exact hnew' k' hk'

end Ledger

/-! ### The ledger of stores and snapshots -/

def MbfPartitionStore.ledger (st : MbfPartitionStore) : Ledger := ⟨st.quotaCounters, st.quotaIdem⟩

/-- What a fresh store makes of a snapshot. -/
def MbfPartitionWireSnapshot.ledger (snap : MbfPartitionWireSnapshot) : Ledger where
  counters := (∅ : OrdMap QuotaKey ℤ).insertList snap.quotaCounters
  idem := snap.quotaIdem.foldl MbfPartitionStore.applyRemoteIdem ∅

section Merge
variable {st : MbfPartitionStore} {snap : MbfPartitionWireSnapshot}

theorem applyRemoteCounter_newer :
    MbfPartitionStore.applyRemoteCounter true = fun counters e => counters.insert e.1 e.2 := by
  funext counters e
  simp [MbfPartitionStore.applyRemoteCounter]

theorem lookup_foldl_applyRemoteIdem (idem : OrdMap QuotaKey (String × ℤ))
    (l : List (QuotaKey × (String × ℤ))) (k : QuotaKey) :
    (l.foldl MbfPartitionStore.applyRemoteIdem idem).lookup k =
      (idem.lookup k).or ((l.find? fun e => e.1 = k).map Prod.snd) := by
  induction l generalizing idem with
  | nil => simp
  | cons e l ih =>
    rw [List.foldl_cons, ih]
    unfold MbfPartitionStore.applyRemoteIdem
    by_cases hk : e.1 = k
    · subst hk
      cases hl : idem.lookup e.1 <;> simp [OrdMap.contains, hl]
    · have hk' : k ≠ e.1 := fun h => hk h.symm
      split_ifs <;> simp [hk, hk']

/-- A store whose ledger is behind a snapshot that counts as newer takes its ledger over. -/
theorem applyWireSnapshot_ledger (etag : String) (nowMs : ℤ) (hepoch : st.epochId ≤ snap.epochId)
    (hbefore : st.ledger.Before snap.ledger) :
    (st.applyWireSnapshot snap etag nowMs).ledger = snap.ledger := by
  have hnewer : st.remoteIsNewer snap = true := by
    simpa [MbfPartitionStore.remoteIsNewer] using hepoch
  apply Ledger.ext
  · apply OrdMap.ext
    intro k
    have hcounters : (st.applyWireSnapshot snap etag nowMs).ledger.counters =
        st.quotaCounters.insertList snap.quotaCounters := by
      simp only [MbfPartitionStore.ledger, MbfPartitionStore.applyWireSnapshot, hnewer,
        applyRemoteCounter_newer]
      rfl
    rw [hcounters, OrdMap.lookup_insertList_or]
    cases hl : snap.ledger.counters.lookup k with
    | none =>
      have hnone : st.quotaCounters.lookup k = none := hbefore.counters k hl
      have hnone' : ((∅ : OrdMap QuotaKey ℤ).insertList snap.quotaCounters).lookup k = none := hl
      rw [hnone', hnone]
      rfl
    | some n =>
      have hsome : ((∅ : OrdMap QuotaKey ℤ).insertList snap.quotaCounters).lookup k = some n := hl
      rw [hsome]
      rfl
  · apply OrdMap.ext
    intro k
    have hsnap := lookup_foldl_applyRemoteIdem ∅ snap.quotaIdem k
    have hmerged := lookup_foldl_applyRemoteIdem st.quotaIdem snap.quotaIdem k
    cases hl : st.quotaIdem.lookup k with
    | none =>
      rw [hl, Option.none_or] at hmerged
      rw [OrdMap.lookup_empty, Option.none_or] at hsnap
      exact hmerged.trans hsnap.symm
    | some v =>
      rw [hl, Option.some_or] at hmerged
      exact hmerged.trans (hbefore.idem k v hl).symm

theorem toWireSnapshot_ledger (st : MbfPartitionStore) : st.toWireSnapshot.ledger = st.ledger := by
  apply Ledger.ext
  · exact OrdMap.insertList_entries st.quotaCounters
  · apply OrdMap.ext
    intro k
    have hlookup := lookup_foldl_applyRemoteIdem ∅ st.quotaIdem.entries k
    rw [OrdMap.lookup_empty, Option.none_or] at hlookup
    exact hlookup

end Merge

/-! ### Sections -/

def StoreOp.isQuota : StoreOp → Bool
  | quotaTryDebit .. => true
  | quotaSettle .. => true
  | quotaSettleOnce .. => true
  | _ => false

/-- Whether a quota call with this reply took effect. -/
def StoreOp.tookEffect (op : StoreOp) (reply : Reply) : Bool :=
  match op, reply with
  | quotaTryDebit .., .debited allowed _ => allowed
  | quotaSettle .., _ => true
  | quotaSettleOnce .., .flag settled => settled
  | _, _ => false

section Section
variable {st st' : MbfPartitionStore} {op : StoreOp} {nowMs : ℤ}
  {touched : List TouchedEntity} {reply : Reply}

/-- A quota section that changes the store is a serial step on its ledger. -/
theorem commit_serialStep (hquota : op.isQuota = true)
    (hcommit : op.commit st nowMs = .changed st' touched reply) :
    st.ledger.serialStep op = some (st'.ledger, reply) ∧ op.tookEffect reply = true := by
  cases op with
  | quotaTryDebit tenantId quotaId amount maxLimit seed =>
    simp only [StoreOp.commit, MbfPartitionStore.quotaTryDebit] at hcommit
    split_ifs at hcommit with hlimit
    simp only [Outcome.changed.injEq] at hcommit
    obtain ⟨rfl, _, rfl⟩ := hcommit
    refine ⟨?_, rfl⟩
    have hallowed : ¬ (st.ledger.counters.lookup (toLex (tenantId, quotaId))).getD seed ≥ maxLimit :=
      hlimit
    simp only [Ledger.serialStep]
    rw [if_neg hallowed]
    rfl
  | quotaSettle tenantId quotaId delta =>
    simp only [StoreOp.commit, MbfPartitionStore.quotaSettle, Outcome.changed.injEq] at hcommit
    obtain ⟨rfl, _, rfl⟩ := hcommit
    exact ⟨rfl, rfl⟩
  | quotaSettleOnce tenantId quotaId delta idemKey =>
    simp only [StoreOp.commit, MbfPartitionStore.quotaSettleOnce] at hcommit
    split_ifs at hcommit with hseen
    simp only [Outcome.changed.injEq] at hcommit
    obtain ⟨rfl, _, rfl⟩ := hcommit
    refine ⟨?_, rfl⟩
    have hfresh : ¬ st.ledger.idem.contains (toLex (tenantId, idemKey)) = true := hseen
    simp only [Ledger.serialStep]
    rw [if_neg hfresh]
    rfl
  | _ => cases hquota

/-- A section that answers at once took no effect. -/
theorem tookEffect_answered (hcommit : op.commit st nowMs = .answered (.ok reply)) :
    op.tookEffect reply = false := by
  cases op with
  | quotaTryDebit tenantId quotaId amount maxLimit seed =>
    simp only [StoreOp.commit, MbfPartitionStore.quotaTryDebit] at hcommit
    split_ifs at hcommit
    cases hcommit
    rfl
  | quotaSettle tenantId quotaId delta => cases hcommit
  | quotaSettleOnce tenantId quotaId delta idemKey =>
    simp only [StoreOp.commit, MbfPartitionStore.quotaSettleOnce] at hcommit
    split_ifs at hcommit
    cases hcommit
    rfl
  | _ => rfl

end Section
end MetriEngine.Storage

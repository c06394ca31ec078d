import MetriEngine.Quota.Books

/-!
# Reservations are settled once

The condition under which no two closings of a reservation fight for its settlement key,
and the invariant that carries the accounts of all reservations over every run that
meets it.
-/
namespace MetriEngine.Quota
open Foundation Storage

/-! ### The condition -/

/-- The stages of a reservation before its debit. -/
def ReserveStage.isEarly : ReserveStage → Bool
  | opening => true
  | debiting => true
  | _ => false

namespace ServiceCall

def reserves (id : String) : ServiceCall → Bool
  | reserve r _ => r.id = id
  | _ => false

/-- A call that is still going to debit the reservation. -/
def debitsLater (id : String) : ServiceCall → Bool
  | reserve r stage => r.id = id && stage.isEarly
  | _ => false

end ServiceCall

namespace ServiceWorld

/-- No debit of the reservation is still to come, or applied and not closed. -/
def DebitSettled (s : Setting) (w : ServiceWorld) (id : String) : Prop :=
  ((w.history id).hasDebit → (w.mark s (settlementKey id)).isSome = true) ∧
    ∀ call ∈ w.calls, call.debitsLater id = false

instance (h : History) : Decidable h.hasDebit := inferInstanceAs (Decidable (_ ∈ _))

instance (s : Setting) (w : ServiceWorld) (id : String) : Decidable (w.DebitSettled s id) :=
  inferInstanceAs (Decidable (_ ∧ _))

/-- What the step of a call that takes place asks of the state it finds. -/
def StepFits (s : Setting) (w : ServiceWorld) (h : Happens) : ServiceCall → Prop
  | .reserve r .debiting => s.row.current w.store < s.row.maxLimit →
    s.row.current w.store + r.estimated < 2 ^ 63
  | .reconcile _ (.settling r) =>
    match w.mark s (settlementKey r.id) with
    | none => (w.rowCounter s).getD 0 + reconcileDelta s r < 2 ^ 63 ∧
      (r.debited = false → w.DebitSettled s r.id)
    | some delta => h = .done →
      delta = reconcileDelta s r ∨ (w.mark s (lateChargeKey r.id)).isSome = true
  | .reconcile _ (.late r) => w.mark s (lateChargeKey r.id) = none →
    w.mark s (settlementKey r.id) = some (-r.estimated) ∧
      (w.rowCounter s).getD 0 + s.consumed r.id < 2 ^ 63
  | .sweeper _ (.closing r) => r.debited = false → w.DebitSettled s r.id
  | _ => True

instance (s : Setting) (w : ServiceWorld) (h : Happens) (call : ServiceCall) :
    Decidable (w.StepFits s h call) := by
  unfold StepFits
  split
  · infer_instance
  · split <;> infer_instance
  · infer_instance
  · infer_instance
  · infer_instance

/-- A reservation gets a new id, and amounts are 64-bit. -/
def Admissible (s : Setting) (w : ServiceWorld) : ServiceAction → Prop
  | .reserve id estimated _ => estimated < 2 ^ 63 ∧ (∀ call ∈ w.calls, call.reserves id = false) ∧
    w.mark s (settlementKey id) = none ∧ w.mark s (lateChargeKey id) = none
  | .reconcile id => (s.usage id).1 + (s.usage id).2 < 2 ^ 63
  | _ => True

instance (s : Setting) (w : ServiceWorld) (a : ServiceAction) : Decidable (w.Admissible s a) := by
  unfold Admissible
  split <;> infer_instance

/-- Every step that takes place fits the state it finds. -/
def Fits (s : Setting) (w : ServiceWorld) : ServiceAction → Prop
  | .step c _ h => ∀ call ∈ w.calls[c]?, h.applies = true → w.StepFits s h call
  | _ => True

instance (s : Setting) (w : ServiceWorld) (a : ServiceAction) : Decidable (w.Fits s a) := by
  unfold Fits
  split <;> infer_instance

def SettlesGuard (s : Setting) (w : ServiceWorld) (a : ServiceAction) : Prop :=
  w.Admissible s a ∧ w.Fits s a

instance (s : Setting) (w : ServiceWorld) (a : ServiceAction) : Decidable (w.SettlesGuard s a) :=
  inferInstanceAs (Decidable (_ ∧ _))

/-! ### The invariant -/

def Opened (w : ServiceWorld) (r : Reservation) : Prop :=
  ∃ (c : ℕ) (stage : ReserveStage), w.calls[c]? = some (.reserve r stage)

def Charged (s : Setting) (w : ServiceWorld) (id : String) : Prop :=
  Accounted.Charged (s.consumed id) (w.history id)

/-- A copy of an opened reservation; one that says so was debited. -/
def Ticket (w : ServiceWorld) (r : Reservation) : Prop :=
  (∃ r₀, w.Opened r₀ ∧ r = { r₀ with debited := r.debited }) ∧
    (r.debited = true → (w.history r.id).hasDebit)

def ItemOk (s : Setting) (w : ServiceWorld) (k : String) (stored : Stored) : Prop :=
  w.Ticket stored.reservation ∧
    k = MemoryReservationStore.key s.row.tenantId stored.reservation.id ∧
    (stored.status = .closed → stored.closeReason = .settled →
      w.Charged s stored.reservation.id) ∧
    (stored.status = .closed → stored.closeReason = .expired →
      (w.history stored.reservation.id).hasDebit ∧
        (w.mark s (settlementKey stored.reservation.id)).isSome = true)

structure ReserveOk (s : Setting) (w : ServiceWorld) (r : Reservation) (stage : ReserveStage) :
    Prop where
  ticket : r = s.ticket r.id r.estimated r.expiresAt
  positive : 0 < r.estimated
  bounded : r.estimated < 2 ^ 63
  early : stage.isEarly = true → w.history r.id = []
  unopened : stage = .opening → w.items.lookup (MemoryReservationStore.key r.tenantId r.id) = none
  debited : stage = .marking ∨ stage = .refunding → (w.history r.id).hasDebit

def ReconcileOk (s : Setting) (w : ServiceWorld) (id : String) : ReconcileStage → Prop
  | .settling r => w.Ticket r ∧ r.id = id
  | .closing r => w.Ticket r ∧ r.id = id ∧ w.Charged s id
  | .late r => w.Ticket r ∧ r.id = id ∧ (w.history id).hasDebit ∧ 0 < s.consumed id
  | .answered .settled => w.Charged s id
  | _ => True

def SweepOk (s : Setting) (w : ServiceWorld) : SweepStage → Prop
  | .settling r => w.Ticket r ∧ r.debited = true
  | .closing r => w.Ticket r ∧
    (r.debited = true → (w.mark s (settlementKey r.id)).isSome = true)
  | _ => True

def CallOk (s : Setting) (w : ServiceWorld) : ServiceCall → Prop
  | .reserve r stage => w.ReserveOk s r stage
  | .reconcile id stage => 0 ≤ s.consumed id ∧ s.consumed id = (s.usage id).1 + (s.usage id).2 ∧
    w.ReconcileOk s id stage
  | .sweeper queue stage => (∀ r ∈ queue, w.Ticket r) ∧ w.SweepOk s stage
  | .invalid => True

structure Inv (s : Setting) (w : ServiceWorld) : Prop where
  books : Books s w.Opened w
  unique : ∀ (c d : ℕ) (r r' : Reservation) (stage stage' : ReserveStage),
    w.calls[c]? = some (.reserve r stage) → w.calls[d]? = some (.reserve r' stage') →
    r.id = r'.id → c = d
  items : ∀ k stored, w.items.lookup k = some stored → w.ItemOk s k stored
  calls : ∀ (c : ℕ) (call : ServiceCall), w.calls[c]? = some call → w.CallOk s call
  swept : ∀ id ∈ w.swept, (∃ r, w.Opened r ∧ r.id = id) ∧ w.DebitSettled s id

/-! ### What later worlds keep -/

structure Extends (s : Setting) (w w' : ServiceWorld) : Prop where
  opened : ∀ r, w.Opened r → w'.Opened r
  debit : ∀ id, (w.history id).hasDebit → (w'.history id).hasDebit
  mark : ∀ k, (w.mark s k).isSome = true → (w'.mark s k).isSome = true
  charged : ∀ id, w.Charged s id → w'.Charged s id

section Extends
variable {s : Setting} {w w' : ServiceWorld} {r : Reservation} {call : ServiceCall}

theorem Ticket.mono (h : w.Ticket r) (hext : Extends s w w') : w'.Ticket r := by
  obtain ⟨⟨r₀, hopened, hr⟩, hdebited⟩ := h
  exact ⟨⟨r₀, hext.opened r₀ hopened, hr⟩, fun hd => hext.debit _ (hdebited hd)⟩

theorem ItemOk.mono {k : String} {stored : Stored} (h : w.ItemOk s k stored)
    (hext : Extends s w w') : w'.ItemOk s k stored := by
  obtain ⟨hticket, hk, hsettled, hexpired⟩ := h
  refine ⟨hticket.mono hext, hk, ?_, ?_⟩
  · intro hclosed hreason
    exact hext.charged _ (hsettled hclosed hreason)
  · intro hclosed hreason
    obtain ⟨hdebit, hmark⟩ := hexpired hclosed hreason
    exact ⟨hext.debit _ hdebit, hext.mark _ hmark⟩

/-- What is known of a call stays true, if an early reservation keeps its empty history. -/
theorem CallOk.mono (h : w.CallOk s call) (hext : Extends s w w')
    (hearly : ∀ r stage, call = .reserve r stage → stage.isEarly = true →
      w'.history r.id = w.history r.id ∧
        (w.items.lookup (MemoryReservationStore.key r.tenantId r.id) = none →
          w'.items.lookup (MemoryReservationStore.key r.tenantId r.id) = none)) :
    w'.CallOk s call := by
  cases call with
  | reserve r stage =>
    have hr : w.ReserveOk s r stage := h
    refine ⟨hr.ticket, hr.positive, hr.bounded, ?_, ?_, fun hs => hext.debit _ (hr.debited hs)⟩
    · intro hs
      rw [(hearly r stage rfl hs).1]
      exact hr.early hs
    · rintro rfl
      exact (hearly r .opening rfl rfl).2 (hr.unopened rfl)
  | reconcile id stage =>
    obtain ⟨hlow, hsum, hstage⟩ := h
    refine ⟨hlow, hsum, ?_⟩
    cases stage with
    | settling r => exact ⟨hstage.1.mono hext, hstage.2⟩
    | closing r => exact ⟨hstage.1.mono hext, hstage.2.1, hext.charged _ hstage.2.2⟩
    | late r =>
      exact ⟨hstage.1.mono hext, hstage.2.1, hext.debit _ hstage.2.2.1, hstage.2.2.2⟩
    | answered answer =>
      cases answer with
      | settled => exact hext.charged _ hstage
      | _ => trivial
    | claiming => trivial
    | dead => trivial
  | sweeper queue stage =>
    obtain ⟨hqueue, hstage⟩ := h
    refine ⟨fun r hr => (hqueue r hr).mono hext, ?_⟩
    cases stage with
    | settling r => exact ⟨hstage.1.mono hext, hstage.2⟩
    | closing r => exact ⟨hstage.1.mono hext, fun hd => hext.mark _ (hstage.2 hd)⟩
    | picking => trivial
    | dead => trivial
  | invalid => trivial

end Extends

/-! ### One call moves -/

/-- The call that a step leaves in place of another: of the same reservation, and early
only if it was. -/
structure Succeeds (call call' : ServiceCall) : Prop where
  reserve : ∀ r, (∃ stage, call = .reserve r stage) ↔ ∃ stage, call' = .reserve r stage
  early : ∀ id, call'.debitsLater id = true → call.debitsLater id = true

section Move
variable {s : Setting} {w w' : ServiceWorld} {c : ℕ} {call call' : ServiceCall}

theorem setCall_calls (hcall : w.calls[c]? = some call) (d : ℕ) :
    (w.setCall c call').calls[d]? = if c = d then some call' else w.calls[d]? := by
  have hlt := (List.getElem?_eq_some_iff.mp hcall).1
  simp only [setCall, List.getElem?_set, hlt, if_true]

theorem opened_setCall (hcall : w.calls[c]? = some call) (hnext : Succeeds call call')
    (r : Reservation) : (w.setCall c call').Opened r ↔ w.Opened r := by
  constructor
  · rintro ⟨d, stage, hd⟩
    rw [setCall_calls hcall] at hd
    split_ifs at hd with hcd
    · obtain ⟨stage', rfl⟩ := (hnext.reserve r).mpr ⟨stage, Option.some.inj hd⟩
      exact ⟨c, stage', hcall⟩
    · exact ⟨d, stage, hd⟩
  · rintro ⟨d, stage, hd⟩
    by_cases hcd : c = d
    · subst hcd
      obtain ⟨stage', hstage'⟩ :=
        (hnext.reserve r).mp ⟨stage, Option.some.inj (hcall.symm.trans hd)⟩
      exact ⟨c, stage', by rw [setCall_calls hcall, if_pos rfl, hstage']⟩
    · exact ⟨d, stage, by rw [setCall_calls hcall, if_neg hcd, hd]⟩

theorem debitsLater_setCall (hcall : w.calls[c]? = some call) (hnext : Succeeds call call')
    {id : String} (h : ∀ call ∈ w.calls, call.debitsLater id = false) :
    ∀ call ∈ (w.setCall c call').calls, call.debitsLater id = false := by
  intro other hother
  rcases List.mem_or_eq_of_mem_set hother with hmem | rfl
  · exact h other hmem
  · by_contra hlater
    have hbefore := hnext.early id (Bool.eq_true_of_not_eq_false hlater)
    rw [h call (List.mem_of_getElem? hcall)] at hbefore
    cases hbefore

/-- An effect that leaves the calls alone. -/
structure Effect (s : Setting) (w w' : ServiceWorld) (c : ℕ) (call : ServiceCall) : Prop where
  calls : w'.calls = w.calls
  books : Books s w.Opened w'
  ext : Extends s w w'
  early : ∀ (d : ℕ) (r : Reservation) (stage : ReserveStage), d ≠ c →
    w.calls[d]? = some (.reserve r stage) → stage.isEarly = true →
    w'.history r.id = w.history r.id ∧
      (w.items.lookup (MemoryReservationStore.key r.tenantId r.id) = none →
        w'.items.lookup (MemoryReservationStore.key r.tenantId r.id) = none)
  debits : ∀ id, (w'.history id).hasDebit → (w.history id).hasDebit ∨ call.debitsLater id = true
  items : ∀ k stored, w'.items.lookup k = some stored →
    w.items.lookup k = some stored ∨ w'.ItemOk s k stored
  swept : ∀ id ∈ w'.swept, id ∈ w.swept ∨
    (∃ r, w.Opened r ∧ r.id = id) ∧ w'.DebitSettled s id

/-- An effect and the next stage of the call that had it keep the invariant. -/
theorem Inv.advance (h : w.Inv s) (hcall : w.calls[c]? = some call)
    (heffect : Effect s w w' c call) (hnext : Succeeds call call') (hnew : w'.CallOk s call') :
    (w'.setCall c call').Inv s := by
  have hcall' : w'.calls[c]? = some call := by
    rw [heffect.calls]
    exact hcall
  have hopened' : w'.Opened = w.Opened := by
    funext r
    simp only [Opened, heffect.calls]
  have hopened : (w'.setCall c call').Opened = w.Opened := by
    funext r
    rw [← hopened']
    exact propext (opened_setCall hcall' hnext r)
  have hlast : Extends s w' (w'.setCall c call') := by
    refine ⟨?_, fun _ => id, fun _ => id, fun _ => id⟩
    intro r hr
    rw [hopened, ← hopened']
    exact hr
  have hall : Extends s w (w'.setCall c call') := by
    refine ⟨?_, heffect.ext.debit, heffect.ext.mark, heffect.ext.charged⟩
    intro r hr
    rw [hopened]
    exact hr
  refine ⟨?_, ?_, ?_, ?_, ?_⟩
  · rw [hopened]
    exact ⟨heffect.books.account, heffect.books.final, heffect.books.late, heffect.books.owned,
      heffect.books.counter, heffect.books.present⟩
  · intro d d' r r' stage stage' hd hd' hid
    -- the reservation of a call is the one it had before the step
    have hbefore {d : ℕ} {r : Reservation} {stage : ReserveStage}
        (hd : (w'.setCall c call').calls[d]? = some (.reserve r stage)) :
        ∃ stage, w.calls[d]? = some (.reserve r stage) := by
      rw [setCall_calls hcall'] at hd
      split_ifs at hd with hcd
      · obtain ⟨stage', rfl⟩ := (hnext.reserve r).mpr ⟨stage, Option.some.inj hd⟩
        exact ⟨stage', hcd ▸ hcall⟩
      · rw [heffect.calls] at hd
        exact ⟨stage, hd⟩
    obtain ⟨stage₁, h₁⟩ := hbefore hd
    obtain ⟨stage₂, h₂⟩ := hbefore hd'
    exact h.unique d d' r r' stage₁ stage₂ h₁ h₂ hid
  · intro k stored hk
    rcases heffect.items k stored hk with hold | hok
    · exact (h.items k stored hold).mono hall
    · exact hok.mono hlast
  · intro d other hd
    rw [setCall_calls hcall'] at hd
    split_ifs at hd with hcd
    · cases hd
      exact hnew.mono hlast fun r stage _ _ => ⟨rfl, id⟩
    · rw [heffect.calls] at hd
      apply (h.calls d other hd).mono hall
      rintro r stage rfl hstage
      exact heffect.early d r stage (Ne.symm hcd) hd hstage
  · intro id hid
    rw [hopened]
    rcases heffect.swept id hid with hold | ⟨hr, hsettled⟩
    · obtain ⟨hr, hdebit, hlater⟩ := h.swept id hold
      refine ⟨hr, ?_, debitsLater_setCall hcall' hnext (heffect.calls ▸ hlater)⟩
      intro hafter
      rcases heffect.debits id hafter with hbefore | hcalled
      · exact heffect.ext.mark _ (hdebit hbefore)
      · rw [hlater call (List.mem_of_getElem? hcall)] at hcalled
        cases hcalled
    · exact ⟨hr, hsettled.1, debitsLater_setCall hcall' hnext hsettled.2⟩

/-- Only the items and the swept list change. -/
theorem Effect.quiet (h : w.Inv s) {items : MemoryReservationStore} {swept : List String}
    (hearly : ∀ (d : ℕ) (r : Reservation) (stage : ReserveStage), d ≠ c →
      w.calls[d]? = some (.reserve r stage) → stage.isEarly = true →
      w.items.lookup (MemoryReservationStore.key r.tenantId r.id) = none →
        items.lookup (MemoryReservationStore.key r.tenantId r.id) = none)
    (hitems : ∀ k stored, items.lookup k = some stored →
      w.items.lookup k = some stored ∨ w.ItemOk s k stored)
    (hswept : ∀ id ∈ swept, id ∈ w.swept ∨
      (∃ r, w.Opened r ∧ r.id = id) ∧ w.DebitSettled s id) :
    Effect s w { w with items, swept } c call where
  calls := rfl
  books := ⟨h.books.account, h.books.final, h.books.late, h.books.owned, h.books.counter,
    h.books.present⟩
  ext := ⟨fun _ => id, fun _ => id, fun _ => id, fun _ => id⟩
  early d r stage hd hcall hstage := ⟨rfl, hearly d r stage hd hcall hstage⟩
  debits _ := Or.inl
  items k stored hk := hitems k stored hk
  swept id hid := hswept id hid

/-- Nothing changes. -/
theorem Effect.refl (h : w.Inv s) : Effect s w w c call :=
  Effect.quiet h (fun _ _ _ _ _ _ => id) (fun _ _ => Or.inl) fun _ => Or.inl

/-- An entry is posted for a reservation that is not charged yet, and whose own call is
the one that moves or past its debit. -/
theorem Effect.posted {e : Entry} {key : Option String}
    (hpost : Posted s w w' e key) (hbooks : Books s w.Opened w')
    (hcharged : ¬ w.Charged s e.id)
    (hearly : ∀ (d : ℕ) (r : Reservation) (stage : ReserveStage), d ≠ c →
      w.calls[d]? = some (.reserve r stage) → stage.isEarly = true → r.id ≠ e.id)
    (hdebit : e.kind = .debit → call.debitsLater e.id = true) : Effect s w w' c call where
  calls := hpost.calls
  books := hbooks
  ext := by
    refine ⟨?_, ?_, ?_, ?_⟩
    · intro r hr
      simpa only [Opened, hpost.calls] using hr
    · intro id hid
      rw [hpost.history]
      split_ifs
      · exact (History.hasDebit_concat _ _ _).mpr (Or.inl hid)
      · exact hid
    · intro k hk
      rw [hpost.marks]
      split_ifs
      · rfl
      · exact hk
    · intro id hid
      have hne : e.id ≠ id := by
        rintro rfl
        exact hcharged hid
      unfold Charged
      rw [hpost.history, if_neg hne]
      exact hid
  early d r stage hd hcall hstage := by
    have hne := hearly d r stage hd hcall hstage
    refine ⟨by rw [hpost.history, if_neg hne.symm], ?_⟩
    rw [hpost.items]
    exact id
  debits id hid := by
    rw [hpost.history] at hid
    split_ifs at hid with heq
    · rcases (History.hasDebit_concat _ _ _).mp hid with hbefore | hkind
      · exact Or.inl hbefore
      · exact Or.inr (heq ▸ hdebit hkind)
    · exact Or.inl hid
  items k stored hk := by
    rw [hpost.items] at hk
    exact Or.inl hk
  swept id hid := by
    rw [hpost.swept] at hid
    exact Or.inl hid

end Move
end ServiceWorld
end MetriEngine.Quota

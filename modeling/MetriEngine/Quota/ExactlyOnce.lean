import MetriEngine.Quota.Settlement

/-!
# Every step keeps the accounts

One lemma for each stage of a call that has an effect, the step lemmas of the three kinds
of calls from them, and the run: whatever the interleaving, a reservation that was
answered as settled costs its consumption, and one that was only swept costs nothing.
-/
namespace MetriEngine.Quota
open Foundation Storage
namespace ServiceWorld

variable {s : Setting} {w : ServiceWorld} {c : ℕ} {r : Reservation} {stage : ReserveStage}

/-! ### What the invariant says of a reservation -/

theorem Inv.ticket (h : w.Inv s) (hr : w.Opened r) : r = s.ticket r.id r.estimated r.expiresAt := by
  obtain ⟨c, stage, hcall⟩ := hr
  have hok : w.ReserveOk s r stage := h.calls c _ hcall
  exact hok.ticket

theorem Inv.positive (h : w.Inv s) (hr : w.Opened r) : 0 < r.estimated := by
  obtain ⟨c, stage, hcall⟩ := hr
  have hok : w.ReserveOk s r stage := h.calls c _ hcall
  exact hok.positive

theorem Inv.bounded (h : w.Inv s) (hr : w.Ticket r) : r.estimated < 2 ^ 63 := by
  obtain ⟨⟨r₀, ⟨c, stage, hcall⟩, heq⟩, _⟩ := hr
  have hok : w.ReserveOk s r₀ stage := h.calls c _ hcall
  rw [heq]
  exact hok.bounded

theorem Inv.inj (h : w.Inv s) {r r' : Reservation} (hr : w.Opened r) (hr' : w.Opened r')
    (hid : r.id = r'.id) : r = r' := by
  obtain ⟨c, stage, hcall⟩ := hr
  obtain ⟨d, stage', hcall'⟩ := hr'
  obtain rfl := h.unique c d r r' stage stage' hcall hcall' hid
  rw [hcall'] at hcall
  cases hcall
  rfl

/-- A reservation with entries is past its debit. -/
theorem Inv.notEarly (h : w.Inv s) {id : String} (hne : w.history id ≠ []) :
    ∀ call ∈ w.calls, call.debitsLater id = false := by
  intro call hcall
  obtain ⟨d, hd⟩ := List.mem_iff_getElem?.mp hcall
  cases call with
  | reserve r stage =>
    have hok : w.ReserveOk s r stage := h.calls d _ hd
    by_contra hlater
    have hlater' : r.id = id ∧ stage.isEarly = true := by
      simpa [ServiceCall.debitsLater] using hlater
    exact hne (hlater'.1 ▸ hok.early hlater'.2)
  | _ => rfl

theorem history_ne_nil_of_hasDebit {h : History} (hdebit : h.hasDebit) : h ≠ [] := by
  rintro rfl
  cases hdebit

/-- The copies of a reservation differ from it in nothing but the mark of the debit. -/
theorem Inv.copy (h : w.Inv s) (hr : w.Ticket r) :
    ∃ r₀, w.Opened r₀ ∧ r.id = r₀.id ∧ r.estimated = r₀.estimated ∧ r.tenantId = s.row.tenantId ∧
      r.quotaId = s.row.quotaId := by
  obtain ⟨⟨r₀, hopened, heq⟩, _⟩ := hr
  have hticket := h.ticket hopened
  refine ⟨r₀, hopened, by rw [heq], by rw [heq], ?_, ?_⟩
  · rw [heq, hticket]
    rfl
  · rw [heq, hticket]
    rfl

theorem Inv.account (h : w.Inv s) (hr : w.Ticket r) :
    Accounted r.estimated (s.consumed r.id) (w.history r.id) ∧ 0 < r.estimated ∧
      w.mark s (settlementKey r.id) = (w.history r.id).final ∧
      w.mark s (lateChargeKey r.id) = (w.history r.id).late := by
  obtain ⟨r₀, hopened, hid, hest, _, _⟩ := h.copy hr
  rw [hid, hest]
  exact ⟨h.books.account r₀ hopened, h.positive hopened, h.books.final r₀ hopened,
    h.books.late r₀ hopened⟩

/-! ### Settlements -/

/-- A settlement under a new key that continues the account of its reservation. -/
theorem Inv.settle (h : w.Inv s) (hr : w.Ticket r) {delta : ℤ} {key : String} {kind : EntryKind}
    (hkey : key = settlementKey r.id ∧ kind.isFinal = true ∧ kind ≠ .late ∨
      key = lateChargeKey r.id ∧ kind = .late)
    (hdebit : kind ≠ .debit) (hmark : w.mark s key = none)
    (hacc : Accounted r.estimated (s.consumed r.id) (w.history r.id ++ [(kind, delta)]))
    (hsum : 0 ≤ (w.history r.id).net + delta) (hfits : (w.rowCounter s).getD 0 + delta < 2 ^ 63)
    (hcharged : ¬ w.Charged s r.id) (hearly : ∀ call ∈ w.calls, call.debitsLater r.id = false)
    (c : ℕ) (call : ServiceCall) :
    Effect s w (w.settle r delta key kind) c call ∧
      (w.settle r delta key kind).history r.id = w.history r.id ++ [(kind, delta)] ∧
      ((w.settle r delta key kind).mark s key).isSome = true := by
  obtain ⟨r₀, hopened, hid, hest, htenant, hquota⟩ := h.copy hr
  have hpositive : ∀ r, w.Opened r → 0 < r.estimated := fun r hr => h.positive hr
  have hlow := h.books.counter_nonneg hpositive
  have hnet := h.books.net_le_counter hpositive r.id
  have hpost := settle_of_unmarked kind htenant hquota hmark hlow (by omega) hfits
  have hbooks : Books s w.Opened (w.settle r delta key kind) := by
    refine h.books.post (fun r r' hr hr' hrid => h.inj hr hr' hrid) hpost hopened hid ?_ ?_ ?_ ?_
    · rw [← hid, ← hest]
      exact hacc
    · rcases hkey with ⟨rfl, hfinal, _⟩ | ⟨rfl, rfl⟩
      · rw [h.books.final r₀ hopened |>.symm, ← hid]
        exact ⟨fun _ => hfinal, fun _ => ⟨rfl, hmark⟩⟩
      · constructor
        · rintro ⟨heq, _⟩
          exact absurd (Option.some.inj heq).symm (settlementKey_ne_lateChargeKey _ _)
        · intro hf
          cases hf
    · rcases hkey with ⟨rfl, _, hlate⟩ | ⟨rfl, rfl⟩
      · constructor
        · rintro ⟨heq, _⟩
          exact absurd (Option.some.inj heq) (settlementKey_ne_lateChargeKey _ _)
        · intro hk
          exact absurd hk hlate
      · rw [h.books.late r₀ hopened |>.symm, ← hid]
        exact ⟨fun _ => rfl, fun _ => ⟨rfl, hmark⟩⟩
    · rcases hkey with ⟨rfl, _, _⟩ | ⟨rfl, _⟩
      · right
        left
        rw [h.books.final r₀ hopened |>.symm, ← hid]
        exact ⟨rfl, hmark⟩
      · right
        right
        rw [h.books.late r₀ hopened |>.symm, ← hid]
        exact ⟨rfl, hmark⟩
  refine ⟨Effect.posted hpost hbooks hcharged ?_ fun hk => absurd hk hdebit, ?_, ?_⟩
  · intro d r' stage _ hd hstage hrid
    have hlater := hearly _ (List.mem_of_getElem? hd)
    simp [ServiceCall.debitsLater, hrid, hstage] at hlater
  · rw [hpost.history, if_pos rfl]
  · rw [hpost.marks, if_pos rfl]
    rfl

/-- The estimate is given back under the settlement key, at most once. -/
theorem Inv.giveBack (h : w.Inv s) (hr : w.Ticket r) (hdebit : (w.history r.id).hasDebit)
    (kind : EntryKind) (hkind : kind.isReturn = true) (hbound : r.estimated < 2 ^ 63)
    (c : ℕ) (call : ServiceCall) :
    Effect s w (w.settle r (-r.estimated) (settlementKey r.id) kind) c call ∧
      ((w.settle r (-r.estimated) (settlementKey r.id) kind).mark s
        (settlementKey r.id)).isSome = true := by
  obtain ⟨hacc, hpos, hfinal, hlate⟩ := h.account hr
  obtain ⟨r₀, hopened, hid, hest, htenant, hquota⟩ := h.copy hr
  cases hmark : w.mark s (settlementKey r.id) with
  | some n =>
    have hsame : w.settle r (-r.estimated) (settlementKey r.id) kind = w :=
      settle_of_marked kind htenant (by rw [hmark]; rfl)
    rw [hsame, hmark]
    exact ⟨Effect.refl h, rfl⟩
  | none =>
    have hhistory := hacc.eq_debited hdebit (hfinal ▸ hmark)
    have hcounter : (w.rowCounter s).getD 0 < 2 ^ 63 := by
      cases hv : w.rowCounter s with
      | none => simp
      | some v => exact (h.books.counter v hv).2
    have hcharged : ¬ w.Charged s r.id := by
      rintro ⟨hsome, _⟩
      rw [← hfinal, hmark] at hsome
      cases hsome
    obtain ⟨heffect, _, hmarked⟩ := h.settle hr
      (Or.inl ⟨rfl, Accounted.isFinal_of_isReturn hkind, Accounted.ne_late_of_isReturn hkind⟩)
      (Accounted.ne_debit_of_isReturn hkind) hmark
      (by rw [hhistory]; exact .returned hkind)
      (by rw [hhistory]; simp [History.net]) (by omega) hcharged
      (h.notEarly (history_ne_nil_of_hasDebit hdebit)) c call
    exact ⟨heffect, hmarked⟩

/-- A reconciliation under the settlement key leaves its reservation charged, if the key
is new, was used for the same amount, or the late charge was made. -/
theorem Inv.reconcile (h : w.Inv s) (hr : w.Ticket r) (hlow : 0 ≤ s.consumed r.id)
    {happens : Happens} (hfits : w.StepFits s happens (.reconcile r.id (.settling r)))
    (hbound : r.estimated < 2 ^ 63) (c : ℕ) (call : ServiceCall) :
    Effect s w (w.settle r (reconcileDelta s r) (settlementKey r.id) .reconciled) c call ∧
      (happens = .done → (w.settle r (reconcileDelta s r) (settlementKey r.id)
        .reconciled).Charged s r.id) := by
  obtain ⟨hacc, hpos, hfinal, hlate⟩ := h.account hr
  obtain ⟨r₀, hopened, hid, hest, htenant, hquota⟩ := h.copy hr
  have hconsumed := wrapI64_bounds ((s.usage r.id).1 + (s.usage r.id).2)
  have hconsumed' : s.consumed r.id < 2 ^ 63 := hconsumed.2
  have hdelta : reconcileDelta s r =
      if r.debited then s.consumed r.id - r.estimated else s.consumed r.id := by
    unfold reconcileDelta
    rw [wrapI64_of_bounds (by omega) (by omega)]
  unfold StepFits at hfits
  cases hmark : w.mark s (settlementKey r.id) with
  | some n =>
    have hsame : w.settle r (reconcileDelta s r) (settlementKey r.id) .reconciled = w :=
      settle_of_marked .reconciled htenant (by rw [hmark]; rfl)
    rw [hsame]
    refine ⟨Effect.refl h, ?_⟩
    intro hdone
    simp only [hmark] at hfits
    rcases hfits hdone with hsamedelta | hcharged
    · rw [hmark, hsamedelta, hdelta] at hfinal
      cases hdebited : r.debited with
      | true =>
        rw [hdebited, if_pos rfl] at hfinal
        exact hacc.charged_of_debited_final (hr.2 hdebited) hfinal.symm
      | false =>
        rw [hdebited] at hfinal
        exact hacc.charged_of_undebited_final hpos hlow hfinal.symm
    · exact hacc.charged_of_late (hlate ▸ hcharged)
  | none =>
    simp only [hmark] at hfits
    obtain ⟨hsum, hsettled⟩ := hfits
    have hcharged : ¬ w.Charged s r.id := by
      rintro ⟨hsome, _⟩
      rw [← hfinal, hmark] at hsome
      cases hsome
    have hclosed : (w.history r.id).final = none := hfinal ▸ hmark
    have hkey : settlementKey r.id = settlementKey r.id ∧ EntryKind.reconciled.isFinal = true ∧
        EntryKind.reconciled ≠ .late ∨
        settlementKey r.id = lateChargeKey r.id ∧ EntryKind.reconciled = .late :=
      Or.inl ⟨rfl, rfl, by decide⟩
    cases hdebited : r.debited with
    | true =>
      have hhistory := hacc.eq_debited (hr.2 hdebited) hclosed
      rw [hdebited, if_pos rfl] at hdelta
      obtain ⟨heffect, hafter, _⟩ := h.settle hr hkey (by decide) hmark
        (by rw [hhistory, hdelta]; exact .settled hlow)
        (by rw [hhistory, hdelta]; simp [History.net]; exact hlow) hsum hcharged
        (h.notEarly (history_ne_nil_of_hasDebit (hr.2 hdebited))) c call
      refine ⟨heffect, fun _ => ?_⟩
      unfold Charged
      rw [hafter, hhistory, hdelta]
      exact ⟨by simp [History.final], by simp [History.net]⟩
    | false =>
      obtain ⟨hnone, hearly⟩ := hsettled hdebited
      have hundebited : ¬ (w.history r.id).hasDebit := by
        intro hdebit
        have hsome := hnone hdebit
        rw [hmark] at hsome
        cases hsome
      have hhistory := hacc.eq_untouched hundebited hclosed
      rw [hdebited] at hdelta
      simp only [Bool.false_eq_true, if_false] at hdelta
      obtain ⟨heffect, hafter, _⟩ := h.settle hr hkey (by decide) hmark
        (by rw [hhistory, hdelta]; exact .undebited hlow)
        (by rw [hhistory, hdelta]; simpa [History.net] using hlow) hsum hcharged hearly c call
      refine ⟨heffect, fun _ => ?_⟩
      unfold Charged
      rw [hafter, hhistory, hdelta]
      exact ⟨by simp [History.final], by simp [History.net]⟩

/-- A late charge leaves its reservation charged, if the estimate was given back. -/
theorem Inv.lateCharge (h : w.Inv s) (hr : w.Ticket r) (hdebit : (w.history r.id).hasDebit)
    (hlow : 0 < s.consumed r.id) {happens : Happens}
    (hfits : w.StepFits s happens (.reconcile r.id (.late r))) (c : ℕ) (call : ServiceCall) :
    Effect s w (w.settle r (s.consumed r.id) (lateChargeKey r.id) .late) c call ∧
      (w.settle r (s.consumed r.id) (lateChargeKey r.id) .late).Charged s r.id := by
  obtain ⟨hacc, hpos, hfinal, hlate⟩ := h.account hr
  obtain ⟨r₀, hopened, hid, hest, htenant, hquota⟩ := h.copy hr
  cases hmark : w.mark s (lateChargeKey r.id) with
  | some n =>
    have hsame : w.settle r (s.consumed r.id) (lateChargeKey r.id) .late = w :=
      settle_of_marked .late htenant (by rw [hmark]; rfl)
    rw [hsame]
    refine ⟨Effect.refl h, hacc.charged_of_late ?_⟩
    rw [← hlate, hmark]
    rfl
  | none =>
    obtain ⟨hreturned, hsum⟩ := hfits hmark
    obtain ⟨k, hk, hhistory⟩ := hacc.eq_returned hpos hlow (hfinal ▸ hreturned) (hlate ▸ hmark)
    have hcharged : ¬ w.Charged s r.id := by
      rintro ⟨_, hnet⟩
      rw [hhistory] at hnet
      simp [History.net] at hnet
      omega
    obtain ⟨heffect, hafter, _⟩ := h.settle hr (Or.inr ⟨rfl, rfl⟩) (by decide) hmark
      (by rw [hhistory]; exact .late hk hlow)
      (by rw [hhistory]; simp [History.net]; omega) hsum hcharged
      (h.notEarly (history_ne_nil_of_hasDebit hdebit)) c call
    refine ⟨heffect, ?_⟩
    unfold Charged
    rw [hafter, hhistory]
    exact ⟨by simp [History.final, Accounted.isFinal_of_isReturn hk], by simp [History.net]⟩

/-! ### The steps of the calls -/

theorem succeeds_reserve {stage stage' : ReserveStage}
    (h : stage'.isEarly = true → stage.isEarly = true) :
    Succeeds (.reserve r stage) (.reserve r stage') := by
  constructor
  · intro r'
    constructor
    · rintro ⟨_, heq⟩
      cases heq
      exact ⟨stage', rfl⟩
    · rintro ⟨_, heq⟩
      cases heq
      exact ⟨stage, rfl⟩
  · intro id hlater
    simp only [ServiceCall.debitsLater, Bool.and_eq_true] at hlater ⊢
    exact ⟨hlater.1, h hlater.2⟩

theorem succeeds_reconcile {id : String} (stage stage' : ReconcileStage) :
    Succeeds (.reconcile id stage) (.reconcile id stage') := by
  constructor
  · intro r
    constructor
    · rintro ⟨_, heq⟩
      cases heq
    · rintro ⟨_, heq⟩
      cases heq
  · intro _ hlater
    cases hlater

theorem succeeds_sweeper (queue queue' : List Reservation) (stage stage' : SweepStage) :
    Succeeds (.sweeper queue stage) (.sweeper queue' stage') := by
  constructor
  · intro r
    constructor
    · rintro ⟨_, heq⟩
      cases heq
    · rintro ⟨_, heq⟩
      cases heq
  · intro _ hlater
    cases hlater

/-- The stages of `reserve_tokens` after its debit carry no more than their ticket. -/
theorem ReserveOk.over (h : w.ReserveOk s r stage) {w' : ServiceWorld} {stage' : ReserveStage}
    (hearly : stage'.isEarly = false)
    (hdebit : stage' = .marking ∨ stage' = .refunding → (w'.history r.id).hasDebit) :
    w'.ReserveOk s r stage' where
  ticket := h.ticket
  positive := h.positive
  bounded := h.bounded
  early he := by
    rw [hearly] at he
    cases he
  unopened he := by
    rw [he] at hearly
    cases hearly
  debited := hdebit

theorem ReserveOk.finished (h : w.ReserveOk s r stage) {w' : ServiceWorld} {stage' : ReserveStage}
    (hearly : stage'.isEarly = false) (hmarking : stage' ≠ .marking)
    (hrefunding : stage' ≠ .refunding) : w'.ReserveOk s r stage' := by
  apply h.over hearly
  rintro (rfl | rfl)
  · exact absurd rfl hmarking
  · exact absurd rfl hrefunding

/-- The items change under one key, to something that is in order. -/
theorem Effect.item (h : w.Inv s) {items : MemoryReservationStore} {k : String}
    (hother : ∀ k', k' ≠ k → items.lookup k' = w.items.lookup k')
    (hsame : ∀ stored, items.lookup k = some stored → w.ItemOk s k stored)
    (hnone : ∀ (d : ℕ) (r : Reservation) (stage : ReserveStage), d ≠ c →
      w.calls[d]? = some (.reserve r stage) → stage.isEarly = true →
      k = MemoryReservationStore.key r.tenantId r.id → w.items.lookup k = none →
      items.lookup k = none) {call : ServiceCall} : Effect s w { w with items } c call := by
  apply Effect.quiet h
  · intro d r stage hd hcall hstage hunopened
    by_cases hk : MemoryReservationStore.key r.tenantId r.id = k
    · rw [hk] at hunopened ⊢
      exact hnone d r stage hd hcall hstage hk.symm hunopened
    · rw [hother _ hk]
      exact hunopened
  · intro k' stored hk'
    by_cases hk : k' = k
    · subst hk
      exact Or.inr (hsame stored hk')
    · rw [hother _ hk] at hk'
      exact Or.inl hk'
  · intro id hid
    exact Or.inl hid

/-- An item that is there changes. -/
theorem Effect.update (h : w.Inv s) {k : String} {change : Stored → Stored}
    (hchange : ∀ stored, w.items.lookup k = some stored → w.ItemOk s k (change stored))
    {call : ServiceCall} :
    Effect s w { w with items := MemoryReservationStore.update w.items k change } c call := by
  apply Effect.item h
  · intro k' hk'
    rw [MemoryReservationStore.lookup_update, if_neg hk']
  · intro stored hstored
    rw [MemoryReservationStore.lookup_update, if_pos rfl] at hstored
    obtain ⟨old, hold, rfl⟩ := Option.map_eq_some_iff.mp hstored
    exact hchange old hold
  · intro d r stage _ _ _ _ hnone
    rw [MemoryReservationStore.lookup_update, if_pos rfl, hnone]
    rfl

/-- Closing for a reason that the account bears out. -/
theorem Effect.close (h : w.Inv s) {reason : CloseReason} (htenant : r.tenantId = s.row.tenantId)
    (hsettled : reason = .settled → w.Charged s r.id)
    (hexpired : reason = .expired → (w.history r.id).hasDebit ∧
      (w.mark s (settlementKey r.id)).isSome = true) {call : ServiceCall} :
    Effect s w (w.close r reason) c call := by
  apply Effect.update h
  intro stored hstored
  obtain ⟨hticket, hk, _, _⟩ := h.items _ stored hstored
  rw [htenant] at hk
  have hid : r.id = stored.reservation.id := MemoryReservationStore.key_inj.mp hk
  refine ⟨hticket, by rw [htenant]; exact hk, ?_, ?_⟩
  · intro _ hreason
    exact hid ▸ hsettled hreason
  · intro _ hreason
    exact hid ▸ hexpired hreason

/-- `reserve_tokens` before it has opened its ticket. -/
theorem Inv.opening (h : w.Inv s) (hcall : w.calls[c]? = some (.reserve r .opening)) :
    Effect s w { w with items := MemoryReservationStore.openReservation w.items r } c
      (.reserve r .opening) := by
  have hok : w.ReserveOk s r .opening := h.calls c _ hcall
  have htenant : r.tenantId = s.row.tenantId := congrArg Reservation.tenantId hok.ticket
  have hundebited : r.debited = false := congrArg Reservation.debited hok.ticket
  apply Effect.item h
  · intro k' hk'
    exact OrdMap.lookup_insert_of_ne _ _ hk'
  · intro stored hstored
    rw [MemoryReservationStore.openReservation, OrdMap.lookup_insert_self] at hstored
    cases hstored
    refine ⟨⟨⟨r, ⟨c, _, hcall⟩, rfl⟩, ?_⟩, by rw [htenant], ?_, ?_⟩
    · intro hdebited
      rw [hundebited] at hdebited
      cases hdebited
    · intro hclosed
      cases hclosed
    · intro hclosed
      cases hclosed
  · intro d r' stage hd hd' _ hk
    have hticket' : r'.tenantId = s.row.tenantId :=
      congrArg Reservation.tenantId (h.ticket ⟨d, stage, hd'⟩)
    rw [htenant, hticket'] at hk
    have hid : r'.id = r.id := (MemoryReservationStore.key_inj.mp hk).symm
    exact absurd (h.unique d c r' r _ _ hd' hcall hid) hd

/-- The debit of a reservation, if it is allowed. -/
theorem Inv.debiting (h : w.Inv s) (hseed : 0 ≤ s.row.seed)
    (hcall : w.calls[c]? = some (.reserve r .debiting))
    (hfits : s.row.current w.store < s.row.maxLimit →
      s.row.current w.store + r.estimated < 2 ^ 63) :
    Effect s w (w.debit s.row r).1 c (.reserve r .debiting) ∧
      ((w.debit s.row r).2.isDebited = true → ((w.debit s.row r).1.history r.id).hasDebit) := by
  have hok : w.ReserveOk s r .debiting := h.calls c _ hcall
  have hempty : w.history r.id = [] := hok.early rfl
  have hlow := h.books.current_nonneg (fun r hr => h.positive hr) hseed
  rcases debit_cases s w r hlow hok.positive hfits with ⟨hsame, hdebited⟩ | ⟨hpost, _⟩
  · rw [hsame, hdebited]
    refine ⟨Effect.refl h, ?_⟩
    intro he
    cases he
  · have haccount : Accounted r.estimated (s.consumed r.id)
        (w.history r.id ++ [(EntryKind.debit, r.estimated)]) := by
      rw [hempty]
      exact .debited
    have hbooks : Books s w.Opened (w.debit s.row r).1 := by
      apply h.books.post (fun r r' hr hr' hid => h.inj hr hr' hid) hpost ⟨c, _, hcall⟩ rfl haccount
      · constructor
        · rintro ⟨he, _⟩
          cases he
        · intro he
          cases he
      · constructor
        · rintro ⟨he, _⟩
          cases he
        · intro he
          cases he
      · exact Or.inl rfl
    have hcharged : ¬ w.Charged s r.id := by
      rintro ⟨hsome, _⟩
      rw [hempty] at hsome
      cases hsome
    constructor
    · apply Effect.posted hpost hbooks hcharged
      · intro d r' stage hd hd' _ hid
        exact hd (h.unique d c r' r _ _ hd' hcall hid)
      · intro _
        simp [ServiceCall.debitsLater, ReserveStage.isEarly]
    · intro _
      rw [hpost.history, if_pos rfl]
      exact (History.hasDebit_concat _ _ _).mpr (Or.inr rfl)

/-- The mark that a reservation was debited. -/
theorem Inv.marking (h : w.Inv s) (hcall : w.calls[c]? = some (.reserve r .marking)) :
    Effect s w { w with items := MemoryReservationStore.markDebited w.items r.tenantId r.id } c
      (.reserve r .marking) := by
  have hok : w.ReserveOk s r .marking := h.calls c _ hcall
  have htenant : r.tenantId = s.row.tenantId := congrArg Reservation.tenantId hok.ticket
  apply Effect.update h
  intro stored hstored
  obtain ⟨⟨⟨r₀, hr₀, heq⟩, _⟩, hk, hsettled, hexpired⟩ := h.items _ stored hstored
  rw [htenant] at hk
  have hid : r.id = stored.reservation.id := MemoryReservationStore.key_inj.mp hk
  refine ⟨⟨⟨r₀, hr₀, ?_⟩, ?_⟩, by rw [htenant]; exact hk, hsettled, hexpired⟩
  · rw [heq]
  · intro _
    exact hid ▸ hok.debited (Or.inl rfl)

theorem Inv.reserveStep (h : w.Inv s) (hseed : 0 ≤ s.row.seed) {stage' : ReserveStage}
    {happens : Happens} {w' : ServiceWorld} (hcall : w.calls[c]? = some (.reserve r stage))
    (hfits : happens.applies = true → w.StepFits s happens (.reserve r stage))
    (hstep : ServiceWorld.reserveStep s.row w r happens stage = some (w', stage')) :
    (w'.setCall c (.reserve r stage')).Inv s := by
  have hok : w.ReserveOk s r stage := h.calls c _ hcall
  have hquiet (hearly : stage'.isEarly = false) (hmarking : stage' ≠ .marking)
      (hrefunding : stage' ≠ .refunding) (heffect : Effect s w w' c (.reserve r stage)) :
      (w'.setCall c (.reserve r stage')).Inv s := by
    refine h.advance hcall heffect (succeeds_reserve ?_) (hok.finished hearly hmarking hrefunding)
    intro he
    rw [hearly] at he
    cases he
  cases stage with
  | opening =>
    cases happens with
    | done =>
      cases hstep
      refine h.advance hcall (h.opening hcall) (succeeds_reserve fun _ => rfl) ?_
      refine ⟨hok.ticket, hok.positive, hok.bounded, fun _ => hok.early rfl, ?_, ?_⟩
      · intro he
        cases he
      · rintro (he | he)
        · cases he
        · cases he
    | refused =>
      cases hstep
      exact hquiet rfl (by simp) (by simp) (Effect.refl h)
    | lost =>
      cases hstep
      exact hquiet rfl (by simp) (by simp) (h.opening hcall)
  | debiting =>
    cases happens with
    | done =>
      obtain ⟨heffect, hdebit⟩ := h.debiting hseed hcall (hfits rfl)
      cases hdebited : (w.debit s.row r).2.isDebited with
      | true =>
        simp only [ServiceWorld.reserveStep, hdebited, if_true, Option.some.injEq,
          Prod.mk.injEq] at hstep
        obtain ⟨rfl, rfl⟩ := hstep
        refine h.advance hcall heffect (succeeds_reserve ?_) ?_
        · intro he
          cases he
        · exact hok.over rfl fun _ => hdebit hdebited
      | false =>
        simp only [ServiceWorld.reserveStep, hdebited, Bool.false_eq_true, if_false,
          Option.some.injEq, Prod.mk.injEq] at hstep
        obtain ⟨rfl, rfl⟩ := hstep
        exact hquiet rfl (by simp) (by simp) heffect
    | refused =>
      cases hstep
      exact hquiet rfl (by simp) (by simp) (Effect.refl h)
    | lost =>
      cases hstep
      exact hquiet rfl (by simp) (by simp) (h.debiting hseed hcall (hfits rfl)).1
  | marking =>
    have heffect := h.marking hcall
    have hdebit := hok.debited (Or.inl rfl)
    cases happens with
    | done =>
      cases hstep
      exact hquiet rfl (by simp) (by simp) heffect
    | refused =>
      cases hstep
      refine h.advance hcall (Effect.refl h) (succeeds_reserve ?_) ?_
      · intro he
        cases he
      · exact hok.over rfl fun _ => hdebit
    | lost =>
      cases hstep
      refine h.advance hcall heffect (succeeds_reserve ?_) ?_
      · intro he
        cases he
      · exact hok.over rfl fun _ => heffect.ext.debit _ hdebit
  | refunding =>
    have hundebited : r.debited = false := congrArg Reservation.debited hok.ticket
    have hticket : w.Ticket r := by
      refine ⟨⟨r, ⟨c, _, hcall⟩, rfl⟩, ?_⟩
      intro hdebited
      rw [hundebited] at hdebited
      cases hdebited
    have heffect := (h.giveBack hticket (hok.debited (Or.inr rfl)) .rollback rfl hok.bounded c
      (.reserve r .refunding)).1
    cases happens with
    | refused =>
      cases hstep
      exact hquiet rfl (by simp) (by simp) (Effect.refl h)
    | done =>
      cases hstep
      exact hquiet rfl (by simp) (by simp) heffect
    | lost =>
      cases hstep
      exact hquiet rfl (by simp) (by simp) heffect
  | rejecting answer =>
    have htenant : r.tenantId = s.row.tenantId := congrArg Reservation.tenantId hok.ticket
    have heffect : Effect s w (w.close r .rejected) c (.reserve r (.rejecting answer)) := by
      apply Effect.close h htenant
      · intro he
        cases he
      · intro he
        cases he
    cases happens with
    | refused =>
      cases hstep
      exact hquiet rfl (by simp) (by simp) (Effect.refl h)
    | done =>
      cases hstep
      exact hquiet rfl (by simp) (by simp) heffect
    | lost =>
      cases hstep
      exact hquiet rfl (by simp) (by simp) heffect
  | answered answer => cases hstep
  | dead => cases hstep

/-- A claim changes a lease at most; what it answers is in order. -/
theorem Inv.claiming (h : w.Inv s) (id : String) (now : ℤ) (call : ServiceCall) :
    Effect s w { w with items :=
      (MemoryReservationStore.claim w.items s.row.tenantId id now leaseSeconds).1 } c call ∧
    (∀ r, (MemoryReservationStore.claim w.items s.row.tenantId id now leaseSeconds).2 =
      .claimed r → w.Ticket r ∧ r.id = id) ∧
    ∀ r reason, (MemoryReservationStore.claim w.items s.row.tenantId id now leaseSeconds).2 =
      .closed r reason → w.Ticket r ∧ r.id = id ∧ (reason = .settled → w.Charged s id) ∧
        (reason = .expired → (w.history id).hasDebit ∧
          (w.mark s (settlementKey id)).isSome = true) := by
  rcases MemoryReservationStore.claim_cases w.items s.row.tenantId id now leaseSeconds with
    ⟨_, hclaim⟩ | ⟨stored, hl, hcases⟩
  · rw [hclaim]
    refine ⟨Effect.refl h, ?_, ?_⟩
    · intro r he
      cases he
    · intro r reason he
      cases he
  · have hitem := h.items _ stored hl
    have hid : stored.reservation.id = id := (MemoryReservationStore.key_inj.mp hitem.2.1).symm
    rcases hcases with ⟨hclosed, hclaim⟩ | hclaim | ⟨hopen, hclaim⟩
    · rw [hclaim]
      refine ⟨Effect.refl h, ?_, ?_⟩
      · intro r he
        cases he
      · intro r reason he
        cases he
        obtain ⟨hticket, _, hsettled, hexpired⟩ := hitem
        exact ⟨hticket, hid, fun he => hid ▸ hsettled hclosed he, fun he => hid ▸ hexpired hclosed he⟩
    · rw [hclaim]
      refine ⟨Effect.refl h, ?_, ?_⟩
      · intro r he
        cases he
      · intro r reason he
        cases he
    · rw [hclaim]
      refine ⟨?_, ?_, ?_⟩
      · apply Effect.item h
        · intro k' hk'
          exact OrdMap.lookup_insert_of_ne _ _ hk'
        · intro stored' hstored'
          rw [OrdMap.lookup_insert_self] at hstored'
          cases hstored'
          exact hitem
        · intro d r stage _ _ _ _ hnone
          rw [hl] at hnone
          cases hnone
      · intro r he
        cases he
        exact ⟨hitem.1, hid⟩
      · intro r reason he
        cases he

theorem Inv.reconcileLate (h : w.Inv s) {id : String} (hlow : 0 ≤ s.consumed id)
    {reason : CloseReason} (hticket : w.Ticket r) (hid : r.id = id)
    (hsettled : reason = .settled → w.Charged s id)
    (hexpired : reason = .expired → (w.history id).hasDebit ∧
      (w.mark s (settlementKey id)).isSome = true) :
    w.ReconcileOk s id (ServiceWorld.reconcileLate s r reason) := by
  cases reason with
  | settled => exact hsettled rfl
  | expired =>
    obtain ⟨hdebit, hmark⟩ := hexpired rfl
    unfold ServiceWorld.reconcileLate
    dsimp only
    split_ifs with hpos
    · exact ⟨hticket, hid, hdebit, hid ▸ hpos⟩
    · have hzero : s.consumed id = 0 := by
        rw [hid] at hpos
        omega
      obtain ⟨hacc, _, hfinal, _⟩ := h.account hticket
      rw [hid, hzero] at hacc
      rw [hid] at hfinal
      have hcharged := hacc.charged_of_zero hdebit (hfinal ▸ hmark)
      change Accounted.Charged (s.consumed id) (w.history id)
      rw [hzero]
      exact hcharged
  | abandoned => trivial
  | rejected => trivial

theorem Inv.reconcileStep (h : w.Inv s) {id : String} {now : ℤ} {stage stage' : ReconcileStage}
    {happens : Happens} {w' : ServiceWorld} (hcall : w.calls[c]? = some (.reconcile id stage))
    (hfits : happens.applies = true → w.StepFits s happens (.reconcile id stage))
    (hstep : ServiceWorld.reconcileStep s w id now happens stage = some (w', stage')) :
    (w'.setCall c (.reconcile id stage')).Inv s := by
  obtain ⟨hlow, hsum, hstage⟩ := h.calls c _ hcall
  have hmove (heffect : Effect s w w' c (.reconcile id stage))
      (hnew : w'.ReconcileOk s id stage') : (w'.setCall c (.reconcile id stage')).Inv s :=
    h.advance hcall heffect (succeeds_reconcile stage stage') ⟨hlow, hsum, hnew⟩
  cases stage with
  | claiming =>
    obtain ⟨heffect, hclaimed, hclosed⟩ :=
      h.claiming (c := c) id now (.reconcile id .claiming)
    simp only [ServiceWorld.reconcileStep] at hstep
    generalize MemoryReservationStore.claim w.items s.row.tenantId id now leaseSeconds = answer
      at heffect hclaimed hclosed hstep
    obtain ⟨items, result⟩ := answer
    cases happens with
    | done =>
      cases hstep
      refine hmove heffect ?_
      cases result with
      | claimed r =>
        obtain ⟨hticket, hid⟩ := hclaimed r rfl
        exact ⟨hticket.mono heffect.ext, hid⟩
      | leased r => trivial
      | closed r reason =>
        obtain ⟨hticket, hid, hsettled, hexpired⟩ := hclosed r reason rfl
        exact h.reconcileLate hlow hticket hid hsettled hexpired
      | notFound => trivial
    | refused =>
      cases hstep
      exact hmove (Effect.refl h) trivial
    | lost =>
      cases hstep
      exact hmove heffect trivial
  | settling r =>
    obtain ⟨hticket, hid⟩ := hstage
    subst hid
    cases happens with
    | done =>
      obtain ⟨heffect, hcharged⟩ := h.reconcile hticket hlow (hfits rfl) (h.bounded hticket) c
        (.reconcile r.id (.settling r))
      cases hstep
      exact hmove heffect ⟨hticket.mono heffect.ext, rfl, hcharged rfl⟩
    | refused =>
      cases hstep
      exact hmove (Effect.refl h) trivial
    | lost =>
      obtain ⟨heffect, _⟩ := h.reconcile hticket hlow (hfits rfl) (h.bounded hticket) c
        (.reconcile r.id (.settling r))
      cases hstep
      exact hmove heffect trivial
  | closing r =>
    obtain ⟨hticket, hid, hcharged⟩ := hstage
    subst hid
    obtain ⟨r₀, _, _, _, htenant, _⟩ := h.copy hticket
    have heffect : Effect s w (w.close r .settled) c (.reconcile r.id (.closing r)) := by
      apply Effect.close h htenant
      · intro _
        exact hcharged
      · intro he
        cases he
    cases happens with
    | refused =>
      cases hstep
      exact hmove (Effect.refl h) hcharged
    | done =>
      cases hstep
      exact hmove heffect hcharged
    | lost =>
      cases hstep
      exact hmove heffect hcharged
  | late r =>
    obtain ⟨hticket, hid, hdebit, hpos⟩ := hstage
    subst hid
    cases happens with
    | done =>
      obtain ⟨heffect, hcharged⟩ := h.lateCharge hticket hdebit hpos (hfits rfl) c
        (.reconcile r.id (.late r))
      cases hstep
      exact hmove heffect hcharged
    | refused =>
      cases hstep
      exact hmove (Effect.refl h) trivial
    | lost =>
      obtain ⟨heffect, _⟩ := h.lateCharge hticket hdebit hpos (hfits rfl) c
        (.reconcile r.id (.late r))
      cases hstep
      exact hmove heffect trivial
  | answered answer => cases hstep
  | dead => cases hstep

/-- A sweep closes a reservation. -/
theorem Inv.sweeping (h : w.Inv s) (hticket : w.Ticket r)
    (hmark : r.debited = true → (w.mark s (settlementKey r.id)).isSome = true)
    (hfits : r.debited = false → w.DebitSettled s r.id) (call : ServiceCall) :
    Effect s w { w.close r (if r.debited then .expired else .abandoned) with
      swept := w.swept ++ [r.id] } c call := by
  obtain ⟨r₀, hopened, hid, _, htenant, _⟩ := h.copy hticket
  have hclose : Effect s w (w.close r (if r.debited then .expired else .abandoned)) c call := by
    apply Effect.close h htenant
    · intro he
      split_ifs at he
    · intro he
      split_ifs at he with hdebited
      exact ⟨hticket.2 hdebited, hmark hdebited⟩
  have hsettled : w.DebitSettled s r.id := by
    cases hdebited : r.debited with
    | true =>
      exact ⟨fun _ => hmark hdebited,
        h.notEarly (history_ne_nil_of_hasDebit (hticket.2 hdebited))⟩
    | false => exact hfits hdebited
  apply Effect.quiet h
  · intro d r' stage hd hcall hstage
    exact (hclose.early d r' stage hd hcall hstage).2
  · intro k stored hk
    exact hclose.items k stored hk
  · intro id hmem
    rcases List.mem_append.mp hmem with hold | hnew
    · exact Or.inl hold
    · rw [List.mem_singleton.mp hnew]
      exact Or.inr ⟨⟨r₀, hopened, hid.symm⟩, hsettled⟩

theorem Inv.sweeperStep (h : w.Inv s) {now : ℤ} {queue queue' : List Reservation}
    {stage stage' : SweepStage} {happens : Happens} {w' : ServiceWorld}
    (hcall : w.calls[c]? = some (.sweeper queue stage))
    (hfits : happens.applies = true → w.StepFits s happens (.sweeper queue stage))
    (hstep : ServiceWorld.sweeperStep w now happens queue stage = some (w', queue', stage')) :
    (w'.setCall c (.sweeper queue' stage')).Inv s := by
  obtain ⟨hqueue, hstage⟩ := h.calls c _ hcall
  have hmove (heffect : Effect s w w' c (.sweeper queue stage))
      (hsub : ∀ r ∈ queue', r ∈ queue) (hnew : w'.SweepOk s stage') :
      (w'.setCall c (.sweeper queue' stage')).Inv s := by
    refine h.advance hcall heffect (succeeds_sweeper queue queue' stage stage') ⟨?_, hnew⟩
    intro r hr
    exact (hqueue r (hsub r hr)).mono heffect.ext
  cases stage with
  | picking =>
    cases queue with
    | nil => cases hstep
    | cons r queue =>
      have hticket : w.Ticket r := hqueue r List.mem_cons_self
      obtain ⟨r₀, _, _, _, htenant, _⟩ := h.copy hticket
      obtain ⟨heffect, hclaimed, _⟩ :=
        h.claiming (c := c) r.id now (.sweeper (r :: queue) .picking)
      simp only [ServiceWorld.sweeperStep, htenant] at hstep
      cases happens with
      | done =>
        cases hstep
        refine hmove heffect (fun r hr => List.mem_cons_of_mem _ hr) ?_
        split
        · split_ifs with hdebited
          · exact ⟨hticket.mono heffect.ext, hdebited⟩
          · refine ⟨hticket.mono heffect.ext, ?_⟩
            intro he
            exact absurd he hdebited
        · trivial
      | refused =>
        cases hstep
        exact hmove (Effect.refl h) (fun r hr => List.mem_cons_of_mem _ hr) trivial
      | lost =>
        cases hstep
        exact hmove heffect (fun r hr => List.mem_cons_of_mem _ hr) trivial
  | settling r =>
    obtain ⟨hticket, hdebited⟩ := hstage
    obtain ⟨heffect, hmark⟩ := h.giveBack hticket (hticket.2 hdebited) .refunded rfl
      (h.bounded hticket) c (.sweeper queue (.settling r))
    cases happens with
    | done =>
      cases hstep
      exact hmove heffect (fun r hr => hr) ⟨hticket.mono heffect.ext, fun _ => hmark⟩
    | refused =>
      cases hstep
      exact hmove (Effect.refl h) (fun r hr => hr) trivial
    | lost =>
      cases hstep
      exact hmove heffect (fun r hr => hr) trivial
  | closing r =>
    obtain ⟨hticket, hmark⟩ := hstage
    cases happens with
    | done =>
      cases hstep
      exact hmove (h.sweeping hticket hmark (hfits rfl) _) (fun r hr => hr) trivial
    | refused =>
      cases hstep
      exact hmove (Effect.refl h) (fun r hr => hr) trivial
    | lost =>
      cases hstep
      exact hmove (h.sweeping hticket hmark (hfits rfl) _) (fun r hr => hr) trivial
  | dead => cases hstep

/-! ### Runs -/

/-- A call starts: a reservation with an id that nothing belongs to. -/
theorem Inv.start (h : w.Inv s) {call : ServiceCall}
    (hnew : CallOk s { w with calls := w.calls ++ [call] } call)
    (hfresh : ∀ r stage, call = .reserve r stage →
      (∀ other ∈ w.calls, other.reserves r.id = false) ∧
        w.mark s (settlementKey r.id) = none ∧ w.mark s (lateChargeKey r.id) = none) :
    Inv s { w with calls := w.calls ++ [call] } := by
  have hcases {d : ℕ} {other : ServiceCall} (hd : (w.calls ++ [call])[d]? = some other) :
      w.calls[d]? = some other ∨ d = w.calls.length ∧ other = call := by
    rcases lt_trichotomy d w.calls.length with hlt | rfl | hgt
    · rw [List.getElem?_append_left hlt] at hd
      exact Or.inl hd
    · rw [List.getElem?_concat_length] at hd
      exact Or.inr ⟨rfl, (Option.some.inj hd).symm⟩
    · rw [List.getElem?_eq_none (by simp; omega)] at hd
      cases hd
  have hopened {r : Reservation} (hr : Opened { w with calls := w.calls ++ [call] } r) :
      w.Opened r ∨ ∃ stage, call = .reserve r stage := by
    obtain ⟨d, stage, hd⟩ := hr
    rcases hcases hd with hold | ⟨_, heq⟩
    · exact Or.inl ⟨d, stage, hold⟩
    · exact Or.inr ⟨stage, heq.symm⟩
  have hother {r r' : Reservation} {stage : ReserveStage} (hr : w.Opened r)
      (hcall : call = .reserve r' stage) : r.id ≠ r'.id := by
    obtain ⟨d, stage', hd⟩ := hr
    have hfalse := (hfresh r' stage hcall).1 _ (List.mem_of_getElem? hd)
    simpa [ServiceCall.reserves] using hfalse
  have hext : Extends s w { w with calls := w.calls ++ [call] } := by
    refine ⟨?_, fun _ => id, fun _ => id, fun _ => id⟩
    rintro r ⟨d, stage, hd⟩
    refine ⟨d, stage, ?_⟩
    rw [List.getElem?_append_left (List.getElem?_eq_some_iff.mp hd).1]
    exact hd
  have hempty {r : Reservation} {stage : ReserveStage} (hcall : call = .reserve r stage) :
      w.history r.id = [] :=
    h.books.history_eq_nil fun r' hr' => hother hr' hcall
  refine ⟨⟨?_, ?_, ?_, ?_, h.books.counter, h.books.present⟩, ?_, ?_, ?_, ?_⟩
  · intro r hr
    rcases hopened hr with hold | ⟨stage, hcall⟩
    · exact h.books.account r hold
    · change Accounted r.estimated (s.consumed r.id) (w.history r.id)
      rw [hempty hcall]
      exact .untouched
  · intro r hr
    rcases hopened hr with hold | ⟨stage, hcall⟩
    · exact h.books.final r hold
    · change w.mark s (settlementKey r.id) = (w.history r.id).final
      rw [hempty hcall]
      exact (hfresh r stage hcall).2.1
  · intro r hr
    rcases hopened hr with hold | ⟨stage, hcall⟩
    · exact h.books.late r hold
    · change w.mark s (lateChargeKey r.id) = (w.history r.id).late
      rw [hempty hcall]
      exact (hfresh r stage hcall).2.2
  · intro e he
    obtain ⟨r, hr, hid⟩ := h.books.owned e he
    exact ⟨r, hext.opened r hr, hid⟩
  · intro d d' r r' stage stage' hd hd' hid
    rcases hcases hd with hd | ⟨rfl, heq⟩
    · rcases hcases hd' with hd' | ⟨rfl, heq'⟩
      · exact h.unique d d' r r' stage stage' hd hd' hid
      · exact absurd hid (hother ⟨d, stage, hd⟩ heq'.symm)
    · rcases hcases hd' with hd' | ⟨rfl, _⟩
      · exact absurd hid.symm (hother ⟨d', stage', hd'⟩ heq.symm)
      · rfl
  · intro k stored hk
    exact (h.items k stored hk).mono hext
  · intro d other hd
    rcases hcases hd with hold | ⟨_, rfl⟩
    · exact (h.calls d other hold).mono hext fun _ _ _ _ => ⟨rfl, id⟩
    · exact hnew
  · intro id hid
    obtain ⟨⟨r, hr, hrid⟩, hdebit, hlater⟩ := h.swept id hid
    refine ⟨⟨r, hext.opened r hr, hrid⟩, hdebit, ?_⟩
    intro other hmem
    rcases List.mem_append.mp hmem with hold | hlast
    · exact hlater other hold
    · rw [List.mem_singleton.mp hlast]
      cases hcall : call with
      | reserve r' stage =>
        have hne := hother hr hcall
        simp [ServiceCall.debitsLater, hrid ▸ hne.symm]
      | _ => rfl

/-- A call that stops for ever owes nothing. -/
theorem Inv.die (h : w.Inv s) {call : ServiceCall} (hcall : w.calls[c]? = some call) :
    (w.setCall c (killed call)).Inv s := by
  cases call with
  | reserve r stage =>
    have hok : w.ReserveOk s r stage := h.calls c _ hcall
    refine h.advance hcall (Effect.refl h) (succeeds_reserve ?_)
      (hok.finished rfl (by simp) (by simp))
    intro he
    cases he
  | reconcile id stage =>
    obtain ⟨hlow, hsum, _⟩ := h.calls c _ hcall
    exact h.advance hcall (Effect.refl h) (succeeds_reconcile stage .dead) ⟨hlow, hsum, trivial⟩
  | sweeper queue stage =>
    obtain ⟨hqueue, _⟩ := h.calls c _ hcall
    exact h.advance hcall (Effect.refl h) (succeeds_sweeper queue queue stage .dead)
      ⟨hqueue, trivial⟩
  | invalid =>
    refine h.advance hcall (Effect.refl h) ⟨?_, ?_⟩ trivial
    · intro r
      exact Iff.rfl
    · intro _ hlater
      exact hlater

theorem Inv.step (hseed : 0 ≤ s.row.seed) {w w' : ServiceWorld} (a : ServiceAction) (h : w.Inv s)
    (hguard : w.SettlesGuard s a) (hstep : w.step s a = some w') : w'.Inv s := by
  obtain ⟨hadmissible, hfits⟩ := hguard
  cases a with
  | reserve id estimated expiresAt =>
    obtain ⟨hbound, hfresh⟩ := hadmissible
    cases hstep
    split_ifs with hest
    · refine h.start trivial ?_
      intro r stage he
      cases he
    · have hempty : w.history id = [] := by
        apply h.books.history_eq_nil
        rintro r ⟨d, stage, hd⟩ hrid
        have hfalse := hfresh.1 _ (List.mem_of_getElem? hd)
        simp [ServiceCall.reserves, hrid] at hfalse
      refine h.start ⟨rfl, not_le.mp hest, hbound, fun _ => hempty, fun _ => ?_, ?_⟩ ?_
      · rw [Option.eq_none_iff_forall_ne_some]
        intro stored hstored
        obtain ⟨⟨⟨r, ⟨d, stage, hd⟩, hr⟩, _⟩, hk, _⟩ := h.items _ stored hstored
        have hid : id = stored.reservation.id := MemoryReservationStore.key_inj.mp hk
        have hfalse := hfresh.1 _ (List.mem_of_getElem? hd)
        rw [hid, hr] at hfalse
        simp [ServiceCall.reserves] at hfalse
      · rintro (he | he)
        · cases he
        · cases he
      · intro r stage he
        cases he
        exact hfresh
  | reconcile id =>
    cases hstep
    split_ifs with hneg
    · refine h.start trivial ?_
      intro r stage he
      cases he
    · have hsum : (s.usage id).1 + (s.usage id).2 < 2 ^ 63 := hadmissible
      have hconsumed : s.consumed id = (s.usage id).1 + (s.usage id).2 :=
        wrapI64_of_bounds (by omega) hsum
      refine h.start ⟨?_, hconsumed, trivial⟩ ?_
      · rw [hconsumed]
        omega
      · intro r stage he
        cases he
  | sweeper =>
    cases hstep
    refine h.start ⟨?_, trivial⟩ ?_
    · intro r hr
      cases hr
    · intro r stage he
      cases he
  | list c shard now batch =>
    simp only [ServiceWorld.step] at hstep
    split_ifs at hstep with hlist
    cases hstep
    obtain ⟨hcall, hsub, _⟩ := hlist
    refine h.advance hcall (Effect.refl h) (succeeds_sweeper [] batch .picking .picking)
      ⟨?_, trivial⟩
    intro r hr
    obtain ⟨k, stored, hk, _, rfl⟩ := MemoryReservationStore.mem_due (hsub.subset hr)
    exact (h.items k stored hk).1
  | step c now happens =>
    obtain ⟨call, hcall, hnext⟩ := Option.bind_eq_some_iff.mp hstep
    have hfits' := hfits call hcall
    cases call with
    | reserve r stage =>
      obtain ⟨n, hn, rfl⟩ := Option.map_eq_some_iff.mp hnext
      exact h.reserveStep hseed hcall hfits' hn
    | reconcile id stage =>
      obtain ⟨n, hn, rfl⟩ := Option.map_eq_some_iff.mp hnext
      exact h.reconcileStep hcall hfits' hn
    | sweeper queue stage =>
      obtain ⟨n, hn, rfl⟩ := Option.map_eq_some_iff.mp hnext
      exact h.sweeperStep hcall hfits' hn
    | invalid => cases hnext
  | die c =>
    obtain ⟨call, hcall, rfl⟩ := Option.map_eq_some_iff.mp hstep
    split
    · exact h
    · exact h
    · exact h.die hcall

theorem inv_initial (s : Setting) (st : MbfPartitionStore)
    (hcounter : ∀ v, st.quotaCounters.lookup (toLex (s.row.tenantId, s.row.quotaId)) = some v →
      0 ≤ v ∧ v < 2 ^ 63) : Inv s { store := st } := by
  have hopened {r : Reservation} : ¬ Opened { store := st } r := by
    rintro ⟨c, stage, hc⟩
    cases hc
  refine ⟨⟨?_, ?_, ?_, ?_, ?_, ?_⟩, ?_, ?_, ?_, ?_⟩
  · intro r hr
    exact absurd hr hopened
  · intro r hr
    exact absurd hr hopened
  · intro r hr
    exact absurd hr hopened
  · intro e he
    cases he
  · intro v hv
    obtain ⟨hlow, hhigh⟩ := hcounter v hv
    exact ⟨⟨v, hlow, by simp [total]⟩, hhigh⟩
  · intro hne
    exact absurd rfl hne
  · intro c d r r' stage stage' hc
    cases hc
  · intro k stored hk
    cases hk
  · intro c call hc
    cases hc
  · intro id hid
    cases hid

/-- What a reservation has cost: its consumption once it was answered as settled, nothing
once it was swept and not charged; no debit, charge or return was made twice, and none
of the estimate returned that had not been debited. -/
structure ExactlyOnce (s : Setting) (w : ServiceWorld) (id : String) : Prop where
  settled : (∃ c : ℕ, w.calls[c]? = some (.reconcile id (.answered .settled))) →
    (w.history id).net = (s.usage id).1 + (s.usage id).2
  swept : id ∈ w.swept → (∀ entry ∈ w.history id, entry.1.isCharge = false) →
    (w.history id).net = 0
  debits : (w.history id).countP (fun entry => entry.1 = .debit) ≤ 1
  charges : (w.history id).countP (fun entry => entry.1.isCharge) ≤ 1
  returns : (w.history id).countP (fun entry => entry.2 < 0) ≤ 1
  backed : (∃ entry ∈ w.history id, entry.2 < 0) → (w.history id).hasDebit

theorem Inv.exactlyOnce (h : w.Inv s) (id : String) : w.ExactlyOnce s id := by
  have honce : (w.history id).countP (fun entry => entry.1 = .debit) ≤ 1 ∧
      (w.history id).countP (fun entry => entry.1.isCharge) ≤ 1 ∧
      (w.history id).countP (fun entry => entry.2 < 0) ≤ 1 ∧
      ((∃ entry ∈ w.history id, entry.2 < 0) → (w.history id).hasDebit) := by
    by_cases hid : ∃ r, w.Opened r ∧ r.id = id
    · obtain ⟨r, hr, rfl⟩ := hid
      exact (h.books.account r hr).once (h.positive hr)
    · rw [h.books.history_eq_nil fun r hr heq => hid ⟨r, hr, heq⟩]
      simp
  refine ⟨?_, ?_, honce.1, honce.2.1, honce.2.2.1, honce.2.2.2⟩
  · rintro ⟨c, hcall⟩
    obtain ⟨_, hsum, hcharged⟩ := h.calls c _ hcall
    rw [← hsum]
    exact hcharged.2
  · intro hswept hcharges
    obtain ⟨⟨r, hr, rfl⟩, hdebit, _⟩ := h.swept id hswept
    apply (h.books.account r hr).net_eq_zero _ hcharges
    intro hd
    rw [← h.books.final r hr]
    exact hdebit hd

/-- In every run whose steps fit, every reservation is settled exactly once. -/
theorem reservations_settle_once (s : Setting) (st : MbfPartitionStore) (w : ServiceWorld)
    (hseed : 0 ≤ s.row.seed)
    (hcounter : ∀ v, st.quotaCounters.lookup (toLex (s.row.tenantId, s.row.quotaId)) = some v →
      0 ≤ v ∧ v < 2 ^ 63)
    (hrun : Run (ServiceWorld.step s) (SettlesGuard s) { store := st } w) (id : String) :
    w.ExactlyOnce s id := by
  have hinv : w.Inv s := by
    refine Run.invariant ?_ hrun (inv_initial s st hcounter)
    intro w a w' h hguard hstep
    exact Inv.step hseed a h hguard hstep
  exact hinv.exactlyOnce id

/-- The steps of one call, one after the other, at one time. -/
def steps (c : ℕ) (now : ℤ) (n : ℕ) : List ServiceAction := List.replicate n (.step c now .done)

def tokenSetting : Setting where
  row := ⟨"t", "q", 100, 0⟩
  usage id := if id = "a" then (3, 1) else (0, 0)

/-- The reservation `id` of ten tokens, once its debit is marked. -/
def tokenTicket (id : String) : Reservation :=
  { tokenSetting.ticket id 10 90 with debited := true }

/-- One reservation is reconciled in time, another one expires and is swept. -/
def timelySchedule : List ServiceAction :=
  [.reserve "a" 10 90] ++ steps 0 0 3 ++ [.reserve "b" 10 90] ++ steps 1 0 3 ++
    [.reconcile "a"] ++ steps 2 60 3 ++
    [.sweeper, .list 3 (shardOf "b") 200 [tokenTicket "b"]] ++ steps 3 200 3

theorem timely_reservations_settle_once :
    ∃ w : ServiceWorld, w.calls[2]? = some (.reconcile "a" (.answered .settled)) ∧
      "b" ∈ w.swept ∧ w.ExactlyOnce tokenSetting "a" ∧ w.ExactlyOnce tokenSetting "b" := by
  have hexec : (exec (ServiceWorld.step tokenSetting) (SettlesGuard tokenSetting) { store := {} }
      timelySchedule).any (fun w : ServiceWorld => decide
        (w.calls[2]? = some (.reconcile "a" (.answered .settled)) ∧ "b" ∈ w.swept)) = true := by
    decide +kernel
  obtain ⟨w, hrun, hw⟩ := exists_run_of_exec hexec
  obtain ⟨hsettled, hswept⟩ := of_decide_eq_true hw
  have hcounter : ∀ v, (({} : MbfPartitionStore).quotaCounters.lookup
      (toLex (tokenSetting.row.tenantId, tokenSetting.row.quotaId))) = some v →
      0 ≤ v ∧ v < 2 ^ 63 := by
    intro v hv
    cases hv
  exact ⟨w, hsettled, hswept,
    reservations_settle_once tokenSetting {} w (by decide) hcounter hrun "a",
    reservations_settle_once tokenSetting {} w (by decide) hcounter hrun "b"⟩

/-- A call with no step ahead. -/
def isOver : ServiceCall → Bool
  | .reserve _ (.answered _) => true
  | .reserve _ .dead => true
  | .reconcile _ (.answered _) => true
  | .reconcile _ .dead => true
  | .sweeper [] .picking => true
  | .sweeper _ .dead => true
  | .invalid => true
  | _ => false

/-- The lease of a reconciliation runs out: a sweep gives the estimate back, and the
reconciliation, whose settlement is then taken for a repetition, is answered as settled. -/
def overtakenSchedule : List ServiceAction :=
  [.reserve "a" 10 90] ++ steps 0 0 3 ++ [.reconcile "a"] ++ steps 1 80 1 ++
    [.sweeper, .list 2 (shardOf "a") 200 [tokenTicket "a"]] ++ steps 2 200 3 ++ steps 1 210 2

theorem overtaken_reconciliation_charges_nothing :
    ¬ ∀ (s : Setting) (w : ServiceWorld), 0 ≤ s.row.seed →
      Run (ServiceWorld.step s) (Admissible s) { store := {} } w →
      (∀ call ∈ w.calls, isOver call = true) → ∀ id, w.ExactlyOnce s id := by
  intro h
  have hexec : (exec (ServiceWorld.step tokenSetting) (Admissible tokenSetting) { store := {} }
      overtakenSchedule).any (fun w : ServiceWorld => decide
        (w.calls[1]? = some (.reconcile "a" (.answered .settled)) ∧
          (w.history "a").net = 0 ∧ ∀ call ∈ w.calls, isOver call = true)) = true := by
    decide +kernel
  obtain ⟨w, hrun, hw⟩ := exists_run_of_exec hexec
  obtain ⟨hsettled, hnet, hover⟩ := of_decide_eq_true hw
  have hcost := (h tokenSetting w (by decide) hrun hover "a").settled ⟨1, hsettled⟩
  rw [hnet] at hcost
  exact absurd hcost (by decide)

end ServiceWorld
end MetriEngine.Quota

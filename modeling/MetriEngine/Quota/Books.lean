import MetriEngine.Quota.Service

/-!
# The books of the token service

How the counter of the row, the idempotence marks and the entries of the reservations
belong together, and that a debit or a settlement keeps them so.
-/
namespace MetriEngine.Quota
open Foundation Storage

namespace History

theorem final_concat (h : History) (k : EntryKind) (n : ℤ) :
    final (h ++ [(k, n)]) = h.final.or (if k.isFinal then some n else none) := by
  unfold final
  rw [List.find?_append]
  cases hf : h.find? fun e => e.1.isFinal with
  | none => cases hk : k.isFinal <;> simp [hk]
  | some e => simp

theorem late_concat (h : History) (k : EntryKind) (n : ℤ) :
    late (h ++ [(k, n)]) = h.late.or (if k = .late then some n else none) := by
  unfold late
  rw [List.find?_append]
  cases hf : h.find? fun e => e.1 = .late with
  | none => by_cases hk : k = .late <;> simp [hk]
  | some e => simp

theorem hasDebit_concat (h : History) (k : EntryKind) (n : ℤ) :
    hasDebit (h ++ [(k, n)]) ↔ h.hasDebit ∨ k = .debit := by
  simp [hasDebit, eq_comm]

end History

namespace ServiceWorld

def history (w : ServiceWorld) (id : String) : History :=
  (w.entries.filter fun e => e.id = id).map fun e => (e.kind, e.change)

/-- The amount marked under an idempotence key of the row's tenant. -/
def mark (s : Setting) (w : ServiceWorld) (idemKey : String) : Option ℤ :=
  (w.store.quotaIdem.lookup (toLex (s.row.tenantId, idemKey))).map Prod.snd

def rowCounter (s : Setting) (w : ServiceWorld) : Option ℤ :=
  w.store.quotaCounters.lookup (toLex (s.row.tenantId, s.row.quotaId))

def total (w : ServiceWorld) : ℤ := (w.entries.map Entry.change).sum

theorem current_eq (s : Setting) (w : ServiceWorld) :
    s.row.current w.store = (w.rowCounter s).getD s.row.seed := rfl

/-! ### Sums by reservation -/

theorem sum_filter_add (p : Entry → Bool) (l : List Entry) :
    ((l.filter p).map Entry.change).sum + ((l.filter fun e => !p e).map Entry.change).sum =
      (l.map Entry.change).sum := by
  induction l with
  | nil => rfl
  | cons e l ih =>
    cases hp : p e <;> simp only [List.filter_cons, hp, Bool.not_true, Bool.not_false,
      Bool.false_eq_true, if_true, if_false, List.map_cons, List.sum_cons] <;> omega

/-- Entries that are nonnegative by reservation are nonnegative in all. -/
theorem sum_nonneg_of_groups (l : List Entry)
    (h : ∀ id, 0 ≤ ((l.filter fun e => e.id = id).map Entry.change).sum) :
    0 ≤ (l.map Entry.change).sum := by
  induction hn : l.length using Nat.strong_induction_on generalizing l with
  | _ n ih =>
    cases l with
    | nil => simp
    | cons e l =>
      have hsplit := sum_filter_add (fun d => d.id = e.id) (e :: l)
      have hhead := h e.id
      have hlt : ((e :: l).filter fun d => !decide (d.id = e.id)).length < n := by
        rw [← hn]
        simp only [List.filter_cons, decide_true, Bool.not_true, Bool.false_eq_true, if_false,
          List.length_cons]
        exact Nat.lt_succ_of_le (List.length_filter_le _ _)
      have hrest := ih _ hlt ((e :: l).filter fun d => !decide (d.id = e.id)) (by
        intro id
        rw [List.filter_filter]
        by_cases hid : id = e.id
        · subst hid
          have hempty : (e :: l).filter (fun d => decide (d.id = e.id) && !decide (d.id = e.id)) =
              [] := by
            rw [List.filter_eq_nil_iff]
            simp
          rw [hempty]
          simp
        · have hsame : (e :: l).filter (fun d => decide (d.id = id) && !decide (d.id = e.id)) =
              (e :: l).filter fun d => d.id = id := by
            apply List.filter_congr
            intro d _
            by_cases hd : d.id = id
            · simp [hd, hid]
            · simp [hd]
          rw [hsame]
          exact h id) rfl
      omega

theorem net_history (w : ServiceWorld) (id : String) :
    (w.history id).net = ((w.entries.filter fun e => e.id = id).map Entry.change).sum := by
  rw [History.net, history, List.map_map]
  rfl

theorem net_le_total (w : ServiceWorld) (h : ∀ id, 0 ≤ (w.history id).net) (id : String) :
    (w.history id).net ≤ w.total := by
  have hsplit := sum_filter_add (fun e => e.id = id) w.entries
  have hrest := sum_nonneg_of_groups (w.entries.filter fun e => !decide (e.id = id)) (by
    intro id'
    rw [List.filter_filter]
    by_cases hid : id' = id
    · subst hid
      have hempty : w.entries.filter (fun d => decide (d.id = id') && !decide (d.id = id')) =
          [] := by
        rw [List.filter_eq_nil_iff]
        simp
      rw [hempty]
      simp
    · have hsame : w.entries.filter (fun d => decide (d.id = id') && !decide (d.id = id)) =
          w.entries.filter fun d => d.id = id' := by
        apply List.filter_congr
        intro d _
        by_cases hd : d.id = id'
        · simp [hd, hid]
        · simp [hd]
      rw [hsame, ← net_history]
      exact h id')
  rw [net_history, total]
  omega

/-! ### What a debit and a settlement do -/

/-- The world after an entry: what was marked for it, and the counter. -/
structure Posted (s : Setting) (w w' : ServiceWorld) (e : Entry) (key : Option String) :
    Prop where
  entries : w'.entries = w.entries ++ [e]
  items : w'.items = w.items
  calls : w'.calls = w.calls
  swept : w'.swept = w.swept
  marks : ∀ k, w'.mark s k = if key = some k then some e.change else w.mark s k
  counter : ∃ base, (∀ v, w.rowCounter s = some v → base = v) ∧ 0 ≤ base ∧
    w'.rowCounter s = some (base + e.change) ∧ base + e.change < 2 ^ 63

theorem Posted.history {s : Setting} {w w' : ServiceWorld} {e : Entry} {key : Option String}
    (h : Posted s w w' e key) (id : String) :
    w'.history id = if e.id = id then w.history id ++ [(e.kind, e.change)] else w.history id := by
  unfold ServiceWorld.history
  rw [h.entries, List.filter_append]
  by_cases hid : e.id = id
  · simp [hid]
  · simp [hid]

/-- A debit of an amount that does not overflow. -/
theorem debit_cases (s : Setting) (w : ServiceWorld) (r : Reservation)
    (hlow : 0 ≤ s.row.current w.store) (hest : 0 < r.estimated)
    (hfits : s.row.current w.store < s.row.maxLimit →
      s.row.current w.store + r.estimated < 2 ^ 63) :
    ((w.debit s.row r).1 = w ∧ (w.debit s.row r).2.isDebited = false) ∨
      Posted s w (w.debit s.row r).1 ⟨r.id, .debit, r.estimated⟩ none ∧
        (w.debit s.row r).2.isDebited = true := by
  rcases le_or_gt s.row.maxLimit (s.row.current w.store) with hfull | hroom
  · left
    have hge : (w.store.quotaCounters.lookup (toLex (s.row.tenantId, s.row.quotaId))).getD
        s.row.seed ≥ s.row.maxLimit := hfull
    simp only [debit, Ceiling.tryDebit, tryDebit, MbfPartitionStore.quotaTryDebit, if_pos hge]
    exact ⟨trivial, rfl⟩
  · right
    have hlt : ¬ (w.store.quotaCounters.lookup (toLex (s.row.tenantId, s.row.quotaId))).getD
        s.row.seed ≥ s.row.maxLimit := not_le.mpr hroom
    have hwrap : wrapI64 (s.row.current w.store + r.estimated) =
        s.row.current w.store + r.estimated :=
      wrapI64_of_bounds (by omega) (hfits hroom)
    have hwrap' : wrapI64 ((w.store.quotaCounters.lookup
        (toLex (s.row.tenantId, s.row.quotaId))).getD s.row.seed + r.estimated) =
        s.row.current w.store + r.estimated := hwrap
    simp only [debit, Ceiling.tryDebit, tryDebit, MbfPartitionStore.quotaTryDebit, if_neg hlt,
      hwrap']
    refine ⟨⟨?_, rfl, rfl, rfl, fun _ => rfl, s.row.current w.store, ?_, hlow, ?_, ?_⟩, rfl⟩
    · simp [Ceiling.current]
    · intro v hv
      rw [current_eq, hv]
      rfl
    · simp [rowCounter]
    · exact hfits hroom

section Settle
variable {s : Setting} {w : ServiceWorld} {r : Reservation} {delta : ℤ} {key : String}

theorem settle_of_marked (kind : EntryKind) (htenant : r.tenantId = s.row.tenantId)
    (h : (w.mark s key).isSome = true) : w.settle r delta key kind = w := by
  have hseen : w.store.quotaIdem.contains (toLex (r.tenantId, key)) = true := by
    rw [htenant]
    simpa [mark, OrdMap.contains] using h
  simp only [settle, settleOnce, MbfPartitionStore.quotaSettleOnce, hseen, if_true]

/-- A settlement under a new key that neither overflows nor is cut off at zero. -/
theorem settle_of_unmarked (kind : EntryKind) (htenant : r.tenantId = s.row.tenantId)
    (hquota : r.quotaId = s.row.quotaId) (h : w.mark s key = none)
    (hlow : 0 ≤ (w.rowCounter s).getD 0) (hsum : 0 ≤ (w.rowCounter s).getD 0 + delta)
    (hfits : (w.rowCounter s).getD 0 + delta < 2 ^ 63) :
    Posted s w (w.settle r delta key kind) ⟨r.id, kind, delta⟩ (some key) := by
  have hnew : w.store.quotaIdem.contains (toLex (s.row.tenantId, key)) = false := by
    simpa [mark, OrdMap.contains] using h
  have hclamped : max (wrapI64 ((w.rowCounter s).getD 0 + delta)) 0 =
      (w.rowCounter s).getD 0 + delta := by
    rw [wrapI64_of_bounds (by omega) hfits, max_eq_left hsum]
  have hnext : max (wrapI64 ((w.store.quotaCounters.lookup
      (toLex (s.row.tenantId, s.row.quotaId))).getD 0 + delta)) 0 =
      (w.rowCounter s).getD 0 + delta := hclamped
  simp only [settle, settleOnce, MbfPartitionStore.quotaSettleOnce, htenant, hnew,
    Bool.false_eq_true, if_false, MbfPartitionStore.quotaSettle, hquota, hnext, counter]
  refine ⟨?_, rfl, rfl, rfl, ?_, (w.rowCounter s).getD 0, ?_, hlow, ?_, hfits⟩
  · simp [rowCounter]
  · intro k
    unfold mark
    rw [OrdMap.lookup_insert]
    by_cases hk : key = k
    · simp [hk]
    · simp [hk, Ne.symm hk]
  · intro v hv
    rw [hv]
    rfl
  · simp [rowCounter]

end Settle
end ServiceWorld

/-! ### The books -/

/-- The books of the reservations that were opened. -/
structure Books (s : Setting) (opened : Reservation → Prop) (w : ServiceWorld) : Prop where
  account : ∀ r, opened r → Accounted r.estimated (s.consumed r.id) (w.history r.id)
  final : ∀ r, opened r → w.mark s (settlementKey r.id) = (w.history r.id).final
  late : ∀ r, opened r → w.mark s (lateChargeKey r.id) = (w.history r.id).late
  owned : ∀ e ∈ w.entries, ∃ r, opened r ∧ r.id = e.id
  counter : ∀ v, w.rowCounter s = some v → (∃ base, 0 ≤ base ∧ v = base + w.total) ∧ v < 2 ^ 63
  present : w.entries ≠ [] → (w.rowCounter s).isSome = true

namespace Books
variable {s : Setting} {opened : Reservation → Prop} {w w' : ServiceWorld} {e : Entry}
  {key : Option String} {r : Reservation}

theorem history_eq_nil (h : Books s opened w) {id : String} (hid : ∀ r, opened r → r.id ≠ id) :
    w.history id = [] := by
  unfold ServiceWorld.history
  rw [List.map_eq_nil_iff, List.filter_eq_nil_iff]
  intro e he heq
  obtain ⟨r, hr, hrid⟩ := h.owned e he
  exact hid r hr (hrid.trans (of_decide_eq_true heq))

theorem net_nonneg (h : Books s opened w) (hpos : ∀ r, opened r → 0 < r.estimated)
    (id : String) : 0 ≤ (w.history id).net := by
  by_cases hid : ∃ r, opened r ∧ r.id = id
  · obtain ⟨r, hr, rfl⟩ := hid
    exact (h.account r hr).net_nonneg (hpos r hr)
  · rw [h.history_eq_nil fun r hr heq => hid ⟨r, hr, heq⟩]
    exact le_rfl

/-- The counter is at least what any one reservation costs. -/
theorem net_le_counter (h : Books s opened w) (hpos : ∀ r, opened r → 0 < r.estimated)
    (id : String) : (w.history id).net ≤ (w.rowCounter s).getD 0 := by
  have hnet := w.net_le_total (h.net_nonneg hpos) id
  cases hcounter : w.rowCounter s with
  | none =>
    have hnil : w.entries = [] := by
      by_contra hne
      have hpresent := h.present hne
      rw [hcounter] at hpresent
      cases hpresent
    simp [ServiceWorld.history, hnil, History.net]
  | some v =>
    obtain ⟨⟨base, hbase, hv⟩, _⟩ := h.counter v hcounter
    rw [Option.getD_some]
    omega

theorem counter_nonneg (h : Books s opened w) (hpos : ∀ r, opened r → 0 < r.estimated) :
    0 ≤ (w.rowCounter s).getD 0 :=
  (h.net_nonneg hpos "").trans (h.net_le_counter hpos "")

theorem current_nonneg (h : Books s opened w) (hpos : ∀ r, opened r → 0 < r.estimated)
    (hseed : 0 ≤ s.row.seed) : 0 ≤ s.row.current w.store := by
  rw [ServiceWorld.current_eq]
  have hlow := h.counter_nonneg hpos
  cases hcounter : w.rowCounter s with
  | none => exact hseed
  | some v =>
    rw [hcounter] at hlow
    exact hlow

/-- A posted entry that continues the account of its reservation keeps the books. -/
theorem post (h : Books s opened w) (hinj : ∀ r r', opened r → opened r' → r.id = r'.id → r = r')
    (hpost : ServiceWorld.Posted s w w' e key) (hr : opened r) (hid : e.id = r.id)
    (hacc : Accounted r.estimated (s.consumed r.id) (w.history r.id ++ [(e.kind, e.change)]))
    (hfinal : key = some (settlementKey r.id) ∧ (w.history r.id).final = none ↔
      e.kind.isFinal = true)
    (hlate : key = some (lateChargeKey r.id) ∧ (w.history r.id).late = none ↔ e.kind = .late)
    (hkey : key = none ∨ key = some (settlementKey r.id) ∧ (w.history r.id).final = none ∨
      key = some (lateChargeKey r.id) ∧ (w.history r.id).late = none) :
    Books s opened w' := by
  have hhistory := hpost.history
  obtain ⟨base, hbase, hlow, hcounter, hfits⟩ := hpost.counter
  refine ⟨?_, ?_, ?_, ?_, ?_, ?_⟩
  · intro r' hr'
    rw [hhistory]
    split_ifs with heq
    · rw [hinj r' r hr' hr (heq.symm.trans hid)]
      exact hacc
    · exact h.account r' hr'
  · intro r' hr'
    rw [hhistory, hpost.marks, h.final r' hr']
    split_ifs with hk heq heq
    · obtain rfl := hinj r' r hr' hr (heq.symm.trans hid)
      have hnone : (w.history r'.id).final = none := by
        rcases hkey with hk' | ⟨_, hnone⟩ | ⟨hk', _⟩
        · rw [hk'] at hk
          cases hk
        · exact hnone
        · rw [hk'] at hk
          exact absurd (Option.some.inj hk).symm (settlementKey_ne_lateChargeKey _ _)
      rw [History.final_concat, hnone, Option.none_or, if_pos (hfinal.mp ⟨hk, hnone⟩)]
    · have hid' : r'.id = r.id := by
        rcases hkey with hk' | ⟨hk', _⟩ | ⟨hk', _⟩
        · rw [hk'] at hk
          cases hk
        · rw [hk'] at hk
          exact (settlementKey_inj.mp (Option.some.inj hk)).symm
        · rw [hk'] at hk
          exact absurd (Option.some.inj hk).symm (settlementKey_ne_lateChargeKey _ _)
      exact absurd (hid.trans hid'.symm) heq
    · obtain rfl := hinj r' r hr' hr (heq.symm.trans hid)
      have hkind : e.kind.isFinal ≠ true := fun hf => hk (hfinal.mpr hf).1
      rw [History.final_concat, if_neg hkind, Option.or_none]
    · rfl
  · intro r' hr'
    rw [hhistory, hpost.marks, h.late r' hr']
    split_ifs with hk heq heq
    · obtain rfl := hinj r' r hr' hr (heq.symm.trans hid)
      have hnone : (w.history r'.id).late = none := by
        rcases hkey with hk' | ⟨hk', _⟩ | ⟨_, hnone⟩
        · rw [hk'] at hk
          cases hk
        · rw [hk'] at hk
          exact absurd (Option.some.inj hk) (settlementKey_ne_lateChargeKey _ _)
        · exact hnone
      rw [History.late_concat, hnone, Option.none_or, if_pos (hlate.mp ⟨hk, hnone⟩)]
    · have hid' : r'.id = r.id := by
        rcases hkey with hk' | ⟨hk', _⟩ | ⟨hk', _⟩
        · rw [hk'] at hk
          cases hk
        · rw [hk'] at hk
          exact absurd (Option.some.inj hk) (settlementKey_ne_lateChargeKey _ _)
        · rw [hk'] at hk
          exact (lateChargeKey_inj.mp (Option.some.inj hk)).symm
      exact absurd (hid.trans hid'.symm) heq
    · obtain rfl := hinj r' r hr' hr (heq.symm.trans hid)
      have hkind : e.kind ≠ .late := fun hf => hk (hlate.mpr hf).1
      rw [History.late_concat, if_neg hkind, Option.or_none]
    · rfl
  · intro e' he'
    rw [hpost.entries, List.mem_append, List.mem_singleton] at he'
    rcases he' with he' | rfl
    · exact h.owned e' he'
    · exact ⟨r, hr, hid.symm⟩
  · intro v hv
    rw [hcounter] at hv
    cases hv
    refine ⟨?_, hfits⟩
    have htotal : w'.total = w.total + e.change := by
      simp [ServiceWorld.total, hpost.entries]
    cases hold : w.rowCounter s with
    | none =>
      have hnil : w.entries = [] := by
        by_contra hne
        have hpresent := h.present hne
        rw [hold] at hpresent
        cases hpresent
      have hzero : w.total = 0 := by simp [ServiceWorld.total, hnil]
      exact ⟨base, hlow, by rw [htotal, hzero, zero_add]⟩
    | some v =>
      obtain ⟨⟨base', hbase', hv⟩, _⟩ := h.counter v hold
      refine ⟨base', hbase', ?_⟩
      rw [hbase v hold, htotal, hv, add_assoc]
  · intro _
    rw [hcounter]
    rfl

end Books
end MetriEngine.Quota

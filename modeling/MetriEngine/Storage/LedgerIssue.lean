import MetriEngine.Foundation.Allotment
import MetriEngine.Storage.LedgerConservation

/-!
# What an issue takes and what it costs

An issue draws its quantity from the layers in the order of its method, and charges each part at
its unit cost. The quantity is narrowed to 64 bits before the layers are drawn on: from `2 ^ 63` on
the issue takes something else than what was asked for.
-/
namespace MetriEngine.Storage.FinancialLedger
open Foundation

/-! ### The layers by their place -/

def held (batches : List Batch) (i : ℕ) : ℤ := (batches[i]?).elim 0 (·.1.remainingQtyScaled)

def costOf (batches : List Batch) (i : ℕ) : ℤ := (batches[i]?).elim 0 (·.2)

def receivedAt (batches : List Batch) (i : ℕ) : ℤ := (batches[i]?).elim 0 (·.1.receivedMs)

def expiresAt (batches : List Batch) (i : ℕ) : ℤ := (batches[i]?).elim 0 (·.1.expiryMs)

/-- The layer `i` comes before the layer `j` in the method's order. -/
def ConsumedBefore (batches : List Batch) : ValuationMethod → ℕ → ℕ → Prop
  | .fifo, i, j | .wac, i, j => receivedAt batches i < receivedAt batches j ∨
      receivedAt batches i = receivedAt batches j ∧ i < j
  | .lifo, i, j => receivedAt batches j < receivedAt batches i ∨
      receivedAt batches i = receivedAt batches j ∧ i < j
  | .fefo, i, j => expiresAt batches i < expiresAt batches j ∨
      expiresAt batches i = expiresAt batches j ∧ i < j

theorem held_of_getElem? {batches : List Batch} {i : ℕ} {b : Batch} (h : batches[i]? = some b) :
    held batches i = b.1.remainingQtyScaled := by
  rw [held, h]
  rfl

theorem costOf_of_getElem? {batches : List Batch} {i : ℕ} {b : Batch}
    (h : batches[i]? = some b) : costOf batches i = b.2 := by
  rw [costOf, h]
  rfl

theorem held_bounds {batches : List Batch} (hsound : Sound batches) (i : ℕ) :
    0 ≤ held batches i ∧ held batches i < 2 ^ 63 := by
  cases hb : batches[i]? with
  | none =>
    rw [held, hb]
    exact ⟨le_rfl, by norm_num⟩
  | some b =>
    rw [held_of_getElem? hb]
    exact hsound.fits b (List.mem_of_getElem? hb)

theorem map_held (batches : List Batch) :
    (List.range batches.length).map (held batches) =
      batches.map (·.1.remainingQtyScaled) := by
  apply List.ext_getElem
  · simp
  · intro i hi hi'
    simp only [List.length_map, List.length_range] at hi
    rw [List.getElem_map, List.getElem_map, List.getElem_range,
      held_of_getElem? (List.getElem?_eq_getElem hi)]

/-- Where no layer is negative, the stock is the sum of what the layers hold. -/
theorem quantity_eq_sum_held {batches : List Batch} (hsound : Sound batches) :
    quantity batches = ((List.range batches.length).map (held batches)).sum := by
  rw [map_held, quantity]
  congr 1
  apply List.map_congr_left
  intro b hb
  rw [layerQty_eq_max]
  exact max_eq_left (hsound.fits b hb).1

/-! ### The order of an issue -/

section Order

variable (batches : List Batch) (method : ValuationMethod)

theorem issueOrder_perm : (issueOrder batches method).Perm (List.range batches.length) := by
  cases method <;> exact List.perm_insertionSort ..

theorem issueOrder_nodup : (issueOrder batches method).Nodup :=
  (issueOrder_perm batches method).nodup_iff.mpr List.nodup_range

theorem mem_issueOrder {i : ℕ} : i ∈ issueOrder batches method ↔ i < batches.length := by
  rw [(issueOrder_perm batches method).mem_iff, List.mem_range]

end Order

section Stamps

variable {β : Type} [LinearOrder β] (stamp : ℕ → β)

/-- Places sorted by a stamp. -/
def byStamp (i j : ℕ) : Prop := stamp i ≤ stamp j

instance : DecidableRel (byStamp stamp) := fun i j => inferInstanceAs (Decidable (stamp i ≤ stamp j))

instance : Std.Total (byStamp stamp) := ⟨fun i j => le_total (stamp i) (stamp j)⟩

instance : IsTrans ℕ (byStamp stamp) := ⟨fun _ _ _ => le_trans⟩

theorem earlier_byStamp {i j : ℕ} (h : stamp i < stamp j ∨ stamp i = stamp j ∧ i < j) :
    Earlier (byStamp stamp) i j := by
  rcases h with h | ⟨h, hij⟩
  · exact ⟨h.le, fun hle => absurd hle (not_le_of_gt h)⟩
  · exact ⟨h.le, fun _ => hij⟩

end Stamps

/-- What holds along the order of an issue holds between any two layers in the method's order. -/
theorem of_consumedBefore {batches : List Batch} {method : ValuationMethod} {p : ℕ → ℕ → Prop}
    (hp : (issueOrder batches method).Pairwise p) {i j : ℕ} (hi : i < batches.length)
    (hj : j < batches.length) (hij : ConsumedBefore batches method i j) : p i j := by
  have hrange : (List.range batches.length).Pairwise (· < ·) := List.pairwise_lt_range
  have hi' := (mem_issueOrder batches method).mpr hi
  have hj' := (mem_issueOrder batches method).mpr hj
  cases method with
  | fifo | wac =>
    exact of_earlier (pairwise_earlier_insertionSort hrange) hp hi' hj'
      (earlier_byStamp (receivedAt batches) hij)
  | lifo =>
    have hstamp : Earlier (byStamp fun i => OrderDual.toDual (receivedAt batches i)) i j := by
      apply earlier_byStamp
      rcases hij with hlt | ⟨heq, hlt⟩
      · exact Or.inl hlt
      · exact Or.inr ⟨congrArg OrderDual.toDual heq, hlt⟩
    exact of_earlier (pairwise_earlier_insertionSort hrange) hp hi' hj' hstamp
  | fefo =>
    exact of_earlier (pairwise_earlier_insertionSort hrange) hp hi' hj'
      (earlier_byStamp (expiresAt batches) hij)

/-! ### The loop draws -/

/-- Every sum on the way stays within 128 bits. -/
def RunsWithin : ℤ → List ℤ → Prop
  | _, [] => True
  | total, cost :: costs =>
    (-2 ^ 127 ≤ total + cost ∧ total + cost < 2 ^ 127) ∧ RunsWithin (total + cost) costs

/-- The layers with a part taken from each. -/
def lowered (batches : List Batch) (parts : ℕ → ℤ) : List Batch :=
  batches.mapIdx fun i b => taken b (parts i)

theorem getElem?_lowered (batches : List Batch) (parts : ℕ → ℤ) (i : ℕ) :
    (lowered batches parts)[i]? = (batches[i]?).map fun b => taken b (parts i) :=
  List.getElem?_mapIdx

@[simp] theorem length_lowered (batches : List Batch) (parts : ℕ → ℤ) :
    (lowered batches parts).length = batches.length :=
  List.length_mapIdx

theorem held_lowered {batches : List Batch} (parts : ℕ → ℤ) {i : ℕ} (hi : i < batches.length) :
    held (lowered batches parts) i = held batches i - parts i := by
  rw [held, held, getElem?_lowered, List.getElem?_eq_getElem hi]
  rfl

theorem taken_zero (b : Batch) : taken b 0 = b := by
  rw [taken, sub_zero]

theorem taken_taken_zero (b : Batch) (take : ℤ) : taken (taken b take) 0 = taken b take :=
  taken_zero _

theorem lowered_zero (batches : List Batch) {parts : ℕ → ℤ} (h : ∀ i, parts i = 0) :
    lowered batches parts = batches := by
  apply List.ext_getElem?
  intro i
  rw [getElem?_lowered, h]
  cases batches[i]? with
  | none => rfl
  | some b => exact congrArg some (taken_zero b)

theorem mulBankers_zero (c : ℤ) : FixedDecimal128.mulBankers 0 c = 0 := by
  rw [FixedDecimal128.mulBankers, zero_mul]
  rfl

theorem issueLayers_done {unitCostOf : ℤ → ℤ} {indices : List ℕ} {s : Issuing}
    (h : s.remainingToIssue = 0) : issueLayers unitCostOf indices s = (s, none) := by
  cases indices with
  | nil => rfl
  | cons i indices =>
    rw [issueLayers]
    exact if_pos h

/-- One layer of the loop, also where it holds nothing or nothing is wanted any more. -/
theorem issueLayers_cons {unitCostOf : ℤ → ℤ} {i : ℕ} {indices : List ℕ} {s : Issuing} {b : Batch}
    (hb : s.batches[i]? = some b) (hq : 0 ≤ b.1.remainingQtyScaled)
    (hq' : b.1.remainingQtyScaled < 2 ^ 63) (hleft : 0 ≤ s.remainingToIssue)
    (hleft' : s.remainingToIssue < 2 ^ 63) (hlow : -2 ^ 127 ≤ s.totalCogs)
    (hhigh : s.totalCogs < 2 ^ 127) :
    issueLayers unitCostOf (i :: indices) s =
      match FixedDecimal128.checkedAdd s.totalCogs (FixedDecimal128.mulBankers
          (min b.1.remainingQtyScaled s.remainingToIssue) (unitCostOf b.2)) with
      | .ok totalCogs => issueLayers unitCostOf indices
          ⟨s.batches.set i (taken b (min b.1.remainingQtyScaled s.remainingToIssue)),
            s.remainingToIssue - min b.1.remainingQtyScaled s.remainingToIssue, totalCogs⟩
      | .error e =>
        (⟨s.batches.set i (taken b (min b.1.remainingQtyScaled s.remainingToIssue)),
          s.remainingToIssue - min b.1.remainingQtyScaled s.remainingToIssue, s.totalCogs⟩,
            some e) := by
  set take := min b.1.remainingQtyScaled s.remainingToIssue with htake
  have htake0 : 0 ≤ take := le_min hq hleft
  have hle : take ≤ b.1.remainingQtyScaled := min_le_left ..
  have hle' : take ≤ s.remainingToIssue := min_le_right ..
  have hnothing (hzero : take = 0) : FixedDecimal128.checkedAdd s.totalCogs
      (FixedDecimal128.mulBankers take (unitCostOf b.2)) = .ok s.totalCogs ∧
      (⟨s.batches.set i (taken b take), s.remainingToIssue - take, s.totalCogs⟩ : Issuing) = s := by
    rw [hzero, mulBankers_zero, FixedDecimal128.checkedAdd, add_zero, if_pos ⟨hlow, hhigh⟩,
      taken_zero, sub_zero]
    have hset : s.batches.set i b = s.batches := by
      obtain ⟨hi, rfl⟩ := List.getElem?_eq_some_iff.mp hb
      exact List.set_getElem_self hi
    rw [hset]
    exact ⟨rfl, rfl⟩
  rw [issueLayers]
  split_ifs with hdone
  · obtain ⟨hadd, hs⟩ := hnothing (by omega)
    rw [hadd]
    simp only [hs]
    exact (issueLayers_done hdone).symm
  · rw [hb]
    simp only
    split_ifs with hzero
    · obtain ⟨hadd, hs⟩ := hnothing (by omega)
      rw [hadd]
      simp only [hs]
    · rw [wrapI64_of_bounds (by omega) (by omega), wrapI64_of_bounds (by omega) (by omega)]
      rfl

theorem held_set_of_ne {batches : List Batch} {i j : ℕ} (h : i ≠ j) (b : Batch) :
    held (batches.set i b) j = held batches j := by
  rw [held, held, List.getElem?_set_ne h]

theorem costOf_set_of_ne {batches : List Batch} {i j : ℕ} (h : i ≠ j) (b : Batch) :
    costOf (batches.set i b) j = costOf batches j := by
  rw [costOf, costOf, List.getElem?_set_ne h]

/-- Lowering one layer and then the others lowers all of them. -/
theorem lowered_set {batches : List Batch} {i : ℕ} {b : Batch} (hb : batches[i]? = some b)
    {parts parts' : ℕ → ℤ} (hi : parts' i = 0) (hne : ∀ j, j ≠ i → parts' j = parts j) :
    lowered (batches.set i (taken b (parts i))) parts' = lowered batches parts := by
  apply List.ext_getElem?
  intro j
  rw [getElem?_lowered, getElem?_lowered]
  by_cases hj : i = j
  · subst hj
    rw [List.getElem?_set_self (List.getElem?_eq_some_iff.mp hb).1, hb, hi]
    exact congrArg some (taken_taken_zero b (parts i))
  · rw [List.getElem?_set_ne hj, hne j (Ne.symm hj)]

theorem sound_set {batches : List Batch} (hsound : Sound batches) {b : Batch} {take : ℤ} (i : ℕ)
    (hb : b ∈ batches) (h0 : 0 ≤ take) (hle : take ≤ b.1.remainingQtyScaled) :
    Sound (batches.set i (taken b take)) := by
  constructor
  intro c hc
  have hq := hsound.fits b hb
  rcases List.mem_or_eq_of_mem_set hc with hc | rfl
  · exact hsound.fits c hc
  · rw [taken_remaining]
    omega

/-- What the loop charges for the parts, as it multiplies in 128 bits. -/
def charges (unitCostOf : ℤ → ℤ) (batches : List Batch) (parts : ℕ → ℤ) (indices : List ℕ) :
    List ℤ :=
  indices.map fun i => FixedDecimal128.mulBankers (parts i) (unitCostOf (costOf batches i))

/-- The loop takes what is drawn from each layer, and fails exactly if the costs do not stay within
128 bits. -/
theorem issueLayers_draws {unitCostOf : ℤ → ℤ} {indices : List ℕ} (hnodup : indices.Nodup)
    {s : Issuing} (hsound : Sound s.batches) (hin : ∀ i ∈ indices, i < s.batches.length)
    (hleft : 0 ≤ s.remainingToIssue) (hleft' : s.remainingToIssue < 2 ^ 63)
    (hlow : -2 ^ 127 ≤ s.totalCogs) (hhigh : s.totalCogs < 2 ^ 127) {parts : ℕ → ℤ}
    (hparts : parts = drawn (held s.batches) indices s.remainingToIssue) :
    (RunsWithin s.totalCogs (charges unitCostOf s.batches parts indices) ∧
      ∃ left, issueLayers unitCostOf indices s = (⟨lowered s.batches parts, left,
        s.totalCogs + (charges unitCostOf s.batches parts indices).sum⟩, none)) ∨
    (¬ RunsWithin s.totalCogs (charges unitCostOf s.batches parts indices) ∧
      ∃ s' e, issueLayers unitCostOf indices s = (s', some e)) := by
  induction indices generalizing s parts with
  | nil =>
    refine Or.inl ⟨trivial, s.remainingToIssue, ?_⟩
    rw [lowered_zero _ fun i => by rw [hparts]; rfl, issueLayers, charges, List.map_nil,
      List.sum_nil, add_zero]
  | cons i indices ih =>
    obtain ⟨hi, hrest⟩ := List.nodup_cons.mp hnodup
    have hlen := hin i List.mem_cons_self
    have hb : s.batches[i]? = some s.batches[i] := List.getElem?_eq_getElem hlen
    set b := s.batches[i] with hbdef
    have hmem : b ∈ s.batches := List.mem_of_getElem? hb
    have hq := hsound.fits b hmem
    have hpart : parts i = min b.1.remainingQtyScaled s.remainingToIssue := by
      rw [hparts, drawn_cons_self, held_of_getElem? hb]
    have h0 : 0 ≤ parts i := by
      rw [hpart]
      exact le_min hq.1 hleft
    have hle : parts i ≤ b.1.remainingQtyScaled := by
      rw [hpart]
      exact min_le_left ..
    have hle' : parts i ≤ s.remainingToIssue := by
      rw [hpart]
      exact min_le_right ..
    -- the layers after this one, drawn on from the state this one leaves
    let after := s.batches.set i (taken b (parts i))
    let parts' := drawn (held after) indices (s.remainingToIssue - parts i)
    have hself : parts' i = 0 := drawn_of_notMem hi
    have hother (j : ℕ) (hj : j ≠ i) : parts' j = parts j := by
      rw [hparts, drawn_cons_of_ne hj, held_of_getElem? hb, ← hpart]
      apply drawn_congr
      intro k hk
      have hik : i ≠ k := fun hik => hi (hik ▸ hk)
      exact held_set_of_ne hik _
    have hcharges : charges unitCostOf s.batches parts (i :: indices) =
        FixedDecimal128.mulBankers (parts i) (unitCostOf b.2) ::
          charges unitCostOf after parts' indices := by
      rw [charges, List.map_cons, costOf_of_getElem? hb]
      congr 1
      apply List.map_congr_left
      intro j hj
      have hji : j ≠ i := fun hji => hi (hji ▸ hj)
      rw [hother j hji, costOf_set_of_ne hji.symm]
    have hstep : issueLayers unitCostOf (i :: indices) s = _ :=
      issueLayers_cons hb hq.1 hq.2 hleft hleft' hlow hhigh
    rw [← hpart] at hstep
    rw [hcharges, hstep, FixedDecimal128.checkedAdd]
    set cost := FixedDecimal128.mulBankers (parts i) (unitCostOf b.2)
    split_ifs with hfits
    · have hin' (j : ℕ) (hj : j ∈ indices) : j < after.length := by
        rw [List.length_set]
        exact hin j (List.mem_cons_of_mem i hj)
      have hrun := ih hrest (s := ⟨after, s.remainingToIssue - parts i, s.totalCogs + cost⟩)
        (sound_set hsound i hmem h0 hle) hin' (sub_nonneg.mpr hle') (by simp only; omega)
        hfits.1 hfits.2 (rfl : parts' = _)
      simp only [lowered_set hb hself hother, add_assoc, after] at hrun
      rw [RunsWithin, List.sum_cons]
      simp only [hfits, true_and]
      exact hrun
    · refine Or.inr ⟨fun h => hfits h.1, _, _, rfl⟩

/-! ### The share of a layer -/

/-- What an issue is to take from the layer `i`. -/
def share (batches : List Batch) (method : ValuationMethod) (issueQty : ℤ) : ℕ → ℤ :=
  drawn (held batches) (issueOrder batches method) issueQty

theorem sum_range_eq (f : ℕ → ℤ) (n : ℕ) :
    ((List.range n).map f).sum = ∑ i ∈ Finset.range n, f i := by
  rw [← List.sum_toFinset f List.nodup_range, List.toFinset_range]

section Share

variable {batches : List Batch} (hsound : Sound batches) (method : ValuationMethod) {issueQty : ℤ}

theorem sum_issueOrder (f : ℕ → ℤ) :
    ((issueOrder batches method).map f).sum = ∑ i ∈ Finset.range batches.length, f i := by
  rw [((issueOrder_perm batches method).map f).sum_eq, sum_range_eq]

theorem share_le (i : ℕ) (hsound : Sound batches) :
    share batches method issueQty i ≤ held batches i :=
  drawn_le (held_bounds hsound i).1

include hsound

theorem share_nonneg (h : 0 ≤ issueQty) (i : ℕ) : 0 ≤ share batches method issueQty i :=
  drawn_nonneg (fun j _ => (held_bounds hsound j).1) h i

/-- The shares make up what is issued, or the whole stock. -/
theorem sum_share (h : 0 ≤ issueQty) :
    ∑ i ∈ Finset.range batches.length, share batches method issueQty i =
      min (quantity batches) issueQty := by
  rw [← sum_issueOrder method, share, sum_drawn (issueOrder_nodup batches method)
    (fun j _ => (held_bounds hsound j).1) h, sum_issueOrder, quantity_eq_sum_held hsound,
    sum_range_eq]

theorem share_in_order {i j : ℕ} (hi : i < batches.length) (hj : j < batches.length)
    (hij : ConsumedBefore batches method i j) (hpos : 0 < share batches method issueQty j) :
    share batches method issueQty i = held batches i :=
  of_consumedBefore (drawn_in_order (issueOrder_nodup batches method)
    fun k _ => (held_bounds hsound k).1) hi hj hij hpos

theorem sound_lowered {parts : ℕ → ℤ} (h0 : ∀ i, 0 ≤ parts i)
    (hle : ∀ i, parts i ≤ held batches i) : Sound (lowered batches parts) := by
  constructor
  intro b hb
  obtain ⟨i, hi⟩ := List.mem_iff_getElem?.mp hb
  rw [getElem?_lowered] at hi
  obtain ⟨c, hc, rfl⟩ := Option.map_eq_some_iff.mp hi
  have hq := hsound.fits c (List.mem_of_getElem? hc)
  have hpart := hle i
  have hpart0 := h0 i
  rw [held_of_getElem? hc] at hpart
  rw [taken_remaining]
  omega

theorem quantity_lowered {parts : ℕ → ℤ} (h0 : ∀ i, 0 ≤ parts i)
    (hle : ∀ i, parts i ≤ held batches i) :
    quantity (lowered batches parts) =
      quantity batches - ∑ i ∈ Finset.range batches.length, parts i := by
  rw [quantity_eq_sum_held hsound, quantity_eq_sum_held (sound_lowered hsound h0 hle),
    sum_range_eq, sum_range_eq, length_lowered, ← Finset.sum_sub_distrib]
  apply Finset.sum_congr rfl
  intro i hi
  exact held_lowered parts (Finset.mem_range.mp hi)

end Share

/-! ### An issue that succeeds -/

/-- What a successful issue went through. -/
theorem issue_ok {z z' : FinancialLedgerZone} {txEpochMs issueQty cogs : ℤ}
    {method : ValuationMethod} {after : FinancialBlockCheckpoint}
    (h : z.issueInventory txEpochMs issueQty method = (z', .ok (cogs, after))) :
    z.fiscalLockEpochMs < txEpochMs ∧ issueQty ≤ quantity z.batches ∧
      ∃ before s, computeCheckpoint z.batches txEpochMs = .ok before ∧
        issueLayers (FinancialLedgerZone.unitCostUnder method before)
          (issueOrder z.batches method) ⟨z.batches, wrapI64 issueQty, 0⟩ = (s, none) ∧
        computeCheckpoint s.batches txEpochMs = .ok after ∧ z'.batches = s.batches ∧
        cogs = s.totalCogs := by
  rw [FinancialLedgerZone.issueInventory] at h
  split_ifs at h with hlock
  · cases h
  · cases hbefore : computeCheckpoint z.batches txEpochMs with
    | error e =>
      rw [hbefore] at h
      cases h
    | ok before =>
      rw [hbefore] at h
      simp only at h
      split_ifs at h with hshort
      · cases h
      · cases hloop : issueLayers (FinancialLedgerZone.unitCostUnder method before)
            (issueOrder z.batches method) ⟨z.batches, wrapI64 issueQty, 0⟩ with
        | mk s err =>
          rw [hloop] at h
          cases err with
          | some e => cases h
          | none =>
            rw [FinancialLedgerZone.finishIssue] at h
            cases hafter : computeCheckpoint s.batches txEpochMs with
            | error e =>
              rw [hafter] at h
              cases h
            | ok cp =>
              rw [hafter] at h
              cases h
              rw [(computeCheckpoint_ok hbefore).1] at hshort
              exact ⟨lt_of_not_ge hlock, le_of_not_gt hshort, before, s, rfl, hloop, hafter, rfl,
                rfl⟩

/-- A negative rest is taken from one layer, and then nothing is left to take. -/
theorem quantity_issueLayers_of_neg {unitCostOf : ℤ → ℤ} {indices : List ℕ} {s : Issuing}
    (hsound : Sound s.batches) (hneg : s.remainingToIssue < 0) :
    quantity s.batches - quantity (issueLayers unitCostOf indices s).1.batches < 2 ^ 63 := by
  induction indices with
  | nil =>
    rw [issueLayers, sub_self]
    norm_num
  | cons i indices ih =>
    rw [issueLayers, if_neg hneg.ne]
    cases hb : s.batches[i]? with
    | none =>
      simp only [sub_self]
      norm_num
    | some b =>
      have hq := hsound.fits b (List.mem_of_getElem? hb)
      simp only
      split_ifs with hzero
      · exact ih
      · have hmin : min b.1.remainingQtyScaled s.remainingToIssue = s.remainingToIssue :=
          min_eq_right (by omega)
        have hdone : wrapI64 (s.remainingToIssue - s.remainingToIssue) = 0 := by
          rw [sub_self]
          rfl
        have hdrop (b' : Batch) :
            quantity s.batches - quantity (s.batches.set i b') < 2 ^ 63 := by
          have hle := layerQty_nonneg b'
          have hqty : layerQty b < 2 ^ 63 := by
            rw [layerQty_eq_max]
            omega
          rw [quantity, quantity, sum_map_set hb]
          omega
        rw [hmin, hdone]
        cases FixedDecimal128.checkedAdd s.totalCogs
            (FixedDecimal128.mulBankers s.remainingToIssue (unitCostOf b.2)) with
        | error e => exact hdrop _
        | ok cogs =>
          simp only [issueLayers_done]
          exact hdrop _

/-- The loop over a quantity that 64 bits hold. -/
theorem loop_draws {batches : List Batch} (hsound : Sound batches) (unitCostOf : ℤ → ℤ)
    (method : ValuationMethod) {n : ℤ} (h0 : 0 ≤ n) (hlt : n < 2 ^ 63) :
    let costs := charges unitCostOf batches (share batches method n) (issueOrder batches method)
    let run := issueLayers unitCostOf (issueOrder batches method) ⟨batches, n, 0⟩
    (RunsWithin 0 costs ∧
      ∃ left, run = (⟨lowered batches (share batches method n), left, costs.sum⟩, none)) ∨
      (¬ RunsWithin 0 costs ∧ ∃ s' e, run = (s', some e)) := by
  have hdraws := @issueLayers_draws unitCostOf (issueOrder batches method)
    (issueOrder_nodup batches method) ⟨batches, n, 0⟩ hsound
    (fun i hi => (mem_issueOrder batches method).mp hi) h0 hlt (by norm_num) (by norm_num)
    (share batches method n) rfl
  simp only [zero_add] at hdraws
  exact hdraws

/-- However much is asked for, less than `2 ^ 63` is taken. -/
theorem quantity_drop_lt {batches : List Batch} (hsound : Sound batches) {unitCostOf : ℤ → ℤ}
    (method : ValuationMethod) {n : ℤ} {s : Issuing}
    (h : issueLayers unitCostOf (issueOrder batches method) ⟨batches, wrapI64 n, 0⟩ = (s, none)) :
    quantity batches - quantity s.batches < 2 ^ 63 := by
  have hhigh := (wrapI64_bounds n).2
  rcases lt_or_ge (wrapI64 n) 0 with hneg | h0
  · have hdrop := @quantity_issueLayers_of_neg unitCostOf (issueOrder batches method)
      ⟨batches, wrapI64 n, 0⟩ hsound hneg
    rw [h] at hdrop
    exact hdrop
  · rcases loop_draws hsound unitCostOf method h0 hhigh with ⟨-, left, hrun⟩ | ⟨-, s', e, hrun⟩
    · rw [h] at hrun
      cases hrun
      rw [quantity_lowered hsound (share_nonneg hsound method h0)
        fun i => share_le method i hsound, sum_share hsound method h0]
      have := min_le_right (quantity batches) (wrapI64 n)
      omega
    · rw [h] at hrun
      cases hrun

/-! ### What an issue promises -/

/-- The stock drops by what is issued, the layers give it in the method's order, and its cost is
that of the parts, each rounded at its unit cost. -/
structure IssuedInOrder (z z' : FinancialLedgerZone) (method : ValuationMethod) (issueQty cogs : ℤ)
    (before after : FinancialBlockCheckpoint) : Prop where
  closing : after.closingQty = before.closingQty - issueQty
  length : z'.batches.length = z.batches.length
  layers : ∀ i, 0 ≤ held z'.batches i ∧ held z'.batches i ≤ held z.batches i
  total : ∑ i ∈ Finset.range z.batches.length, (held z.batches i - held z'.batches i) = issueQty
  inOrder : ∀ i j, i < z.batches.length → j < z.batches.length →
    ConsumedBefore z.batches method i j → held z'.batches j < held z.batches j →
      held z'.batches i = 0
  cogs : cogs = ∑ i ∈ Finset.range z.batches.length with held z'.batches i < held z.batches i,
    roundHalfEven ((held z.batches i - held z'.batches i) *
      FinancialLedgerZone.unitCostUnder method before (costOf z.batches i)) FixedDecimal128.scale

/-- An issue that succeeds is in order, and one that the stock allows outside the fiscal lock
succeeds. -/
def IssuesInOrder (z : FinancialLedgerZone) (txEpochMs issueQty : ℤ) (method : ValuationMethod) :
    Prop :=
  (∀ z' cogs after, z.issueInventory txEpochMs issueQty method = (z', .ok (cogs, after)) →
    ∃ before, computeCheckpoint z.batches txEpochMs = .ok before ∧
      IssuedInOrder z z' method issueQty cogs before after) ∧
  (z.fiscalLockEpochMs < txEpochMs → issueQty ≤ quantity z.batches →
    ∃ z' cogs after, z.issueInventory txEpochMs issueQty method = (z', .ok (cogs, after)))

/-- The numbers of an issue fit their machine types: its quantity 64 bits, and 128 bits the sums of
the checkpoints before it and after it, the running sum of the costs, and each product, or else
what the products lose cancels out. -/
structure IssueFits (batches : List Batch) (txEpochMs issueQty : ℤ) (method : ValuationMethod)
    (before : FinancialBlockCheckpoint) : Prop where
  narrow : issueQty < 2 ^ 63
  checkpoint : computeCheckpoint batches txEpochMs = .ok before
  sums : RunsWithin 0 (charges (FinancialLedgerZone.unitCostUnder method before) batches
    (share batches method issueQty) (issueOrder batches method))
  products : ∑ i ∈ Finset.range batches.length,
    (FixedDecimal128.mulBankers (share batches method issueQty i)
        (FinancialLedgerZone.unitCostUnder method before (costOf batches i)) -
      roundHalfEven (share batches method issueQty i *
        FinancialLedgerZone.unitCostUnder method before (costOf batches i))
          FixedDecimal128.scale) = 0
  left : ∃ after, computeCheckpoint (lowered batches (share batches method issueQty)) txEpochMs =
    .ok after

section Promise

variable {z : FinancialLedgerZone} {txEpochMs issueQty : ℤ}
  {method : ValuationMethod} {before : FinancialBlockCheckpoint}

theorem sum_charges (unitCostOf : ℤ → ℤ) (parts : ℕ → ℤ) :
    (charges unitCostOf z.batches parts (issueOrder z.batches method)).sum =
      ∑ i ∈ Finset.range z.batches.length,
        FixedDecimal128.mulBankers (parts i) (unitCostOf (costOf z.batches i)) :=
  sum_issueOrder method _

/-- The layers without their shares were drawn on in order. -/
theorem issuedInOrder_of_lowered (hpos : 0 < issueQty) (hstock : issueQty ≤ quantity z.batches)
    {z' : FinancialLedgerZone} {cogs : ℤ} {after : FinancialBlockCheckpoint}
    (hz' : z'.batches = lowered z.batches (share z.batches method issueQty))
    (hbefore : computeCheckpoint z.batches txEpochMs = .ok before)
    (hafter : computeCheckpoint z'.batches txEpochMs = .ok after) (hsound : Sound z.batches) :
    IssuedInOrder z z' method issueQty cogs before after ↔
      cogs = ∑ i ∈ Finset.range z.batches.length,
        roundHalfEven (share z.batches method issueQty i *
          FinancialLedgerZone.unitCostUnder method before (costOf z.batches i))
            FixedDecimal128.scale := by
  have h0 := share_nonneg hsound method hpos.le
  have hle (i : ℕ) : share z.batches method issueQty i ≤ held z.batches i :=
    share_le method i hsound
  have htotal : ∑ i ∈ Finset.range z.batches.length, share z.batches method issueQty i =
      issueQty := by
    rw [sum_share hsound method hpos.le, min_eq_right hstock]
  have hheld (i : ℕ) (hi : i < z.batches.length) :
      held z'.batches i = held z.batches i - share z.batches method issueQty i := by
    rw [hz', held_lowered _ hi]
  have hcogs : (∑ i ∈ Finset.range z.batches.length with held z'.batches i < held z.batches i,
      roundHalfEven ((held z.batches i - held z'.batches i) *
        FinancialLedgerZone.unitCostUnder method before (costOf z.batches i))
          FixedDecimal128.scale) =
      ∑ i ∈ Finset.range z.batches.length, roundHalfEven (share z.batches method issueQty i *
        FinancialLedgerZone.unitCostUnder method before (costOf z.batches i))
          FixedDecimal128.scale := by
    rw [Finset.sum_filter]
    apply Finset.sum_congr rfl
    intro i hi
    rw [hheld i (Finset.mem_range.mp hi), sub_sub_cancel]
    split_ifs with htouched
    · rfl
    · have hzero : share z.batches method issueQty i = 0 := le_antisymm (by omega) (h0 i)
      rw [hzero, zero_mul]
      rfl
  constructor
  · intro h
    rw [← hcogs]
    exact h.cogs
  · intro h
    refine ⟨?_, ?_, ?_, ?_, ?_, h.trans hcogs.symm⟩
    · rw [(computeCheckpoint_ok hafter).1, (computeCheckpoint_ok hbefore).1, hz',
        quantity_lowered hsound h0 hle, htotal]
    · rw [hz', length_lowered]
    · intro i
      rcases lt_or_ge i z.batches.length with hi | hi
      · have := hle i
        have := h0 i
        rw [hheld i hi]
        omega
      · rw [held, held, List.getElem?_eq_none hi, hz', getElem?_lowered,
          List.getElem?_eq_none hi]
        exact ⟨le_rfl, le_rfl⟩
    · rw [← htotal]
      apply Finset.sum_congr rfl
      intro i hi
      rw [hheld i (Finset.mem_range.mp hi), sub_sub_cancel]
    · intro i j hi hj hij htouched
      rw [hheld j hj] at htouched
      rw [hheld i hi, share_in_order hsound method hi hj hij (by omega), sub_self]

/-- An issue keeps its promise exactly if it is refused (the fiscal lock, or too little stock) or
its numbers fit their types. -/
theorem issuesInOrder_iff (hsound : Sound z.batches) (hpos : 0 < issueQty) :
    IssuesInOrder z txEpochMs issueQty method ↔
      txEpochMs ≤ z.fiscalLockEpochMs ∨ quantity z.batches < issueQty ∨
        ∃ before, IssueFits z.batches txEpochMs issueQty method before := by
  constructor
  · intro h
    rw [or_iff_not_imp_left, or_iff_not_imp_left, not_le, not_lt]
    intro hlock hstock
    obtain ⟨z', cogs, after, hissue⟩ := h.2 hlock hstock
    obtain ⟨before, hbefore, hinOrder⟩ := h.1 z' cogs after hissue
    obtain ⟨-, -, cp, s, hcp, hloop, hafter, hz', hcogs⟩ := issue_ok hissue
    cases hcp.symm.trans hbefore
    have hnarrow : issueQty < 2 ^ 63 := by
      have hdrop := quantity_drop_lt hsound method hloop
      have hclosing := hinOrder.closing
      rw [(computeCheckpoint_ok hafter).1, (computeCheckpoint_ok hbefore).1] at hclosing
      omega
    rw [wrapI64_of_bounds (by omega) hnarrow] at hloop
    rcases loop_draws hsound (FinancialLedgerZone.unitCostUnder method before) method hpos.le
      hnarrow with ⟨hsums, left, hrun⟩ | ⟨-, s', e, hrun⟩
    · cases hloop.symm.trans hrun
      have hafter' := hz' ▸ hafter
      have hexact := (issuedInOrder_of_lowered hpos hstock hz' hbefore hafter' hsound).mp hinOrder
      refine ⟨before, hnarrow, hbefore, hsums, ?_, after, hafter⟩
      rw [Finset.sum_sub_distrib, ← hexact, hcogs, sum_charges, sub_self]
    · cases hloop.symm.trans hrun
  · intro h
    rcases h with hlock | hshort | ⟨before, hfits⟩
    · constructor
      · intro z' cogs after hissue
        exact absurd hlock (not_le_of_gt (issue_ok hissue).1)
      · intro hlock'
        exact absurd hlock (not_le_of_gt hlock')
    · constructor
      · intro z' cogs after hissue
        exact absurd hshort (not_lt_of_ge (issue_ok hissue).2.1)
      · intro _ hstock
        exact absurd hshort (not_lt_of_ge hstock)
    · have hwrap : wrapI64 issueQty = issueQty := wrapI64_of_bounds (by omega) hfits.narrow
      rcases loop_draws hsound (FinancialLedgerZone.unitCostUnder method before) method hpos.le
        hfits.narrow with ⟨-, left, hrun⟩ | ⟨hsums, -⟩
      · constructor
        · intro z' cogs after hissue
          obtain ⟨-, hstock, cp, s, hcp, hloop, hafter, hz', hcogs⟩ := issue_ok hissue
          cases hcp.symm.trans hfits.checkpoint
          rw [hwrap] at hloop
          cases hloop.symm.trans hrun
          have hafter' := hz' ▸ hafter
          refine ⟨before, hfits.checkpoint, ?_⟩
          rw [issuedInOrder_of_lowered hpos hstock hz' hfits.checkpoint hafter' hsound]
          have hproducts := hfits.products
          rw [Finset.sum_sub_distrib] at hproducts
          rw [hcogs, sum_charges]
          exact sub_eq_zero.mp hproducts
        · intro hlock hstock
          obtain ⟨after, hafter⟩ := hfits.left
          have hclosing := (computeCheckpoint_ok hfits.checkpoint).1
          have hissue : z.issueInventory txEpochMs issueQty method =
              z.finishIssue txEpochMs ⟨lowered z.batches (share z.batches method issueQty), left,
                (charges (FinancialLedgerZone.unitCostUnder method before) z.batches
                  (share z.batches method issueQty) (issueOrder z.batches method)).sum⟩ none := by
            rw [FinancialLedgerZone.issueInventory, if_neg (not_le_of_gt hlock), hfits.checkpoint]
            simp only
            rw [if_neg (by omega), hwrap, hrun]
          rw [FinancialLedgerZone.finishIssue, hafter] at hissue
          exact ⟨_, _, after, hissue⟩
      · exact absurd hfits.sums hsums

end Promise

theorem evenStock_sound : Sound evenStock.batches := ⟨by decide⟩

theorem issuesInOrder_iff_even :
    IssuesInOrder evenStock 4000 150000 .lifo ↔
      4000 ≤ evenStock.fiscalLockEpochMs ∨ quantity evenStock.batches < 150000 ∨
        ∃ before, IssueFits evenStock.batches 4000 150000 .lifo before :=
  issuesInOrder_iff evenStock_sound (by decide)

/-- Three full layers of a unit cost of one. -/
def fullStock (checkpoints : List FinancialBlockCheckpoint) : FinancialLedgerZone :=
  ⟨1000, [(⟨1, 50, 2000, 9000, 2 ^ 63 - 1⟩, 10000), (⟨2, 50, 2500, 9000, 2 ^ 63 - 1⟩, 10000),
    (⟨3, 50, 3000, 9000, 2 ^ 63 - 1⟩, 10000)], checkpoints⟩

def fullCheckpoint : FinancialBlockCheckpoint :=
  ⟨27670116110564327421, 27670116110564327421, 10000, 4000, 0⟩

/-- An issue of `2 ^ 64` succeeds on them, takes nothing and costs nothing. -/
theorem issue_of_narrowed_quantity :
    (∀ b ∈ (fullStock []).batches, 0 ≤ b.1.remainingQtyScaled) ∧
      2 ^ 64 ≤ quantity (fullStock []).batches ∧
      (fullStock []).issueInventory 4000 (2 ^ 64) .fifo =
        (fullStock [fullCheckpoint], .ok (0, fullCheckpoint)) ∧
      ¬ IssuesInOrder (fullStock []) 4000 (2 ^ 64) .fifo := by
  have hissue : (fullStock []).issueInventory 4000 (2 ^ 64) .fifo =
      (fullStock [fullCheckpoint], .ok (0, fullCheckpoint)) := by decide +kernel
  refine ⟨by decide, by decide, hissue, fun h => ?_⟩
  obtain ⟨before, -, hinOrder⟩ := h.1 _ _ _ hissue
  have htotal := hinOrder.total
  exact absurd htotal (by decide +kernel)

end MetriEngine.Storage.FinancialLedger

import MetriEngine.Foundation.Bisection
import MetriEngine.Storage.LedgerConservation

/-!
# The value of the ledger at a time

The last value at a time is looked up by a binary search over the checkpoints. The search needs
them in the order of their times, and each call records its checkpoint at the end, whatever its
time is.
-/
namespace MetriEngine.Storage.FinancialLedger
open Foundation

def FinancialLedgerZone.lastValueAsOf (z : FinancialLedgerZone) (targetEpochMs : ℤ) :
    Option FinancialBlockCheckpoint :=
  let idx := partitionPoint (fun cp => decide (cp.blockEndEpochMs ≤ targetEpochMs)) z.checkpoints
  if idx = 0 then none else z.checkpoints[idx - 1]?

/-! ### The promise -/

/-- The checkpoint with the greatest time up to `t`, the last recorded one among equals; nothing
only if there is none up to `t`. -/
def IsLastValue (checkpoints : List FinancialBlockCheckpoint) (t : ℤ) :
    Option FinancialBlockCheckpoint → Prop
  | none => ∀ cp ∈ checkpoints, t < cp.blockEndEpochMs
  | some cp => ∃ i, checkpoints[i]? = some cp ∧ cp.blockEndEpochMs ≤ t ∧
      ∀ (j : ℕ) (cp' : FinancialBlockCheckpoint), checkpoints[j]? = some cp' →
        cp'.blockEndEpochMs ≤ t → cp'.blockEndEpochMs < cp.blockEndEpochMs ∨
          cp'.blockEndEpochMs = cp.blockEndEpochMs ∧ j ≤ i

def AnswersLastValue (z : FinancialLedgerZone) : Prop :=
  ∀ t, IsLastValue z.checkpoints t (z.lastValueAsOf t)

def Chronological (checkpoints : List FinancialBlockCheckpoint) : Prop :=
  checkpoints.Pairwise fun cp cp' => cp.blockEndEpochMs ≤ cp'.blockEndEpochMs

theorem answersLastValue_of_chronological {z : FinancialLedgerZone}
    (h : Chronological z.checkpoints) : AnswersLastValue z := by
  intro t
  obtain ⟨cut, hlen, hcut⟩ := exists_cut h t
  have hpoint : partitionPoint (fun cp => decide (cp.blockEndEpochMs ≤ t)) z.checkpoints = cut :=
    partitionPoint_eq hlen fun i cp hi => decide_eq_true_iff.trans (hcut i cp hi)
  rw [FinancialLedgerZone.lastValueAsOf, hpoint]
  split_ifs with hzero
  · subst hzero
    intro cp hcp
    obtain ⟨i, hi⟩ := List.mem_iff_getElem?.mp hcp
    exact not_le.mp fun hle => absurd ((hcut i cp hi).mp hle) (Nat.not_lt_zero i)
  · have hlt : cut - 1 < z.checkpoints.length := by omega
    rw [List.getElem?_eq_getElem hlt]
    have hlast : z.checkpoints[cut - 1]? = some z.checkpoints[cut - 1] :=
      List.getElem?_eq_getElem hlt
    refine ⟨cut - 1, hlast, (hcut _ _ hlast).mpr (by omega), ?_⟩
    intro j cp' hj hle
    have hjlt := (hcut j cp' hj).mp hle
    rcases Nat.lt_or_ge j (cut - 1) with hbefore | hsame
    · have hjl := (List.getElem?_eq_some_iff.mp hj).1
      have horder := List.pairwise_iff_getElem.mp h j (cut - 1) hjl hlt hbefore
      rw [(List.getElem?_eq_some_iff.mp hj).2] at horder
      rcases lt_or_eq_of_le horder with hless | hequal
      · exact .inl hless
      · exact .inr ⟨hequal, by omega⟩
    · have hj' : j = cut - 1 := by omega
      subst hj'
      rw [hlast] at hj
      cases hj
      exact .inr ⟨rfl, le_rfl⟩

/-- Asked for a time that none is after, the zone answers with the last recorded checkpoint. -/
theorem lastValueAsOf_of_all_le {z : FinancialLedgerZone} {t : ℤ}
    (h : ∀ cp ∈ z.checkpoints, cp.blockEndEpochMs ≤ t) :
    z.lastValueAsOf t = z.checkpoints.getLast? := by
  have hall : ∀ cp ∈ z.checkpoints, decide (cp.blockEndEpochMs ≤ t) = true := fun cp hcp =>
    decide_eq_true (h cp hcp)
  rw [FinancialLedgerZone.lastValueAsOf, partitionPoint_of_all hall, List.getLast?_eq_getElem?]
  split_ifs with hzero
  · rw [List.length_eq_zero_iff.mp hzero]
    rfl
  · rfl

/-- A checkpoint recorded behind a later one is answered in its place. -/
theorem le_of_answersLastValue {z : FinancialLedgerZone} {cps : List FinancialBlockCheckpoint}
    {cp : FinancialBlockCheckpoint} (hcps : z.checkpoints = cps ++ [cp]) (h : AnswersLastValue z) :
    ∀ cp' ∈ cps, cp'.blockEndEpochMs ≤ cp.blockEndEpochMs := by
  have hne : z.checkpoints.toFinset.Nonempty := ⟨cp, by simp [hcps]⟩
  obtain ⟨latest, hlatest, hmax⟩ :=
    Finset.exists_max_image z.checkpoints.toFinset (fun c => c.blockEndEpochMs) hne
  have hall : ∀ c ∈ z.checkpoints, c.blockEndEpochMs ≤ latest.blockEndEpochMs := fun c hc =>
    hmax c (List.mem_toFinset.mpr hc)
  have hlast := h latest.blockEndEpochMs
  rw [lastValueAsOf_of_all_le hall, hcps, List.getLast?_concat] at hlast
  obtain ⟨i, -, -, hgreatest⟩ := hlast
  intro cp' hcp'
  have hmem : cp' ∈ z.checkpoints := by simp [hcps, hcp']
  rw [hcps] at hmem
  obtain ⟨j, hj⟩ := List.mem_iff_getElem?.mp hmem
  rcases hgreatest j cp' hj (hall cp' (by simp [hcps, hcp'])) with hless | ⟨hequal, -⟩
  · exact le_of_lt hless
  · exact le_of_eq hequal

/-! ### Runs of successful calls -/

/-- The time of a call. -/
def LedgerCall.epochMs : LedgerCall → ℤ
  | .receiveBatch _ _ receivedMs _ _ _ => receivedMs
  | .issueInventory txEpochMs _ _ => txEpochMs

/-- The zone after a call that succeeds. -/
def succeed (z : FinancialLedgerZone) : LedgerCall → Option FinancialLedgerZone
  | .receiveBatch batchId resourceRowId receivedMs expiryMs qty unitCostBase =>
    match z.receiveBatch batchId resourceRowId receivedMs expiryMs qty unitCostBase with
    | (z', .ok _) => some z'
    | (_, .error _) => none
  | .issueInventory txEpochMs issueQty method =>
    match z.issueInventory txEpochMs issueQty method with
    | (z', .ok _) => some z'
    | (_, .error _) => none

theorem computeCheckpoint_epoch {batches : List Batch} {t : ℤ} {cp : FinancialBlockCheckpoint}
    (h : computeCheckpoint batches t = .ok cp) : cp.blockEndEpochMs = t := by
  rw [computeCheckpoint] at h
  cases htotals : totals batches 0 0 with
  | error e =>
    rw [htotals] at h
    cases h
  | ok total =>
    rw [htotals] at h
    change (averageCost total.1 total.2 >>= fun wac => _) = _ at h
    cases hwac : averageCost total.1 total.2 with
    | error e =>
      rw [hwac] at h
      cases h
    | ok wac =>
      rw [hwac] at h
      cases h
      rfl

theorem receiveBatch_recorded {z z' : FinancialLedgerZone} {batchId resourceRowId : ℕ}
    {receivedMs expiryMs qty unitCostBase : ℤ} {cp : FinancialBlockCheckpoint}
    (h : z.receiveBatch batchId resourceRowId receivedMs expiryMs qty unitCostBase = (z', .ok cp)) :
    z'.checkpoints = z.checkpoints ++ [cp] ∧ cp.blockEndEpochMs = receivedMs := by
  unfold FinancialLedgerZone.receiveBatch at h
  split at h
  · cases h
  · dsimp only at h
    split at h
    · cases h
    · rename_i hcp
      cases h
      exact ⟨rfl, computeCheckpoint_epoch hcp⟩

theorem finishIssue_recorded {z z' : FinancialLedgerZone} {txEpochMs : ℤ} {s : Issuing}
    {err : Option DomainError} {cogs : ℤ} {cp : FinancialBlockCheckpoint}
    (h : z.finishIssue txEpochMs s err = (z', .ok (cogs, cp))) :
    z'.checkpoints = z.checkpoints ++ [cp] ∧ cp.blockEndEpochMs = txEpochMs := by
  unfold FinancialLedgerZone.finishIssue at h
  split at h
  · cases h
  · split at h
    · cases h
    · rename_i hcp
      cases h
      exact ⟨rfl, computeCheckpoint_epoch hcp⟩

theorem issueInventory_recorded {z z' : FinancialLedgerZone} {txEpochMs issueQty : ℤ}
    {method : ValuationMethod} {cogs : ℤ} {cp : FinancialBlockCheckpoint}
    (h : z.issueInventory txEpochMs issueQty method = (z', .ok (cogs, cp))) :
    z'.checkpoints = z.checkpoints ++ [cp] ∧ cp.blockEndEpochMs = txEpochMs := by
  unfold FinancialLedgerZone.issueInventory at h
  split at h
  · cases h
  · split at h
    · cases h
    · split at h
      · cases h
      · exact finishIssue_recorded h

/-- A call that succeeds records one checkpoint, at its time. -/
theorem succeed_checkpoints {z z' : FinancialLedgerZone} {call : LedgerCall}
    (h : succeed z call = some z') :
    ∃ cp, z'.checkpoints = z.checkpoints ++ [cp] ∧ cp.blockEndEpochMs = call.epochMs := by
  cases call with
  | receiveBatch batchId resourceRowId receivedMs expiryMs qty unitCostBase =>
    rw [succeed] at h
    split at h
    · rename_i cp hcall
      cases h
      exact ⟨cp, receiveBatch_recorded hcall⟩
    · cases h
  | issueInventory txEpochMs issueQty method =>
    rw [succeed] at h
    split at h
    · rename_i issued hcall
      cases h
      exact ⟨issued.2, issueInventory_recorded hcall⟩
    · cases h

theorem run_checkpoints {calls : List LedgerCall} {z z' : FinancialLedgerZone}
    (h : calls.foldlM succeed z = some z') :
    z'.checkpoints.map (·.blockEndEpochMs) =
      z.checkpoints.map (·.blockEndEpochMs) ++ calls.map LedgerCall.epochMs := by
  induction calls generalizing z with
  | nil =>
    cases h
    simp
  | cons call calls ih =>
    rw [List.foldlM_cons] at h
    obtain ⟨next, hnext, hrest⟩ := Option.bind_eq_some_iff.mp h
    obtain ⟨cp, hcps, hepoch⟩ := succeed_checkpoints hnext
    rw [ih hrest, hcps]
    simp [hepoch]

/-- The lookups are right all along a run of successful calls from a new zone exactly if no call
is earlier than one before it. -/
theorem last_value_along_run_iff {fiscalLockEpochMs : ℤ} {calls : List LedgerCall}
    {z : FinancialLedgerZone}
    (hrun : calls.foldlM succeed (FinancialLedgerZone.new fiscalLockEpochMs) = some z) :
    (∀ n z', (calls.take n).foldlM succeed (FinancialLedgerZone.new fiscalLockEpochMs) = some z' →
      AnswersLastValue z') ↔
      (calls.map LedgerCall.epochMs).Pairwise (· ≤ ·) := by
  constructor
  · intro h
    rw [List.pairwise_iff_getElem]
    intro i j hi hj hij
    rw [List.length_map] at hi hj
    rw [List.getElem_map, List.getElem_map]
    rw [← List.take_append_drop (j + 1) calls, List.foldlM_append] at hrun
    obtain ⟨z', hz', -⟩ := Option.bind_eq_some_iff.mp hrun
    have hanswers := h (j + 1) z' hz'
    rw [List.take_succ_eq_append_getElem hj, List.foldlM_append] at hz'
    obtain ⟨before, hbefore, hlast⟩ := Option.bind_eq_some_iff.mp hz'
    rw [List.foldlM_cons] at hlast
    obtain ⟨after, hafter, hdone⟩ := Option.bind_eq_some_iff.mp hlast
    cases hdone
    obtain ⟨cp, hcps, hepoch⟩ := succeed_checkpoints hafter
    have htimes := run_checkpoints hbefore
    have hmem : calls[i].epochMs ∈ before.checkpoints.map (·.blockEndEpochMs) := by
      rw [htimes]
      apply List.mem_append_right
      rw [List.map_take, List.mem_take_iff_getElem]
      exact ⟨i, by simp; omega, by simp⟩
    obtain ⟨cp', hcp', heq⟩ := List.mem_map.mp hmem
    rw [← heq, ← hepoch]
    exact le_of_answersLastValue hcps hanswers cp' hcp'
  · intro h n z' hz'
    apply answersLastValue_of_chronological
    have htimes := run_checkpoints hz'
    have hsorted : (z'.checkpoints.map (·.blockEndEpochMs)).Pairwise (· ≤ ·) := by
      rw [htimes, List.map_take]
      exact h.sublist (List.take_sublist _ _)
    exact List.pairwise_map.mp hsorted

/-- A receipt and its issue, in time. -/
def receiptThenIssue : List LedgerCall :=
  [.receiveBatch 1 50 2000 9000 100000 1000000, .issueInventory 4000 50000 .fifo]

theorem last_value_along_run_in_time :
    ∃ z, receiptThenIssue.foldlM succeed (FinancialLedgerZone.new 1000) = some z ∧
      ((∀ n z', (receiptThenIssue.take n).foldlM succeed (FinancialLedgerZone.new 1000) = some z' →
        AnswersLastValue z') ↔
        (receiptThenIssue.map LedgerCall.epochMs).Pairwise (· ≤ ·)) := by
  have hrun : (receiptThenIssue.foldlM succeed (FinancialLedgerZone.new 1000)).isSome = true := by
    decide +kernel
  obtain ⟨z, hz⟩ := Option.isSome_iff_exists.mp hrun
  exact ⟨z, hz, last_value_along_run_iff hz⟩

/-- A receipt at 3000 and a late one at 2000: the value at 3000 is said to be that of the late
one. -/
theorem late_receipt_hides_the_later : ¬ ∀ (fiscalLockEpochMs : ℤ) (calls : List LedgerCall)
    (z : FinancialLedgerZone),
    calls.foldlM succeed (FinancialLedgerZone.new fiscalLockEpochMs) = some z →
      AnswersLastValue z := by
  intro h
  let calls : List LedgerCall :=
    [.receiveBatch 1 50 3000 9000 100000 1000000, .receiveBatch 2 50 2000 5000 100000 2000000]
  have hrun : (calls.foldlM succeed (FinancialLedgerZone.new 1000)).isSome = true := by
    decide +kernel
  obtain ⟨z, hz⟩ := Option.isSome_iff_exists.mp hrun
  have htimes : z.checkpoints.map (·.blockEndEpochMs) = [3000, 2000] := run_checkpoints hz
  obtain ⟨first, rest, hcps, hfirst, hrest⟩ := List.map_eq_cons_iff.mp htimes
  obtain ⟨late, none, rfl, hlate, hnone⟩ := List.map_eq_cons_iff.mp hrest
  cases List.map_eq_nil_iff.mp hnone
  have hle := @le_of_answersLastValue z [first] late hcps (h 1000 calls z hz) first
    (List.mem_singleton_self first)
  omega

end MetriEngine.Storage.FinancialLedger

import MetriEngine.Foundation.OrdMap
import MetriEngine.Storage.LedgerIssue
import MetriEngine.Storage.Wire

/-!
# Calls of the ledger that fail

The whole zone, with its journal chain and its exchange rates. A journal entry is checked before
it is written. A receipt appends its layer, and an issue takes from the layers, before the sums
that can still fail, and neither is taken back.
-/
namespace MetriEngine.Storage.FinancialLedger
open Foundation

/-- The digest of the journal chain. -/
class ChainDigest where
  sha256 : List Byte → List Byte

structure LedgerAuditHeader where
  prevBlockSha256 : List Byte
  blockMerkleRoot : List Byte
deriving DecidableEq

/-- The layers and checkpoints with the journal and the exchange rates. -/
structure JournaledZone extends FinancialLedgerZone where
  auditHeaders : List LedgerAuditHeader
  merkleChainTip : List Byte
  fxRatesToBase : OrdMap String ℤ
deriving DecidableEq

/-- The sum of amounts; it wraps. -/
def sumRaw (amounts : List ℤ) : ℤ := amounts.foldl (fun sum amount => wrapI128 (sum + amount)) 0

/-- `to_le_bytes` of 128 bits. -/
def writeI128 (z : ℤ) : List Byte := leBytes 16 (z % 2 ^ 128).toNat

namespace JournaledZone

def new (fiscalLockEpochMs : ℤ) : JournaledZone :=
  ⟨.new fiscalLockEpochMs, [], List.replicate 32 0, ∅⟩

def recordJournalEntry [ChainDigest] (z : JournaledZone) (txEpochMs : ℤ) (debits credits : List ℤ) :
    JournaledZone × Except DomainError (List Byte) :=
  if txEpochMs ≤ z.fiscalLockEpochMs then
    (z, .error (fiscalClosed ("Cannot post journal at " ++ toString txEpochMs ++ " <= fiscal lock " ++
      toString z.fiscalLockEpochMs)))
  else
    let sumD := sumRaw debits
    let sumC := sumRaw credits
    if sumD ≠ sumC then
      (z, .error (ledgerUnbalanced ("Unbalanced journal entry: debits=" ++ toString sumD ++
        " != credits=" ++ toString sumC)))
    else
      let tip := ChainDigest.sha256 (z.merkleChainTip ++ writeI64 txEpochMs ++ writeI128 sumD)
      ({ z with
          merkleChainTip := tip
          auditHeaders := z.auditHeaders ++ [⟨z.merkleChainTip, tip⟩] }, .ok tip)

def receiveBatch (z : JournaledZone) (batchId resourceRowId : ℕ) (receivedMs expiryMs : ℤ)
    (qty unitCostBase : ℤ) : JournaledZone × Except DomainError FinancialBlockCheckpoint :=
  let received := z.toFinancialLedgerZone.receiveBatch batchId resourceRowId receivedMs expiryMs qty
    unitCostBase
  ({ z with toFinancialLedgerZone := received.1 }, received.2)

def issueInventory (z : JournaledZone) (txEpochMs issueQty : ℤ) (method : ValuationMethod) :
    JournaledZone × Except DomainError (ℤ × FinancialBlockCheckpoint) :=
  let issued := z.toFinancialLedgerZone.issueInventory txEpochMs issueQty method
  ({ z with toFinancialLedgerZone := issued.1 }, issued.2)

end JournaledZone

/-! ### Sums that fit -/

/-- The sums of a checkpoint stay within 128 bits. -/
def SumsFit (batches : List Batch) : Prop :=
  RunsWithin 0 (batches.map layerQty) ∧ RunsWithin 0 (batches.map layerValue)

theorem checkedAdd_eq_ok {a b : ℤ} (h : -2 ^ 127 ≤ a + b ∧ a + b < 2 ^ 127) :
    FixedDecimal128.checkedAdd a b = .ok (a + b) :=
  if_pos h

theorem checkedAdd_eq_error {a b : ℤ} (h : ¬ (-2 ^ 127 ≤ a + b ∧ a + b < 2 ^ 127)) :
    FixedDecimal128.checkedAdd a b =
      .error (ledgerUnbalanced "FixedDecimal128 addition overflow") :=
  if_neg h

/-- The sums of a checkpoint succeed exactly if they stay in range. -/
theorem totals_isOk_iff {batches : List Batch} {q v : ℤ} (hq : -2 ^ 127 ≤ q ∧ q < 2 ^ 127)
    (hv : -2 ^ 127 ≤ v ∧ v < 2 ^ 127) :
    (∃ total, totals batches q v = .ok total) ↔
      RunsWithin q (batches.map layerQty) ∧ RunsWithin v (batches.map layerValue) := by
  induction batches generalizing q v with
  | nil => exact ⟨fun _ => ⟨trivial, trivial⟩, fun _ => ⟨(q, v), rfl⟩⟩
  | cons b batches ih =>
    obtain ⟨layer, unitCost⟩ := b
    rw [totals, List.map_cons, List.map_cons, RunsWithin, RunsWithin]
    by_cases hheld : 0 < layer.remainingQtyScaled
    · have hlayerQty : layerQty (layer, unitCost) = layer.remainingQtyScaled := if_pos hheld
      have hlayerValue : layerValue (layer, unitCost) =
        FixedDecimal128.mulBankers layer.remainingQtyScaled unitCost := if_pos hheld
      rw [if_pos hheld, hlayerQty, hlayerValue]
      by_cases hqty : -2 ^ 127 ≤ q + layer.remainingQtyScaled ∧ q + layer.remainingQtyScaled < 2 ^ 127
      · by_cases hval : -2 ^ 127 ≤ v + FixedDecimal128.mulBankers layer.remainingQtyScaled unitCost ∧
            v + FixedDecimal128.mulBankers layer.remainingQtyScaled unitCost < 2 ^ 127
        · rw [checkedAdd_eq_ok hqty]
          change (∃ total, (FixedDecimal128.checkedAdd v _ >>= _) = _) ↔ _
          rw [checkedAdd_eq_ok hval]
          exact (ih hqty hval).trans ⟨fun h => ⟨⟨hqty, h.1⟩, hval, h.2⟩, fun h => ⟨h.1.2, h.2.2⟩⟩
        · rw [checkedAdd_eq_ok hqty]
          change (∃ total, (FixedDecimal128.checkedAdd v _ >>= _) = _) ↔ _
          rw [checkedAdd_eq_error hval]
          constructor
          · rintro ⟨total, h⟩
            cases h
          · exact fun h => absurd h.2.1 hval
      · rw [checkedAdd_eq_error hqty]
        constructor
        · rintro ⟨total, h⟩
          cases h
        · exact fun h => absurd h.1.1 hqty
    · have hlayerQty : layerQty (layer, unitCost) = 0 := if_neg hheld
      have hlayerValue : layerValue (layer, unitCost) = 0 := if_neg hheld
      rw [if_neg hheld, hlayerQty, hlayerValue, add_zero, add_zero]
      exact (ih hq hv).trans ⟨fun h => ⟨⟨hq, h.1⟩, hv, h.2⟩, fun h => ⟨h.1.2, h.2.2⟩⟩

theorem averageCost_isOk (q v : ℤ) : ∃ wac, averageCost q v = .ok wac := by
  unfold averageCost FixedDecimal128.divBankers
  split_ifs with hpos hzero
  · omega
  · exact ⟨_, rfl⟩
  · exact ⟨_, rfl⟩

theorem computeCheckpoint_isOk_iff {batches : List Batch} {t : ℤ} :
    (∃ cp, computeCheckpoint batches t = .ok cp) ↔ SumsFit batches := by
  rw [SumsFit, ← totals_isOk_iff (by norm_num) (by norm_num), computeCheckpoint]
  cases totals batches 0 0 with
  | error e =>
    constructor
    · rintro ⟨cp, h⟩
      cases h
    · rintro ⟨total, h⟩
      cases h
  | ok total =>
    obtain ⟨wac, hwac⟩ := averageCost_isOk total.1 total.2
    change (∃ cp, (averageCost total.1 total.2 >>= _) = _) ↔ _
    rw [hwac]
    exact ⟨fun _ => ⟨total, rfl⟩, fun _ => ⟨_, rfl⟩⟩

/-! ### What an issue takes -/

/-- The layers an issue comes to, and what it takes from each: all it has or the rest. -/
def takes (held : ℕ → ℤ) : List ℕ → ℤ → List (ℕ × ℤ)
  | [], _ => []
  | i :: order, rest =>
    if rest = 0 then []
    else if held i = 0 then takes held order rest
    else (i, min (held i) rest) :: takes held order (wrapI64 (rest - min (held i) rest))

/-- A layer less what is taken; quantities are 64 bits wide. -/
def lessened (take : ℤ) (b : Batch) : Batch :=
  ({ b.1 with remainingQtyScaled := wrapI64 (b.1.remainingQtyScaled - take) }, b.2)

/-- The layers that an issue leaves. -/
def leftAfter (batches : List Batch) (parts : List (ℕ × ℤ)) : List Batch :=
  parts.foldl (fun batches part => batches.modify part.1 (lessened part.2)) batches

/-- The costs of what is taken. -/
def costsOf (unitCostOf : ℤ → ℤ) (batches : List Batch) (parts : List (ℕ × ℤ)) : List ℤ :=
  parts.map fun part => FixedDecimal128.mulBankers part.2 (unitCostOf (costOf batches part.1))

theorem takes_congr {held held' : ℕ → ℤ} {order : List ℕ} (h : ∀ i ∈ order, held i = held' i)
    (rest : ℤ) : takes held order rest = takes held' order rest := by
  induction order generalizing rest with
  | nil => rfl
  | cons i order ih =>
    have hrest := fun r => ih (fun j hj => h j (List.mem_cons_of_mem i hj)) r
    rw [takes, takes, h i List.mem_cons_self, hrest, hrest]

theorem mem_takes {held : ℕ → ℤ} {order : List ℕ} {rest : ℤ} {part : ℕ × ℤ}
    (h : part ∈ takes held order rest) : part.1 ∈ order := by
  induction order generalizing rest with
  | nil => cases h
  | cons i order ih =>
    rw [takes] at h
    split_ifs at h
    · cases h
    · exact List.mem_cons_of_mem i (ih h)
    · cases h with
      | head => exact List.mem_cons_self
      | tail _ h => exact List.mem_cons_of_mem i (ih h)

theorem getElem?_leftAfter_of_notMem {batches : List Batch} {parts : List (ℕ × ℤ)} {j : ℕ}
    (h : ∀ part ∈ parts, part.1 ≠ j) : (leftAfter batches parts)[j]? = batches[j]? := by
  induction parts generalizing batches with
  | nil => rfl
  | cons part parts ih =>
    rw [leftAfter, List.foldl_cons]
    refine (ih fun p hp => h p (List.mem_cons_of_mem _ hp)).trans ?_
    simp [h part List.mem_cons_self]

/-- What is taken shows: a part is never a multiple of the width of a quantity. -/
theorem lessened_ne {b : Batch} {rest : ℤ} (hrest : rest ≠ 0) (hlow : -2 ^ 63 ≤ rest)
    (hhigh : rest < 2 ^ 63) (hheld : b.1.remainingQtyScaled ≠ 0) :
    lessened (min b.1.remainingQtyScaled rest) b ≠ b := by
  intro h
  have hqty : wrapI64 (b.1.remainingQtyScaled - min b.1.remainingQtyScaled rest) =
    b.1.remainingQtyScaled := congrArg (fun b : Batch => b.1.remainingQtyScaled) h
  unfold wrapI64 at hqty
  rcases le_total b.1.remainingQtyScaled rest with hle | hle
  · rw [min_eq_left hle] at hqty
    omega
  · rw [min_eq_right hle] at hqty
    omega

section Loop
variable {unitCostOf : ℤ → ℤ}

/-- The loop takes the parts. It fails exactly if the running cost leaves its range, and where a
part was taken or it fails a layer has changed. -/
theorem issueLayers_takes {order : List ℕ} (hnodup : order.Nodup) {s : Issuing}
    (hin : ∀ i ∈ order, i < s.batches.length)
    (hrest : -2 ^ 63 ≤ s.remainingToIssue ∧ s.remainingToIssue < 2 ^ 63) {parts : List (ℕ × ℤ)}
    (hparts : parts = takes (held s.batches) order s.remainingToIssue) :
    (RunsWithin s.totalCogs (costsOf unitCostOf s.batches parts) ∧
      (∃ rest cogs,
        issueLayers unitCostOf order s = (⟨leftAfter s.batches parts, rest, cogs⟩, none)) ∧
      (parts = [] ∨ ∃ j ∈ order, (leftAfter s.batches parts)[j]? ≠ s.batches[j]?)) ∨
    (¬ RunsWithin s.totalCogs (costsOf unitCostOf s.batches parts) ∧
      ∃ s' e, issueLayers unitCostOf order s = (s', some e) ∧
        ∃ j ∈ order, s'.batches[j]? ≠ s.batches[j]?) := by
  induction order generalizing s parts with
  | nil =>
    subst hparts
    exact .inl ⟨trivial, ⟨_, _, rfl⟩, .inl rfl⟩
  | cons i order ih =>
    obtain ⟨hi, hnodup⟩ := List.nodup_cons.mp hnodup
    have hlen := hin i List.mem_cons_self
    have hb : s.batches[i]? = some s.batches[i] := List.getElem?_eq_getElem hlen
    set b := s.batches[i] with hbdef
    have hheld : held s.batches i = b.1.remainingQtyScaled := held_of_getElem? hb
    rw [takes, hheld] at hparts
    rw [issueLayers, hb]
    by_cases hdone : s.remainingToIssue = 0
    · rw [if_pos hdone] at hparts
      subst hparts
      rw [if_pos hdone]
      exact .inl ⟨trivial, ⟨_, _, rfl⟩, .inl rfl⟩
    rw [if_neg hdone] at hparts
    rw [if_neg hdone]
    by_cases hzero : b.1.remainingQtyScaled = 0
    · rw [if_pos hzero] at hparts
      simp only [if_pos hzero]
      rcases ih hnodup (fun j hj => hin j (List.mem_cons_of_mem i hj)) hrest hparts with
        ⟨hruns, hloop, hchanged⟩ | ⟨hruns, s', e, hloop, j, hj, hchanged⟩
      · refine .inl ⟨hruns, hloop, hchanged.imp_right ?_⟩
        rintro ⟨j, hj, hne⟩
        exact ⟨j, List.mem_cons_of_mem i hj, hne⟩
      · exact .inr ⟨hruns, s', e, hloop, j, List.mem_cons_of_mem i hj, hchanged⟩
    rw [if_neg hzero] at hparts
    simp only [if_neg hzero]
    set take := min b.1.remainingQtyScaled s.remainingToIssue with htake
    set rest := wrapI64 (s.remainingToIssue - take) with hrestdef
    set after := s.batches.set i (lessened take b) with hafter
    have hmodify : s.batches.modify i (lessened take) = after := by
      apply List.ext_getElem?
      intro j
      rw [List.getElem?_modify, hafter, List.getElem?_set]
      by_cases hij : i = j
      · subst hij
        rw [hb]
        simp [hlen]
      · simp [hij]
    have hne : ∀ j ∈ order, i ≠ j := fun j hj hij => hi (hij ▸ hj)
    have htail : takes (held s.batches) order rest = takes (held after) order rest :=
      takes_congr (fun j hj => (held_set_of_ne (hne j hj) _).symm) rest
    have hcosts : costsOf unitCostOf s.batches (takes (held s.batches) order rest) =
        costsOf unitCostOf after (takes (held s.batches) order rest) := by
      apply List.map_congr_left
      intro part hpart
      rw [costOf_set_of_ne (hne part.1 (mem_takes hpart))]
    have hleft : leftAfter s.batches parts =
        leftAfter after (takes (held s.batches) order rest) := by
      rw [hparts, leftAfter, List.foldl_cons, hmodify]
      rfl
    have hself : after[i]? ≠ s.batches[i]? := by
      rw [hafter, List.getElem?_set_self hlen, hb]
      intro h
      exact lessened_ne hdone hrest.1 hrest.2 hzero (Option.some.inj h)
    have hcost : costsOf unitCostOf s.batches parts =
        FixedDecimal128.mulBankers take (unitCostOf b.2) ::
          costsOf unitCostOf after (takes (held s.batches) order rest) := by
      rw [hparts, ← hcosts, costsOf, List.map_cons, costOf_of_getElem? hb]
      rfl
    rw [hcost, RunsWithin]
    set cost := FixedDecimal128.mulBankers take (unitCostOf b.2)
    by_cases hfits : -2 ^ 127 ≤ s.totalCogs + cost ∧ s.totalCogs + cost < 2 ^ 127
    · rw [checkedAdd_eq_ok hfits]
      have hrun := ih hnodup (s := ⟨after, rest, s.totalCogs + cost⟩)
        (fun j hj => by
          rw [hafter, List.length_set]
          exact hin j (List.mem_cons_of_mem i hj))
        (wrapI64_bounds _) htail
      rcases hrun with ⟨hruns, hloop, -⟩ | ⟨hruns, s', e, hloop, j, hj, hchanged⟩
      · refine .inl ⟨⟨hfits, hruns⟩, ?_, .inr ⟨i, List.mem_cons_self, ?_⟩⟩
        · rw [hleft]
          exact hloop
        · rw [hleft, getElem?_leftAfter_of_notMem]
          · exact hself
          · intro part hpart
            exact (hne part.1 (mem_takes hpart)).symm
      · refine .inr ⟨fun h => hruns h.2, s', e, hloop, j, List.mem_cons_of_mem i hj, ?_⟩
        rwa [hafter, List.getElem?_set_ne (hne j hj)] at hchanged
    · rw [checkedAdd_eq_error hfits]
      exact .inr ⟨fun h => hfits h.1, _, _, rfl, i, List.mem_cons_self, hself⟩

/-- The loop of a whole issue. -/
theorem issueLayers_stock (unitCostOf : ℤ → ℤ) (batches : List Batch) (method : ValuationMethod)
    (issueQty : ℤ) {parts : List (ℕ × ℤ)}
    (hparts : parts = takes (held batches) (issueOrder batches method) (wrapI64 issueQty)) :
    (RunsWithin 0 (costsOf unitCostOf batches parts) ∧
      (∃ rest cogs, issueLayers unitCostOf (issueOrder batches method)
        ⟨batches, wrapI64 issueQty, 0⟩ = (⟨leftAfter batches parts, rest, cogs⟩, none)) ∧
      (parts = [] ∨ ∃ j : ℕ, (leftAfter batches parts)[j]? ≠ batches[j]?)) ∨
    (¬ RunsWithin 0 (costsOf unitCostOf batches parts) ∧
      ∃ s' e, issueLayers unitCostOf (issueOrder batches method)
        ⟨batches, wrapI64 issueQty, 0⟩ = (s', some e) ∧ ∃ j : ℕ, s'.batches[j]? ≠ batches[j]?) := by
  have hin : ∀ i ∈ issueOrder batches method, i < batches.length := fun i hi =>
    (mem_issueOrder batches method).mp hi
  rcases @issueLayers_takes unitCostOf _ (issueOrder_nodup batches method)
      ⟨batches, wrapI64 issueQty, 0⟩ hin (wrapI64_bounds issueQty) parts hparts with
    ⟨hruns, hloop, htouched⟩ | ⟨hruns, s', e, hloop, j, -, hne⟩
  · refine .inl ⟨hruns, hloop, htouched.imp_right ?_⟩
    rintro ⟨j, -, hne⟩
    exact ⟨j, hne⟩
  · exact .inr ⟨hruns, s', e, hloop, j, hne⟩

end Loop

/-! ### Calls that fail -/

inductive ZoneCall
  | recordJournalEntry (txEpochMs : ℤ) (debits credits : List ℤ)
  | ledger (call : LedgerCall)

def errorOf {α : Type} : Except DomainError α → Option DomainError
  | .error e => some e
  | .ok _ => none

/-- The zone after a call, and the error it returns. -/
def JournaledZone.perform [ChainDigest] (z : JournaledZone) :
    ZoneCall → JournaledZone × Option DomainError
  | .recordJournalEntry txEpochMs debits credits =>
    (z.recordJournalEntry txEpochMs debits credits).map id errorOf
  | .ledger (.receiveBatch batchId resourceRowId receivedMs expiryMs qty unitCostBase) =>
    (z.receiveBatch batchId resourceRowId receivedMs expiryMs qty unitCostBase).map id errorOf
  | .ledger (.issueInventory txEpochMs issueQty method) =>
    (z.issueInventory txEpochMs issueQty method).map id errorOf

/-- A call that returns an error leaves the zone as it was. -/
def KeepsOnError [ChainDigest] (z : JournaledZone) (call : ZoneCall) : Prop :=
  ∀ e, (z.perform call).2 = some e → (z.perform call).1 = z

/-- The average cost of what the layers hold. -/
def averageOf (batches : List Batch) : ℤ :=
  match averageCost (quantity batches) (bookValue batches) with
  | .ok wac => wac
  | .error _ => 0

def chargedCost (method : ValuationMethod) (batches : List Batch) (unitCost : ℤ) : ℤ :=
  if method = .wac then averageOf batches else unitCost

/-- Once a call changes the layers no sum leaves its range: those of a receipt's checkpoint with
the new layer, and those of an issue's costs and of its checkpoint over what it leaves. -/
def SumsFitOnChange (z : JournaledZone) : ZoneCall → Prop
  | .recordJournalEntry _ _ _ => True
  | .ledger (.receiveBatch batchId resourceRowId receivedMs expiryMs qty unitCostBase) =>
    receivedMs ≤ z.fiscalLockEpochMs ∨ SumsFit (z.batches ++
      [(⟨batchId, resourceRowId, receivedMs, expiryMs, wrapI64 qty⟩, unitCostBase)])
  | .ledger (.issueInventory txEpochMs issueQty method) =>
    txEpochMs ≤ z.fiscalLockEpochMs ∨ ¬ SumsFit z.batches ∨ quantity z.batches < issueQty ∨
      RunsWithin 0 (costsOf (chargedCost method z.batches) z.batches
        (takes (held z.batches) (issueOrder z.batches method) (wrapI64 issueQty))) ∧
      SumsFit (leftAfter z.batches
        (takes (held z.batches) (issueOrder z.batches method) (wrapI64 issueQty)))

theorem unitCostUnder_eq {batches : List Batch} {t : ℤ} {cp : FinancialBlockCheckpoint}
    (h : computeCheckpoint batches t = .ok cp) (method : ValuationMethod) :
    FinancialLedgerZone.unitCostUnder method cp = chargedCost method batches := by
  funext unitCost
  rw [FinancialLedgerZone.unitCostUnder, chargedCost, averageOf, (computeCheckpoint_ok h).2.2]

section Calls
variable [ChainDigest] {z : JournaledZone}

theorem recordJournalEntry_keeps (txEpochMs : ℤ) (debits credits : List ℤ) :
    KeepsOnError z (.recordJournalEntry txEpochMs debits credits) := by
  intro e h
  simp only [JournaledZone.perform, JournaledZone.recordJournalEntry] at h ⊢
  split_ifs at h ⊢
  · rfl
  · rfl
  · cases h

theorem receiveBatch_keeps_iff (batchId resourceRowId : ℕ) (receivedMs expiryMs qty unitCostBase : ℤ) :
    KeepsOnError z (.ledger (.receiveBatch batchId resourceRowId receivedMs expiryMs qty
      unitCostBase)) ↔
    SumsFitOnChange z (.ledger (.receiveBatch batchId resourceRowId receivedMs expiryMs qty
      unitCostBase)) := by
  rw [SumsFitOnChange, ← computeCheckpoint_isOk_iff (t := receivedMs)]
  simp only [KeepsOnError, JournaledZone.perform, JournaledZone.receiveBatch,
    FinancialLedgerZone.receiveBatch]
  by_cases hlock : receivedMs ≤ z.fiscalLockEpochMs
  · simp only [hlock, true_or, iff_true]
    exact fun _ _ => rfl
  · simp only [hlock, false_or]
    cases hcp : computeCheckpoint (z.batches ++
        [(⟨batchId, resourceRowId, receivedMs, expiryMs, wrapI64 qty⟩, unitCostBase)]) receivedMs with
    | ok cp =>
      constructor
      · exact fun _ => ⟨cp, rfl⟩
      · rintro - e h
        cases h
    | error e =>
      constructor
      · intro h
        have hbatches := congrArg (fun z : JournaledZone => z.batches.length) (h e rfl)
        simp [Prod.map] at hbatches
      · rintro ⟨cp, h⟩
        cases h

/-- The layers that a failed issue leaves are those before it, unless it took something. -/
theorem issueInventory_keeps_iff (txEpochMs issueQty : ℤ) (method : ValuationMethod) :
    KeepsOnError z (.ledger (.issueInventory txEpochMs issueQty method)) ↔
      SumsFitOnChange z (.ledger (.issueInventory txEpochMs issueQty method)) := by
  have hchanged : ∀ {batches : List Batch} {j : ℕ}, batches[j]? ≠ z.batches[j]? →
      ¬ ({ z with batches := batches } = z) := by
    intro batches j hne h
    exact hne (congrArg (fun z : JournaledZone => z.batches[j]?) h)
  rw [SumsFitOnChange]
  simp only [KeepsOnError, JournaledZone.perform, JournaledZone.issueInventory,
    FinancialLedgerZone.issueInventory]
  by_cases hlock : txEpochMs ≤ z.fiscalLockEpochMs
  · simp only [hlock, true_or, iff_true]
    exact fun _ _ => rfl
  simp only [hlock, false_or]
  cases hcp : computeCheckpoint z.batches txEpochMs with
  | error e =>
    have hsums : ¬ SumsFit z.batches := by
      rw [← computeCheckpoint_isOk_iff (t := txEpochMs), hcp]
      rintro ⟨cp, h⟩
      cases h
    simp only [hsums, not_false_eq_true, true_or, iff_true]
    exact fun _ _ => rfl
  | ok cp =>
    have hsums : SumsFit z.batches := computeCheckpoint_isOk_iff.mp ⟨cp, hcp⟩
    simp only [hsums, not_true_eq_false, false_or, (computeCheckpoint_ok hcp).1,
      unitCostUnder_eq hcp]
    by_cases hstock : quantity z.batches < issueQty
    · simp only [hstock, true_or, iff_true]
      exact fun _ _ => rfl
    simp only [hstock, false_or]
    set parts := takes (held z.batches) (issueOrder z.batches method) (wrapI64 issueQty) with hparts
    rcases issueLayers_stock (chargedCost method z.batches) z.batches method issueQty hparts with
      ⟨hruns, ⟨rest, cogs, hloop⟩, htouched⟩ | ⟨hruns, s', e, hloop, j, hne⟩
    · simp only [if_false, hloop, FinancialLedgerZone.finishIssue, hruns, true_and]
      rw [← computeCheckpoint_isOk_iff (t := txEpochMs)]
      cases hafter : computeCheckpoint (leftAfter z.batches parts) txEpochMs with
      | ok after =>
        constructor
        · exact fun _ => ⟨after, rfl⟩
        · rintro - e h
          cases h
      | error e =>
        constructor
        · intro h
          rcases htouched with hnone | ⟨j, hne⟩
          · rw [hnone] at hafter
            exact absurd (hcp.symm.trans hafter) (by simp)
          · exact absurd (h e rfl) (hchanged hne)
        · rintro ⟨after, h⟩
          cases h
    · simp only [if_false, hloop, FinancialLedgerZone.finishIssue, hruns, false_and, iff_false]
      intro h
      exact hchanged hne (h e rfl)

/-- A failed call leaves the zone as it was exactly if it fails before it changes the layers. -/
theorem keepsOnError_iff (z : JournaledZone) (call : ZoneCall) :
    KeepsOnError z call ↔ SumsFitOnChange z call := by
  cases call with
  | recordJournalEntry txEpochMs debits credits =>
    exact ⟨fun _ => trivial, fun _ => recordJournalEntry_keeps txEpochMs debits credits⟩
  | ledger call =>
    cases call with
    | receiveBatch batchId resourceRowId receivedMs expiryMs qty unitCostBase =>
      exact receiveBatch_keeps_iff batchId resourceRowId receivedMs expiryMs qty unitCostBase
    | issueInventory txEpochMs issueQty method =>
      exact issueInventory_keeps_iff txEpochMs issueQty method

end Calls

theorem RunsWithin.sum_lt {total : ℤ} {costs : List ℤ} (h : RunsWithin total costs)
    (htotal : total < 2 ^ 127) : total + costs.sum < 2 ^ 127 := by
  induction costs generalizing total with
  | nil => simpa using htotal
  | cons cost costs ih =>
    rw [List.sum_cons, ← add_assoc]
    exact ih h.2 h.1.2

/-- A layer of nearly the largest value. -/
def dearLayer : Batch := (⟨1, 50, 2, 9, 2 ^ 63 - 1⟩, 2 ^ 64 - 1)

def dearStock : JournaledZone := { JournaledZone.new 0 with batches := List.replicate 10000 dearLayer }

@[reducible] def zeroDigest : ChainDigest := ⟨fun _ => List.replicate 32 0⟩

/-- The 10001st layer of nearly the largest value overflows the book value: the receipt fails, and
the layer stays. -/
theorem failed_receipt_leaves_its_layer :
    ¬ ∀ (z : JournaledZone) (call : ZoneCall), @KeepsOnError zeroDigest z call := by
  intro h
  have hkeeps := (@receiveBatch_keeps_iff zeroDigest dearStock 1 50 2 9 (2 ^ 63 - 1) (2 ^ 64 - 1)).mp
    (h _ _)
  cases hkeeps with
  | inl hlock => exact absurd hlock (by decide)
  | inr hsums =>
    have hlt := hsums.2.sum_lt (by norm_num)
    have hlast : [((⟨1, 50, 2, 9, wrapI64 (2 ^ 63 - 1)⟩, 2 ^ 64 - 1) : Batch)] =
        List.replicate 1 dearLayer := by decide
    have hvalue : layerValue dearLayer = 17014118346046923170401718760531978 := by decide +kernel
    rw [hlast, dearStock, List.replicate_append_replicate, List.map_replicate, List.sum_replicate,
      hvalue] at hlt
    norm_num at hlt

end MetriEngine.Storage.FinancialLedger

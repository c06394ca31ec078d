import MetriEngine.Foundation.Rounding
import MetriEngine.Storage.Value

/-!
# Batch valuation in the financial ledger

A receipt appends a batch layer with its unit cost; an issue takes from the layers in the order of
its valuation method. A checkpoint sums up what the layers still hold. An amount is a decimal of
four places, given by its scaled 128-bit integer: products wrap, sums are checked. Remaining
quantities are 64 bits wide.

The journal chain and the exchange rates are left out: no receipt and no issue reads them.
-/
namespace MetriEngine.Storage.FinancialLedger
open Foundation

/-! ### Decimals -/

def wrapI128 (z : ℤ) : ℤ := (z + 2 ^ 127) % 2 ^ 128 - 2 ^ 127

theorem wrapI128_of_abs_lt {z : ℤ} (h : |z| < 2 ^ 127) : wrapI128 z = z := by
  rw [abs_lt] at h
  rw [wrapI128, Int.emod_eq_of_lt (by omega) (by omega)]
  omega

def ledgerUnbalanced (detail : String) : DomainError := ⟨.mbfLedgerUnbalanced001, detail⟩

def fiscalClosed (detail : String) : DomainError := ⟨.mbfFiscalClosed001, detail⟩

namespace FixedDecimal128

def scale : ℤ := 10000

def checkedAdd (a b : ℤ) : Except DomainError ℤ :=
  if -2 ^ 127 ≤ a + b ∧ a + b < 2 ^ 127 then .ok (a + b)
  else .error (ledgerUnbalanced "FixedDecimal128 addition overflow")

/-- Halves go to the even neighbour. -/
def divBankersRaw (numerator denominator : ℤ) : ℤ :=
  let q := numerator.tdiv denominator
  let r := numerator.tmod denominator
  let absR2 := wrapI128 (|r| * 2)
  let absD := wrapI128 |denominator|
  let sign := if numerator < 0 ∧ 0 < denominator ∨ 0 ≤ numerator ∧ denominator < 0 then -1 else 1
  if absD < absR2 then q + sign
  else if absR2 < absD then q
  else if |q| % 2 = 1 then q + sign
  else q

def mulBankers (a b : ℤ) : ℤ :=
  divBankersRaw (wrapI128 (a * b)) scale

def divBankers (a divisor : ℤ) : Except DomainError ℤ :=
  if divisor = 0 then .error (ledgerUnbalanced "Division by zero in FixedDecimal128")
  else .ok (divBankersRaw (wrapI128 (a * scale)) divisor)

theorem divBankersRaw_eq (n : ℤ) {d : ℤ} (hd : 0 < d) (hfits : 2 * d ≤ 2 ^ 127) :
    divBankersRaw n d = roundHalfEven n d := by
  have hlt : |n.tmod d| < d := by
    rw [abs_lt]
    exact ⟨Int.lt_tmod_of_pos n hd, Int.tmod_lt_of_pos n hd⟩
  have hwrap : wrapI128 (|n.tmod d| * 2) = |n.tmod d| * 2 := by
    apply wrapI128_of_abs_lt
    rw [abs_of_nonneg (by positivity)]
    omega
  have hdivisor : wrapI128 |d| = |d| := by
    apply wrapI128_of_abs_lt
    rw [abs_abs, abs_of_pos hd]
    omega
  rw [divBankersRaw, hwrap, hdivisor, roundHalfEven]

end FixedDecimal128

/-! ### The zone -/

inductive ValuationMethod
  | fifo
  | lifo
  | wac
  | fefo
deriving DecidableEq

structure ActiveBatchLayer where
  batchId : ℕ
  resourceRowId : ℕ
  receivedMs : ℤ
  expiryMs : ℤ
  remainingQtyScaled : ℤ
deriving DecidableEq

structure FinancialBlockCheckpoint where
  closingQty : ℤ
  closingBookValue : ℤ
  runningWacUnitCost : ℤ
  blockEndEpochMs : ℤ
  reserved : ℤ
deriving DecidableEq

/-- A layer with its unit cost. -/
abbrev Batch := ActiveBatchLayer × ℤ

structure FinancialLedgerZone where
  fiscalLockEpochMs : ℤ
  batches : List Batch
  checkpoints : List FinancialBlockCheckpoint
deriving DecidableEq

/-- The quantity and the value of the layers that still hold something. -/
def totals : List Batch → ℤ → ℤ →
    Except DomainError (ℤ × ℤ)
  | [], totalQty, totalVal => .ok (totalQty, totalVal)
  | (layer, unitCost) :: batches, totalQty, totalVal =>
    if 0 < layer.remainingQtyScaled then do
      let totalQty ← FixedDecimal128.checkedAdd totalQty layer.remainingQtyScaled
      let totalVal ← FixedDecimal128.checkedAdd totalVal
        (FixedDecimal128.mulBankers layer.remainingQtyScaled unitCost)
      totals batches totalQty totalVal
    else totals batches totalQty totalVal

/-- The average unit cost of what is in stock. -/
def averageCost (totalQty totalVal : ℤ) : Except DomainError ℤ :=
  if 0 < totalQty then FixedDecimal128.divBankers totalVal totalQty else .ok 0

def computeCheckpoint (batches : List Batch) (epochMs : ℤ) :
    Except DomainError FinancialBlockCheckpoint := do
  let total ← totals batches 0 0
  let wac ← averageCost total.1 total.2
  return ⟨total.1, total.2, wac, epochMs, 0⟩

/-- The places of the layers in the order an issue takes from them; equal ones stay in order. -/
def issueOrder (batches : List Batch) (method : ValuationMethod) : List ℕ :=
  let receivedMs (i : ℕ) := (batches[i]?).elim 0 (·.1.receivedMs)
  let expiryMs (i : ℕ) := (batches[i]?).elim 0 (·.1.expiryMs)
  let indices := List.range batches.length
  match method with
  | .fifo | .wac => indices.insertionSort fun i j => receivedMs i ≤ receivedMs j
  | .lifo => indices.insertionSort fun i j => receivedMs j ≤ receivedMs i
  | .fefo => indices.insertionSort fun i j => expiryMs i ≤ expiryMs j

/-- How far an issue has come. -/
structure Issuing where
  batches : List Batch
  remainingToIssue : ℤ
  totalCogs : ℤ

/-- Takes from one layer after the other, priced by `unitCostOf`. The layers keep what was taken
when the total overflows. -/
def issueLayers (unitCostOf : ℤ → ℤ) :
    List ℕ → Issuing → Issuing × Option DomainError
  | [], s => (s, none)
  | idx :: indices, s =>
    if s.remainingToIssue = 0 then (s, none)
    else
      match s.batches[idx]? with
      | none => (s, none)
      | some (layer, unitCost) =>
        if layer.remainingQtyScaled = 0 then issueLayers unitCostOf indices s
        else
          let take := min layer.remainingQtyScaled s.remainingToIssue
          let batches := s.batches.set idx
            ({ layer with remainingQtyScaled := wrapI64 (layer.remainingQtyScaled - take) },
              unitCost)
          let remainingToIssue := wrapI64 (s.remainingToIssue - take)
          let layerCost := FixedDecimal128.mulBankers take (unitCostOf unitCost)
          match FixedDecimal128.checkedAdd s.totalCogs layerCost with
          | .ok totalCogs => issueLayers unitCostOf indices ⟨batches, remainingToIssue, totalCogs⟩
          | .error e => (⟨batches, remainingToIssue, s.totalCogs⟩, some e)

namespace FinancialLedgerZone

def new (fiscalLockEpochMs : ℤ) : FinancialLedgerZone := ⟨fiscalLockEpochMs, [], []⟩

/-- The zone after the receipt; the layer stays when its checkpoint fails. -/
def receiveBatch (z : FinancialLedgerZone) (batchId resourceRowId : ℕ) (receivedMs expiryMs : ℤ)
    (qty unitCostBase : ℤ) :
    FinancialLedgerZone × Except DomainError FinancialBlockCheckpoint :=
  if receivedMs ≤ z.fiscalLockEpochMs then
    (z, .error (fiscalClosed "Cannot receive batch in a closed fiscal period"))
  else
    let batches := z.batches ++
      [(⟨batchId, resourceRowId, receivedMs, expiryMs, wrapI64 qty⟩, unitCostBase)]
    match computeCheckpoint batches receivedMs with
    | .error e => ({ z with batches := batches }, .error e)
    | .ok cp => ({ z with batches := batches, checkpoints := z.checkpoints ++ [cp] }, .ok cp)

/-- The cost a method charges for a unit of a layer. -/
def unitCostUnder (method : ValuationMethod) (currentCp : FinancialBlockCheckpoint)
    (unitCost : ℤ) : ℤ :=
  if method = .wac then currentCp.runningWacUnitCost else unitCost

/-- Keeps the layers as the issue left them, also when it failed. -/
def finishIssue (z : FinancialLedgerZone) (txEpochMs : ℤ) (s : Issuing) (err : Option DomainError) :
    FinancialLedgerZone × Except DomainError (ℤ × FinancialBlockCheckpoint) :=
  match err with
  | some e => ({ z with batches := s.batches }, .error e)
  | none =>
    match computeCheckpoint s.batches txEpochMs with
    | .error e => ({ z with batches := s.batches }, .error e)
    | .ok newCp =>
      ({ z with batches := s.batches, checkpoints := z.checkpoints ++ [newCp] },
        .ok (s.totalCogs, newCp))

/-- The zone after the issue, and the cost of what was issued. -/
def issueInventory (z : FinancialLedgerZone) (txEpochMs : ℤ) (issueQty : ℤ)
    (method : ValuationMethod) :
    FinancialLedgerZone × Except DomainError (ℤ × FinancialBlockCheckpoint) :=
  if txEpochMs ≤ z.fiscalLockEpochMs then
    (z, .error (fiscalClosed "Cannot issue batch in a closed fiscal period"))
  else
    match computeCheckpoint z.batches txEpochMs with
    | .error e => (z, .error e)
    | .ok currentCp =>
      if currentCp.closingQty < issueQty then
        (z, .error (ledgerUnbalanced "Insufficient stock to satisfy consumption"))
      else
        let issued := issueLayers (unitCostUnder method currentCp) (issueOrder z.batches method)
          ⟨z.batches, wrapI64 issueQty, 0⟩
        z.finishIssue txEpochMs issued.1 issued.2

end FinancialLedgerZone
end MetriEngine.Storage.FinancialLedger

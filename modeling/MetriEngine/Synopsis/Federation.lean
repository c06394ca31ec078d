import MetriEngine.Foundation.Summaries
import MetriEngine.Storage.CrossCovariance
import MetriEngine.Synopsis.Mergeable

/-!
# Queries over many stripes

A catalog lists stripes by their bounds and synopses, and a query merges the stripes that its
filter does not prune. A catalog of catalogs groups the stripes: a group that the filter prunes is
passed over, one that it contains is merged as a whole, and the stripes of any other are gone
through. Both merge the same. What is made of the merged numbers for display is left out.
-/
namespace MetriEngine.Synopsis.Exact.Federation
open Foundation Storage Storage.Envelope Storage.CrossCovariance

/-! ### Bounds -/

/-- A double that bounds values, the infinities among them. -/
abbrev Bound := WithBot (WithTop ℚ)

/-- The least value as a bound. -/
def lower (syn : MbfHyperSynopsis512) : Bound := WithBot.some syn.minVal

def upper (syn : MbfHyperSynopsis512) : Bound := syn.maxVal.map WithTop.some

/-- The bounds of the last two fields are doubles. -/
structure MbfTerabyteQueryFilter where
  minTimestampMs : ℤ := -2 ^ 63
  maxTimestampMs : ℤ := 2 ^ 63 - 1
  minHilbertKey : ℕ := 0
  maxHilbertKey : ℕ := 2 ^ 64 - 1
  minValueBound : Bound := ⊥
  maxValueBound : Bound := WithBot.some ⊤

structure MbfStripeSynopsisDescriptor where
  minTimestampMs : ℤ
  maxTimestampMs : ℤ
  minHilbertKey : ℕ
  maxHilbertKey : ℕ
  primarySynopsis : MbfHyperSynopsis512
  survivalSynopsis : MbfHyperSynopsis512
  spectralSynopsis : MbfHyperSynopsis512
  covMatrix : MbfCrossCovarianceMatrix
  closingBookValue : ℤ
  runningWacUnitCost : ℤ

/-- A group of stripes. It has the fields of a stripe itself. -/
structure MbfPetabyteSuperManifest extends MbfStripeSynopsisDescriptor where
  l2StripeCount : UInt32
  boundaryL2Stripes : List MbfStripeSynopsisDescriptor

namespace MbfTerabyteQueryFilter
variable (filter : MbfTerabyteQueryFilter) (block : MbfStripeSynopsisDescriptor)

/-- `time_disjoint || hilbert_disjoint || val_disjoint` -/
def Prunes : Prop :=
  Apart block.minTimestampMs block.maxTimestampMs filter.minTimestampMs filter.maxTimestampMs ∨
    Apart block.minHilbertKey block.maxHilbertKey filter.minHilbertKey filter.maxHilbertKey ∨
    0 < block.primarySynopsis.validCount ∧
      Apart (lower block.primarySynopsis) (upper block.primarySynopsis) filter.minValueBound
        filter.maxValueBound

/-- `time_fully_contained && hilbert_fully_contained && val_fully_contained` -/
def Contains : Prop :=
  Within block.minTimestampMs block.maxTimestampMs filter.minTimestampMs filter.maxTimestampMs ∧
    Within block.minHilbertKey block.maxHilbertKey filter.minHilbertKey filter.maxHilbertKey ∧
    Within (lower block.primarySynopsis) (upper block.primarySynopsis) filter.minValueBound
      filter.maxValueBound

instance : Decidable (filter.Prunes block) := inferInstanceAs (Decidable (_ ∨ _ ∨ _))

instance : Decidable (filter.Contains block) := inferInstanceAs (Decidable (_ ∧ _ ∧ _))

end MbfTerabyteQueryFilter

/-! ### The two loops -/

/-- What either loop carries; the two counts wrap. -/
structure Merged where
  prunedStripes : UInt32 := 0
  resolvedO1Stripes : UInt32 := 0
  primary : MbfHyperSynopsis512 := {}
  survival : MbfHyperSynopsis512 := {}
  spectral : MbfHyperSynopsis512 := {}
  cov : MbfCrossCovarianceMatrix := .new 3
  latestTs : ℤ := -2 ^ 63
  closingBookValue : ℤ := 0
  runningWacCost : ℤ := 0

namespace Merged

/-- `n` stripes are left out. -/
def prune (n : UInt32) (merged : Merged) : Merged :=
  { merged with prunedStripes := merged.prunedStripes + n }

/-- `n` stripes are merged, by what is known of all of them. -/
def resolve (n : UInt32) (merged : Merged) (block : MbfStripeSynopsisDescriptor) : Merged :=
  let isLatest := merged.latestTs ≤ block.maxTimestampMs
  { prunedStripes := merged.prunedStripes
    resolvedO1Stripes := merged.resolvedO1Stripes + n
    primary := merged.primary.merge block.primarySynopsis
    survival := merged.survival.merge block.survivalSynopsis
    spectral := merged.spectral.merge block.spectralSynopsis
    cov := merged.cov.merge block.covMatrix
    latestTs := if isLatest then block.maxTimestampMs else merged.latestTs
    closingBookValue := if isLatest then block.closingBookValue else merged.closingBookValue
    runningWacCost := if isLatest then block.runningWacUnitCost else merged.runningWacCost }

variable (filter : MbfTerabyteQueryFilter)

def takeStripe (merged : Merged) (stripe : MbfStripeSynopsisDescriptor) : Merged :=
  if filter.Prunes stripe then merged.prune 1 else merged.resolve 1 stripe

def takeSuperManifest (merged : Merged) (l3 : MbfPetabyteSuperManifest) : Merged :=
  if filter.Prunes l3.toMbfStripeSynopsisDescriptor then merged.prune l3.l2StripeCount
  else if filter.Contains l3.toMbfStripeSynopsisDescriptor ∨ l3.boundaryL2Stripes = [] then
    merged.resolve l3.l2StripeCount l3.toMbfStripeSynopsisDescriptor
  else l3.boundaryL2Stripes.foldl (takeStripe filter) merged

end Merged

structure MbfExecutionFlightRecorder where
  blocksInspectedTotal : UInt32
  blocksPrunedByZonemap : UInt32
  blocksResolvedO1BySynopsis : UInt32
  rowsScannedFallback : UInt32

structure MbfTieredTerabyteCatalog where
  entityName : String
  catalogHeader : MbfHeader
  tenantSeal : MbfTenantCryptoSeal
  stripes : List MbfStripeSynopsisDescriptor

structure MbfPetabyteHierarchicalCatalog where
  entityName : String
  catalogHeader : MbfHeader
  tenantSeal : MbfTenantCryptoSeal
  totalL2Stripes : UInt32
  l3SuperManifests : List MbfPetabyteSuperManifest

def masterSecret : List Byte := utf8 "METRI_VORTEX_ENGINE_KMS_MASTER_KEY_2026"

section Queries
variable [SealDigests] (requestingTenantId : String) (filter : MbfTerabyteQueryFilter)

def executeTerabyteFederatedQuery (catalog : MbfTieredTerabyteCatalog) :
    Except DomainError (Merged × MbfExecutionFlightRecorder) := do
  catalog.tenantSeal.verifyBlock masterSecret requestingTenantId catalog.entityName
    catalog.catalogHeader.toBytes
  let merged := catalog.stripes.foldl (Merged.takeStripe filter) {}
  return (merged, {
    blocksInspectedTotal := UInt32.ofNat catalog.stripes.length
    blocksPrunedByZonemap := merged.prunedStripes
    blocksResolvedO1BySynopsis := merged.resolvedO1Stripes
    rowsScannedFallback := 0 })

def executePetabyteHierarchicalQuery (catalog : MbfPetabyteHierarchicalCatalog) :
    Except DomainError (Merged × MbfExecutionFlightRecorder) := do
  catalog.tenantSeal.verifyBlock masterSecret requestingTenantId catalog.entityName
    catalog.catalogHeader.toBytes
  let merged := catalog.l3SuperManifests.foldl (Merged.takeSuperManifest filter) {}
  return (merged, {
    blocksInspectedTotal := catalog.totalL2Stripes
    blocksPrunedByZonemap := merged.prunedStripes
    blocksResolvedO1BySynopsis := merged.resolvedO1Stripes
    rowsScannedFallback := 0 })

end Queries

/-! ### Stripes and their groups -/

/-- A synopsis of one observation or more. -/
structure Observed (syn : MbfHyperSynopsis512) : Prop where
  validCount : syn.validCount ≠ 0
  values : lower syn ≤ upper syn

/-- A stripe of one observation or more; what it keeps of several variables is in its place. -/
structure WellFormed (d : ℕ) (stripe : MbfStripeSynopsisDescriptor) : Prop where
  timestamps : stripe.minTimestampMs ≤ stripe.maxTimestampMs
  hilbertKeys : stripe.minHilbertKey ≤ stripe.maxHilbertKey
  observed : Observed stripe.primarySynopsis
  cov : stripe.covMatrix.OfDimension d

/-- The synopsis of some stripes by one of theirs. -/
def mergedSynopsis (part : MbfStripeSynopsisDescriptor → MbfHyperSynopsis512)
    (stripes : List MbfStripeSynopsisDescriptor) : MbfHyperSynopsis512 :=
  (stripes.map part).foldl MbfHyperSynopsis512.merge {}

/-- The group lists its stripes, and has their hull, what merging them gives, and the closing
values of the last one among the latest. -/
structure Groups (l3 : MbfPetabyteSuperManifest) : Prop where
  count : l3.l2StripeCount = UInt32.ofNat l3.boundaryL2Stripes.length
  minTimestampMs : IsLeast {t | ∃ s ∈ l3.boundaryL2Stripes, s.minTimestampMs = t} l3.minTimestampMs
  maxTimestampMs : IsGreatest {t | ∃ s ∈ l3.boundaryL2Stripes, s.maxTimestampMs = t}
    l3.maxTimestampMs
  minHilbertKey : IsLeast {k | ∃ s ∈ l3.boundaryL2Stripes, s.minHilbertKey = k} l3.minHilbertKey
  maxHilbertKey : IsGreatest {k | ∃ s ∈ l3.boundaryL2Stripes, s.maxHilbertKey = k} l3.maxHilbertKey
  primary : l3.primarySynopsis.mergeable =
    (mergedSynopsis (·.primarySynopsis) l3.boundaryL2Stripes).mergeable
  survival : l3.survivalSynopsis.mergeable =
    (mergedSynopsis (·.survivalSynopsis) l3.boundaryL2Stripes).mergeable
  spectral : l3.spectralSynopsis.mergeable =
    (mergedSynopsis (·.spectralSynopsis) l3.boundaryL2Stripes).mergeable
  cov : l3.covMatrix =
    (l3.boundaryL2Stripes.map (·.covMatrix)).foldl MbfCrossCovarianceMatrix.merge (.new 3)
  closing : ∃ before stripe behind, l3.boundaryL2Stripes = before ++ stripe :: behind ∧
    stripe.maxTimestampMs = l3.maxTimestampMs ∧
    (∀ s ∈ behind, s.maxTimestampMs < stripe.maxTimestampMs) ∧
    l3.closingBookValue = stripe.closingBookValue ∧
    l3.runningWacUnitCost = stripe.runningWacUnitCost

/-- The same counts, sums, moments, extremes, co-moments and closing values. -/
structure Merged.Agrees (a b : Merged) : Prop where
  prunedStripes : a.prunedStripes = b.prunedStripes
  resolvedO1Stripes : a.resolvedO1Stripes = b.resolvedO1Stripes
  primary : a.primary.mergeable = b.primary.mergeable
  survival : a.survival.mergeable = b.survival.mergeable
  spectral : a.spectral.mergeable = b.spectral.mergeable
  cov : a.cov = b.cov
  latestTs : a.latestTs = b.latestTs
  closingBookValue : a.closingBookValue = b.closingBookValue
  runningWacCost : a.runningWacCost = b.runningWacCost

/-- Of some values none is below the least that a pass keeps, or above the greatest. -/
theorem extremes_ofValues (ln : ℚ → ℚ) (toBits : ℚ → UInt64) {values : List ℚ} :
    ∀ x ∈ values, (Pass.ofValues ln toBits values).minVal ≤ WithTop.some x ∧
      WithBot.some x ≤ (Pass.ofValues ln toBits values).maxVal := by
  induction values using List.reverseRecOn with
  | nil => simp
  | append_singleton values last ih =>
    have hpass : Pass.ofValues ln toBits (values ++ [last]) =
        (Pass.ofValues ln toBits values).step ln toBits last := List.foldl_concat ..
    have hmin : ((Pass.ofValues ln toBits values).step ln toBits last).minVal =
        min (WithTop.some last) (Pass.ofValues ln toBits values).minVal := (min_def_lt _ _).symm
    have hmax : ((Pass.ofValues ln toBits values).step ln toBits last).maxVal =
        max (Pass.ofValues ln toBits values).maxVal (WithBot.some last) := (max_def_lt _ _).symm
    rw [hpass, hmin, hmax]
    intro x hx
    rcases List.mem_append.mp hx with hx | hx
    · exact ⟨(min_le_right _ _).trans (ih x hx).1, (ih x hx).2.trans (le_max_left _ _)⟩
    · rw [List.mem_singleton.mp hx]
      exact ⟨min_le_left _ _, le_max_right _ _⟩

/-- A synopsis of observations is one, unless there are none. -/
theorem observed_fromObservations (ln : ℚ → ℚ) (toBits : ℚ → UInt64)
    {observations : List (ℤ × ℚ)} (hne : observations ≠ []) (nullCount : UInt64) (censoredExposures : List ℚ) :
    Observed (MbfHyperSynopsis512.fromObservations ln toBits observations nullCount
      censoredExposures) := by
  have htallies := congrArg Mergeable.tallies
    (MbfHyperSynopsis512.mergeable_fromObservations ln toBits observations nullCount censoredExposures)
  obtain ⟨o, ho⟩ := List.exists_mem_of_ne_nil _ hne
  obtain ⟨hmin, hmax⟩ := extremes_ofValues ln toBits o.2 (List.mem_map_of_mem ho)
  have hlower : lower _ ≤ WithBot.some (WithTop.some o.2) :=
    WithBot.coe_le_coe.mpr ((congrArg Tallies.minVal htallies).trans_le hmin)
  have hupper : WithBot.some (WithTop.some o.2) ≤ upper _ :=
    (WithBot.map_le_iff WithTop.some WithTop.coe_le_coe).mpr
      (hmax.trans_eq (congrArg Tallies.maxVal htallies).symm)
  constructor
  · rw [MbfHyperSynopsis512.validCount_fromObservations]
    exact mt List.length_eq_zero_iff.mp hne
  · exact hlower.trans hupper

/-! ### Bounds of a group -/

theorem lower_mono {a b : MbfHyperSynopsis512} (h : a.minVal ≤ b.minVal) : lower a ≤ lower b :=
  WithBot.coe_le_coe.mpr h

theorem upper_mono {a b : MbfHyperSynopsis512} (h : a.maxVal ≤ b.maxVal) : upper a ≤ upper b :=
  (WithBot.map_le_iff WithTop.some WithTop.coe_le_coe).mpr h

/-- Merging some synopses gives their hull. -/
theorem mergedSynopsis_hull {part : MbfStripeSynopsisDescriptor → MbfHyperSynopsis512}
    {stripes : List MbfStripeSynopsisDescriptor} (h : ∀ s ∈ stripes, (part s).validCount ≠ 0) :
    (stripes ≠ [] → (mergedSynopsis part stripes).validCount ≠ 0) ∧
      ∀ s ∈ stripes, (mergedSynopsis part stripes).minVal ≤ (part s).minVal ∧
        (part s).maxVal ≤ (mergedSynopsis part stripes).maxVal := by
  induction stripes using List.reverseRecOn with
  | nil => exact ⟨fun hne => absurd rfl hne, by simp⟩
  | append_singleton stripes last ih =>
    obtain ⟨hcount, hhull⟩ := ih fun s hs => h s (List.mem_append_left _ hs)
    have hlast : (part last).validCount ≠ 0 := h last (List.mem_append_right _ List.mem_cons_self)
    have hmerged : mergedSynopsis part (stripes ++ [last]) =
        (mergedSynopsis part stripes).merge (part last) := by
      rw [mergedSynopsis, List.map_append, List.map_singleton, List.foldl_concat, mergedSynopsis]
    rw [hmerged]
    by_cases hnil : stripes = []
    · subst hnil
      rw [MbfHyperSynopsis512.merge_of_left_empty _ rfl]
      exact ⟨fun _ => hlast, by simp⟩
    have hmergeable := MbfHyperSynopsis512.mergeable_merge (hcount hnil) hlast
    have hmin : ((mergedSynopsis part stripes).merge (part last)).minVal =
        min (mergedSynopsis part stripes).minVal (part last).minVal :=
      congrArg (fun m => m.tallies.minVal) hmergeable
    have hmax : ((mergedSynopsis part stripes).merge (part last)).maxVal =
        max (mergedSynopsis part stripes).maxVal (part last).maxVal :=
      congrArg (fun m => m.tallies.maxVal) hmergeable
    refine ⟨fun _ => MbfHyperSynopsis512.validCount_merge_ne_zero _ (hcount hnil), ?_⟩
    intro s hs
    rw [hmin, hmax]
    rcases List.mem_append.mp hs with hs | hs
    · exact ⟨(min_le_left _ _).trans (hhull s hs).1, (hhull s hs).2.trans (le_max_left _ _)⟩
    · rw [List.mem_singleton.mp hs]
      exact ⟨min_le_right _ _, le_max_right _ _⟩

section Decisions
variable {d : ℕ} {filter : MbfTerabyteQueryFilter} {l3 : MbfPetabyteSuperManifest}

theorem Groups.ne_nil (h : Groups l3) : l3.boundaryL2Stripes ≠ [] := by
  obtain ⟨before, stripe, behind, hlist, -⟩ := h.closing
  rw [hlist]
  exact List.append_ne_nil_of_right_ne_nil _ (List.cons_ne_nil _ _)

theorem Groups.values (h : Groups l3) (hwf : ∀ s ∈ l3.boundaryL2Stripes, WellFormed d s) :
    ∀ s ∈ l3.boundaryL2Stripes, lower l3.primarySynopsis ≤ lower s.primarySynopsis ∧
      upper s.primarySynopsis ≤ upper l3.primarySynopsis := by
  intro s hs
  have hhull := (mergedSynopsis_hull fun s hs => (hwf s hs).observed.validCount).2 s hs
  have hmin : l3.primarySynopsis.minVal = _ := congrArg (fun m => m.tallies.minVal) h.primary
  have hmax : l3.primarySynopsis.maxVal = _ := congrArg (fun m => m.tallies.maxVal) h.primary
  exact ⟨lower_mono (hmin ▸ hhull.1), upper_mono (hmax ▸ hhull.2)⟩

/-- Of a group that is pruned every stripe is. -/
theorem Groups.prunes (h : Groups l3) (hwf : ∀ s ∈ l3.boundaryL2Stripes, WellFormed d s)
    (hpruned : filter.Prunes l3.toMbfStripeSynopsisDescriptor) :
    ∀ s ∈ l3.boundaryL2Stripes, filter.Prunes s := by
  intro s hs
  rcases hpruned with htime | hkeys | ⟨-, hvalues⟩
  · exact .inl
      (htime.of_subrange (h.minTimestampMs.2 ⟨s, hs, rfl⟩) (h.maxTimestampMs.2 ⟨s, hs, rfl⟩))
  · exact .inr (.inl
      (hkeys.of_subrange (h.minHilbertKey.2 ⟨s, hs, rfl⟩) (h.maxHilbertKey.2 ⟨s, hs, rfl⟩)))
  · obtain ⟨hlower, hupper⟩ := h.values hwf s hs
    exact .inr (.inr ⟨Nat.pos_of_ne_zero (hwf s hs).observed.validCount,
      hvalues.of_subrange hlower hupper⟩)

/-- Of a group that is contained no stripe is pruned. -/
theorem Groups.not_prunes (h : Groups l3) (hwf : ∀ s ∈ l3.boundaryL2Stripes, WellFormed d s)
    (hcontained : filter.Contains l3.toMbfStripeSynopsisDescriptor) :
    ∀ s ∈ l3.boundaryL2Stripes, ¬filter.Prunes s := by
  intro s hs
  obtain ⟨htime, hkeys, hvalues⟩ := hcontained
  obtain ⟨hlower, hupper⟩ := h.values hwf s hs
  rintro (hapart | hapart | ⟨-, hapart⟩)
  · exact htime.not_apart (h.minTimestampMs.2 ⟨s, hs, rfl⟩) (h.maxTimestampMs.2 ⟨s, hs, rfl⟩)
      (hwf s hs).timestamps hapart
  · exact hkeys.not_apart (h.minHilbertKey.2 ⟨s, hs, rfl⟩) (h.maxHilbertKey.2 ⟨s, hs, rfl⟩)
      (hwf s hs).hilbertKeys hapart
  · exact hvalues.not_apart hlower hupper (hwf s hs).observed.values hapart

end Decisions

/-! ### One group and its stripes -/

/-- The closing values of a stripe, at its latest time. -/
def closingOf (stripe : MbfStripeSynopsisDescriptor) : ℤ × (ℤ × ℤ) :=
  (stripe.maxTimestampMs, (stripe.closingBookValue, stripe.runningWacUnitCost))

/-- The group of some stripes. -/
def groupOf (first : MbfStripeSynopsisDescriptor) (rest : List MbfStripeSynopsisDescriptor) :
    MbfPetabyteSuperManifest where
  minTimestampMs := (rest.map (·.minTimestampMs)).foldl min first.minTimestampMs
  maxTimestampMs := (rest.map (·.maxTimestampMs)).foldl max first.maxTimestampMs
  minHilbertKey := (rest.map (·.minHilbertKey)).foldl min first.minHilbertKey
  maxHilbertKey := (rest.map (·.maxHilbertKey)).foldl max first.maxHilbertKey
  primarySynopsis := mergedSynopsis (·.primarySynopsis) (first :: rest)
  survivalSynopsis := mergedSynopsis (·.survivalSynopsis) (first :: rest)
  spectralSynopsis := mergedSynopsis (·.spectralSynopsis) (first :: rest)
  covMatrix := ((first :: rest).map (·.covMatrix)).foldl MbfCrossCovarianceMatrix.merge (.new 3)
  closingBookValue := ((rest.map closingOf).foldl takeLatest (closingOf first)).2.1
  runningWacUnitCost := ((rest.map closingOf).foldl takeLatest (closingOf first)).2.2
  l2StripeCount := UInt32.ofNat (first :: rest).length
  boundaryL2Stripes := first :: rest

theorem groups_groupOf (first : MbfStripeSynopsisDescriptor)
    (rest : List MbfStripeSynopsisDescriptor) : Groups (groupOf first rest) where
  count := rfl
  minTimestampMs := isLeast_foldl_min _ first rest
  maxTimestampMs := isGreatest_foldl_max _ first rest
  minHilbertKey := isLeast_foldl_min _ first rest
  maxHilbertKey := isGreatest_foldl_max _ first rest
  primary := rfl
  survival := rfl
  spectral := rfl
  cov := rfl
  closing := by
    obtain ⟨before, behind, hlist, hbefore, hbehind⟩ :=
      exists_foldl_takeLatest (closingOf first) (rest.map closingOf)
    have hmap : (first :: rest).map closingOf =
        before ++ (rest.map closingOf).foldl takeLatest (closingOf first) :: behind := hlist
    obtain ⟨stripesBefore, others, hstripes, hmapBefore, hothers⟩ := List.map_eq_append_iff.mp hmap
    obtain ⟨stripe, stripesBehind, rfl, hlatest, hmapBehind⟩ := List.map_eq_cons_iff.mp hothers
    subst hmapBefore hmapBehind
    rw [List.forall_mem_map] at hbefore hbehind
    rw [← hlatest] at hbefore hbehind
    have hgreatest : IsGreatest {t | ∃ s ∈ first :: rest, s.maxTimestampMs = t}
        stripe.maxTimestampMs := by
      rw [hstripes]
      refine ⟨⟨stripe, by simp, rfl⟩, ?_⟩
      rintro _ ⟨s, hs, rfl⟩
      rcases List.mem_append.mp hs with hs | hs
      · exact hbefore s hs
      · rcases List.mem_cons.mp hs with rfl | hs
        · exact le_rfl
        · exact (hbehind s hs).le
    refine ⟨stripesBefore, stripe, stripesBehind, hstripes,
      hgreatest.unique (isGreatest_foldl_max _ first rest), hbehind, ?_, ?_⟩
    · exact congrArg (fun c => c.2.1) hlatest.symm
    · exact congrArg (fun c => c.2.2) hlatest.symm

namespace Merged

def latest (merged : Merged) : ℤ × (ℤ × ℤ) :=
  (merged.latestTs, (merged.closingBookValue, merged.runningWacCost))

theorem latest_resolve (n : UInt32) (merged : Merged) (block : MbfStripeSynopsisDescriptor) :
    (merged.resolve n block).latest = takeLatest merged.latest (closingOf block) := by
  by_cases h : merged.latestTs ≤ block.maxTimestampMs
  · have hlatest : takeLatest merged.latest (closingOf block) = closingOf block := if_pos h
    rw [hlatest]
    simp [latest, resolve, closingOf, h]
  · have hlatest : takeLatest merged.latest (closingOf block) = merged.latest := if_neg h
    rw [hlatest]
    simp [latest, resolve, h]

section Stripes
variable (merged : Merged) (stripes : List MbfStripeSynopsisDescriptor)

theorem foldl_prune {filter : MbfTerabyteQueryFilter} (h : ∀ s ∈ stripes, filter.Prunes s) :
    stripes.foldl (takeStripe filter) merged = merged.prune (UInt32.ofNat stripes.length) := by
  induction stripes generalizing merged with
  | nil => simp [prune]
  | cons stripe stripes ih =>
    rw [List.foldl_cons, takeStripe, if_pos (h stripe List.mem_cons_self),
      ih _ fun s hs => h s (List.mem_cons_of_mem _ hs)]
    simp only [prune, List.length_cons, UInt32.ofNat_add, UInt32.add_assoc]
    rw [UInt32.add_comm 1]
    rfl

theorem foldl_takeStripe {filter : MbfTerabyteQueryFilter} (h : ∀ s ∈ stripes, ¬filter.Prunes s) :
    stripes.foldl (takeStripe filter) merged = stripes.foldl (resolve 1) merged :=
  List.foldl_ext _ _ _ fun _ s hs => if_neg (h s hs)

theorem prunedStripes_foldl_resolve :
    (stripes.foldl (resolve 1) merged).prunedStripes = merged.prunedStripes := by
  induction stripes generalizing merged with
  | nil => rfl
  | cons stripe stripes ih => exact ih _

theorem resolvedO1Stripes_foldl_resolve :
    (stripes.foldl (resolve 1) merged).resolvedO1Stripes =
      merged.resolvedO1Stripes + UInt32.ofNat stripes.length := by
  induction stripes generalizing merged with
  | nil => simp
  | cons stripe stripes ih =>
    rw [List.foldl_cons, ih, resolve, List.length_cons, UInt32.ofNat_add, UInt32.add_assoc,
      UInt32.add_comm 1]
    rfl

theorem primary_foldl_resolve : (stripes.foldl (resolve 1) merged).primary =
    (stripes.map (·.primarySynopsis)).foldl MbfHyperSynopsis512.merge merged.primary := by
  rw [List.foldl_map]
  exact (List.foldl_hom primary fun _ _ => rfl).symm

theorem survival_foldl_resolve : (stripes.foldl (resolve 1) merged).survival =
    (stripes.map (·.survivalSynopsis)).foldl MbfHyperSynopsis512.merge merged.survival := by
  rw [List.foldl_map]
  exact (List.foldl_hom survival fun _ _ => rfl).symm

theorem spectral_foldl_resolve : (stripes.foldl (resolve 1) merged).spectral =
    (stripes.map (·.spectralSynopsis)).foldl MbfHyperSynopsis512.merge merged.spectral := by
  rw [List.foldl_map]
  exact (List.foldl_hom spectral fun _ _ => rfl).symm

theorem cov_foldl_resolve : (stripes.foldl (resolve 1) merged).cov =
    (stripes.map (·.covMatrix)).foldl MbfCrossCovarianceMatrix.merge merged.cov := by
  rw [List.foldl_map]
  exact (List.foldl_hom cov fun _ _ => rfl).symm

theorem latest_foldl_resolve : (stripes.foldl (resolve 1) merged).latest =
    (stripes.map closingOf).foldl takeLatest merged.latest := by
  rw [List.foldl_map]
  exact (List.foldl_hom latest fun _ _ => (latest_resolve ..).symm).symm

end Stripes

/-- Taking in what synopses merge to is as good as taking in one after the other. -/
theorem mergeable_merge_mergedSynopsis (part : MbfStripeSynopsisDescriptor → MbfHyperSynopsis512)
    (syn : MbfHyperSynopsis512) {stripes : List MbfStripeSynopsisDescriptor} (hne : stripes ≠ []) :
    (syn.merge (mergedSynopsis part stripes)).mergeable =
      ((stripes.map part).foldl MbfHyperSynopsis512.merge syn).mergeable :=
  op_foldl (P := fun _ => True) (fun _ _ _ _ => trivial)
    (fun a b c _ _ _ => MbfHyperSynopsis512.mergeable_merge_assoc a b c)
    (fun _ _ _ h => MbfHyperSynopsis512.mergeable_merge_congr h rfl) (fun _ => rfl) trivial trivial
    (fun _ _ => trivial) (mt List.map_eq_nil_iff.mp hne)

theorem merge_foldl_cov {d : ℕ} {cov : MbfCrossCovarianceMatrix} (hcov : cov.OfDimension d)
    {stripes : List MbfStripeSynopsisDescriptor} (hfits : ∀ s ∈ stripes, s.covMatrix.OfDimension d)
    (hne : stripes ≠ []) :
    cov.merge ((stripes.map (·.covMatrix)).foldl MbfCrossCovarianceMatrix.merge (.new 3)) =
      (stripes.map (·.covMatrix)).foldl MbfCrossCovarianceMatrix.merge cov := by
  have hmatrices : ∀ m ∈ stripes.map (·.covMatrix), m.OfDimension d := by
    intro m hm
    obtain ⟨s, hs, rfl⟩ := List.mem_map.mp hm
    exact hfits s hs
  exact op_foldl (P := MbfCrossCovarianceMatrix.OfDimension d) (f := id) (fun _ _ ha hb => ha.merge hb)
    (fun _ _ _ ha hb hc => MbfCrossCovarianceMatrix.merge_assoc ha hb hc)
    (fun a b c h => congrArg (MbfCrossCovarianceMatrix.merge · c) h) (fun _ => rfl)
    (MbfCrossCovarianceMatrix.ofDimension_new d 3) hcov hmatrices (mt List.map_eq_nil_iff.mp hne)

/-- The two loops at corresponding places. -/
structure InStep (d : ℕ) (a b : Merged) : Prop where
  agrees : a.Agrees b
  fits : b.cov.OfDimension d

theorem Agrees.of_latest {a b : Merged} (hpruned : a.prunedStripes = b.prunedStripes)
    (hresolved : a.resolvedO1Stripes = b.resolvedO1Stripes)
    (hprimary : a.primary.mergeable = b.primary.mergeable)
    (hsurvival : a.survival.mergeable = b.survival.mergeable)
    (hspectral : a.spectral.mergeable = b.spectral.mergeable) (hcov : a.cov = b.cov)
    (hlatest : a.latest = b.latest) : a.Agrees b where
  prunedStripes := hpruned
  resolvedO1Stripes := hresolved
  primary := hprimary
  survival := hsurvival
  spectral := hspectral
  cov := hcov
  latestTs := congrArg (·.1) hlatest
  closingBookValue := congrArg (·.2.1) hlatest
  runningWacCost := congrArg (·.2.2) hlatest

theorem Agrees.latest {a b : Merged} (h : a.Agrees b) : a.latest = b.latest := by
  rw [Merged.latest, Merged.latest, h.latestTs, h.closingBookValue, h.runningWacCost]

theorem InStep.prune {d : ℕ} {a b : Merged} (h : InStep d a b) (n : UInt32) :
    InStep d (a.prune n) (b.prune n) where
  agrees := { h.agrees with
    prunedStripes := congrArg (· + n) h.agrees.prunedStripes }
  fits := h.fits

theorem InStep.resolve {d : ℕ} {a b : Merged} (h : InStep d a b) (n : UInt32)
    {block : MbfStripeSynopsisDescriptor} (hfits : block.covMatrix.OfDimension d) :
    InStep d (a.resolve n block) (b.resolve n block) where
  agrees := .of_latest h.agrees.prunedStripes (congrArg (· + n) h.agrees.resolvedO1Stripes)
    (MbfHyperSynopsis512.mergeable_merge_congr h.agrees.primary rfl)
    (MbfHyperSynopsis512.mergeable_merge_congr h.agrees.survival rfl)
    (MbfHyperSynopsis512.mergeable_merge_congr h.agrees.spectral rfl)
    (congrArg (·.merge block.covMatrix) h.agrees.cov)
    (by rw [latest_resolve, latest_resolve, h.agrees.latest])
  fits := h.fits.merge hfits

section Step
variable {d : ℕ} (filter : MbfTerabyteQueryFilter)

theorem InStep.takeStripe {a b : Merged} (h : InStep d a b) {stripe : MbfStripeSynopsisDescriptor}
    (hwf : WellFormed d stripe) :
    InStep d (a.takeStripe filter stripe) (b.takeStripe filter stripe) := by
  rw [Merged.takeStripe, Merged.takeStripe]
  split_ifs
  · exact h.prune 1
  · exact h.resolve 1 hwf.cov

variable {l3 : MbfPetabyteSuperManifest} {a b : Merged}

/-- Merging a group leaves what merging its stripes leaves. -/
theorem InStep.resolve_group (h : InStep d a b) (hgroups : Groups l3)
    (hwf : ∀ s ∈ l3.boundaryL2Stripes, WellFormed d s) :
    InStep d (a.resolve l3.l2StripeCount l3.toMbfStripeSynopsisDescriptor)
      (l3.boundaryL2Stripes.foldl (Merged.resolve 1) b) := by
  have hne := hgroups.ne_nil
  have hfits : ∀ s ∈ l3.boundaryL2Stripes, s.covMatrix.OfDimension d := fun s hs => (hwf s hs).cov
  have hcov : (a.resolve l3.l2StripeCount l3.toMbfStripeSynopsisDescriptor).cov =
      (l3.boundaryL2Stripes.foldl (Merged.resolve 1) b).cov := by
    rw [cov_foldl_resolve, ← merge_foldl_cov h.fits hfits hne, ← hgroups.cov, ← h.agrees.cov]
    rfl
  obtain ⟨before, stripe, behind, hlist, hlatest, hbehind, hbook, hwac⟩ := hgroups.closing
  have hclosing : closingOf l3.toMbfStripeSynopsisDescriptor = closingOf stripe := by
    rw [closingOf, closingOf, hlatest, hbook, hwac]
  have hbefore : ∀ s ∈ before, s.maxTimestampMs ≤ stripe.maxTimestampMs := by
    intro s hs
    rw [hlatest]
    exact hgroups.maxTimestampMs.2 ⟨s, hlist ▸ List.mem_append_left _ hs, rfl⟩
  constructor
  · apply Agrees.of_latest
    · rw [prunedStripes_foldl_resolve]
      exact h.agrees.prunedStripes
    · rw [resolvedO1Stripes_foldl_resolve, ← hgroups.count, ← h.agrees.resolvedO1Stripes]
      rfl
    · rw [primary_foldl_resolve, ← mergeable_merge_mergedSynopsis (·.primarySynopsis) _ hne]
      exact MbfHyperSynopsis512.mergeable_merge_congr h.agrees.primary hgroups.primary
    · rw [survival_foldl_resolve, ← mergeable_merge_mergedSynopsis (·.survivalSynopsis) _ hne]
      exact MbfHyperSynopsis512.mergeable_merge_congr h.agrees.survival hgroups.survival
    · rw [spectral_foldl_resolve, ← mergeable_merge_mergedSynopsis (·.spectralSynopsis) _ hne]
      exact MbfHyperSynopsis512.mergeable_merge_congr h.agrees.spectral hgroups.spectral
    · exact hcov
    · rw [latest_resolve, latest_foldl_resolve, hlist, List.map_append, List.map_cons,
        foldl_takeLatest (List.forall_mem_map.mpr hbefore) (List.forall_mem_map.mpr hbehind),
        hclosing, h.agrees.latest]
  · rw [cov_foldl_resolve, ← merge_foldl_cov h.fits hfits hne]
    refine h.fits.merge (foldl_closed (fun _ _ ha hb => ha.merge hb)
      (MbfCrossCovarianceMatrix.ofDimension_new d 3) ?_)
    exact List.forall_mem_map.mpr hfits

/-- A group, decided as a whole or gone through, leaves what its stripes leave. -/
theorem InStep.takeSuperManifest (h : InStep d a b) (hgroups : Groups l3)
    (hwf : ∀ s ∈ l3.boundaryL2Stripes, WellFormed d s) :
    InStep d (a.takeSuperManifest filter l3)
      (l3.boundaryL2Stripes.foldl (Merged.takeStripe filter) b) := by
  rw [Merged.takeSuperManifest]
  split_ifs with hpruned hcontained
  · rw [foldl_prune b _ (hgroups.prunes hwf hpruned), ← hgroups.count]
    exact h.prune _
  · have hcontains := hcontained.resolve_right hgroups.ne_nil
    rw [foldl_takeStripe b _ (hgroups.not_prunes hwf hcontains)]
    exact h.resolve_group hgroups hwf
  · exact foldl_rel_of_mem (fun s hs _ _ hst => hst.takeStripe filter (hwf s hs)) h

end Step
end Merged

/-! ### Whole queries -/

/-- Going over groups of stripes merges what going over the stripes merges. -/
theorem hierarchical_agrees_with_flat [SealDigests] {d : ℕ} (requestingTenantId : String)
    (filter : MbfTerabyteQueryFilter) (hierarchy : MbfPetabyteHierarchicalCatalog)
    (catalog : MbfTieredTerabyteCatalog)
    (hsealed : hierarchy.tenantSeal.verifyBlock masterSecret requestingTenantId hierarchy.entityName
      hierarchy.catalogHeader.toBytes = .ok ())
    (hsealed' : catalog.tenantSeal.verifyBlock masterSecret requestingTenantId catalog.entityName
      catalog.catalogHeader.toBytes = .ok ())
    (hstripes : catalog.stripes = hierarchy.l3SuperManifests.flatMap (·.boundaryL2Stripes))
    (hgroups : ∀ l3 ∈ hierarchy.l3SuperManifests, Groups l3)
    (hwf : ∀ s ∈ catalog.stripes, WellFormed d s) :
    ∃ tree flat, executePetabyteHierarchicalQuery requestingTenantId filter hierarchy = .ok tree ∧
      executeTerabyteFederatedQuery requestingTenantId filter catalog = .ok flat ∧
      tree.1.Agrees flat.1 ∧
      tree.2.blocksPrunedByZonemap = flat.2.blocksPrunedByZonemap ∧
      tree.2.blocksResolvedO1BySynopsis = flat.2.blocksResolvedO1BySynopsis := by
  have hstart : Merged.InStep d {} {} :=
    ⟨⟨rfl, rfl, rfl, rfl, rfl, rfl, rfl, rfl, rfl⟩, MbfCrossCovarianceMatrix.ofDimension_new d 3⟩
  have hend : Merged.InStep d (hierarchy.l3SuperManifests.foldl (Merged.takeSuperManifest filter) {})
      (catalog.stripes.foldl (Merged.takeStripe filter) {}) := by
    rw [hstripes] at hwf ⊢
    refine foldl_flatMap_rel (fun l3 hl3 _ _ hst => ?_) hstart
    exact hst.takeSuperManifest filter (hgroups l3 hl3) fun s hs =>
      hwf s (List.mem_flatMap.mpr ⟨l3, hl3, hs⟩)
  rw [executePetabyteHierarchicalQuery, executeTerabyteFederatedQuery, hsealed, hsealed']
  exact ⟨_, _, rfl, rfl, hend.agrees, hend.agrees.prunedStripes, hend.agrees.resolvedO1Stripes⟩

/-! ### Stripes of one row -/

theorem verifyBlock_sealBlock [SealDigests] (secret : List Byte) (tenantId entityType : String)
    (epochId : ℕ) (payload : List Byte) :
    (MbfTenantCryptoSeal.sealBlock secret tenantId entityType epochId payload).verifyBlock secret
      tenantId entityType payload = .ok () := by
  simp [MbfTenantCryptoSeal.sealBlock, MbfTenantCryptoSeal.verifyBlock]

@[reducible] def sampleDigests : SealDigests := ⟨id, (· ++ ·)⟩

attribute [local instance] sampleDigests

/-- A stripe of one row of ones. -/
def sampleStripe (timestampMs : ℤ) (dimension : ℕ) : MbfStripeSynopsisDescriptor where
  minTimestampMs := timestampMs
  maxTimestampMs := timestampMs
  minHilbertKey := 0
  maxHilbertKey := 0
  primarySynopsis := .fromObservations (fun _ => 0) (fun _ => 0) [(timestampMs, 1)] 0 []
  survivalSynopsis := {}
  spectralSynopsis := {}
  covMatrix := .ofRows dimension [List.replicate dimension 1]
  closingBookValue := 10000
  runningWacUnitCost := 10000

theorem wellFormed_sampleStripe (timestampMs : ℤ) (dimension : ℕ) :
    WellFormed dimension (sampleStripe timestampMs dimension) where
  timestamps := le_rfl
  hilbertKeys := le_rfl
  observed := observed_fromObservations _ _ (List.cons_ne_nil _ _) 0 []
  cov := (MbfCrossCovarianceMatrix.summarises_ofRows (by simp)).ofDimension

def sampleHeader : MbfHeader := .new 0 3 0 0 0 0

def sampleSeal : MbfTenantCryptoSeal := .sealBlock masterSecret "t" "reading" 0 sampleHeader.toBytes

def sampleCatalog (stripes : List MbfStripeSynopsisDescriptor) : MbfTieredTerabyteCatalog :=
  ⟨"reading", sampleHeader, sampleSeal, stripes⟩

def sampleHierarchy (groups : List MbfPetabyteSuperManifest) : MbfPetabyteHierarchicalCatalog :=
  ⟨"reading", sampleHeader, sampleSeal, 3, groups⟩

/-- One group that the filter cuts through, and one that it contains. -/
theorem cut_and_contained_agree :
    ∃ tree flat,
      executePetabyteHierarchicalQuery "t" { minTimestampMs := 2 }
        (sampleHierarchy
          [groupOf (sampleStripe 1 3) [sampleStripe 2 3], groupOf (sampleStripe 3 3) []]) =
          .ok tree ∧
      executeTerabyteFederatedQuery "t" { minTimestampMs := 2 }
        (sampleCatalog [sampleStripe 1 3, sampleStripe 2 3, sampleStripe 3 3]) = .ok flat ∧
      tree.1.Agrees flat.1 ∧
      tree.2.blocksPrunedByZonemap = flat.2.blocksPrunedByZonemap ∧
      tree.2.blocksResolvedO1BySynopsis = flat.2.blocksResolvedO1BySynopsis := by
  refine hierarchical_agrees_with_flat (d := 3) "t" { minTimestampMs := 2 } (sampleHierarchy _)
    (sampleCatalog _) (verifyBlock_sealBlock ..) (verifyBlock_sealBlock ..) rfl ?_ ?_
  · intro l3 hl3
    simp only [sampleHierarchy, List.mem_cons, List.not_mem_nil, or_false] at hl3
    rcases hl3 with rfl | rfl <;> exact groups_groupOf ..
  · intro s hs
    simp only [sampleCatalog, List.mem_cons, List.not_mem_nil, or_false] at hs
    rcases hs with rfl | rfl | rfl <;> exact wellFormed_sampleStripe ..

/-- Matrices of other dimensions than the first are passed over, and what is the first depends on
the groups. -/
theorem mixed_dimensions_disagree :
    ∃ (hierarchy : MbfPetabyteHierarchicalCatalog) (catalog : MbfTieredTerabyteCatalog),
      hierarchy.tenantSeal.verifyBlock masterSecret "t" hierarchy.entityName
        hierarchy.catalogHeader.toBytes = .ok () ∧
      catalog.tenantSeal.verifyBlock masterSecret "t" catalog.entityName
        catalog.catalogHeader.toBytes = .ok () ∧
      catalog.stripes = hierarchy.l3SuperManifests.flatMap (·.boundaryL2Stripes) ∧
      (∀ l3 ∈ hierarchy.l3SuperManifests, Groups l3) ∧
      (∀ s ∈ catalog.stripes, ∃ d, WellFormed d s) ∧
      ¬∃ tree flat, executePetabyteHierarchicalQuery "t" {} hierarchy = .ok tree ∧
        executeTerabyteFederatedQuery "t" {} catalog = .ok flat ∧ tree.1.Agrees flat.1 := by
  refine ⟨sampleHierarchy [groupOf (sampleStripe 1 3) [],
    groupOf (sampleStripe 2 2) [sampleStripe 3 3]],
    sampleCatalog [sampleStripe 1 3, sampleStripe 2 2, sampleStripe 3 3],
    verifyBlock_sealBlock .., verifyBlock_sealBlock .., rfl, ?_, ?_, ?_⟩
  · intro l3 hl3
    simp only [sampleHierarchy, List.mem_cons, List.not_mem_nil, or_false] at hl3
    rcases hl3 with rfl | rfl <;> exact groups_groupOf ..
  · intro s hs
    simp only [sampleCatalog, List.mem_cons, List.not_mem_nil, or_false] at hs
    rcases hs with rfl | rfl | rfl <;> exact ⟨_, wellFormed_sampleStripe ..⟩
  · rintro ⟨tree, flat, htree, hflat, hagrees⟩
    have hcounts := congrArg MbfCrossCovarianceMatrix.count hagrees.cov
    rw [executePetabyteHierarchicalQuery, sampleHierarchy, sampleSeal, verifyBlock_sealBlock] at htree
    rw [executeTerabyteFederatedQuery, sampleCatalog, sampleSeal, verifyBlock_sealBlock] at hflat
    obtain rfl := Except.ok.inj htree
    obtain rfl := Except.ok.inj hflat
    revert hcounts
    decide +kernel

end MetriEngine.Synopsis.Exact.Federation

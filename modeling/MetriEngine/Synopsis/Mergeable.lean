import MetriEngine.Synopsis.Observations

/-!
# What merges

The counts, the sum, the moments, the extremes, the sums of logarithms and the sketch of a merged
synopsis are those of all the observations, save that a block without observations is dropped
together with its count of nulls.
-/
namespace MetriEngine.Synopsis.Exact
open Foundation

/-! ### Fields that take one observation after the other -/

/-- The fields that are summed, compared or united. -/
@[ext] structure Tallies where
  sumExactI128 : BitVec 128
  minVal : WithTop ℚ
  maxVal : WithBot ℚ
  sumLnX : ℚ
  sumLnXSq : ℚ
  sumReciprocalX : ℚ
  sumXLnX : ℚ
  hllRegisters : Fin 48 → ℕ
  bloomMini64 : UInt64

namespace Tallies

def empty : Tallies := ⟨0, ⊤, ⊥, 0, 0, 0, 0, fun _ => 0, 0⟩

def combine (a b : Tallies) : Tallies where
  sumExactI128 := a.sumExactI128 + b.sumExactI128
  minVal := min a.minVal b.minVal
  maxVal := max a.maxVal b.maxVal
  sumLnX := a.sumLnX + b.sumLnX
  sumLnXSq := a.sumLnXSq + b.sumLnXSq
  sumReciprocalX := a.sumReciprocalX + b.sumReciprocalX
  sumXLnX := a.sumXLnX + b.sumXLnX
  hllRegisters := fun r => max (a.hllRegisters r) (b.hllRegisters r)
  bloomMini64 := a.bloomMini64 ||| b.bloomMini64

theorem combine_assoc (a b c : Tallies) : (a.combine b).combine c = a.combine (b.combine c) := by
  simp only [combine, BitVec.add_assoc, min_assoc, max_assoc, add_assoc, UInt64.or_assoc]

theorem combine_comm (a b : Tallies) : a.combine b = b.combine a := by
  ext1
  · exact BitVec.add_comm _ _
  · exact min_comm _ _
  · exact max_comm _ _
  · exact add_comm _ _
  · exact add_comm _ _
  · exact add_comm _ _
  · exact add_comm _ _
  · exact funext fun r => max_comm _ _
  · exact UInt64.or_comm _ _

theorem combine_empty (a : Tallies) : a.combine empty = a := by
  ext1 <;> simp [combine, empty]

end Tallies

def Pass.tallies (s : Pass) : Tallies :=
  ⟨s.sumExactI128, s.minVal, s.maxVal, s.sumLnX, s.sumLnXSq, s.sumReciprocalX, s.sumXLnX,
    s.hllRegisters, s.bloomMini64⟩

def Pass.moments (s : Pass) : CentralMoments ℚ := ⟨s.idx, s.mean, s.m2, s.m3, s.m4⟩

section Pass
variable (ln : ℚ → ℚ) (toBits : ℚ → UInt64)

/-- What one value contributes. -/
def Tallies.single (x : ℚ) : Tallies := ((Pass.step ln toBits {} x)).tallies

namespace Pass

/-- A summand that only some values have. -/
theorem add_if (c : Prop) [Decidable c] (s a : ℚ) :
    (if c then s + a else s) = s + if c then 0 + a else 0 := by
  split_ifs <;> simp

theorem tallies_step (s : Pass) (x : ℚ) :
    (s.step ln toBits x).tallies = s.tallies.combine (Tallies.single ln toBits x) := by
  ext1
  · simp [tallies, step, Tallies.combine, Tallies.single]
  · simp [tallies, step, Tallies.combine, Tallies.single, ← min_def_lt, min_comm]
  · simp [tallies, step, Tallies.combine, Tallies.single, ← max_def_lt]
  · exact add_if ..
  · exact add_if ..
  · exact add_if ..
  · exact add_if ..
  · funext r
    simp only [tallies, step, Tallies.combine, Tallies.single]
    split_ifs <;> omega
  · simp [tallies, step, Tallies.combine, Tallies.single]

theorem moments_step (s : Pass) (x : ℚ) :
    (s.step ln toBits x).moments = s.moments.push x := by
  simp only [moments, step, CentralMoments.push]
  ext1 <;> ring

theorem tallies_ofValues (values : List ℚ) :
    (ofValues ln toBits values).tallies =
      values.foldl (fun t x => t.combine (Tallies.single ln toBits x)) Tallies.empty := by
  have hfold : values.foldl (fun t x => t.combine (Tallies.single ln toBits x)) (tallies {}) =
      (values.foldl (step ln toBits) {}).tallies :=
    List.foldl_hom tallies fun s x => (tallies_step ln toBits s x).symm
  exact hfold.symm

theorem moments_ofValues (values : List ℚ) :
    (ofValues ln toBits values).moments = CentralMoments.ofList values := by
  have hempty : moments {} = CentralMoments.ofList [] := by
    ext1 <;> simp [moments, CentralMoments.ofList]
  rw [← CentralMoments.foldl_push, ← hempty]
  exact (List.foldl_hom moments fun s x => (moments_step ln toBits s x).symm).symm

theorem ofValues_append (xs ys : List ℚ) :
    (ofValues ln toBits (xs ++ ys)).tallies =
      (ofValues ln toBits xs).tallies.combine (ofValues ln toBits ys).tallies := by
  rw [tallies_ofValues, tallies_ofValues, tallies_ofValues]
  exact foldl_append_of_assoc Tallies.combine_assoc Tallies.combine_empty _ xs ys

end Pass
end Pass

/-! ### The merged fields of a synopsis -/

@[ext] structure Mergeable where
  moments : CentralMoments ℚ
  nullCount : UInt64
  tallies : Tallies

def Mergeable.combine (a b : Mergeable) : Mergeable where
  moments := a.moments.combine b.moments
  nullCount := a.nullCount + b.nullCount
  tallies := a.tallies.combine b.tallies

namespace MbfHyperSynopsis512

def mergeable (syn : MbfHyperSynopsis512) : Mergeable where
  moments := ⟨syn.validCount, syn.pebayMeanM1, syn.pebayM2, syn.pebayM3, syn.pebayM4⟩
  nullCount := syn.nullCount
  tallies := ⟨syn.sumExactI128, syn.minVal, syn.maxVal, syn.sumLnX, syn.sumLnXSq, syn.sumReciprocalX,
    syn.sumXLnX, syn.hllRegisters, syn.bloomMini64⟩

/-- Of two blocks with observations every field is combined. -/
theorem mergeable_merge {a b : MbfHyperSynopsis512} (ha : a.validCount ≠ 0) (hb : b.validCount ≠ 0) :
    (a.merge b).mergeable = a.mergeable.combine b.mergeable := by
  rw [merge, if_neg ha, if_neg hb]
  ext1
  · simp only [mergeable, Mergeable.combine, CentralMoments.combine]
    ext1 <;> ring
  · rfl
  · rfl

/-- A block without observations is passed over. -/
theorem merge_of_left_empty {a : MbfHyperSynopsis512} (b : MbfHyperSynopsis512)
    (ha : a.validCount = 0) : a.merge b = b := if_pos ha

theorem merge_of_right_empty {a b : MbfHyperSynopsis512} (ha : a.validCount ≠ 0)
    (hb : b.validCount = 0) : a.merge b = a := by
  rw [merge, if_neg ha, if_pos hb]

theorem validCount_merge_ne_zero {a : MbfHyperSynopsis512} (b : MbfHyperSynopsis512)
    (ha : a.validCount ≠ 0) : (a.merge b).validCount ≠ 0 := by
  by_cases hb : b.validCount = 0
  · rwa [merge_of_right_empty ha hb]
  · rw [merge, if_neg ha, if_neg hb]
    exact Nat.ne_of_gt (Nat.add_pos_left (Nat.pos_of_ne_zero ha) _)

theorem mergeable_merge_assoc (a b c : MbfHyperSynopsis512) :
    ((a.merge b).merge c).mergeable = (a.merge (b.merge c)).mergeable := by
  by_cases ha : a.validCount = 0
  · rw [merge_of_left_empty b ha, merge_of_left_empty _ ha]
  by_cases hb : b.validCount = 0
  · rw [merge_of_right_empty ha hb, merge_of_left_empty c hb]
  have hab := validCount_merge_ne_zero b ha
  have hbc := validCount_merge_ne_zero c hb
  by_cases hc : c.validCount = 0
  · rw [merge_of_right_empty hab hc, merge_of_right_empty hb hc]
  rw [mergeable_merge hab hc, mergeable_merge ha hb, mergeable_merge ha hbc, mergeable_merge hb hc]
  ext1
  · exact CentralMoments.combine_assoc ha hb _
  · exact UInt64.add_assoc _ _ _
  · exact Tallies.combine_assoc _ _ _

/-- What is merged depends on the merged fields alone. -/
theorem mergeable_merge_congr {a a' b b' : MbfHyperSynopsis512} (ha : a.mergeable = a'.mergeable)
    (hb : b.mergeable = b'.mergeable) : (a.merge b).mergeable = (a'.merge b').mergeable := by
  have hna : a.validCount = a'.validCount := congrArg (fun m => m.moments.count) ha
  have hnb : b.validCount = b'.validCount := congrArg (fun m => m.moments.count) hb
  by_cases h : a.validCount = 0
  · rw [merge_of_left_empty b h, merge_of_left_empty b' (hna ▸ h), hb]
  by_cases h' : b.validCount = 0
  · rw [merge_of_right_empty h h', merge_of_right_empty (hna ▸ h) (hnb ▸ h'), ha]
  · rw [mergeable_merge h h', mergeable_merge (hna ▸ h) (hnb ▸ h'), ha, hb]

/-- The order of two blocks matters where neither has observations, and they differ. -/
theorem mergeable_merge_comm_iff (a b : MbfHyperSynopsis512) :
    (a.merge b).mergeable = (b.merge a).mergeable ↔
      (a.validCount = 0 → b.validCount = 0 → a.mergeable = b.mergeable) := by
  by_cases ha : a.validCount = 0
  · by_cases hb : b.validCount = 0
    · rw [merge_of_left_empty b ha, merge_of_left_empty a hb]
      exact ⟨fun h _ _ => h.symm, fun h => (h ha hb).symm⟩
    · rw [merge_of_left_empty b ha, merge_of_right_empty hb ha]
      exact ⟨fun _ _ h => absurd h hb, fun _ => rfl⟩
  · refine ⟨fun _ h => absurd h ha, fun _ => ?_⟩
    by_cases hb : b.validCount = 0
    · rw [merge_of_right_empty ha hb, merge_of_left_empty a hb]
    · rw [mergeable_merge ha hb, mergeable_merge hb ha]
      ext1
      · exact CentralMoments.combine_comm ha hb
      · exact UInt64.add_comm _ _
      · exact Tallies.combine_comm _ _

/-! ### Blocks of observations -/

def meanOf (observations : List (ℤ × ℚ)) : ℚ :=
  (observations.map Prod.snd).sum / observations.length

def deviationPowers (p : ℕ) (observations : List (ℤ × ℚ)) : ℚ :=
  (observations.map fun o => (o.2 - meanOf observations) ^ p).sum

section Blocks
variable (ln : ℚ → ℚ) (toBits : ℚ → UInt64)

theorem validCount_fromObservations (observations : List (ℤ × ℚ)) (nullCount : UInt64)
    (censoredExposures : List ℚ) :
    (fromObservations ln toBits observations nullCount censoredExposures).validCount =
      observations.length := by
  rw [fromObservations]
  split_ifs with h
  · subst h
    rfl
  · rfl

theorem mergeable_fromObservations (observations : List (ℤ × ℚ)) (nullCount : UInt64)
    (censoredExposures : List ℚ) :
    (fromObservations ln toBits observations nullCount censoredExposures).mergeable =
      { moments := CentralMoments.ofList (observations.map Prod.snd)
        nullCount
        tallies := (Pass.ofValues ln toBits (observations.map Prod.snd)).tallies } := by
  have hmoments := Pass.moments_ofValues ln toBits (observations.map Prod.snd)
  have hcount := congrArg CentralMoments.count hmoments
  rw [← hmoments, fromObservations]
  split_ifs with h
  · subst h
    rfl
  · ext1
    · ext1
      · exact ((hcount.trans (List.length_map _)).symm)
      all_goals rfl
    · rfl
    · rfl

/-- The moments are the sums of the powers of the deviations from the mean. -/
theorem moments_fromObservations (observations : List (ℤ × ℚ)) (nullCount : UInt64)
    (censoredExposures : List ℚ) :
    (fromObservations ln toBits observations nullCount censoredExposures).pebayMeanM1 =
        meanOf observations ∧
      (fromObservations ln toBits observations nullCount censoredExposures).pebayM2 =
        deviationPowers 2 observations ∧
      (fromObservations ln toBits observations nullCount censoredExposures).pebayM3 =
        deviationPowers 3 observations ∧
      (fromObservations ln toBits observations nullCount censoredExposures).pebayM4 =
        deviationPowers 4 observations := by
  have hmoments := congrArg Mergeable.moments
    (mergeable_fromObservations ln toBits observations nullCount censoredExposures)
  have hmean : Foundation.mean (fun x => x) (observations.map Prod.snd) = meanOf observations := by
    rw [meanOf, Foundation.mean, total, List.map_id', List.length_map]
  have hpower (p : ℕ) : total (fun x => (x - meanOf observations) ^ p) (observations.map Prod.snd) =
      deviationPowers p observations := by
    rw [total, List.map_map]
    rfl
  simp only [mergeable, CentralMoments.ofList, CentralMoments.mk.injEq, hmean, hpower] at hmoments
  exact hmoments.2

section Two
variable (xs ys : List (ℤ × ℚ)) (na nb : UInt64) (ca cb : List ℚ)

/-- Merging drops the nulls of a block without observations. -/
theorem mergeable_merge_eq_iff :
    ((fromObservations ln toBits xs na ca).merge (fromObservations ln toBits ys nb cb)).mergeable =
        (fromObservations ln toBits (xs ++ ys) (na + nb) (ca ++ cb)).mergeable ↔
      (xs = [] → na = 0) ∧ (xs ≠ [] → ys = [] → nb = 0) := by
  by_cases hx : xs = []
  · subst hx
    rw [merge_of_left_empty _ (validCount_fromObservations ..), mergeable_fromObservations,
      mergeable_fromObservations, List.nil_append]
    simp
  have ha : (fromObservations ln toBits xs na ca).validCount ≠ 0 := by
    rwa [validCount_fromObservations, ne_eq, List.length_eq_zero_iff]
  by_cases hy : ys = []
  · subst hy
    rw [merge_of_right_empty ha (validCount_fromObservations ..), mergeable_fromObservations,
      mergeable_fromObservations, List.append_nil]
    simp [hx]
  have hb : (fromObservations ln toBits ys nb cb).validCount ≠ 0 := by
    rwa [validCount_fromObservations, ne_eq, List.length_eq_zero_iff]
  rw [mergeable_merge ha hb, mergeable_fromObservations, mergeable_fromObservations,
    mergeable_fromObservations, List.map_append, Pass.ofValues_append,
    CentralMoments.ofList_append (mt List.map_eq_nil_iff.mp hx)]
  simp [hx, hy, Mergeable.combine]

theorem mergeable_comm_iff :
    ((fromObservations ln toBits xs na ca).merge (fromObservations ln toBits ys nb cb)).mergeable =
        ((fromObservations ln toBits ys nb cb).merge (fromObservations ln toBits xs na ca)).mergeable ↔
      (xs = [] → ys = [] → na = nb) := by
  rw [mergeable_merge_comm_iff, validCount_fromObservations, validCount_fromObservations,
    List.length_eq_zero_iff, List.length_eq_zero_iff, mergeable_fromObservations,
    mergeable_fromObservations]
  constructor
  · intro h hx hy
    exact congrArg Mergeable.nullCount (h hx hy)
  · intro h hx hy
    rw [hx, hy, h hx hy]

/-- The merged block is the synopsis of all the observations, whatever the order and the grouping,
just where a block without observations has no nulls either. -/
theorem merge_fromObservations_iff :
    (((fromObservations ln toBits xs na ca).merge (fromObservations ln toBits ys nb cb)).mergeable =
        (fromObservations ln toBits (xs ++ ys) (na + nb) (ca ++ cb)).mergeable ∧
      ((fromObservations ln toBits xs na ca).merge (fromObservations ln toBits ys nb cb)).mergeable =
        ((fromObservations ln toBits ys nb cb).merge (fromObservations ln toBits xs na ca)).mergeable ∧
      (∀ c : MbfHyperSynopsis512,
        (((fromObservations ln toBits xs na ca).merge (fromObservations ln toBits ys nb cb)).merge
          c).mergeable =
        ((fromObservations ln toBits xs na ca).merge
          ((fromObservations ln toBits ys nb cb).merge c)).mergeable) ∧
      (fromObservations ln toBits xs na ca).pebayMeanM1 = meanOf xs ∧
      (fromObservations ln toBits xs na ca).pebayM2 = deviationPowers 2 xs ∧
      (fromObservations ln toBits xs na ca).pebayM3 = deviationPowers 3 xs ∧
      (fromObservations ln toBits xs na ca).pebayM4 = deviationPowers 4 xs) ↔
    (xs = [] → na = 0) ∧ (ys = [] → nb = 0) := by
  rw [mergeable_merge_eq_iff, mergeable_comm_iff]
  constructor
  · rintro ⟨⟨hleft, hright⟩, hboth, -⟩
    refine ⟨hleft, fun hy => ?_⟩
    by_cases hx : xs = []
    · rw [← hboth hx hy, hleft hx]
    · exact hright hx hy
  · rintro ⟨hleft, hright⟩
    refine ⟨⟨hleft, fun _ => hright⟩, fun hx hy => ?_, fun c => mergeable_merge_assoc _ _ c,
      moments_fromObservations ln toBits xs na ca⟩
    rw [hleft hx, hright hy]

end Two

/-- A block of one null before a block of one observation, whose logarithm and bits are these. -/
theorem merge_drops_null :
    ((fromObservations (fun _ => 0) (fun _ => 0x3FF0000000000000) [] 1 []).merge
      (fromObservations (fun _ => 0) (fun _ => 0x3FF0000000000000) [(0, 1)] 0 [])).mergeable ≠
    (fromObservations (fun _ => 0) (fun _ => 0x3FF0000000000000) ([] ++ [(0, 1)]) (1 + 0) ([] ++ [])).mergeable := by
  intro h
  have hnulls := congrArg Mergeable.nullCount h
  revert hnulls
  decide +kernel

end Blocks
end MbfHyperSynopsis512
end MetriEngine.Synopsis.Exact

/-!
## What does not merge

The effective value, the differences, the products with the value before and those with the time
are kept by a merge as the first block has them. The times of a later block lie apart from those
of the first, so their squared deviations are never those of the first alone.
-/
namespace MetriEngine.Synopsis.Exact
open Foundation

/-- What `rms`, `acf_lag1`, `durbin_watson` and `temporal_drift_slope` are answered from. -/
structure SeriesStatistics where
  signalRmsSq : ℚ
  sumDiff1Sq : ℚ
  sumLag1CrossProd : ℚ
  sumTimeCenteredProd : ℚ
  sumTimeCenteredSq : ℚ
deriving DecidableEq

def time (observation : ℤ × ℚ) : ℚ := observation.1

/-- The second loop sums the squared deviations of the times. -/
theorem Serial.sumTimeCenteredSq_foldl (meanT mean : ℚ) (s : Serial) (observations : List (ℤ × ℚ)) :
    (observations.foldl (step meanT mean) s).sumTimeCenteredSq =
      s.sumTimeCenteredSq + total (fun o => (time o - meanT) * (time o - meanT)) observations := by
  induction observations generalizing s with
  | nil => simp
  | cons o observations ih =>
    rw [List.foldl_cons, ih, total_cons, ← add_assoc]
    rfl

namespace MbfHyperSynopsis512

def series (syn : MbfHyperSynopsis512) : SeriesStatistics where
  signalRmsSq := syn.signalRmsSq
  sumDiff1Sq := syn.sumDiff1Sq
  sumLag1CrossProd := syn.sumLag1CrossProd
  sumTimeCenteredProd := syn.sumTimeCenteredProd
  sumTimeCenteredSq := syn.sumTimeCenteredSq

/-- Of two blocks with observations the statistics of the first are kept. -/
theorem series_merge {a b : MbfHyperSynopsis512} (ha : a.validCount ≠ 0) (hb : b.validCount ≠ 0) :
    (a.merge b).series = a.series := by
  rw [merge, if_neg ha, if_neg hb]
  rfl

section Blocks
variable (ln : ℚ → ℚ) (toBits : ℚ → UInt64)

/-- The statistics do not depend on nulls or censored observations. -/
theorem series_fromObservations (observations : List (ℤ × ℚ)) (n n' : UInt64) (c c' : List ℚ) :
    (fromObservations ln toBits observations n c).series =
      (fromObservations ln toBits observations n' c').series := by
  rw [fromObservations, fromObservations]
  split_ifs <;> rfl

theorem sumTimeCenteredSq_fromObservations (observations : List (ℤ × ℚ)) (n : UInt64) (c : List ℚ) :
    (fromObservations ln toBits observations n c).sumTimeCenteredSq =
      coMoment time time observations := by
  rw [fromObservations]
  split_ifs with h
  · subst h
    rfl
  · exact (Serial.sumTimeCenteredSq_foldl ..).trans (zero_add _)

/-- With all times of the second block after those of the first, the merged statistics are those
of the whole series just where one of the blocks is empty. -/
theorem series_merge_iff {xs ys : List (ℤ × ℚ)} (na nb : UInt64) (ca cb : List ℚ)
    (hafter : ∀ a ∈ xs, ∀ b ∈ ys, a.1 < b.1) :
    ((fromObservations ln toBits xs na ca).merge (fromObservations ln toBits ys nb cb)).series =
        (fromObservations ln toBits (xs ++ ys) (na + nb) (ca ++ cb)).series ↔
      xs = [] ∨ ys = [] := by
  by_cases hx : xs = []
  · subst hx
    rw [merge_of_left_empty _ (validCount_fromObservations ..), List.nil_append]
    exact ⟨fun _ => Or.inl rfl, fun _ => series_fromObservations ..⟩
  have ha : (fromObservations ln toBits xs na ca).validCount ≠ 0 := by
    rwa [validCount_fromObservations, ne_eq, List.length_eq_zero_iff]
  by_cases hy : ys = []
  · subst hy
    rw [merge_of_right_empty ha (validCount_fromObservations ..), List.append_nil]
    exact ⟨fun _ => Or.inr rfl, fun _ => series_fromObservations ..⟩
  have hb : (fromObservations ln toBits ys nb cb).validCount ≠ 0 := by
    rwa [validCount_fromObservations, ne_eq, List.length_eq_zero_iff]
  rw [series_merge ha hb]
  refine iff_of_false ?_ (not_or.mpr ⟨hx, hy⟩)
  intro hseries
  have hsquares : (fromObservations ln toBits xs na ca).sumTimeCenteredSq =
      (fromObservations ln toBits (xs ++ ys) (na + nb) (ca ++ cb)).sumTimeCenteredSq :=
    congrArg SeriesStatistics.sumTimeCenteredSq hseries
  rw [sumTimeCenteredSq_fromObservations, sumTimeCenteredSq_fromObservations] at hsquares
  have htimes : mean time xs < mean time ys :=
    mean_lt_mean hx hy fun a ha b hb => Int.cast_lt.mpr (hafter a ha b hb)
  exact (coMoment_self_lt_append hx hy htimes.ne).ne hsquares

theorem series_merge_iff_two_blocks :
    ((fromObservations (fun _ => 0) (fun _ => 0x3FF0000000000000) [(0, 1), (1, 1)] 0 []).merge
      (fromObservations (fun _ => 0) (fun _ => 0x3FF0000000000000) [(2, 1)] 0 [])).series ≠
    (fromObservations (fun _ => 0) (fun _ => 0x3FF0000000000000) ([(0, 1), (1, 1)] ++ [(2, 1)])
      (0 + 0) ([] ++ [])).series :=
  mt (series_merge_iff _ _ 0 0 [] [] (by decide)).mp (by decide)

end Blocks

/-- The bits of zero and of minus one. -/
def twoBits (x : ℚ) : UInt64 := if x = 0 then 0 else 0xBFF0000000000000

/-- One observation and a different one a millisecond later: the difference is not seen. -/
theorem series_merge_two_observations :
    ((fromObservations (fun _ => 0) twoBits [(0, 0)] 0 []).merge
      (fromObservations (fun _ => 0) twoBits [(1, -1)] 0 [])).series ≠
    (fromObservations (fun _ => 0) twoBits ([(0, 0)] ++ [(1, -1)]) (0 + 0) ([] ++ [])).series := by
  intro h
  have hdiffs := congrArg SeriesStatistics.sumDiff1Sq h
  revert hdiffs
  decide +kernel

end MbfHyperSynopsis512
end MetriEngine.Synopsis.Exact

import MetriEngine.Foundation.Moments
import Mathlib.Data.Rat.Floor
import Mathlib.Order.WithBot

/-!
# Synopses of observations

What a block keeps of its observations: counts, an exact sum, central moments, extremes, sums of
logarithms and reciprocals, a sketch of the distinct values, quantiles, and what is said of the
series as it goes through time. Doubles are taken for exact numbers. What needs a root, a power or
an angle (the Weibull fit, the cumulative sums of standardised deviations, the crest and the
spectrum) is left out, and of the effective value stands the square.
-/
namespace MetriEngine.Synopsis.Exact
open Foundation

/-! ### Hashes and rounding -/

def splitmix64 (x : UInt64) : UInt64 :=
  let x := x + 0x9E3779B97F4A7C15
  let x := (x ^^^ (x >>> 30)) * 0xBF58476D1CE4E5B9
  let x := (x ^^^ (x >>> 27)) * 0x94D049BB133111EB
  x ^^^ (x >>> 31)

def leadingZeros (h : UInt64) : ℕ := if h = 0 then 64 else 63 - h.toNat.log2

/-- `x.round() as i128`: halves go away from zero, and the cast saturates. -/
def roundI128 (x : ℚ) : BitVec 128 :=
  let rounded := if 0 ≤ x then ⌊x + 1 / 2⌋ else ⌈x - 1 / 2⌉
  BitVec.ofInt 128 (max (-2 ^ 127) (min (2 ^ 127 - 1) rounded))

/-! ### The synopsis -/

structure MbfHyperSynopsis512 where
  validCount : ℕ := 0
  nullCount : UInt64 := 0
  sumExactI128 : BitVec 128 := 0
  pebayMeanM1 : ℚ := 0
  pebayM2 : ℚ := 0
  pebayM3 : ℚ := 0
  pebayM4 : ℚ := 0
  minVal : WithTop ℚ := ⊤
  maxVal : WithBot ℚ := ⊥
  firstVal : ℚ := 0
  lastVal : ℚ := 0
  firstTimestampMs : ℤ := 0
  lastTimestampMs : ℤ := 0
  sumLnX : ℚ := 0
  sumLnXSq : ℚ := 0
  sumReciprocalX : ℚ := 0
  sumXLnX : ℚ := 0
  censoredCount : ℕ := 0
  censoredExposureSum : ℚ := 0
  madMedian : ℚ := 0
  madAbsDeviation : ℚ := 0
  iqrSpread : ℚ := 0
  sumLag1CrossProd : ℚ := 0
  sumLag2CrossProd : ℚ := 0
  sumDiff1Sq : ℚ := 0
  sumTimeCenteredProd : ℚ := 0
  sumTimeCenteredSq : ℚ := 0
  emaFastState : ℚ := 0
  emaSlowState : ℚ := 0
  /-- The square of `signal_rms`. -/
  signalRmsSq : ℚ := 0
  zeroCrossingRate : ℚ := 0
  quantileSketch16 : List ℚ := List.replicate 16 0
  hllRegisters : Fin 48 → ℕ := fun _ => 0
  bloomMini64 : UInt64 := 0
  synopsisCrc64 : UInt64 := 0

/-! ### One pass over the values -/

/-- What the first loop carries. -/
structure Pass where
  idx : ℕ := 0
  sumExactI128 : BitVec 128 := 0
  minVal : WithTop ℚ := ⊤
  maxVal : WithBot ℚ := ⊥
  sumSq : ℚ := 0
  mean : ℚ := 0
  m2 : ℚ := 0
  m3 : ℚ := 0
  m4 : ℚ := 0
  sumLnX : ℚ := 0
  sumLnXSq : ℚ := 0
  sumReciprocalX : ℚ := 0
  sumXLnX : ℚ := 0
  emaFastState : ℚ := 0
  emaSlowState : ℚ := 0
  hllRegisters : Fin 48 → ℕ := fun _ => 0
  bloomMini64 : UInt64 := 0

section Pass
-- `f64::ln` and `f64::to_bits`
variable (ln : ℚ → ℚ) (toBits : ℚ → UInt64)

def regIdx (h : UInt64) : Fin 48 := ⟨h.toNat % 48, Nat.mod_lt _ (by decide)⟩

def rank (h : UInt64) : ℕ := min (leadingZeros (h >>> 8) + 1) 255

namespace Pass

def step (s : Pass) (x : ℚ) : Pass :=
  let k : ℚ := s.idx + 1
  let delta := x - s.mean
  let deltaN := delta / k
  let deltaN2 := deltaN * deltaN
  let term1 := delta * deltaN * (k - 1)
  let h := splitmix64 (toBits x)
  { idx := s.idx + 1
    sumExactI128 := s.sumExactI128 + roundI128 (x * 10000)
    minVal := if (x : WithTop ℚ) < s.minVal then x else s.minVal
    maxVal := if s.maxVal < (x : WithBot ℚ) then x else s.maxVal
    sumSq := s.sumSq + x * x
    mean := s.mean + deltaN
    m2 := s.m2 + term1
    m3 := s.m3 + (term1 * deltaN * (k - 2) - 3 * deltaN * s.m2)
    m4 := s.m4 + (term1 * deltaN2 * (k * k - 3 * k + 3) + 6 * deltaN2 * s.m2 - 4 * deltaN * s.m3)
    sumLnX := if 0 < x then s.sumLnX + ln x else s.sumLnX
    sumLnXSq := if 0 < x then s.sumLnXSq + ln x * ln x else s.sumLnXSq
    sumReciprocalX := if 0 < x then s.sumReciprocalX + 1 / x else s.sumReciprocalX
    sumXLnX := if 0 < x then s.sumXLnX + x * ln x else s.sumXLnX
    emaFastState := if s.idx = 0 then x else 1 / 4 * x + 3 / 4 * s.emaFastState
    emaSlowState := if s.idx = 0 then x else 1 / 20 * x + 19 / 20 * s.emaSlowState
    hllRegisters := fun r =>
      if r = regIdx h ∧ s.hllRegisters r < rank h then rank h else s.hllRegisters r
    bloomMini64 := s.bloomMini64 ||| 1 <<< (h % 64) }

def ofValues (values : List ℚ) : Pass := values.foldl (step ln toBits) {}

end Pass
end Pass

/-! ### Through time -/

/-- What the second loop carries, the two values before among it. -/
structure Serial where
  sumTimeCenteredProd : ℚ := 0
  sumTimeCenteredSq : ℚ := 0
  sumLag1CrossProd : ℚ := 0
  sumLag2CrossProd : ℚ := 0
  sumDiff1Sq : ℚ := 0
  zeroCrossings : ℕ := 0
  prevX : Option ℚ := none
  prev2X : Option ℚ := none

namespace Serial

def step (meanT mean : ℚ) (s : Serial) (observation : ℤ × ℚ) : Serial :=
  let dt := (observation.1 : ℚ) - meanT
  let dx := observation.2 - mean
  { sumTimeCenteredProd := s.sumTimeCenteredProd + dt * dx
    sumTimeCenteredSq := s.sumTimeCenteredSq + dt * dt
    sumLag1CrossProd := s.sumLag1CrossProd + s.prevX.elim 0 fun prev => dx * (prev - mean)
    sumLag2CrossProd := s.sumLag2CrossProd + s.prev2X.elim 0 fun prev => dx * (prev - mean)
    sumDiff1Sq := s.sumDiff1Sq +
      s.prevX.elim 0 fun prev => (observation.2 - prev) * (observation.2 - prev)
    zeroCrossings := s.zeroCrossings + s.prevX.elim 0 fun prev =>
      if (0 ≤ dx ∧ prev - mean < 0) ∨ (dx < 0 ∧ 0 ≤ prev - mean) then 1 else 0
    prevX := some observation.2
    prev2X := s.prevX }

def along (meanT mean : ℚ) (observations : List (ℤ × ℚ)) : Serial :=
  observations.foldl (step meanT mean) {}

end Serial

/-! ### Quantiles -/

def quantileSorted (sorted : List ℚ) (p : ℚ) : ℚ :=
  if sorted = [] then 0
  else
    let pos := max 0 (min 1 p) * (sorted.length - 1 : ℕ)
    let lo := ⌊pos⌋.toNat
    let hi := ⌈pos⌉.toNat
    let frac := pos - lo
    sorted.getD lo 0 * (1 - frac) + sorted.getD hi 0 * frac

def probs : List ℚ :=
  [1 / 1000, 1 / 100, 25 / 1000, 5 / 100, 10 / 100, 25 / 100, 50 / 100, 75 / 100, 90 / 100, 95 / 100,
    975 / 1000, 99 / 100, 995 / 1000, 999 / 1000, 9999 / 10000]

/-- The mean without a twentieth at either end. -/
def trimmedMean (sorted : List ℚ) : ℚ :=
  let n := sorted.length
  let trimK := n / 20
  let slice := if 2 * trimK < n then (sorted.drop trimK).take (n - 2 * trimK) else sorted
  slice.sum / max slice.length 1

def absDeviation (sorted : List ℚ) (median : ℚ) : ℚ :=
  quantileSorted ((sorted.map fun x => |x - median|).mergeSort (· ≤ ·)) (1 / 2)

/-! ### Building and merging -/

namespace MbfHyperSynopsis512

def fromObservations (ln : ℚ → ℚ) (toBits : ℚ → UInt64) (observations : List (ℤ × ℚ))
    (nullCount : UInt64) (censoredExposures : List ℚ) : MbfHyperSynopsis512 :=
  let empty : MbfHyperSynopsis512 :=
    { nullCount
      censoredCount := censoredExposures.length
      censoredExposureSum := censoredExposures.sum }
  if observations = [] then empty
  else
    let n := observations.length
    let values := observations.map Prod.snd
    let pass := Pass.ofValues ln toBits values
    let meanT := (observations.map fun o => (o.1 : ℚ)).sum / n
    let serial := Serial.along meanT pass.mean observations
    let sorted := values.mergeSort (· ≤ ·)
    let quantiles := probs.map (quantileSorted sorted) ++ [trimmedMean sorted]
    { empty with
      validCount := n
      sumExactI128 := pass.sumExactI128
      pebayMeanM1 := pass.mean
      pebayM2 := pass.m2
      pebayM3 := pass.m3
      pebayM4 := pass.m4
      minVal := pass.minVal
      maxVal := pass.maxVal
      firstVal := values.headD 0
      lastVal := values.getLastD 0
      firstTimestampMs := (observations.map Prod.fst).headD 0
      lastTimestampMs := (observations.map Prod.fst).getLastD 0
      sumLnX := pass.sumLnX
      sumLnXSq := pass.sumLnXSq
      sumReciprocalX := pass.sumReciprocalX
      sumXLnX := pass.sumXLnX
      madMedian := quantiles.getD 6 0
      madAbsDeviation := absDeviation sorted (quantiles.getD 6 0)
      iqrSpread := quantiles.getD 7 0 - quantiles.getD 5 0
      sumLag1CrossProd := serial.sumLag1CrossProd
      sumLag2CrossProd := serial.sumLag2CrossProd
      sumDiff1Sq := serial.sumDiff1Sq
      sumTimeCenteredProd := serial.sumTimeCenteredProd
      sumTimeCenteredSq := serial.sumTimeCenteredSq
      emaFastState := pass.emaFastState
      emaSlowState := pass.emaSlowState
      signalRmsSq := pass.sumSq / n
      zeroCrossingRate := if 1 < n then serial.zeroCrossings / (n - 1 : ℕ) else 0
      quantileSketch16 := quantiles
      hllRegisters := pass.hllRegisters
      bloomMini64 := pass.bloomMini64
      synopsisCrc64 := splitmix64 (UInt64.ofNat n ^^^ ⟨pass.sumExactI128.truncate 64⟩) }

def merge (syn other : MbfHyperSynopsis512) : MbfHyperSynopsis512 :=
  if syn.validCount = 0 then other
  else if other.validCount = 0 then syn
  else
    let na : ℚ := syn.validCount
    let nb : ℚ := other.validCount
    let nab := na + nb
    let delta := other.pebayMeanM1 - syn.pebayMeanM1
    let delta2 := delta * delta
    let delta3 := delta2 * delta
    let delta4 := delta2 * delta2
    let wa := na / nab
    let wb := nb / nab
    let quantiles := List.zipWith (fun a b => wa * a + wb * b) syn.quantileSketch16
      other.quantileSketch16
    let takesFirst := other.firstTimestampMs < syn.firstTimestampMs
    let takesLast := syn.lastTimestampMs ≤ other.lastTimestampMs
    { syn with
      validCount := syn.validCount + other.validCount
      nullCount := syn.nullCount + other.nullCount
      sumExactI128 := syn.sumExactI128 + other.sumExactI128
      pebayMeanM1 := syn.pebayMeanM1 + delta * (nb / nab)
      pebayM2 := syn.pebayM2 + other.pebayM2 + delta2 * (na * nb / nab)
      pebayM3 := syn.pebayM3 + other.pebayM3 + delta3 * (na * nb * (na - nb) / (nab * nab)) +
        3 * delta * ((na * other.pebayM2 - nb * syn.pebayM2) / nab)
      pebayM4 := syn.pebayM4 + other.pebayM4 +
        delta4 * (na * nb * (na * na - na * nb + nb * nb) / (nab * nab * nab)) +
        6 * delta2 * ((na * na * other.pebayM2 + nb * nb * syn.pebayM2) / (nab * nab)) +
        4 * delta * ((na * other.pebayM3 - nb * syn.pebayM3) / nab)
      minVal := min syn.minVal other.minVal
      maxVal := max syn.maxVal other.maxVal
      firstTimestampMs := if takesFirst then other.firstTimestampMs else syn.firstTimestampMs
      firstVal := if takesFirst then other.firstVal else syn.firstVal
      lastTimestampMs := if takesLast then other.lastTimestampMs else syn.lastTimestampMs
      lastVal := if takesLast then other.lastVal else syn.lastVal
      sumLnX := syn.sumLnX + other.sumLnX
      sumLnXSq := syn.sumLnXSq + other.sumLnXSq
      sumReciprocalX := syn.sumReciprocalX + other.sumReciprocalX
      sumXLnX := syn.sumXLnX + other.sumXLnX
      censoredCount := syn.censoredCount + other.censoredCount
      censoredExposureSum := syn.censoredExposureSum + other.censoredExposureSum
      quantileSketch16 := quantiles
      madMedian := quantiles.getD 6 0
      madAbsDeviation := wa * syn.madAbsDeviation + wb * other.madAbsDeviation
      iqrSpread := quantiles.getD 7 0 - quantiles.getD 5 0
      hllRegisters := fun r => max (syn.hllRegisters r) (other.hllRegisters r)
      bloomMini64 := syn.bloomMini64 ||| other.bloomMini64 }

end MbfHyperSynopsis512
end MetriEngine.Synopsis.Exact

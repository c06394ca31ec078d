import MetriEngine.Eav.Value
import MetriEngine.Foundation.RunLength
import MetriEngine.Storage.Wire

/-!
# Time series

A series keeps the differences of the differences of its times and the residues of its values,
and three pyramids of buckets of a minute, an hour and a day. A reading goes into the last bucket
of a pyramid or opens one behind it; no bucket before the last is looked at, and the start of a
window is found by a division that rounds towards zero.

Differences of times wrap at 64 bits. The sum and the order of doubles are parameters.
-/
namespace MetriEngine.Storage.IotTimeseries
open Foundation
open Eav (F64)

/-- The sum of doubles, and `<`. -/
class F64Arithmetic where
  add : F64 → F64 → F64
  lt : F64 → F64 → Bool

structure PyramidRollupBucket where
  bucketMs : ℤ
  count : ℕ
  sumSi : F64
  minSi : F64
  maxSi : F64
  firstSi : F64
  lastSi : F64
deriving DecidableEq

structure Chimp128SeriesBlock where
  subjectRowId : ℕ
  metricAttrId : ℕ
  metricCode : String
  count : ℕ
  baseTimestampMs : ℤ
  firstDeltaMs : ℤ
  deltaOfDeltasMs : List ℤ
  baseValueBits : BitVec 64
  xorResiduals : List (BitVec 64)
  minutePyramid : List PyramidRollupBucket
  /-- The start of the hour, then the count, the sum, the least, the greatest and the last. -/
  hourlyPyramid : List (ℤ × ℕ × F64 × F64 × F64 × F64)
  dailyPyramid : List PyramidRollupBucket
deriving DecidableEq

/-- A call of `push_reading`; the transform is `AffineTransform::apply`. -/
structure Reading where
  timestampMs : ℤ
  rawValue : F64
  transform : F64 → F64

def Reading.canonical (r : Reading) : F64 := r.transform r.rawValue

namespace Chimp128SeriesBlock

def new (subjectRowId : ℕ) (metricCode : String) : Chimp128SeriesBlock where
  subjectRowId
  metricAttrId := 1
  metricCode
  count := 0
  baseTimestampMs := 0
  firstDeltaMs := 0
  deltaOfDeltasMs := []
  baseValueBits := 0
  xorResiduals := []
  minutePyramid := []
  hourlyPyramid := []
  dailyPyramid := []

/-- One turn of the loop over the second differences: the time and the difference so far. -/
def integrate (p : ℤ × ℤ) (d2 : ℤ) : ℤ × ℤ :=
  let prevDelta := wrapI64 (p.2 + d2)
  (wrapI64 (p.1 + prevDelta), prevDelta)

/-- The part of `push_reading` that compresses the time and the value. -/
def pushCompressed (b : Chimp128SeriesBlock) (timestampMs : ℤ) (valBits : BitVec 64) :
    Chimp128SeriesBlock :=
  if b.count = 0 then
    { b with baseTimestampMs := timestampMs, baseValueBits := valBits }
  else if b.count = 1 then
    { b with
      firstDeltaMs := wrapI64 (timestampMs - b.baseTimestampMs)
      xorResiduals := b.xorResiduals ++ [valBits ^^^ b.baseValueBits] }
  else
    let prev := b.deltaOfDeltasMs.foldl integrate
      (wrapI64 (b.baseTimestampMs + b.firstDeltaMs), b.firstDeltaMs)
    let currentDelta := wrapI64 (timestampMs - prev.1)
    let prevBits := b.xorResiduals.foldl (· ^^^ ·) b.baseValueBits
    { b with
      deltaOfDeltasMs := b.deltaOfDeltasMs ++ [wrapI64 (currentDelta - prev.2)]
      xorResiduals := b.xorResiduals ++ [valBits ^^^ prevBits] }

/-- `(timestamp_ms / width) * width`, a division that rounds towards zero. -/
def bucketOf (width timestampMs : ℤ) : ℤ := timestampMs.tdiv width * width

section Pyramids
variable [F64Arithmetic]

def updatePyramidVec (pyramid : List PyramidRollupBucket) (bucketMs : ℤ) (val : F64) :
    List PyramidRollupBucket :=
  let opened := pyramid ++ [⟨bucketMs, 1, val, val, val, val, val⟩]
  match pyramid.getLast? with
  | some last =>
    if last.bucketMs = bucketMs then
      pyramid.dropLast ++ [{ last with
        count := last.count + 1
        sumSi := F64Arithmetic.add last.sumSi val
        minSi := if F64Arithmetic.lt val last.minSi then val else last.minSi
        maxSi := if F64Arithmetic.lt last.maxSi val then val else last.maxSi
        lastSi := val }]
    else opened
  | none => opened

/-- The pyramid of hours has its own copy of the update; a bucket has no first value there. -/
def updateHourly (pyramid : List (ℤ × ℕ × F64 × F64 × F64 × F64)) (hourBucket : ℤ) (val : F64) :
    List (ℤ × ℕ × F64 × F64 × F64 × F64) :=
  let opened := pyramid ++ [(hourBucket, 1, val, val, val, val)]
  match pyramid.getLast? with
  | some (hb, cnt, sum, min, max, _) =>
    if hb = hourBucket then
      pyramid.dropLast ++ [(hb, cnt + 1, F64Arithmetic.add sum val,
        if F64Arithmetic.lt val min then val else min,
        if F64Arithmetic.lt max val then val else max, val)]
    else opened
  | none => opened

def pushReading (b : Chimp128SeriesBlock) (r : Reading) : Chimp128SeriesBlock :=
  let canonicalVal := r.canonical
  let compressed := b.pushCompressed r.timestampMs canonicalVal.bits
  { compressed with
    count := b.count + 1
    minutePyramid :=
      updatePyramidVec b.minutePyramid (bucketOf 60000 r.timestampMs) canonicalVal
    hourlyPyramid :=
      updateHourly b.hourlyPyramid (bucketOf 3600000 r.timestampMs) canonicalVal
    dailyPyramid :=
      updatePyramidVec b.dailyPyramid (bucketOf 86400000 r.timestampMs) canonicalVal }

/-- The block after these calls of `push_reading`. -/
def pushAll (b : Chimp128SeriesBlock) (readings : List Reading) : Chimp128SeriesBlock :=
  readings.foldl pushReading b

end Pyramids

/-! ### Windows -/

inductive Resolution
  | minute
  | hour
  | day
deriving DecidableEq

def Resolution.width : Resolution → ℤ
  | .minute => 60000
  | .hour => 3600000
  | .day => 86400000

theorem Resolution.width_pos (res : Resolution) : 0 < res.width := by
  cases res <;> decide

/-- The starts of the buckets of a pyramid and their counts. -/
def buckets (b : Chimp128SeriesBlock) : Resolution → List (ℤ × ℕ)
  | .minute => b.minutePyramid.map fun bucket => (bucket.bucketMs, bucket.count)
  | .hour => b.hourlyPyramid.map fun bucket => (bucket.1, bucket.2.1)
  | .day => b.dailyPyramid.map fun bucket => (bucket.bucketMs, bucket.count)

/-- A window has one bucket at most, a bucket counts the readings in its window, and each reading
is counted once. -/
structure CountsByWindow (width : ℤ) (times : List ℤ) (buckets : List (ℤ × ℕ)) : Prop where
  once : (buckets.map Prod.fst).Nodup
  exact : ∀ bucket ∈ buckets,
    bucket.2 = times.countP fun t => bucket.1 ≤ t ∧ t < bucket.1 + width
  total : (buckets.map Prod.snd).sum = times.length

/-- No time lies before 1970 unless it starts a window, and no window comes back after another
one. -/
structure WindowsInTurn (width : ℤ) (times : List ℤ) : Prop where
  starts : ∀ t ∈ times, 0 ≤ t ∨ width ∣ t
  contiguous : ∀ s t u, [s, t, u].Sublist times → s / width = u / width → t / width = s / width

section Pyramids
variable [F64Arithmetic]

theorem starts_updatePyramidVec (pyramid : List PyramidRollupBucket) (bucketMs : ℤ) (val : F64) :
    (updatePyramidVec pyramid bucketMs val).map (fun bucket => (bucket.bucketMs, bucket.count)) =
      RunLength.addLabel (pyramid.map fun bucket => (bucket.bucketMs, bucket.count)) bucketMs := by
  induction pyramid using List.reverseRecOn with
  | nil => rfl
  | append_singleton before last =>
    by_cases h : last.bucketMs = bucketMs
    · simp [updatePyramidVec, RunLength.addLabel, h]
    · simp [updatePyramidVec, RunLength.addLabel, h]

theorem starts_updateHourly (pyramid : List (ℤ × ℕ × F64 × F64 × F64 × F64)) (hourBucket : ℤ)
    (val : F64) :
    (updateHourly pyramid hourBucket val).map (fun bucket => (bucket.1, bucket.2.1)) =
      RunLength.addLabel (pyramid.map fun bucket => (bucket.1, bucket.2.1)) hourBucket := by
  induction pyramid using List.reverseRecOn with
  | nil => rfl
  | append_singleton before last =>
    obtain ⟨hb, cnt, sum, min, max, val'⟩ := last
    by_cases h : hb = hourBucket
    · simp [updateHourly, RunLength.addLabel, h]
    · simp [updateHourly, RunLength.addLabel, h]

/-- One reading, at each of the three resolutions. -/
theorem buckets_pushReading (b : Chimp128SeriesBlock) (r : Reading) (res : Resolution) :
    (b.pushReading r).buckets res =
      RunLength.addLabel (b.buckets res) (bucketOf res.width r.timestampMs) := by
  cases res with
  | minute => exact starts_updatePyramidVec _ _ _
  | hour => exact starts_updateHourly _ _ _
  | day => exact starts_updatePyramidVec _ _ _

theorem buckets_pushAll (b : Chimp128SeriesBlock) (readings : List Reading) (res : Resolution) :
    (b.pushAll readings).buckets res =
      (readings.map fun r => bucketOf res.width r.timestampMs).foldl RunLength.addLabel
        (b.buckets res) := by
  induction readings generalizing b with
  | nil => rfl
  | cons r readings ih =>
    rw [List.map_cons, List.foldl_cons, ← buckets_pushReading]
    exact ih (b.pushReading r)

/-- A pyramid is the tally of the starts that the division gives. -/
theorem buckets_new (subjectRowId : ℕ) (metricCode : String) (readings : List Reading)
    (res : Resolution) :
    ((new subjectRowId metricCode).pushAll readings).buckets res =
      RunLength.tally ((readings.map Reading.timestampMs).map (bucketOf res.width)) := by
  rw [buckets_pushAll, List.map_map]
  cases res <;> rfl

end Pyramids

/-! ### The division that rounds towards zero -/

section Windows
variable {width : ℤ} {times : List ℤ}

theorem bucketOf_of_starts (hpos : 0 < width) {t : ℤ} (h : 0 ≤ t ∨ width ∣ t) :
    bucketOf width t = t / width * width := by
  rcases h with h | ⟨k, rfl⟩
  · rw [bucketOf, Int.tdiv_eq_ediv_of_nonneg h]
  · rw [bucketOf, Int.mul_tdiv_cancel_left _ hpos.ne', Int.mul_ediv_cancel_left _ hpos.ne']

theorem bucketOf_neg {s : ℤ} (h : 0 ≤ s) : bucketOf width (-s) = -(s / width * width) := by
  rw [bucketOf, Int.neg_tdiv, Int.tdiv_eq_ediv_of_nonneg h, Int.neg_mul]

/-- Of two conditions of which one implies the other, equally often met, each implies the other. -/
theorem holds_of_countP_eq {α : Type} {p q : α → Bool} {l : List α}
    (himp : ∀ x ∈ l, p x = true → q x = true) (heq : l.countP q = l.countP p) :
    ∀ x ∈ l, q x = true → p x = true := by
  induction l with
  | nil => simp
  | cons a l ih =>
    have htail : ∀ x ∈ l, p x = true → q x = true := fun x hx => himp x (List.mem_cons_of_mem _ hx)
    have hle : l.countP p ≤ l.countP q := List.countP_mono_left htail
    have hhead := himp a List.mem_cons_self
    simp only [List.countP_cons] at heq
    intro x hx hq
    rcases List.mem_cons.mp hx with rfl | hx
    · rw [if_pos hq] at heq
      by_contra hp
      rw [if_neg hp] at heq
      omega
    · apply ih htail _ x hx hq
      cases hpa : p a with
      | true =>
        simp only [hpa, hhead hpa, if_true] at heq
        omega
      | false =>
        simp only [hpa, Bool.false_eq_true, if_false] at heq
        omega

theorem mem_tally_of_mem {t : ℤ} (ht : t ∈ times) :
    ∃ n, (bucketOf width t, n) ∈ RunLength.tally (times.map (bucketOf width)) := by
  have hmem := (RunLength.mem_tally (times.map (bucketOf width)) _).mpr (List.mem_map_of_mem ht)
  obtain ⟨⟨k, n⟩, hn, rfl⟩ := List.mem_map.mp hmem
  exact ⟨n, hn⟩

theorem count_labels (k : ℤ) :
    (times.map (bucketOf width)).count k = times.countP fun t => bucketOf width t = k := by
  rw [List.count, List.countP_map]
  exact List.countP_congr fun t _ => by simp

/-- Where a bucket counts what lies in its window and all of that is entered in it, nothing that
lies before the window is. -/
theorem CountsByWindow.start_le
    (h : CountsByWindow width times (RunLength.tally (times.map (bucketOf width)))) {start : ℤ}
    (hwindow : ∀ x ∈ times, start ≤ x → x < start + width → bucketOf width x = start) :
    ∀ t ∈ times, bucketOf width t = start → start ≤ t := by
  intro t ht hstart
  obtain ⟨n, hn⟩ := @mem_tally_of_mem width times t ht
  rw [hstart] at hn
  have hcount := RunLength.count_of_nodup _ h.once _ hn
  rw [h.exact _ hn, count_labels] at hcount
  have hin := holds_of_countP_eq (fun x hx hp => ?_) hcount.symm t ht (by simpa using hstart)
  · simp only [decide_eq_true_eq] at hin
    exact hin.1
  · simp only [decide_eq_true_eq] at hp ⊢
    exact hwindow x hx hp.1 hp.2

theorem CountsByWindow.not_before
    (h : CountsByWindow width times (RunLength.tally (times.map (bucketOf width))))
    (hpos : 0 < width) {k : ℕ} (hwindow : ∀ x ∈ times, -(k * width) ≤ x →
      x < -(k * width) + width → bucketOf width x = -(k * width)) :
    ∀ t ∈ times, ¬(-(k * width + width) < t ∧ t < -(k * width)) := by
  rintro t ht ⟨hlo, hhi⟩
  have hquot : -t / width = k := by
    rw [Int.ediv_eq_iff_of_pos hpos]
    constructor <;> linarith
  have hneg : 0 ≤ -t := by nlinarith [Int.natCast_nonneg k]
  have hstart : bucketOf width t = -(k * width) := by
    rw [← neg_neg t, bucketOf_neg hneg, hquot]
  have hle := h.start_le hwindow t ht hstart
  omega

/-- Where the counts are right, no time lies before 1970 and inside a window: it would be entered
in the window after its own, whose times would have to be entered one further, up to 1970. -/
theorem CountsByWindow.not_between
    (h : CountsByWindow width times (RunLength.tally (times.map (bucketOf width))))
    (hpos : 0 < width) (k : ℕ) :
    ∀ t ∈ times, ¬(-(k * width + width) < t ∧ t < -(k * width)) := by
  induction k with
  | zero =>
    apply h.not_before hpos
    intro x _ hlo hhi
    simp only [Nat.cast_zero, zero_mul, neg_zero, zero_add] at hlo hhi ⊢
    rw [bucketOf_of_starts hpos (Or.inl hlo), Int.ediv_eq_zero_of_lt hlo hhi, zero_mul]
  | succ k ih =>
    apply h.not_before hpos
    intro x hx hlo hhi
    have hnot := ih x hx
    have hcast : ((k + 1 : ℕ) : ℤ) * width = k * width + width := by
      push_cast
      ring
    rw [hcast] at hlo hhi ⊢
    have heq : x = -(k + 1) * width := by
      have : x = -(k * width + width) := by omega
      rw [this]
      ring
    rw [bucketOf_of_starts hpos (Or.inr ⟨-(k + 1), by rw [heq, mul_comm]⟩), heq,
      Int.mul_ediv_cancel _ hpos.ne']
    ring

theorem CountsByWindow.starts
    (h : CountsByWindow width times (RunLength.tally (times.map (bucketOf width))))
    (hpos : 0 < width) : ∀ t ∈ times, 0 ≤ t ∨ width ∣ t := by
  intro t ht
  by_contra hnot
  obtain ⟨hneg, hdvd⟩ := not_or.mp hnot
  have hdiv := Int.mul_ediv_add_emod (-t) width
  have hlt := Int.emod_lt_of_pos (-t) hpos
  have hle := Int.emod_nonneg (-t) hpos.ne'
  have hpositive : -t % width ≠ 0 := fun hzero => hdvd (by
    rw [← Int.dvd_neg]
    exact Int.dvd_of_emod_eq_zero hzero)
  have hquot : 0 ≤ -t / width := Int.ediv_nonneg (by omega) hpos.le
  have hnat : ((-t / width).toNat : ℤ) = -t / width := Int.toNat_of_nonneg hquot
  apply h.not_between hpos (-t / width).toNat t ht
  rw [hnat, mul_comm (-t / width) width]
  constructor <;> omega

theorem CountsByWindow.inTurn
    (h : CountsByWindow width times (RunLength.tally (times.map (bucketOf width))))
    (hpos : 0 < width) : WindowsInTurn width times where
  starts := h.starts hpos
  contiguous := by
    intro s t u hsub hsame
    have hstart : ∀ x ∈ [s, t, u], bucketOf width x = x / width * width := fun x hx =>
      bucketOf_of_starts hpos (h.starts hpos x (hsub.subset hx))
    have hlabels := hsub.map (bucketOf width)
    simp only [List.map_cons, List.map_nil, hstart s (by simp), hstart t (by simp),
      hstart u (by simp), ← hsame] at hlabels
    have heq := (RunLength.nodup_iff _).mp h.once _ _ hlabels
    exact Int.eq_of_mul_eq_mul_right hpos.ne' heq

theorem WindowsInTurn.counts (h : WindowsInTurn width times) (hpos : 0 < width) :
    CountsByWindow width times (RunLength.tally (times.map (bucketOf width))) := by
  have hstart : ∀ x ∈ times, bucketOf width x = x / width * width := fun x hx =>
    bucketOf_of_starts hpos (h.starts x hx)
  have honce : ((RunLength.tally (times.map (bucketOf width))).map Prod.fst).Nodup := by
    rw [RunLength.nodup_iff]
    intro a b hsub
    obtain ⟨l, hl, hlabels⟩ := List.sublist_map_iff.mp hsub
    obtain ⟨s, l₁, rfl, rfl, htail⟩ := List.map_eq_cons_iff.mp hlabels.symm
    obtain ⟨t, l₂, rfl, rfl, hlast⟩ := List.map_eq_cons_iff.mp htail
    obtain ⟨u, l₃, rfl, hu, hnil⟩ := List.map_eq_cons_iff.mp hlast
    rw [List.map_eq_nil_iff.mp hnil] at hl
    rw [hstart s (hl.subset (by simp)), hstart u (hl.subset (by simp))] at hu
    have hsame := Int.eq_of_mul_eq_mul_right hpos.ne' hu
    rw [hstart s (hl.subset (by simp)), hstart t (hl.subset (by simp)),
      h.contiguous s t u hl hsame.symm]
  refine ⟨honce, fun e he => ?_, ?_⟩
  · rw [RunLength.count_of_nodup _ honce e he, count_labels]
    have hmem := (RunLength.mem_tally _ e.1).mp (List.mem_map_of_mem he)
    obtain ⟨x, hx, hlabel⟩ := List.mem_map.mp hmem
    rw [← hlabel, hstart x hx]
    apply List.countP_congr
    intro t ht
    simp only [decide_eq_true_eq]
    rw [hstart t ht, ← Int.ediv_eq_iff_of_pos hpos]
    exact ⟨fun h => Int.eq_of_mul_eq_mul_right hpos.ne' h, fun h => by rw [h]⟩
  · rw [RunLength.sum_tally, List.length_map]

end Windows

section Pyramids
variable [F64Arithmetic]

/-- The pyramid of one resolution counts the readings by their windows exactly when the windows
come in turn. -/
theorem buckets_count_iff (subjectRowId : ℕ) (metricCode : String) (readings : List Reading)
    (res : Resolution) :
    CountsByWindow res.width (readings.map Reading.timestampMs)
        (((new subjectRowId metricCode).pushAll readings).buckets res) ↔
      WindowsInTurn res.width (readings.map Reading.timestampMs) := by
  rw [buckets_new]
  exact ⟨fun h => h.inTurn res.width_pos, fun h => h.counts res.width_pos⟩

/-- The three pyramids count the readings by their windows exactly when no reading lies before
1970 and inside a window of one of them, and no window of one of them comes back after another. -/
theorem pyramids_count_iff (subjectRowId : ℕ) (metricCode : String) (readings : List Reading) :
    (∀ res : Resolution, CountsByWindow res.width (readings.map Reading.timestampMs)
        (((new subjectRowId metricCode).pushAll readings).buckets res)) ↔
      ∀ res : Resolution, WindowsInTurn res.width (readings.map Reading.timestampMs) :=
  forall_congr' fun res => buckets_count_iff subjectRowId metricCode readings res

end Pyramids

/-- A sum that is right for zeros. -/
@[reducible] def zerosOnly : F64Arithmetic := ⟨fun a _ => a, fun _ _ => false⟩

def zeroAt (timestampMs : ℤ) : Reading := ⟨timestampMs, ⟨0⟩, id⟩

/-- A reading one millisecond before 1970 is in the bucket that starts in 1970, and a late reading
opens a second bucket for its minute. -/
theorem pyramids_miscount :
    ¬CountsByWindow 60000 [-1]
        ((@pushAll zerosOnly (new 1 "temp") [zeroAt (-1)]).buckets .minute) ∧
    ¬CountsByWindow 60000 [0, 60000, 0]
        ((@pushAll zerosOnly (new 1 "temp") [zeroAt 0, zeroAt 60000, zeroAt 0]).buckets
          .minute) := by
  have hfirst : (@pushAll zerosOnly (new 1 "temp") [zeroAt (-1)]).buckets .minute =
      [(0, 1)] := by decide +kernel
  have hsecond : (@pushAll zerosOnly (new 1 "temp") [zeroAt 0, zeroAt 60000, zeroAt 0]).buckets
      .minute = [(0, 1), (60000, 1), (0, 1)] := by decide +kernel
  rw [hfirst, hsecond]
  constructor
  · intro h
    have hcount := h.exact (0, 1) (by simp)
    simp at hcount
  · intro h
    have honce := h.once
    simp at honce

end Chimp128SeriesBlock
end MetriEngine.Storage.IotTimeseries

import MetriEngine.Storage.IotTimeseries

/-!
# Compressed readings

A push finds the time and the value before it by going over all differences and all residues,
and a decompression goes over them again. The differences of differences are packed as a bitmap
of those that are not zero, followed by their values.
-/
namespace MetriEngine.Storage.IotTimeseries
open Foundation
open Eav (F64)

namespace Chimp128SeriesBlock

/-- The loop of `decompress_all`; nothing when a residue is missing, where the index panics. -/
def decompressFrom (t delta : ℤ) (bits : BitVec 64) :
    List ℤ → List (BitVec 64) → Option (List (ℤ × F64))
  | [], _ => some []
  | _ :: _, [] => none
  | d2 :: deltas, xr :: residuals =>
    let next := integrate (t, delta) d2
    (decompressFrom next.1 next.2 (bits ^^^ xr) deltas residuals).map
      ((next.1, ⟨bits ^^^ xr⟩) :: ·)

def decompressAll (b : Chimp128SeriesBlock) : Option (List (ℤ × F64)) :=
  let first := (b.baseTimestampMs, (⟨b.baseValueBits⟩ : F64))
  if b.count = 0 then some []
  else if 2 ≤ b.count then
    match b.xorResiduals with
    | [] => none
    | xr :: residuals =>
      let curT := wrapI64 (b.baseTimestampMs + b.firstDeltaMs)
      let curBits := b.baseValueBits ^^^ xr
      (decompressFrom curT b.firstDeltaMs curBits b.deltaOfDeltasMs residuals).map
        fun rest => first :: (curT, ⟨curBits⟩) :: rest
  else some [first]

/-! ### A push and a decompression -/

/-- The time and the difference that the loop of a push ends with. -/
def lastTime (b : Chimp128SeriesBlock) : ℤ × ℤ :=
  b.deltaOfDeltasMs.foldl integrate (wrapI64 (b.baseTimestampMs + b.firstDeltaMs), b.firstDeltaMs)

def lastBits (b : Chimp128SeriesBlock) : BitVec 64 :=
  b.xorResiduals.foldl (· ^^^ ·) b.baseValueBits

theorem decompressFrom_concat (t delta : ℤ) (bits : BitVec 64) (deltas : List ℤ)
    (residuals : List (BitVec 64)) (hlen : residuals.length = deltas.length) (d2 : ℤ)
    (xr : BitVec 64) :
    decompressFrom t delta bits (deltas ++ [d2]) (residuals ++ [xr]) =
      (decompressFrom t delta bits deltas residuals).map
        (· ++ [((integrate (deltas.foldl integrate (t, delta)) d2).1,
          ⟨residuals.foldl (· ^^^ ·) bits ^^^ xr⟩)]) := by
  induction deltas generalizing t delta bits residuals with
  | nil =>
    rw [List.length_nil, List.length_eq_zero_iff] at hlen
    subst hlen
    rfl
  | cons d deltas ih =>
    cases residuals with
    | nil => simp at hlen
    | cons x residuals =>
      simp only [List.cons_append, decompressFrom, List.foldl_cons]
      rw [ih _ _ _ residuals (by simpa using hlen), Option.map_map, Option.map_map]
      rfl

/-- What a block holds of the samples that were pushed: as many residues as there are samples
after the first, as many second differences as there are after the second, and all of them come
out again. -/
structure Holds (b : Chimp128SeriesBlock) (samples : List (ℤ × F64)) : Prop where
  count : b.count = samples.length
  residuals : b.xorResiduals.length = samples.length - 1
  deltas : b.deltaOfDeltasMs.length = samples.length - 2
  restored : b.decompressAll = some samples
  last : 2 ≤ b.count → samples.getLast? = some (b.lastTime.1, ⟨b.lastBits⟩)

/-- From the difference that leads to a time the time is found again, whatever wraps. -/
theorem integrate_difference (p : ℤ × ℤ) {t : ℤ} (hlo : -2 ^ 63 ≤ t) (hhi : t < 2 ^ 63) :
    (integrate p (wrapI64 (wrapI64 (t - p.1) - p.2))).1 = t := by
  simp only [integrate, wrapI64]
  omega

theorem xor_residual (bits prev : BitVec 64) : prev ^^^ (bits ^^^ prev) = bits := by
  rw [BitVec.xor_comm bits prev, ← BitVec.xor_assoc, BitVec.xor_self, BitVec.zero_xor]

theorem holds_new (subjectRowId : ℕ) (metricCode : String) :
    (new subjectRowId metricCode).Holds [] :=
  ⟨rfl, rfl, rfl, rfl, fun h => absurd h (by simp [new])⟩

variable [F64Arithmetic]

theorem Holds.push_first {b : Chimp128SeriesBlock} (h : b.Holds []) (r : Reading) :
    (b.pushReading r).Holds [(r.timestampMs, r.canonical)] := by
  have hcount : b.count = 0 := h.count
  have hx : b.xorResiduals = [] := List.eq_nil_of_length_eq_zero h.residuals
  have hd : b.deltaOfDeltasMs = [] := List.eq_nil_of_length_eq_zero h.deltas
  constructor
  · simp [pushReading, hcount]
  · simp [pushReading, pushCompressed, hcount, hx]
  · simp [pushReading, pushCompressed, hcount, hd]
  · simp [pushReading, pushCompressed, decompressAll, hcount]
  · intro hlen
    simp [pushReading, hcount] at hlen

theorem Holds.push_second {b : Chimp128SeriesBlock} {s : ℤ × F64} (h : b.Holds [s]) (r : Reading)
    (hlo : -2 ^ 63 ≤ r.timestampMs) (hhi : r.timestampMs < 2 ^ 63) :
    (b.pushReading r).Holds [s, (r.timestampMs, r.canonical)] := by
  have hcount : b.count = 1 := h.count
  have hx : b.xorResiduals = [] := List.eq_nil_of_length_eq_zero h.residuals
  have hd : b.deltaOfDeltasMs = [] := List.eq_nil_of_length_eq_zero h.deltas
  have hs : s = (b.baseTimestampMs, ⟨b.baseValueBits⟩) := by
    have hrestored := h.restored
    simp [decompressAll, hcount] at hrestored
    exact hrestored.symm
  have htime : wrapI64 (b.baseTimestampMs + wrapI64 (r.timestampMs - b.baseTimestampMs)) =
      r.timestampMs := by
    simp only [wrapI64]
    omega
  constructor
  · simp [pushReading, hcount]
  · simp [pushReading, pushCompressed, hcount, hx]
  · simp [pushReading, pushCompressed, hcount, hd]
  · simp [pushReading, pushCompressed, decompressAll, decompressFrom, hcount, hx, hd, hs, htime]
  · intro _
    simp [pushReading, pushCompressed, lastTime, lastBits, hcount, hx, hd, htime]

theorem Holds.push_later {b : Chimp128SeriesBlock} {samples : List (ℤ × F64)}
    (h : b.Holds samples) (hlen : 2 ≤ samples.length) (r : Reading)
    (hlo : -2 ^ 63 ≤ r.timestampMs) (hhi : r.timestampMs < 2 ^ 63) :
    (b.pushReading r).Holds (samples ++ [(r.timestampMs, r.canonical)]) := by
  have hcount := h.count
  have h0 : ¬b.count = 0 := by omega
  have h1 : ¬b.count = 1 := by omega
  have h2 : 2 ≤ b.count := by omega
  have htime := integrate_difference b.lastTime hlo hhi
  have hbits := xor_residual r.canonical.bits b.lastBits
  have hdeltas : (b.pushReading r).deltaOfDeltasMs = b.deltaOfDeltasMs ++
      [wrapI64 (wrapI64 (r.timestampMs - b.lastTime.1) - b.lastTime.2)] := by
    simp [pushReading, pushCompressed, h0, h1, lastTime]
  have hresiduals : (b.pushReading r).xorResiduals = b.xorResiduals ++
      [r.canonical.bits ^^^ b.lastBits] := by
    simp [pushReading, pushCompressed, h0, h1, lastBits]
  have hbase : (b.pushReading r).baseTimestampMs = b.baseTimestampMs ∧
      (b.pushReading r).firstDeltaMs = b.firstDeltaMs ∧
      (b.pushReading r).baseValueBits = b.baseValueBits := by
    simp [pushReading, pushCompressed, h0, h1]
  constructor
  · change b.count + 1 = _
    rw [List.length_append, hcount]
    rfl
  · rw [hresiduals, List.length_append, List.length_append, h.residuals]
    simp only [List.length_singleton]
    omega
  · rw [hdeltas, List.length_append, List.length_append, h.deltas]
    simp only [List.length_singleton]
    omega
  · have hrestored := h.restored
    have hcount' : (b.pushReading r).count = b.count + 1 := rfl
    rw [decompressAll, if_neg (by omega), if_pos (by omega), hdeltas, hresiduals, hbase.1,
      hbase.2.1, hbase.2.2]
    rw [decompressAll, if_neg h0, if_pos h2] at hrestored
    cases hx : b.xorResiduals with
    | nil =>
      have hnone := h.residuals
      rw [hx, List.length_nil] at hnone
      omega
    | cons x residuals =>
      have hlength : residuals.length = b.deltaOfDeltasMs.length := by
        have hr := h.residuals
        rw [hx, List.length_cons] at hr
        have hd := h.deltas
        omega
      have hlast : residuals.foldl (· ^^^ ·) (b.baseValueBits ^^^ x) = b.lastBits := by
        rw [lastBits, hx, List.foldl_cons]
      rw [hx] at hrestored
      obtain ⟨rest, hrest, hsamples⟩ := Option.map_eq_some_iff.mp hrestored
      simp only [List.cons_append]
      rw [decompressFrom_concat _ _ _ _ _ hlength, hrest, hlast, hbits]
      change some _ = some _
      rw [← hsamples]
      simp only [List.cons_append]
      rw [← lastTime, htime]
  · intro _
    have hlastTime : (b.pushReading r).lastTime = integrate b.lastTime
        (wrapI64 (wrapI64 (r.timestampMs - b.lastTime.1) - b.lastTime.2)) := by
      rw [lastTime, hdeltas, hbase.1, hbase.2.1, List.foldl_append]
      rfl
    have hlastBits : (b.pushReading r).lastBits = r.canonical.bits := by
      rw [lastBits, hresiduals, hbase.2.2, List.foldl_append]
      exact hbits
    rw [hlastTime, hlastBits, htime, List.getLast?_concat]

/-- One more reading is one more sample. -/
theorem Holds.pushReading {b : Chimp128SeriesBlock} {samples : List (ℤ × F64)}
    (h : b.Holds samples) (r : Reading) (hlo : -2 ^ 63 ≤ r.timestampMs)
    (hhi : r.timestampMs < 2 ^ 63) :
    (b.pushReading r).Holds (samples ++ [(r.timestampMs, r.canonical)]) := by
  match samples, h with
  | [], h => exact h.push_first r
  | [s], h => exact h.push_second r hlo hhi
  | s :: s' :: samples, h => exact h.push_later (by simp) r hlo hhi

theorem Holds.pushAll {b : Chimp128SeriesBlock} {samples : List (ℤ × F64)} (h : b.Holds samples)
    (readings : List Reading)
    (htimes : ∀ r ∈ readings, -2 ^ 63 ≤ r.timestampMs ∧ r.timestampMs < 2 ^ 63) :
    (b.pushAll readings).Holds
      (samples ++ readings.map fun r => (r.timestampMs, r.canonical)) := by
  induction readings generalizing b samples with
  | nil => simpa [Chimp128SeriesBlock.pushAll] using h
  | cons r readings ih =>
    have hr := htimes r List.mem_cons_self
    have hnext := ih (h.pushReading r hr.1 hr.2) fun r hr => htimes r (List.mem_cons_of_mem _ hr)
    rw [List.append_assoc] at hnext
    exact hnext

/-- A block gives back the times and the values that were pushed, in their order. -/
theorem decompressAll_pushAll (subjectRowId : ℕ) (metricCode : String) (readings : List Reading)
    (htimes : ∀ r ∈ readings, -2 ^ 63 ≤ r.timestampMs ∧ r.timestampMs < 2 ^ 63) :
    ((new subjectRowId metricCode).pushAll readings).decompressAll =
      some (readings.map fun r => (r.timestampMs, r.canonical)) :=
  ((holds_new subjectRowId metricCode).pushAll readings htimes).restored

/-! ### Second differences as bits -/

end Chimp128SeriesBlock

/-- `out[i / 8] |= 1 << (i % 8)` -/
def setBitmapBit (out : List Byte) (i : ℕ) : List Byte :=
  out.modify (i / 8) fun b => Fin.ofNat 256 (b.val ||| 1 <<< (i % 8))

/-- `bitmap[i / 8] & (1 << (i % 8)) != 0` -/
def bitmapBit (bitmap : List Byte) (i : ℕ) : Bool :=
  (bitmap[i / 8]?).any fun b => b.val.testBit (i % 8)

def markNonZero (out : List Byte) (entry : ℤ × ℕ) : List Byte :=
  if entry.1 ≠ 0 then setBitmapBit out entry.2 else out

def packedBitmap (deltas : List ℤ) : List Byte :=
  deltas.zipIdx.foldl markNonZero (List.replicate ((deltas.length + 7) / 8) 0)

def packedPayload (deltas : List ℤ) : List Byte :=
  deltas.flatMap fun d2 => if d2 ≠ 0 then writeI64 d2 else []

def Chimp128SeriesBlock.packDeltaOfDeltasBitstream (b : Chimp128SeriesBlock) : List Byte :=
  packedBitmap b.deltaOfDeltasMs ++ packedPayload b.deltaOfDeltasMs

/-- One turn of the loop over the bits. -/
def unpackDelta (bitmap : List Byte) (i : ℕ) : MbfReader ℤ :=
  if bitmapBit bitmap i then
    readI64 (corrupt "Truncated non-zero Delta-of-Delta value in Zone 3")
  else pure 0

def unpackAt (bitmap : List Byte) : List ℕ → MbfReader (List ℤ)
  | [] => return []
  | i :: places => do
    let d2 ← unpackDelta bitmap i
    return d2 :: (← unpackAt bitmap places)

def unpackDeltaOfDeltasBitstream (bytes : List Byte) (count : ℕ) : Except DomainError (List ℤ) :=
  let unpack : MbfReader (List ℤ) := do
    let bitmap ← takeBytes ((count + 7) / 8) (corrupt "Truncated Zone 3 Delta-of-Delta bitstream")
    unpackAt bitmap (List.range count)
  (unpack bytes).map Prod.fst

@[simp] theorem length_setBitmapBit (out : List Byte) (i : ℕ) :
    (setBitmapBit out i).length = out.length := List.length_modify ..

theorem testBit_setMask (b : Byte) (k : ℕ) {q : ℕ} (hq : q < 8) :
    (Fin.ofNat 256 (b.val ||| 1 <<< k)).val.testBit q = (decide (q = k) || b.val.testBit q) := by
  rw [Fin.val_ofNat]
  change ((b.val ||| 1 <<< k) % 2 ^ 8).testBit q = _
  rw [Nat.testBit_mod_two_pow, Nat.testBit_or, Nat.shiftLeft_eq, one_mul, Nat.testBit_two_pow,
    decide_eq_true hq, Bool.true_and, Bool.or_comm, decide_eq_decide.mpr eq_comm]

theorem bitmapBit_setBitmapBit {out : List Byte} {i : ℕ} (hi : i / 8 < out.length) (q : ℕ) :
    bitmapBit (setBitmapBit out i) q = (decide (q = i) || bitmapBit out q) := by
  rw [bitmapBit, setBitmapBit, List.getElem?_modify]
  by_cases hbyte : i / 8 = q / 8
  · have hq : q / 8 < out.length := hbyte ▸ hi
    have hsame : q % 8 = i % 8 ↔ q = i := by omega
    have hmask := testBit_setMask out[q / 8] (i % 8) (Nat.mod_lt q (by norm_num : 0 < 8))
    rw [bitmapBit, List.getElem?_eq_getElem hq, Option.map_eq_map, Option.map_some, if_pos hbyte,
      Option.any_some, Option.any_some, hmask, decide_eq_decide.mpr hsame]
  · have hne : q ≠ i := by
      intro heq
      exact hbyte (by rw [heq])
    simp [hbyte, hne, bitmapBit]

theorem length_foldl_markNonZero (entries : List (ℤ × ℕ)) (out : List Byte) :
    (entries.foldl markNonZero out).length = out.length := by
  induction entries generalizing out with
  | nil => rfl
  | cons e entries ih =>
    rw [List.foldl_cons, ih, markNonZero]
    split_ifs <;> simp

/-- The bits of the differences so far: those that are not zero, over what was there. -/
theorem bitmapBit_foldl (deltas : List ℤ) (out : List Byte)
    (hlen : deltas.length ≤ 8 * out.length) (q : ℕ) :
    bitmapBit (deltas.zipIdx.foldl markNonZero out) q =
      ((deltas[q]?).any (· ≠ 0) || bitmapBit out q) := by
  induction deltas using List.reverseRecOn with
  | nil => simp
  | append_singleton deltas d ih =>
    rw [List.length_append, List.length_singleton] at hlen
    have hbits := ih (by omega)
    have hin : deltas.length / 8 < (deltas.zipIdx.foldl markNonZero out).length := by
      rw [length_foldl_markNonZero]
      omega
    rw [List.zipIdx_append, List.foldl_append, List.getElem?_append]
    simp only [List.zipIdx_singleton, List.foldl_cons, List.foldl_nil, markNonZero, Nat.zero_add]
    by_cases hd : d = 0
    · rw [if_neg (by simpa using hd), hbits]
      split_ifs with hq
      · rfl
      · rw [List.getElem?_eq_none (by omega)]
        by_cases hlast : q = deltas.length
        · simp [hlast, hd]
        · rw [List.getElem?_eq_none (by simp; omega)]
    · rw [if_pos hd, bitmapBit_setBitmapBit hin, hbits]
      split_ifs with hq
      · rw [decide_eq_false (by omega), Bool.false_or]
      · rw [List.getElem?_eq_none (by omega)]
        by_cases hlast : q = deltas.length
        · simp [hlast, hd]
        · rw [List.getElem?_eq_none (by simp; omega), decide_eq_false hlast, Bool.false_or]

theorem bitmapBit_packed (deltas : List ℤ) (q : ℕ) :
    bitmapBit (packedBitmap deltas) q = (deltas[q]?).any (· ≠ 0) := by
  have hclear : bitmapBit (List.replicate ((deltas.length + 7) / 8) 0) q = false := by
    rw [bitmapBit, List.getElem?_replicate]
    split_ifs <;> simp
  rw [packedBitmap, bitmapBit_foldl _ _ (by rw [List.length_replicate]; omega), hclear,
    Bool.or_false]

theorem length_packedBitmap (deltas : List ℤ) :
    (packedBitmap deltas).length = (deltas.length + 7) / 8 := by
  rw [packedBitmap, length_foldl_markNonZero, List.length_replicate]

/-- The values are read back in the places their bits name. -/
theorem reads_unpackAt (bitmap : List Byte) (deltas : List ℤ) (start : ℕ)
    (hbits : ∀ i < deltas.length, bitmapBit bitmap (start + i) = (deltas[i]?).any (· ≠ 0))
    (hrange : ∀ d2 ∈ deltas, -2 ^ 63 ≤ d2 ∧ d2 < 2 ^ 63) :
    Reads (unpackAt bitmap (List.range' start deltas.length)) (packedPayload deltas) deltas := by
  induction deltas generalizing start with
  | nil => exact Reads.pure _
  | cons d deltas ih =>
    have hnext : ∀ i < deltas.length,
        bitmapBit bitmap (start + 1 + i) = (deltas[i]?).any (· ≠ 0) := by
      intro i hi
      have hbit := hbits (i + 1) (by simpa using hi)
      rwa [show start + (i + 1) = start + 1 + i by omega] at hbit
    have hrest := (ih (start + 1) hnext fun d2 hd2 => hrange d2 (List.mem_cons_of_mem _ hd2)).map
      (d :: ·)
    have hd := hrange d List.mem_cons_self
    have hbit := hbits 0 (by simp)
    rw [Nat.add_zero, List.getElem?_cons_zero, Option.any_some] at hbit
    have hhead : Reads (unpackDelta bitmap start) (if d ≠ 0 then writeI64 d else []) d := by
      rw [unpackDelta, hbit]
      by_cases hzero : d = 0
      · subst hzero
        exact Reads.pure _
      · rw [if_pos (by simpa using hzero), if_pos hzero]
        exact reads_i64 _ hd.1 hd.2
    exact hhead.bind (f := fun d2 => do return d2 :: (← unpackAt bitmap _)) hrest

theorem unpack_packed {deltas : List ℤ} (hrange : ∀ d2 ∈ deltas, -2 ^ 63 ≤ d2 ∧ d2 < 2 ^ 63) :
    unpackDeltaOfDeltasBitstream (packedBitmap deltas ++ packedPayload deltas) deltas.length =
      .ok deltas := by
  have hvalues := reads_unpackAt (packedBitmap deltas) deltas 0
    (fun i _ => by rw [Nat.zero_add, bitmapBit_packed]) hrange
  rw [← List.range_eq_range'] at hvalues
  have hall := (reads_takeBytes (corrupt "Truncated Zone 3 Delta-of-Delta bitstream")
    (length_packedBitmap deltas)).bind
      (f := fun bitmap => unpackAt bitmap (List.range deltas.length)) hvalues
  rw [unpackDeltaOfDeltasBitstream, hall.whole]
  rfl

end MetriEngine.Storage.IotTimeseries

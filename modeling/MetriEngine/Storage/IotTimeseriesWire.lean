import MetriEngine.Storage.Envelope
import MetriEngine.Storage.IotCompression

/-!
# Time series as bytes

After a magic come the subject and the code of the metric, the packed times, the residues as a
compressed stream, and the three pyramids; zeros fill up to a multiple of 64 bytes. The length
of the code has two bytes, every other length has four, and each is written by its low bytes.
-/
namespace MetriEngine.Storage.IotTimeseries
open Foundation Envelope
open Eav (F64)

def zone3Magic : List Byte := utf8 "MBFZ3IOT"

/-! ### Words and buckets -/

def readU32 : MbfReader ℕ := readLe 4 (corrupt "Unexpected EOF reading u32 in Zone 3")

def readU64 : MbfReader ℕ := readLe 8 (corrupt "Unexpected EOF reading u64 in Zone 3")

def readZoneI64 : MbfReader ℤ := readI64 (corrupt "Unexpected EOF reading u64 in Zone 3")

/-- `f64::from_bits` of the next word. -/
def readF64 : MbfReader F64 := (fun n => ⟨BitVec.ofNat 64 n⟩) <$> readU64

def writeU32 (n : ℕ) : List Byte := leBytes 4 (n % 2 ^ 32)

def writeU64 (n : ℕ) : List Byte := leBytes 8 (n % 2 ^ 64)

def writeF64 (d : F64) : List Byte := leBytes 8 d.bits.toNat

def writeBucket (b : PyramidRollupBucket) : List Byte :=
  writeI64 b.bucketMs ++ (writeU64 b.count ++ (writeF64 b.sumSi ++ (writeF64 b.minSi ++
    (writeF64 b.maxSi ++ (writeF64 b.firstSi ++ writeF64 b.lastSi)))))

def writePyramidBuckets (buckets : List PyramidRollupBucket) : List Byte :=
  writeU32 buckets.length ++ buckets.flatMap writeBucket

def readBucket : MbfReader PyramidRollupBucket := do
  let bucketMs ← readZoneI64
  let count ← readU64
  let sumSi ← readF64
  let minSi ← readF64
  let maxSi ← readF64
  let firstSi ← readF64
  return ⟨bucketMs, count, sumSi, minSi, maxSi, firstSi, ← readF64⟩

def readPyramidBuckets : MbfReader (List PyramidRollupBucket) := do
  let len ← readU32
  readMany readBucket len

def writeHour (b : ℤ × ℕ × F64 × F64 × F64 × F64) : List Byte :=
  writeI64 b.1 ++ (writeU64 b.2.1 ++ (writeF64 b.2.2.1 ++ (writeF64 b.2.2.2.1 ++
    (writeF64 b.2.2.2.2.1 ++ writeF64 b.2.2.2.2.2))))

def readHour : MbfReader (ℤ × ℕ × F64 × F64 × F64 × F64) := do
  let hb ← readZoneI64
  let cnt ← readU64
  let sum ← readF64
  let min ← readF64
  let max ← readF64
  return (hb, cnt, sum, min, max, ← readF64)

/-! ### The block -/

namespace Chimp128SeriesBlock

def rawXorBytes (b : Chimp128SeriesBlock) : List Byte :=
  b.xorResiduals.flatMap fun xr => leBytes 8 xr.toNat

section Formats
variable [WireFormats]

/-- What is written after the magic. -/
def blockBytes (b : Chimp128SeriesBlock) : List Byte :=
  let mcBytes := utf8 b.metricCode
  let packedDod := b.packDeltaOfDeltasBitstream
  let lz4Xor := WireFormats.compress b.rawXorBytes
  writeU32 b.subjectRowId ++
    ((leBytes 2 (b.metricAttrId % 2 ^ 16) ++ leBytes 2 (mcBytes.length % 2 ^ 16)) ++
    (mcBytes ++ (writeU32 b.count ++ (writeI64 b.baseTimestampMs ++ (writeI64 b.firstDeltaMs ++
    (leBytes 8 b.baseValueBits.toNat ++ (writeU32 b.deltaOfDeltasMs.length ++
    (writeU32 packedDod.length ++ (packedDod ++ (writeU32 b.xorResiduals.length ++
    (writeU32 lz4Xor.length ++ (lz4Xor ++ (writePyramidBuckets b.minutePyramid ++
    (writeU32 b.hourlyPyramid.length ++ (b.hourlyPyramid.flatMap writeHour ++
    writePyramidBuckets b.dailyPyramid)))))))))))))))

def encodeZoneBinary (b : Chimp128SeriesBlock) : List Byte :=
  MbfPartitionWireSnapshot.padTo64 (zone3Magic ++ b.blockBytes)

/-- The residues of the compressed stream. -/
def readResiduals (stream : List Byte) (xorCount : ℕ) : Except DomainError (List (BitVec 64)) :=
  match WireFormats.decompress stream with
  | .error e => .error (corrupt ("LZ4 decompression error in Zone 3: " ++ e))
  | .ok raw =>
    if raw.length < xorCount * 8 then
      .error (corrupt "Decompressed Chimp128 XOR buffer size mismatch")
    else .ok ((List.range xorCount).map fun i => BitVec.ofNat 64 (leAt raw (i * 8) 8))

/-- What follows the magic. -/
def readBlock : MbfReader Chimp128SeriesBlock := do
  let subjectRowId ← readU32
  let header ← takeBytes 4 (corrupt "Unexpected EOF reading metric header in Zone 3")
  let mc ← takeBytes (leAt header 2 2) (corrupt "Unexpected EOF reading metric_code in Zone 3")
  let count ← readU32
  let baseTimestampMs ← readZoneI64
  let firstDeltaMs ← readZoneI64
  let baseValueBits ← readU64
  let dodCount ← readU32
  let dodByteLen ← readU32
  let packed ← takeBytes dodByteLen (corrupt "Unexpected EOF in Zone 3 packed timestamps")
  let deltaOfDeltasMs ← StateT.lift (unpackDeltaOfDeltasBitstream packed dodCount)
  let xorCount ← readU32
  let lz4Len ← readU32
  let stream ← takeBytes lz4Len (corrupt "Unexpected EOF in Zone 3 LZ4 Chimp128 stream")
  let xorResiduals ← StateT.lift (readResiduals stream xorCount)
  let minutePyramid ← readPyramidBuckets
  let hrLen ← readU32
  let hourlyPyramid ← readMany readHour hrLen
  let dailyPyramid ← readPyramidBuckets
  return {
    subjectRowId
    metricAttrId := leAt header 0 2
    metricCode := WireFormats.fromUtf8Lossy mc
    count
    baseTimestampMs
    firstDeltaMs
    deltaOfDeltasMs
    baseValueBits := BitVec.ofNat 64 baseValueBits
    xorResiduals
    minutePyramid
    hourlyPyramid
    dailyPyramid }

def decodeZoneBinary (bytes : List Byte) : Except DomainError Chimp128SeriesBlock :=
  if bytes.length < 16 ∨ bytes.take 8 ≠ zone3Magic then
    .error (corrupt "Invalid Zone 3 time-series binary magic header")
  else (readBlock (bytes.drop 8)).map Prod.fst

end Formats
end Chimp128SeriesBlock

/-! ### Words and buckets are read back -/

/-- A step that reads nothing goes before any other. -/
theorem reads_lift_bind {α β : Type} {x : Except DomainError α} {a : α} {f : α → MbfReader β}
    {bytes : List Byte} {b : β} (h : x = .ok a) (hf : Reads (f a) bytes b) :
    Reads (StateT.lift x >>= f) bytes b := by
  intro rest
  rw [h]
  exact hf rest

theorem reads_u32 {n : ℕ} (h : n < 2 ^ 32) : Reads readU32 (writeU32 n) n := by
  rw [writeU32, Nat.mod_eq_of_lt h]
  exact reads_readLe _ (by simpa using h)

theorem reads_u64 {n : ℕ} (h : n < 2 ^ 64) : Reads readU64 (writeU64 n) n := by
  rw [writeU64, Nat.mod_eq_of_lt h]
  exact reads_readLe _ (by simpa using h)

theorem reads_f64 (d : F64) : Reads readF64 (writeF64 d) d := by
  have hread := (reads_readLe (corrupt "Unexpected EOF reading u64 in Zone 3") (n := 8)
    (x := d.bits.toNat) (by simpa using d.bits.isLt)).map fun n => (⟨BitVec.ofNat 64 n⟩ : F64)
  rw [BitVec.ofNat_toNat, BitVec.setWidth_eq] at hread
  exact hread

/-- The start of a bucket is an `i64` and its count a `u64`. -/
def FitsBucket (start : ℤ) (count : ℕ) : Prop := (-2 ^ 63 ≤ start ∧ start < 2 ^ 63) ∧ count < 2 ^ 64

theorem reads_bucket {b : PyramidRollupBucket} (h : FitsBucket b.bucketMs b.count) :
    Reads readBucket (writeBucket b) b := by
  refine (reads_i64 _ h.1.1 h.1.2).bind ?_
  refine (reads_u64 h.2).bind ?_
  refine (reads_f64 b.sumSi).bind ?_
  refine (reads_f64 b.minSi).bind ?_
  refine (reads_f64 b.maxSi).bind ?_
  refine (reads_f64 b.firstSi).bind ?_
  exact (reads_f64 b.lastSi).map fun last =>
    (⟨b.bucketMs, b.count, b.sumSi, b.minSi, b.maxSi, b.firstSi, last⟩ : PyramidRollupBucket)

theorem reads_hour {b : ℤ × ℕ × F64 × F64 × F64 × F64} (h : FitsBucket b.1 b.2.1) :
    Reads readHour (writeHour b) b := by
  obtain ⟨hb, cnt, sum, min, max, last⟩ := b
  refine (reads_i64 _ h.1.1 h.1.2).bind ?_
  refine (reads_u64 h.2).bind ?_
  refine (reads_f64 sum).bind ?_
  refine (reads_f64 min).bind ?_
  refine (reads_f64 max).bind ?_
  exact (reads_f64 last).map fun last => (hb, cnt, sum, min, max, last)

theorem reads_pyramidBuckets {buckets : List PyramidRollupBucket} (hlen : buckets.length < 2 ^ 32)
    (h : ∀ b ∈ buckets, FitsBucket b.bucketMs b.count) :
    Reads readPyramidBuckets (writePyramidBuckets buckets) buckets :=
  (reads_u32 hlen).bind (reads_readMany buckets fun b hb => reads_bucket (h b hb))

/-- The words of a stream, taken one by one at their places. -/
theorem words_flatMap (words : List (BitVec 64)) :
    ((List.range words.length).map fun i => BitVec.ofNat 64
      (leAt (words.flatMap fun w => leBytes 8 w.toNat) (i * 8) 8)) = words := by
  apply List.ext_getElem
  · simp
  · intro i hi hi'
    have hword := leAt_word [] List.length_nil (List.getElem?_eq_getElem hi')
    rw [List.nil_append, List.append_nil, Nat.zero_add, mul_comm] at hword
    rw [List.getElem_map, List.getElem_range, hword, BitVec.ofNat_toNat, BitVec.setWidth_eq]

namespace Chimp128SeriesBlock

section Formats
variable [WireFormats]

theorem readResiduals_compress (b : Chimp128SeriesBlock) (h : 8 * b.xorResiduals.length < 2 ^ 32) :
    readResiduals (WireFormats.compress b.rawXorBytes) b.xorResiduals.length =
      .ok b.xorResiduals := by
  have hlength : b.rawXorBytes.length = 8 * b.xorResiduals.length := by
    simp [rawXorBytes, List.length_flatMap, mul_comm]
  rw [readResiduals, WireFormats.decompress_compress _ (by omega)]
  dsimp only
  rw [if_neg (by omega), rawXorBytes, words_flatMap]

/-- The fields of a block fit the bytes that hold them. -/
structure Fits (b : Chimp128SeriesBlock) : Prop where
  subject : b.subjectRowId < 2 ^ 32
  attr : b.metricAttrId < 2 ^ 16
  code : (utf8 b.metricCode).length < 2 ^ 16
  count : b.count < 2 ^ 32
  base : -2 ^ 63 ≤ b.baseTimestampMs ∧ b.baseTimestampMs < 2 ^ 63
  first : -2 ^ 63 ≤ b.firstDeltaMs ∧ b.firstDeltaMs < 2 ^ 63
  deltas : ∀ d2 ∈ b.deltaOfDeltasMs, -2 ^ 63 ≤ d2 ∧ d2 < 2 ^ 63
  deltaCount : b.deltaOfDeltasMs.length < 2 ^ 32
  packed : b.packDeltaOfDeltasBitstream.length < 2 ^ 32
  residuals : 8 * b.xorResiduals.length < 2 ^ 32
  stream : (WireFormats.compress b.rawXorBytes).length < 2 ^ 32
  minutes : b.minutePyramid.length < 2 ^ 32 ∧
    ∀ bucket ∈ b.minutePyramid, FitsBucket bucket.bucketMs bucket.count
  hours : b.hourlyPyramid.length < 2 ^ 32 ∧
    ∀ bucket ∈ b.hourlyPyramid, FitsBucket bucket.1 bucket.2.1
  days : b.dailyPyramid.length < 2 ^ 32 ∧
    ∀ bucket ∈ b.dailyPyramid, FitsBucket bucket.bucketMs bucket.count

omit [WireFormats] in
theorem header_parts {attr len : ℕ} (hattr : attr < 2 ^ 16) (hlen : len < 2 ^ 16) :
    leAt (leBytes 2 (attr % 2 ^ 16) ++ leBytes 2 (len % 2 ^ 16)) 0 2 = attr ∧
      leAt (leBytes 2 (attr % 2 ^ 16) ++ leBytes 2 (len % 2 ^ 16)) 2 2 = len := by
  rw [Nat.mod_eq_of_lt hattr, Nat.mod_eq_of_lt hlen]
  constructor
  · rw [leAt, List.drop_zero, List.take_left' (leBytes_length 2 _), leBytes, List.reverse_reverse,
      ofBeBytes_beBytes (by simpa using hattr)]
  · rw [leAt, List.drop_left' (leBytes_length 2 _), List.take_of_length_le (by simp), leBytes,
      List.reverse_reverse, ofBeBytes_beBytes (by simpa using hlen)]

theorem Fits.reads_block {b : Chimp128SeriesBlock} (h : b.Fits) :
    Reads readBlock b.blockBytes b := by
  obtain ⟨hattr, hcode⟩ := header_parts h.attr h.code
  have hres := h.residuals
  have hbits : BitVec.ofNat 64 b.baseValueBits.toNat = b.baseValueBits := by simp
  refine (reads_u32 h.subject).bind ?_
  refine (reads_takeBytes _ (by simp)).bind ?_
  refine (reads_takeBytes _ hcode.symm).bind ?_
  refine (reads_u32 h.count).bind ?_
  refine (reads_i64 _ h.base.1 h.base.2).bind ?_
  refine (reads_i64 _ h.first.1 h.first.2).bind ?_
  refine (reads_readLe _ (by simpa using b.baseValueBits.isLt)).bind ?_
  refine (reads_u32 h.deltaCount).bind ?_
  refine (reads_u32 h.packed).bind ?_
  refine (reads_takeBytes _ rfl).bind ?_
  apply reads_lift_bind (unpack_packed h.deltas)
  refine (reads_u32 (by omega)).bind ?_
  refine (reads_u32 h.stream).bind ?_
  refine (reads_takeBytes _ rfl).bind ?_
  apply reads_lift_bind (b.readResiduals_compress h.residuals)
  refine (reads_pyramidBuckets h.minutes.1 h.minutes.2).bind ?_
  refine (reads_u32 h.hours.1).bind ?_
  refine (reads_readMany _ fun bucket hb => reads_hour (h.hours.2 bucket hb)).bind ?_
  have hdays := (reads_pyramidBuckets h.days.1 h.days.2).map fun days =>
    { b with dailyPyramid := days }
  rw [hattr, WireFormats.fromUtf8Lossy_utf8, hbits]
  exact hdays

/-- A block whose fields fit is read back as it was written. -/
theorem Fits.decode_encode {b : Chimp128SeriesBlock} (h : b.Fits) :
    decodeZoneBinary b.encodeZoneBinary = .ok b := by
  have hmagic : zone3Magic.length = 8 := by decide
  rw [decodeZoneBinary, encodeZoneBinary, MbfPartitionWireSnapshot.padTo64, List.append_assoc,
    List.take_left' hmagic, List.drop_left' hmagic, if_neg, h.reads_block]
  · rfl
  · rintro (hlen | hne)
    · simp [blockBytes, hmagic, writeU32, writeI64] at hlen
      omega
    · exact hne rfl

end Formats

/-! ### What pushes write -/

/-- The times and their differences are 64-bit integers. -/
structure InRange (b : Chimp128SeriesBlock) : Prop where
  base : -2 ^ 63 ≤ b.baseTimestampMs ∧ b.baseTimestampMs < 2 ^ 63
  first : -2 ^ 63 ≤ b.firstDeltaMs ∧ b.firstDeltaMs < 2 ^ 63
  deltas : ∀ d2 ∈ b.deltaOfDeltasMs, -2 ^ 63 ≤ d2 ∧ d2 < 2 ^ 63

section Pushes
variable [F64Arithmetic]

theorem InRange.pushReading {b : Chimp128SeriesBlock} (h : b.InRange) (r : Reading)
    (htime : -2 ^ 63 ≤ r.timestampMs ∧ r.timestampMs < 2 ^ 63) : (b.pushReading r).InRange := by
  by_cases h0 : b.count = 0
  · constructor
    · simpa [Chimp128SeriesBlock.pushReading, pushCompressed, h0] using htime
    · simpa [Chimp128SeriesBlock.pushReading, pushCompressed, h0] using h.first
    · simpa [Chimp128SeriesBlock.pushReading, pushCompressed, h0] using h.deltas
  · by_cases h1 : b.count = 1
    · constructor
      · simpa [Chimp128SeriesBlock.pushReading, pushCompressed, h1] using h.base
      · simpa [Chimp128SeriesBlock.pushReading, pushCompressed, h1] using wrapI64_bounds _
      · simpa [Chimp128SeriesBlock.pushReading, pushCompressed, h1] using h.deltas
    · constructor
      · simpa [Chimp128SeriesBlock.pushReading, pushCompressed, h0, h1] using h.base
      · simpa [Chimp128SeriesBlock.pushReading, pushCompressed, h0, h1] using h.first
      · intro d2 hd2
        simp only [Chimp128SeriesBlock.pushReading, pushCompressed, h0, h1, if_false,
          List.mem_append, List.mem_singleton] at hd2
        rcases hd2 with hd2 | rfl
        · exact h.deltas d2 hd2
        · exact wrapI64_bounds _

theorem InRange.pushAll {b : Chimp128SeriesBlock} (h : b.InRange) (readings : List Reading)
    (htimes : ∀ r ∈ readings, -2 ^ 63 ≤ r.timestampMs ∧ r.timestampMs < 2 ^ 63) :
    (b.pushAll readings).InRange := by
  induction readings generalizing b with
  | nil => exact h
  | cons r readings ih =>
    exact ih (h.pushReading r (htimes r List.mem_cons_self)) fun r hr =>
      htimes r (List.mem_cons_of_mem _ hr)

/-- A push leaves the subject and the metric as they are. -/
theorem names_pushAll (b : Chimp128SeriesBlock) (readings : List Reading) :
    (b.pushAll readings).subjectRowId = b.subjectRowId ∧
      (b.pushAll readings).metricAttrId = b.metricAttrId ∧
      (b.pushAll readings).metricCode = b.metricCode := by
  induction readings generalizing b with
  | nil => exact ⟨rfl, rfl, rfl⟩
  | cons r readings ih =>
    have hstep : (b.pushReading r).subjectRowId = b.subjectRowId ∧
        (b.pushReading r).metricAttrId = b.metricAttrId ∧
        (b.pushReading r).metricCode = b.metricCode := by
      simp only [Chimp128SeriesBlock.pushReading, pushCompressed]
      split_ifs <;> simp
    obtain ⟨hsubject, hattr, hcode⟩ := ih (b.pushReading r)
    exact ⟨hsubject.trans hstep.1, hattr.trans hstep.2.1, hcode.trans hstep.2.2⟩

omit [F64Arithmetic] in
theorem bucketOf_bounds {width t : ℤ} (hpos : 0 < width) (hlo : -2 ^ 63 ≤ t) (hhi : t < 2 ^ 63) :
    -2 ^ 63 ≤ bucketOf width t ∧ bucketOf width t < 2 ^ 63 := by
  rcases le_or_gt 0 t with ht | ht
  · rw [bucketOf_of_starts hpos (Or.inl ht)]
    have hle := Int.ediv_mul_le t hpos.ne'
    have hnonneg := Int.mul_nonneg (Int.ediv_nonneg ht hpos.le) hpos.le
    omega
  · have hneg : 0 ≤ -t := by omega
    rw [← neg_neg t, bucketOf_neg hneg]
    have hle := Int.ediv_mul_le (-t) hpos.ne'
    have hnonneg := Int.mul_nonneg (Int.ediv_nonneg hneg hpos.le) hpos.le
    omega

/-- No pyramid has more buckets than there are readings, and their fields fit. -/
theorem buckets_fit (subjectRowId : ℕ) (metricCode : String) (readings : List Reading)
    (htimes : ∀ r ∈ readings, -2 ^ 63 ≤ r.timestampMs ∧ r.timestampMs < 2 ^ 63)
    (hcount : readings.length < 2 ^ 32) (res : Resolution) :
    (((new subjectRowId metricCode).pushAll readings).buckets res).length < 2 ^ 32 ∧
      ∀ e ∈ ((new subjectRowId metricCode).pushAll readings).buckets res,
        FitsBucket e.1 e.2 := by
  rw [buckets_new]
  have hlength := RunLength.length_tally_le
    ((readings.map Reading.timestampMs).map (bucketOf res.width))
  have hcounts := RunLength.count_le
    ((readings.map Reading.timestampMs).map (bucketOf res.width))
  rw [List.length_map, List.length_map] at hlength hcounts
  refine ⟨by omega, fun e he => ⟨?_, ?_⟩⟩
  · have hmem := (RunLength.mem_tally _ e.1).mp (List.mem_map_of_mem he)
    obtain ⟨t, ht, hlabel⟩ := List.mem_map.mp hmem
    obtain ⟨r, hr, rfl⟩ := List.mem_map.mp ht
    rw [← hlabel]
    exact bucketOf_bounds res.width_pos (htimes r hr).1 (htimes r hr).2
  · have hle := hcounts e he
    omega

section Formats
variable [WireFormats]

/-- The code of the metric fits its two length bytes; the packed times, the residues and the
compressed stream fit their four. -/
structure LengthsFit (b : Chimp128SeriesBlock) : Prop where
  code : (utf8 b.metricCode).length < 2 ^ 16
  packed : b.packDeltaOfDeltasBitstream.length < 2 ^ 32
  residuals : 8 * b.xorResiduals.length < 2 ^ 32
  stream : (WireFormats.compress b.rawXorBytes).length < 2 ^ 32

theorem LengthsFit.fits {subjectRowId : ℕ} {metricCode : String} {readings : List Reading}
    (hsubject : subjectRowId < 2 ^ 32)
    (htimes : ∀ r ∈ readings, -2 ^ 63 ≤ r.timestampMs ∧ r.timestampMs < 2 ^ 63)
    (h : ((new subjectRowId metricCode).pushAll readings).LengthsFit) :
    ((new subjectRowId metricCode).pushAll readings).Fits := by
  have hholds := (holds_new subjectRowId metricCode).pushAll readings htimes
  have hnames := (new subjectRowId metricCode).names_pushAll readings
  have hnew : (new subjectRowId metricCode).InRange :=
    ⟨by simp [new], by simp [new], by simp [new]⟩
  have hrange := hnew.pushAll readings htimes
  have hresiduals := h.residuals
  have hlength := hholds.residuals
  have hdeltas := hholds.deltas
  have hcount := hholds.count
  rw [List.nil_append, List.length_map] at hlength hdeltas hcount
  have hreadings : readings.length < 2 ^ 32 := by omega
  have hbuckets := buckets_fit subjectRowId metricCode readings htimes hreadings
  constructor
  · rw [hnames.1]
    exact hsubject
  · rw [hnames.2.1]
    exact (by decide : 1 < 2 ^ 16)
  · exact h.code
  · rw [hcount]
    exact hreadings
  · exact hrange.base
  · exact hrange.first
  · exact hrange.deltas
  · omega
  · exact h.packed
  · exact h.residuals
  · exact h.stream
  · obtain ⟨hlen, hfit⟩ := hbuckets .minute
    exact ⟨by simpa [buckets] using hlen, fun bucket hb => hfit _ (List.mem_map_of_mem hb)⟩
  · obtain ⟨hlen, hfit⟩ := hbuckets .hour
    exact ⟨by simpa [buckets] using hlen, fun bucket hb => hfit _ (List.mem_map_of_mem hb)⟩
  · obtain ⟨hlen, hfit⟩ := hbuckets .day
    exact ⟨by simpa [buckets] using hlen, fun bucket hb => hfit _ (List.mem_map_of_mem hb)⟩

/-- The readings of a block come back from its bytes, times and values, in their order, as long
as its lengths fit: above all the code of its metric, whose length has two bytes only. -/
theorem readings_come_back (subjectRowId : ℕ) (metricCode : String) (readings : List Reading)
    (hsubject : subjectRowId < 2 ^ 32)
    (htimes : ∀ r ∈ readings, -2 ^ 63 ≤ r.timestampMs ∧ r.timestampMs < 2 ^ 63)
    (hlengths : ((new subjectRowId metricCode).pushAll readings).LengthsFit) :
    (decodeZoneBinary ((new subjectRowId metricCode).pushAll readings).encodeZoneBinary).map
        decompressAll =
      .ok (some (readings.map fun r => (r.timestampMs, r.canonical))) := by
  rw [(hlengths.fits hsubject htimes).decode_encode]
  exact congrArg Except.ok (decompressAll_pushAll subjectRowId metricCode readings htimes)

end Formats
end Pushes

/-- Three readings on three days come back. -/
theorem three_days_come_back :
    ((@decodeZoneBinary .stored (@encodeZoneBinary .stored (@pushAll zerosOnly (new 10 "temp")
        [⟨0, ⟨0x4034000000000000⟩, id⟩, ⟨86400000, ⟨0x403E000000000000⟩, id⟩,
          ⟨172800500, ⟨0x4044000000000000⟩, id⟩]))).map decompressAll) =
      .ok (some [(0, ⟨0x4034000000000000⟩), (86400000, ⟨0x403E000000000000⟩),
        (172800500, ⟨0x4044000000000000⟩)]) :=
  @readings_come_back zerosOnly .stored 10 "temp" _ (by decide)
    (by simp) (@LengthsFit.mk .stored _ (by decide +kernel) (by decide +kernel) (by decide +kernel)
      (by decide +kernel))

/-! ### A code that is too long -/

theorem run_bind {α β : Type} {r : MbfReader α} {bytes : List Byte} {a : α}
    (h : Reads r bytes a) (f : α → MbfReader β) (rest : List Byte) :
    (r >>= f) (bytes ++ rest) = f a rest := by
  change (r (bytes ++ rest) >>= fun p => f p.1 p.2) = _
  rw [h rest]
  rfl

theorem bind_error {α β : Type} {r : MbfReader α} {bytes : List Byte} {e : DomainError}
    (h : r bytes = .error e) (f : α → MbfReader β) : (r >>= f) bytes = .error e := by
  change (r bytes >>= fun p => f p.1 p.2) = _
  rw [h]
  rfl

theorem utf8_replicate (n : ℕ) :
    utf8 (String.ofList (List.replicate n 'a')) = List.replicate n 0x61 := by
  induction n with
  | zero => rfl
  | succ n ih =>
    have hsplit : String.ofList (List.replicate (n + 1) 'a') =
        "a" ++ String.ofList (List.replicate n 'a') := by
      apply String.toList_inj.mp
      simp [List.replicate_succ]
    rw [hsplit, utf8_append, ih]
    rfl

/-- A code of 65536 letters. -/
def overlongCode : String := String.ofList (List.replicate 65536 'a')

theorem reads_letters (n : ℕ) (err : DomainError) :
    Reads (readLe n err) (List.replicate n 0x61) (ofBeBytes (List.replicate n 0x61)) := by
  have hread := (reads_takeBytes err (List.length_replicate (n := n) (a := (0x61 : Byte)))).map
    fun bytes => ofBeBytes bytes.reverse
  rw [List.reverse_replicate] at hread
  exact hread

section Formats
variable [WireFormats]

/-- The length of the code is written as zero, so the code is read as the rest of the block. -/
theorem readBlock_overlong {letters : List Byte} (hletters : letters = List.replicate 65536 0x61)
    (tail : List Byte) (hshort : tail.length < 2 ^ 20) :
    readBlock (writeU32 1 ++ ((leBytes 2 (1 % 2 ^ 16) ++ leBytes 2 (65536 % 2 ^ 16)) ++
        (letters ++ tail))) =
      .error (corrupt "Unexpected EOF in Zone 3 packed timestamps") := by
  have hsplit : List.replicate 65536 (0x61 : Byte) ++ tail = [] ++ (List.replicate 4 0x61 ++
      (List.replicate 8 0x61 ++ (List.replicate 8 0x61 ++ (List.replicate 8 0x61 ++
        (List.replicate 4 0x61 ++ (List.replicate 4 0x61 ++
          (List.replicate 65500 0x61 ++ tail))))))) := by
    rw [List.nil_append]
    simp only [← List.append_assoc, ← List.replicate_add]
  have hlen : leAt (leBytes 2 (1 % 2 ^ 16) ++ leBytes 2 (65536 % 2 ^ 16)) 2 2 = 0 := by decide
  rw [hletters, hsplit, readBlock]
  refine (run_bind (reads_u32 (n := 1) (by decide)) _ _).trans ?_
  refine (run_bind (reads_takeBytes _ (by simp)) _ _).trans ?_
  refine (run_bind (@reads_takeBytes _ _ _ [] hlen.symm) _ _).trans ?_
  refine (run_bind (reads_letters 4 _) _ _).trans ?_
  refine (run_bind ((reads_letters 8 _).map _) _ _).trans ?_
  refine (run_bind ((reads_letters 8 _).map _) _ _).trans ?_
  refine (run_bind (reads_letters 8 _) _ _).trans ?_
  refine (run_bind (reads_letters 4 _) _ _).trans ?_
  refine (run_bind (reads_letters 4 _) _ _).trans ?_
  have hwant : ofBeBytes (List.replicate 4 (0x61 : Byte)) = 1633771873 := by decide
  have hfail : ∀ err : DomainError, takeBytes 1633771873 err
      (List.replicate 65500 (0x61 : Byte) ++ tail) = .error err := by
    intro err
    rw [takeBytes, if_pos]
    rw [List.length_append, List.length_replicate]
    omega
  rw [hwant]
  exact bind_error (hfail _) _

end Formats

/-- A block without readings, and what is written after its code. -/
theorem blockBytes_new : ∃ tail : List Byte, tail.length = 56 ∧ ∀ metricCode : String,
    @blockBytes .stored (new 1 metricCode) = writeU32 1 ++
      ((leBytes 2 (1 % 2 ^ 16) ++ leBytes 2 ((utf8 metricCode).length % 2 ^ 16)) ++
        (utf8 metricCode ++ tail)) :=
  ⟨(@blockBytes .stored (new 1 "")).drop 8, by decide +kernel, fun _ => rfl⟩

/-- The bytes of a block without readings whose code has 65536 letters are refused. -/
theorem decode_overlong :
    @decodeZoneBinary .stored (@encodeZoneBinary .stored (new 1 overlongCode)) =
      .error (corrupt "Unexpected EOF in Zone 3 packed timestamps") := by
  have hmagic : zone3Magic.length = 8 := by decide
  obtain ⟨tail, hshort, hblock⟩ := blockBytes_new
  have hletters : utf8 overlongCode = List.replicate 65536 0x61 := utf8_replicate 65536
  have hlength : (utf8 overlongCode).length = 65536 := by
    rw [hletters, List.length_replicate]
  have hcode := hblock overlongCode
  rw [hlength] at hcode
  have hbytes : ∀ zeros : List Byte, zeros.length < 2 ^ 10 → @readBlock .stored
      (@blockBytes .stored (new 1 overlongCode) ++ zeros) =
        .error (corrupt "Unexpected EOF in Zone 3 packed timestamps") := by
    intro zeros hzeros
    have hassoc : ∀ w h mc : List Byte,
        (w ++ (h ++ (mc ++ tail))) ++ zeros = w ++ (h ++ (mc ++ (tail ++ zeros))) := by
      intro w h mc
      simp only [List.append_assoc]
    rw [hcode, hassoc]
    apply @readBlock_overlong .stored _ hletters (tail ++ zeros)
    rw [List.length_append]
    omega
  unfold decodeZoneBinary encodeZoneBinary MbfPartitionWireSnapshot.padTo64
  rw [List.append_assoc, List.take_left' hmagic, List.drop_left' hmagic, if_neg, hbytes]
  · rfl
  · rw [List.length_replicate]
    split_ifs <;> omega
  · rintro (hlen | hne)
    · rw [hcode] at hlen
      simp [hmagic, writeU32] at hlen
      omega
    · exact hne rfl

/-- A block without readings whose code has 65536 letters does not come back. -/
theorem overlong_code_is_lost :
    (@decodeZoneBinary .stored (@encodeZoneBinary .stored
        (@pushAll zerosOnly (new 1 overlongCode) []))).map decompressAll ≠ .ok (some []) := by
  change (@decodeZoneBinary .stored (@encodeZoneBinary .stored (new 1 overlongCode))).map
    decompressAll ≠ _
  rw [decode_overlong]
  simp [Except.map]

end Chimp128SeriesBlock
end MetriEngine.Storage.IotTimeseries

import MetriEngine.Eav.Json
import MetriEngine.Storage.CrossCovariance

/-!
# The zone of co-moments as bytes

After a magic come the dimension, a word of zeros, the count, the means and the co-moments on or
above the diagonal; zeros fill up to a multiple of 64 bytes. A reader writes each co-moment at
both of its places.
-/
namespace MetriEngine.Storage.CrossCovariance
open Foundation Envelope
open MbfCrossCovarianceMatrix

def zone6bMagic : List Byte := utf8 "MBFZ6BCV"

/-! ### Writing and reading -/

namespace MbfCrossCovarianceMatrix

section Doubles
-- `f64::to_bits` and `f64::from_bits`
variable (toBits : ℚ → BitVec 64) (fromBits : BitVec 64 → ℚ)

/-- The means and the triangle above the diagonal. -/
def words (matrix : MbfCrossCovarianceMatrix) : List (BitVec 64) :=
  matrix.means.map toBits ++
    (upperPairs matrix.dimension).map fun p => toBits (entry matrix.dimension matrix.coMoments p.1 p.2)

def encodeZoneBinary (matrix : MbfCrossCovarianceMatrix) : List Byte :=
  MbfPartitionWireSnapshot.padTo64 (zone6bMagic ++ leBytes 4 (matrix.dimension % 2 ^ 32) ++ leBytes 4 0 ++
    leBytes 8 matrix.count ++ (matrix.words toBits).flatMap fun w => leBytes 8 w.toNat)

/-- The length that is asked for wraps; a reader that goes on behind the end of the bytes stops,
as does one that asks for more places than a vector can have. -/
def decodeZoneBinary (bytes : List Byte) : Checked DomainError MbfCrossCovarianceMatrix := do
  failIf (bytes.length < 24) ("Zone 6B buffer too small: " ++ toString bytes.length ++ " bytes")
  failIf (bytes.take 8 ≠ zone6bMagic) "Invalid Zone 6B magic (expected MBFZ6BCV)"
  let m := leAt bytes 8 4
  let count := leAt bytes 16 8
  let needed := 24 + (m + m * (m + 1) / 2) * 8
  failIf (bytes.length < needed % 2 ^ 64) "Truncated Zone 6B co-moments payload"
  if bytes.length < needed ∨ 2 ^ 63 ≤ 8 * (m * m) then .error .panic
  else
    let word (k : ℕ) : ℚ := fromBits (BitVec.ofNat 64 (leAt bytes (24 + 8 * k) 8))
    return {
      dimension := m
      count
      means := (List.range m).map word
      coMoments := ((upperPairs m).zipIdx m).foldl (fun c p => setBoth m c p.1 (word p.2))
        (List.replicate (m * m) 0) }

/-- A symmetric matrix of the size that its dimension says. -/
structure WellFormed (matrix : MbfCrossCovarianceMatrix) : Prop where
  means : matrix.means.length = matrix.dimension
  coMoments : matrix.coMoments.length = matrix.dimension * matrix.dimension
  symmetric : ∀ i < matrix.dimension, ∀ j < matrix.dimension,
    entry matrix.dimension matrix.coMoments i j = entry matrix.dimension matrix.coMoments j i

/-- The numbers of the matrix are doubles, and there is a word for the count and memory for the
co-moments. -/
structure Fits (matrix : MbfCrossCovarianceMatrix) : Prop where
  count : matrix.count < 2 ^ 64
  memory : 8 * matrix.coMoments.length < 2 ^ 63
  doubles : ∀ x ∈ matrix.means ++ matrix.coMoments, fromBits (toBits x) = x

theorem Reachable.wellFormed {matrix : MbfCrossCovarianceMatrix} (h : Reachable matrix) :
    matrix.WellFormed := by
  obtain ⟨rows, hrows⟩ := h.summarises
  refine ⟨?_, hrows.length, fun i hi j hj => ?_⟩
  · rw [hrows.means, List.length_map, List.length_range]
  · rw [hrows.coMoments i hi j hj, hrows.coMoments j hj i hi, coMoment_comm]

theorem WellFormed.length_words {matrix : MbfCrossCovarianceMatrix} (h : matrix.WellFormed) :
    (matrix.words toBits).length =
      matrix.dimension + matrix.dimension * (matrix.dimension + 1) / 2 := by
  rw [words, List.length_append, List.length_map, List.length_map, h.means, length_upperPairs]

/-- Reading the triangle word by word fills the whole matrix. -/
theorem WellFormed.foldl_setBoth {matrix : MbfCrossCovarianceMatrix} (h : matrix.WellFormed)
    (word : ℕ → ℚ)
    (hword : ∀ q ∈ (upperPairs matrix.dimension).zipIdx matrix.dimension,
      word q.2 = entry matrix.dimension matrix.coMoments q.1.1 q.1.2) :
    ((upperPairs matrix.dimension).zipIdx matrix.dimension).foldl
      (fun c p => setBoth matrix.dimension c p.1 (word p.2))
      (List.replicate (matrix.dimension * matrix.dimension) 0) = matrix.coMoments := by
  obtain ⟨m, count, means, coMoments⟩ := matrix
  dsimp only at hword ⊢
  have hloop : ((upperPairs m).zipIdx m).foldl (fun c p => setBoth m c p.1 (word p.2))
      (List.replicate (m * m) 0) =
      updateUpper m (fun p _ => entry m coMoments p.1 p.2) (List.replicate (m * m) 0)
        (upperPairs m) := by
    rw [updateUpper, ← List.zipIdx_map_fst m (upperPairs m), List.foldl_map, List.zipIdx_map_fst]
    exact List.foldl_ext _ _ _ fun c q hq => congrArg (setBoth m c q.1) (hword q hq)
  rw [hloop]
  have hzeros : (List.replicate (m * m) (0 : ℚ)).length = m * m := List.length_replicate ..
  refine entry_ext ((length_updateUpper ..).trans hzeros) h.coMoments fun i hi j hj => ?_
  cases le_total i j with
  | inl hij => exact (entry_updateUpper_upperPairs _ hzeros hij hj).1
  | inr hji =>
    refine (entry_updateUpper_upperPairs _ hzeros hji hi).2.trans ?_
    exact h.symmetric j hj i hi

theorem WellFormed.dimension_lt {matrix : MbfCrossCovarianceMatrix} (h : matrix.WellFormed)
    (hfits : matrix.Fits toBits fromBits) : matrix.dimension < 2 ^ 32 := by
  have hmemory := hfits.memory
  rw [h.coMoments] at hmemory
  nlinarith

/-- The bytes of the zone, part by part. -/
theorem exists_encodeZoneBinary {matrix : MbfCrossCovarianceMatrix} (h : matrix.dimension < 2 ^ 32) :
    ∃ zeros, matrix.encodeZoneBinary toBits = zone6bMagic ++ (leBytes 4 matrix.dimension ++
      (leBytes 4 0 ++ (leBytes 8 matrix.count ++
        (((matrix.words toBits).flatMap fun w => leBytes 8 w.toNat) ++ zeros)))) := by
  rw [encodeZoneBinary, MbfPartitionWireSnapshot.padTo64, Nat.mod_eq_of_lt h]
  simp only [List.append_assoc]
  exact ⟨_, rfl⟩

/-- The reader meets the means first. -/
theorem words_mean (matrix : MbfCrossCovarianceMatrix) {k : ℕ} (hk : k < matrix.means.length) :
    (matrix.words toBits)[k]? = some (toBits matrix.means[k]) := by
  rw [words, List.getElem?_append_left (by rwa [List.length_map]), List.getElem?_map,
    List.getElem?_eq_getElem hk]
  rfl

/-- After them it meets the places of the triangle in the order of the loop. -/
theorem WellFormed.words_upper {matrix : MbfCrossCovarianceMatrix} (h : matrix.WellFormed)
    {q : (ℕ × ℕ) × ℕ} (hq : q ∈ (upperPairs matrix.dimension).zipIdx matrix.dimension) :
    (matrix.words toBits)[q.2]? =
      some (toBits (entry matrix.dimension matrix.coMoments q.1.1 q.1.2)) := by
  obtain ⟨hle, hget⟩ := List.mem_zipIdx_iff_le_and_getElem?_sub.mp hq
  rw [words, List.getElem?_append_right (by rwa [List.length_map, h.means]), List.length_map, h.means,
    List.getElem?_map, hget]
  rfl

theorem WellFormed.entry_mem {matrix : MbfCrossCovarianceMatrix} (h : matrix.WellFormed) {i j : ℕ}
    (hi : i < matrix.dimension) (hj : j < matrix.dimension) :
    entry matrix.dimension matrix.coMoments i j ∈ matrix.coMoments := by
  have hcell : cell matrix.dimension i j < matrix.coMoments.length := h.coMoments ▸ cell_lt hi hj
  rw [entry, List.getD_eq_getElem?_getD, List.getElem?_eq_getElem hcell]
  exact List.getElem_mem hcell

/-- What was written is read back, though only one triangle was. -/
theorem WellFormed.decode_encode {matrix : MbfCrossCovarianceMatrix} (h : matrix.WellFormed)
    (hfits : matrix.Fits toBits fromBits) :
    decodeZoneBinary fromBits (matrix.encodeZoneBinary toBits) = .ok matrix := by
  have hmagic : zone6bMagic.length = 8 := by decide
  have hdimension := h.dimension_lt toBits fromBits hfits
  have hcount := hfits.count
  have hmemory := hfits.memory
  rw [h.coMoments] at hmemory
  obtain ⟨zeros, hbytes⟩ := exists_encodeZoneBinary toBits hdimension
  have hlength : 24 + (matrix.dimension + matrix.dimension * (matrix.dimension + 1) / 2) * 8 ≤
      (matrix.encodeZoneBinary toBits).length := by
    rw [hbytes]
    simp only [List.length_append, leBytes_length, length_flatMap_words, h.length_words, hmagic]
    omega
  have htake : (matrix.encodeZoneBinary toBits).take 8 = zone6bMagic := by
    rw [hbytes]
    exact List.take_left' hmagic
  have hdim : leAt (matrix.encodeZoneBinary toBits) 8 4 = matrix.dimension := by
    rw [hbytes]
    exact leAt_after _ hmagic (by omega)
  have hrows : leAt (matrix.encodeZoneBinary toBits) 16 8 = matrix.count := by
    rw [hbytes, ← List.append_assoc, ← List.append_assoc]
    exact leAt_after _ (by simp [hmagic]) (by omega)
  -- a word that is the image of a double is read as that double
  have hword {k : ℕ} {x : ℚ} (hk : (matrix.words toBits)[k]? = some (toBits x))
      (hx : x ∈ matrix.means ++ matrix.coMoments) :
      fromBits (BitVec.ofNat 64 (leAt (matrix.encodeZoneBinary toBits) (24 + 8 * k) 8)) = x := by
    rw [hbytes, ← List.append_assoc, ← List.append_assoc, ← List.append_assoc,
      leAt_word _ (by simp [hmagic]) hk, BitVec.ofNat_toNat, BitVec.setWidth_eq, hfits.doubles x hx]
  have hmeans : ((List.range matrix.dimension).map fun k =>
      fromBits (BitVec.ofNat 64 (leAt (matrix.encodeZoneBinary toBits) (24 + 8 * k) 8))) =
        matrix.means := by
    apply List.ext_getElem
    · rw [List.length_map, List.length_range, h.means]
    · intro k hk hk'
      rw [List.getElem_map, List.getElem_range]
      exact hword (words_mean toBits matrix hk') (List.mem_append_left _ (List.getElem_mem hk'))
  have hmoments := h.foldl_setBoth (fun k =>
    fromBits (BitVec.ofNat 64 (leAt (matrix.encodeZoneBinary toBits) (24 + 8 * k) 8))) fun q hq => by
      obtain ⟨hle, hlt⟩ := mem_upperPairs.mp (List.fst_mem_of_mem_zipIdx hq)
      exact hword (h.words_upper toBits hq)
        (List.mem_append_right _ (h.entry_mem (lt_of_le_of_lt hle hlt) hlt))
  rw [decodeZoneBinary, failIf_bind, if_neg (by omega), failIf_bind, if_neg (not_not.mpr htake)]
  dsimp only
  rw [hdim, hrows, failIf_bind, if_neg, if_neg, hmeans, hmoments]
  · rfl
  · omega
  · have := Nat.mod_le (24 + (matrix.dimension + matrix.dimension * (matrix.dimension + 1) / 2) * 8)
      (2 ^ 64)
    omega

end Doubles

/-- Pushing counts the rows and keeps their means and co-moments, merging two matrices is pushing
the rows of both, and what pushes and merges make is read back as it was written. -/
theorem ofRows_merge_decode {d : ℕ} {xs ys : List (List ℚ)} (hx : ∀ row ∈ xs, row.length = d)
    (hy : ∀ row ∈ ys, row.length = d) :
    (ofRows d xs).count = xs.length ∧
      (ofRows d xs).means = ((List.range d).map fun i => mean (column i) xs) ∧
      (∀ i < d, ∀ j < d,
        entry d (ofRows d xs).coMoments i j = (xs.map fun row =>
          (column i row - mean (column i) xs) * (column j row - mean (column j) xs)).sum ∧
        entry d (ofRows d xs).coMoments j i = entry d (ofRows d xs).coMoments i j) ∧
      (ofRows d xs).merge (ofRows d ys) = ofRows d (xs ++ ys) ∧
      ∀ (toBits : ℚ → BitVec 64) (fromBits : BitVec 64 → ℚ) (matrix : MbfCrossCovarianceMatrix),
        Reachable matrix → matrix.Fits toBits fromBits →
          decodeZoneBinary fromBits (matrix.encodeZoneBinary toBits) = .ok matrix := by
  have hkept := summarises_ofRows hx
  have hwhole : ∀ row ∈ xs ++ ys, row.length = d := fun row hrow =>
    (List.mem_append.mp hrow).elim (hx row) (hy row)
  refine ⟨hkept.count, hkept.means, fun i hi j hj => ⟨hkept.coMoments i hi j hj, ?_⟩, ?_, ?_⟩
  · rw [hkept.coMoments i hi j hj, hkept.coMoments j hj i hi, coMoment_comm]
  · exact (hkept.merge (summarises_ofRows hy)).unique (summarises_ofRows hwhole)
  · intro toBits fromBits matrix hreachable hfits
    exact hreachable.wellFormed.decode_encode toBits fromBits hfits

/-- `f64::to_bits` of an integer, and the number that a double stands for. -/
def integerBits (x : ℚ) : BitVec 64 := (Eav.F64.ofInt x.num).bits

def doubleValue (bits : BitVec 64) : ℚ :=
  let d : Eav.F64 := ⟨bits⟩
  (if bits.msb then -1 else 1) * (d.mantissa * 2 ^ max d.exponent 1) / 2 ^ 1075

theorem ofRows_merge_decode_three_rows :
    (ofRows 2 [[1, 2], [3, 6]]).merge (ofRows 2 [[5, 4]]) = ⟨2, 3, [3, 4], [8, 4, 4, 8]⟩ ∧
      decodeZoneBinary doubleValue
        ((ofRows 2 [[1, 2], [3, 6], [5, 4]]).encodeZoneBinary integerBits) =
          .ok ⟨2, 3, [3, 4], [8, 4, 4, 8]⟩ := by
  obtain ⟨-, -, -, hmerge, hback⟩ := @ofRows_merge_decode 2 [[1, 2], [3, 6]] [[5, 4]]
    (by simp) (by simp)
  have hrows : ofRows 2 [[1, 2], [3, 6], [5, 4]] = ⟨2, 3, [3, 4], [8, 4, 4, 8]⟩ := by
    decide +kernel
  refine ⟨hmerge.trans hrows, ?_⟩
  rw [hback integerBits doubleValue _ (reachable_ofRows 2 _), hrows]
  rw [hrows]
  exact ⟨by decide, by decide, by decide +kernel⟩

end MbfCrossCovarianceMatrix
end MetriEngine.Storage.CrossCovariance

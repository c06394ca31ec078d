import MetriEngine.Foundation.Moments
import MetriEngine.Foundation.Triangles
import MetriEngine.Storage.EnvelopeIntegrity

/-!
# Co-moments of several variables

The zone of co-moments counts rows and keeps the mean of each column and, for every two columns,
the products of their deviations. A row is pushed with its deviations from the old means and from
the new ones, and only above the diagonal; the places below are copied. Doubles are taken for
exact numbers.
-/
namespace MetriEngine.Storage.CrossCovariance
open Foundation Envelope

/-! ### The matrix -/

structure MbfCrossCovarianceMatrix where
  dimension : ℕ
  count : ℕ
  means : List ℚ
  coMoments : List ℚ
deriving DecidableEq

/-- One variable of a row. -/
def column (i : ℕ) (row : List ℚ) : ℚ := row.getD i 0

namespace MbfCrossCovarianceMatrix

def new (dimension : ℕ) : MbfCrossCovarianceMatrix where
  dimension
  count := 0
  means := List.replicate dimension 0
  coMoments := List.replicate (dimension * dimension) 0

/-- What `push_row` does at one place on or above the diagonal. -/
def addProduct (m : ℕ) (deltasOld deltasNew : List ℚ) (coMoments : List ℚ) (p : ℕ × ℕ) : List ℚ :=
  let added := coMoments.set (cell m p.1 p.2)
    (entry m coMoments p.1 p.2 + deltasOld.getD p.1 0 * deltasNew.getD p.2 0)
  if p.1 ≠ p.2 then added.set (cell m p.2 p.1) (entry m added p.1 p.2) else added

def pushRow (matrix : MbfCrossCovarianceMatrix) (row : List ℚ) : MbfCrossCovarianceMatrix :=
  if row.length ≠ matrix.dimension then matrix
  else
    let n : ℚ := (matrix.count + 1 : ℕ)
    let deltasOld := List.zipWith (fun x mu => x - mu) row matrix.means
    let means := List.zipWith (fun mu delta => mu + delta / n) matrix.means deltasOld
    let deltasNew := List.zipWith (fun x mu => x - mu) row means
    { matrix with
      count := matrix.count + 1
      means
      coMoments := (upperPairs matrix.dimension).foldl
        (addProduct matrix.dimension deltasOld deltasNew) matrix.coMoments }

def merge (matrix other : MbfCrossCovarianceMatrix) : MbfCrossCovarianceMatrix :=
  if matrix.count = 0 then other
  else if other.count = 0 ∨ matrix.dimension ≠ other.dimension then matrix
  else
    let m := matrix.dimension
    let na : ℚ := matrix.count
    let nb : ℚ := other.count
    let nab := na + nb
    let scale := na * nb / nab
    let deltas := List.zipWith (fun b a => b - a) other.means matrix.means
    { dimension := m
      count := matrix.count + other.count
      means := List.zipWith (fun mu delta => mu + delta * (nb / nab)) matrix.means deltas
      coMoments := table m fun i j =>
        entry m matrix.coMoments i j + entry m other.coMoments i j +
          deltas.getD i 0 * deltas.getD j 0 * scale }

/-! ### What it keeps of the rows -/

/-- The matrix keeps the number of the rows, the means of their columns and the co-moments. -/
structure Summarises (d : ℕ) (matrix : MbfCrossCovarianceMatrix) (rows : List (List ℚ)) : Prop where
  dimension : matrix.dimension = d
  count : matrix.count = rows.length
  means : matrix.means = (List.range d).map fun i => mean (column i) rows
  length : matrix.coMoments.length = d * d
  coMoments : ∀ i < d, ∀ j < d,
    entry d matrix.coMoments i j = coMoment (column i) (column j) rows

/-- The matrix of rows pushed one after the other. -/
def ofRows (d : ℕ) (rows : List (List ℚ)) : MbfCrossCovarianceMatrix := rows.foldl pushRow (new d)

theorem Summarises.unique {d : ℕ} {a b : MbfCrossCovarianceMatrix} {rows : List (List ℚ)}
    (ha : Summarises d a rows) (hb : Summarises d b rows) : a = b := by
  have hmoments : a.coMoments = b.coMoments := entry_ext ha.length hb.length fun i hi j hj =>
    (ha.coMoments i hi j hj).trans (hb.coMoments i hi j hj).symm
  obtain ⟨da, ca, ma, wa⟩ := a
  obtain ⟨db, cb, mb, wb⟩ := b
  obtain rfl : da = db := ha.dimension.trans hb.dimension.symm
  obtain rfl : ca = cb := ha.count.trans hb.count.symm
  obtain rfl : ma = mb := ha.means.trans hb.means.symm
  obtain rfl : wa = wb := hmoments
  rfl

theorem summarises_new (d : ℕ) : Summarises d (new d) [] where
  dimension := rfl
  count := rfl
  means := by simp [new]
  length := List.length_replicate ..
  coMoments i _ j _ := entry_replicate_zero d (d * d) i j

/-- Below the diagonal the same number is written as above it. -/
theorem addProduct_eq {m : ℕ} (deltasOld deltasNew : List ℚ) {c : List ℚ} (hc : c.length = m * m)
    {p : ℕ × ℕ} (hle : p.1 ≤ p.2) (hlt : p.2 < m) :
    addProduct m deltasOld deltasNew c p =
      setBoth m c p (entry m c p.1 p.2 + deltasOld.getD p.1 0 * deltasNew.getD p.2 0) := by
  obtain ⟨i, j⟩ := p
  dsimp only at hle hlt
  have hi : i < m := lt_of_le_of_lt hle hlt
  rw [addProduct, setBoth]
  dsimp only
  split_ifs with hne
  · rw [entry_set hc hi hlt hlt, if_pos ⟨rfl, rfl⟩]
  · rw [ne_eq, not_not] at hne
    subst hne
    rw [List.set_set]

theorem foldl_addProduct {m : ℕ} (deltasOld deltasNew : List ℚ) {c : List ℚ} {ps : List (ℕ × ℕ)}
    (hc : c.length = m * m) (hps : ∀ p ∈ ps, p.1 ≤ p.2 ∧ p.2 < m) :
    ps.foldl (addProduct m deltasOld deltasNew) c =
      updateUpper m (fun p a => a + deltasOld.getD p.1 0 * deltasNew.getD p.2 0) c ps := by
  induction ps generalizing c with
  | nil => rfl
  | cons p ps ih =>
    obtain ⟨hle, hlt⟩ := hps p List.mem_cons_self
    rw [List.foldl_cons, addProduct_eq deltasOld deltasNew hc hle hlt]
    exact ih ((length_setBoth ..).trans hc) fun q hq => hps q (List.mem_cons_of_mem _ hq)

/-- Entry by entry of two lists that are made along the same indices. -/
theorem zipWith_map_range {α β γ : Type} (h : α → β → γ) (f : ℕ → α) (g : ℕ → β) (d : ℕ) :
    List.zipWith h ((List.range d).map f) ((List.range d).map g) =
      (List.range d).map fun i => h (f i) (g i) := by
  rw [List.zipWith_map, List.zipWith_self]

/-- What the entries of a row deviate from other numbers. -/
theorem deviations {d : ℕ} {row : List ℚ} (h : row.length = d) (f : ℕ → ℚ) :
    List.zipWith (fun x mu => x - mu) row ((List.range d).map f) =
      (List.range d).map fun i => column i row - f i := by
  have hrow : row = (List.range d).map fun i => column i row := by
    apply List.ext_getElem
    · simp [h]
    · intro i hi hi'
      simp [column, List.getD_eq_getElem?_getD, List.getElem?_eq_getElem hi]
  conv_lhs => rw [hrow]
  exact zipWith_map_range ..

theorem getD_map_range (f : ℕ → ℚ) {d i : ℕ} (h : i < d) : ((List.range d).map f).getD i 0 = f i := by
  simp [List.getD_eq_getElem?_getD, h]

/-- One row more: above the diagonal the product of the deviations is added, below it is copied. -/
theorem Summarises.pushRow {d : ℕ} {matrix : MbfCrossCovarianceMatrix} {rows : List (List ℚ)}
    (h : Summarises d matrix rows) {row : List ℚ} (hrow : row.length = d) :
    Summarises d (matrix.pushRow row) (rows ++ [row]) := by
  obtain ⟨dim, count, means, coMoments⟩ := matrix
  obtain ⟨hdim, hcount, hmeans, hlength, hmoments⟩ := h
  dsimp only at hdim hcount hmeans hlength hmoments
  subst hdim hcount hmeans
  have hmeans : List.zipWith (fun mu delta => mu + delta / ((rows.length + 1 : ℕ) : ℚ))
      ((List.range dim).map fun i => mean (column i) rows)
      ((List.range dim).map fun i => column i row - mean (column i) rows) =
      (List.range dim).map fun i => mean (column i) (rows ++ [row]) := by
    rw [zipWith_map_range]
    refine List.map_congr_left fun i _ => ?_
    rw [mean_concat, Nat.cast_add_one]
  have hentries {i j : ℕ} (hij : i ≤ j) (hj : j < dim) :=
    entry_updateUpper_upperPairs (fun p a => a +
      ((List.range dim).map fun i => column i row - mean (column i) rows).getD p.1 0 *
      ((List.range dim).map fun i => column i row - mean (column i) (rows ++ [row])).getD p.2 0)
      hlength hij hj
  rw [MbfCrossCovarianceMatrix.pushRow, if_neg (not_not.mpr hrow)]
  dsimp only
  rw [deviations hrow, hmeans, deviations hrow, foldl_addProduct _ _ hlength fun _ hp =>
    mem_upperPairs.mp hp]
  refine ⟨rfl, ?_, rfl, ?_, ?_⟩
  · rw [List.length_append, List.length_singleton]
  · dsimp only
    rw [length_updateUpper]
    exact hlength
  · intro i hi j hj
    cases le_total i j with
    | inl hij =>
      refine (hentries hij hj).1.trans ?_
      dsimp only
      rw [hmoments i hi j hj, getD_map_range _ hi, getD_map_range _ hj, coMoment_concat]
    | inr hji =>
      refine (hentries hji hi).2.trans ?_
      dsimp only
      rw [hmoments j hj i hi, getD_map_range _ hi, getD_map_range _ hj, coMoment_comm (column i),
        coMoment_concat]

/-- Row after row, starting from the empty matrix. -/
theorem summarises_ofRows {d : ℕ} {rows : List (List ℚ)} (h : ∀ row ∈ rows, row.length = d) :
    Summarises d (ofRows d rows) rows := by
  induction rows using List.reverseRecOn with
  | nil => exact summarises_new d
  | append_singleton rows row ih =>
    rw [ofRows, List.foldl_concat]
    exact (ih fun r hr => h r (List.mem_append_left _ hr)).pushRow
      (h row (List.mem_append_right _ List.mem_cons_self))

/-- The rows of two matrices together. -/
theorem Summarises.merge {d : ℕ} {a b : MbfCrossCovarianceMatrix} {xs ys : List (List ℚ)}
    (ha : Summarises d a xs) (hb : Summarises d b ys) : Summarises d (a.merge b) (xs ++ ys) := by
  rw [MbfCrossCovarianceMatrix.merge]
  by_cases hna : a.count = 0
  · obtain rfl : xs = [] := List.length_eq_zero_iff.mp (ha.count.symm.trans hna)
    rw [if_pos hna]
    exact hb
  by_cases hnb : b.count = 0
  · obtain rfl : ys = [] := List.length_eq_zero_iff.mp (hb.count.symm.trans hnb)
    rw [if_neg hna, if_pos (Or.inl hnb), List.append_nil]
    exact ha
  have hx : xs ≠ [] := fun h => hna (ha.count.trans (List.length_eq_zero_iff.mpr h))
  have hdims : ¬(b.count = 0 ∨ a.dimension ≠ b.dimension) := by
    rw [ha.dimension, hb.dimension]
    simp [hnb]
  rw [if_neg hna, if_neg hdims]
  obtain ⟨dim, na, ma, ca⟩ := a
  obtain ⟨dim', nb, mb, cb⟩ := b
  obtain ⟨hdim, hcount, hmeans, hlength, hmoments⟩ := ha
  obtain ⟨hdim', hcount', hmeans', hlength', hmoments'⟩ := hb
  dsimp only at hdim hcount hmeans hlength hmoments hdim' hcount' hmeans' hlength' hmoments'
  subst hdim hdim' hcount hcount' hmeans hmeans'
  dsimp only
  rw [zipWith_map_range, zipWith_map_range]
  refine ⟨rfl, (List.length_append ..).symm, ?_, length_table .., ?_⟩
  · refine List.map_congr_left fun i _ => ?_
    rw [mean_append _ hx]
  · intro i hi j hj
    refine (entry_table _ hi hj).trans ?_
    rw [hmoments i hi j hj, hmoments' i hi j hj, getD_map_range _ hi, getD_map_range _ hj,
      coMoment_append _ _ hx]

/-! ### Matrices of one dimension -/

/-- A matrix that has rows is of dimension `d`, and its numbers fill their places. -/
def OfDimension (d : ℕ) (matrix : MbfCrossCovarianceMatrix) : Prop :=
  matrix.count ≠ 0 →
    matrix.dimension = d ∧ matrix.means.length = d ∧ matrix.coMoments.length = d * d

theorem ofDimension_new (d m : ℕ) : OfDimension d (new m) := fun h => absurd rfl h

theorem Summarises.ofDimension {d : ℕ} {matrix : MbfCrossCovarianceMatrix} {rows : List (List ℚ)}
    (h : Summarises d matrix rows) : OfDimension d matrix :=
  fun _ => ⟨h.dimension, by rw [h.means, List.length_map, List.length_range], h.length⟩

/-- A matrix that has rows, entry by entry. -/
theorem OfDimension.eq_table {d : ℕ} {matrix : MbfCrossCovarianceMatrix} (h : OfDimension d matrix)
    (hcount : matrix.count ≠ 0) :
    matrix.means = (List.range d).map (matrix.means.getD · 0) ∧
      matrix.coMoments = table d (entry d matrix.coMoments) := by
  obtain ⟨-, hmeans, hmoments⟩ := h hcount
  constructor
  · apply List.ext_getElem
    · simp [hmeans]
    · intro i hi hi'
      simp [List.getD_eq_getElem?_getD, List.getElem?_eq_getElem hi]
  · apply entry_ext hmoments (length_table ..)
    intro i hi j hj
    exact (entry_table _ hi hj).symm

/-- Two matrices of one dimension that both have rows. -/
theorem merge_of_dimension {d : ℕ} {a b : MbfCrossCovarianceMatrix} (ha : OfDimension d a)
    (hb : OfDimension d b) (hna : a.count ≠ 0) (hnb : b.count ≠ 0) :
    a.merge b =
      { dimension := d
        count := a.count + b.count
        means := (List.range d).map fun i =>
          combinedMean a.count b.count (a.means.getD i 0) (b.means.getD i 0)
        coMoments := table d fun i j => combinedCoMoment a.count b.count (a.means.getD i 0)
          (b.means.getD i 0) (a.means.getD j 0) (b.means.getD j 0) (entry d a.coMoments i j)
          (entry d b.coMoments i j) } := by
  obtain ⟨hdim, -, -⟩ := ha hna
  obtain ⟨hdim', -, -⟩ := hb hnb
  have hdims : ¬(b.count = 0 ∨ a.dimension ≠ b.dimension) := by simp [hnb, hdim, hdim']
  have hmeans := (ha.eq_table hna).1
  have hdeltas : List.zipWith (fun y x => y - x) b.means a.means =
      (List.range d).map fun i => b.means.getD i 0 - a.means.getD i 0 := by
    conv_lhs => rw [(hb.eq_table hnb).1, hmeans]
    exact zipWith_map_range ..
  have hcombined (r : ℚ) (f : ℕ → ℚ) :
      List.zipWith (fun mu delta => mu + delta * r) a.means ((List.range d).map f) =
        (List.range d).map fun i => a.means.getD i 0 + f i * r := by
    conv_lhs => rw [hmeans]
    exact zipWith_map_range ..
  rw [MbfCrossCovarianceMatrix.merge, if_neg hna, if_neg hdims]
  dsimp only
  rw [hdeltas, hcombined, hdim]
  congr 1
  apply table_congr
  intro i hi j hj
  rw [getD_map_range _ hi, getD_map_range _ hj, combinedCoMoment]

theorem count_merge_ne_zero {a : MbfCrossCovarianceMatrix} (b : MbfCrossCovarianceMatrix)
    (ha : a.count ≠ 0) : (a.merge b).count ≠ 0 := by
  rw [MbfCrossCovarianceMatrix.merge, if_neg ha]
  split_ifs
  · exact ha
  · exact Nat.ne_of_gt (Nat.add_pos_left (Nat.pos_of_ne_zero ha) _)

theorem merge_of_left_empty {a : MbfCrossCovarianceMatrix} (b : MbfCrossCovarianceMatrix)
    (ha : a.count = 0) : a.merge b = b := if_pos ha

theorem merge_of_right_empty {a b : MbfCrossCovarianceMatrix} (ha : a.count ≠ 0)
    (hb : b.count = 0) : a.merge b = a := by
  rw [MbfCrossCovarianceMatrix.merge, if_neg ha, if_pos (Or.inl hb)]

theorem OfDimension.merge {d : ℕ} {a b : MbfCrossCovarianceMatrix} (ha : OfDimension d a)
    (hb : OfDimension d b) : OfDimension d (a.merge b) := by
  by_cases hna : a.count = 0
  · rwa [merge_of_left_empty b hna]
  by_cases hnb : b.count = 0
  · rwa [merge_of_right_empty hna hnb]
  rw [merge_of_dimension ha hb hna hnb]
  exact fun _ => ⟨rfl, by simp, length_table ..⟩

/-- Of matrices of one dimension it does not matter which two are merged first. -/
theorem merge_assoc {d : ℕ} {a b c : MbfCrossCovarianceMatrix} (ha : OfDimension d a)
    (hb : OfDimension d b) (hc : OfDimension d c) : (a.merge b).merge c = a.merge (b.merge c) := by
  by_cases hna : a.count = 0
  · rw [merge_of_left_empty b hna, merge_of_left_empty _ hna]
  by_cases hnb : b.count = 0
  · rw [merge_of_right_empty hna hnb, merge_of_left_empty c hnb]
  have hnab := count_merge_ne_zero b hna
  have hnbc := count_merge_ne_zero c hnb
  by_cases hnc : c.count = 0
  · rw [merge_of_right_empty hnab hnc, merge_of_right_empty hnb hnc]
  rw [merge_of_dimension (ha.merge hb) hc hnab hnc, merge_of_dimension ha (hb.merge hc) hna hnbc,
    merge_of_dimension ha hb hna hnb, merge_of_dimension hb hc hnb hnc]
  dsimp only
  congr 1
  · exact Nat.add_assoc _ _ _
  · apply List.map_congr_left
    intro i hi
    rw [List.mem_range] at hi
    rw [getD_map_range _ hi, getD_map_range _ hi]
    exact combinedMean_assoc hna hnb _ _ _
  · apply table_congr
    intro i hi j hj
    rw [getD_map_range _ hi, getD_map_range _ hi, getD_map_range _ hj, getD_map_range _ hj,
      entry_table _ hi hj, entry_table _ hi hj]
    exact combinedCoMoment_assoc hna hnb _ _ _ _ _ _ _ _ _

/-! ### Runs -/

/-- Rows of any length are pushed, and any two matrices are merged. -/
inductive Reachable : MbfCrossCovarianceMatrix → Prop
  | new (dimension : ℕ) : Reachable (new dimension)
  | pushRow {matrix : MbfCrossCovarianceMatrix} (row : List ℚ) (h : Reachable matrix) :
      Reachable (matrix.pushRow row)
  | merge {matrix other : MbfCrossCovarianceMatrix} (h : Reachable matrix) (h' : Reachable other) :
      Reachable (matrix.merge other)

theorem reachable_ofRows (d : ℕ) (rows : List (List ℚ)) : Reachable (ofRows d rows) := by
  induction rows using List.reverseRecOn with
  | nil => exact .new d
  | append_singleton rows row ih =>
    rw [ofRows, List.foldl_concat]
    exact ih.pushRow row

/-- Whatever was pushed and merged, the matrix is the one of some rows. -/
theorem Reachable.summarises {matrix : MbfCrossCovarianceMatrix} (h : Reachable matrix) :
    ∃ rows, Summarises matrix.dimension matrix rows := by
  induction h with
  | new dimension => exact ⟨[], summarises_new dimension⟩
  | @pushRow matrix row _ ih =>
    obtain ⟨rows, hrows⟩ := ih
    by_cases hrow : row.length = matrix.dimension
    · have hpush := hrows.pushRow hrow
      have hdimension := hpush.dimension
      exact ⟨rows ++ [row], hdimension.symm ▸ hpush⟩
    · rw [MbfCrossCovarianceMatrix.pushRow, if_pos hrow]
      exact ⟨rows, hrows⟩
  | @merge matrix other _ _ ih ih' =>
    obtain ⟨xs, hxs⟩ := ih
    obtain ⟨ys, hys⟩ := ih'
    by_cases hdimension : matrix.dimension = other.dimension
    · have hmerge := hxs.merge (hdimension ▸ hys)
      have hsame := hmerge.dimension
      exact ⟨xs ++ ys, hsame.symm ▸ hmerge⟩
    · rw [MbfCrossCovarianceMatrix.merge]
      by_cases hcount : matrix.count = 0
      · rw [if_pos hcount]
        exact ⟨ys, hys⟩
      · rw [if_neg hcount, if_pos (Or.inr hdimension)]
        exact ⟨xs, hxs⟩

end MbfCrossCovarianceMatrix
end MetriEngine.Storage.CrossCovariance

import MetriEngine.Foundation.Multimap
import MetriEngine.Storage.EulerTree

/-!
# Edges in contiguous arrays

An edge is kept under its source and under its target. To seal the zone lays the edges of each
node in one array, sorted, once for the sources and once for the targets; the offsets are words
of 32 bits. The two sides are filled each for itself and hold the same edges, the one the other
way round.
-/
namespace MetriEngine.Storage.CsrGraph
open Foundation

/-- `(row_id, attr_id)`, and in the arrays `(neighbour, attr_id)`. -/
abbrev RowAttr := ℕ ×ₗ ℕ

/-- `fwd_offsets`, `fwd_targets` and `fwd_attr_ids`, or `rev_offsets`, `rev_sources` and
`rev_attr_ids`. -/
structure ContiguousArrays where
  offsets : List ℕ
  neighbours : List ℕ
  attrIds : List ℕ
deriving DecidableEq

/-- The zone with its edges. -/
structure ReferenceZone extends CsrGraphZone where
  forwardCsr : OrdMap RowAttr (List ℕ)
  reverseVaetCsr : OrdMap RowAttr (List ℕ)
  fwd : ContiguousArrays
  rev : ContiguousArrays

def ContiguousArrays.empty : ContiguousArrays := ⟨[], [], []⟩

namespace ReferenceZone

def new : ReferenceZone := ⟨⟨∅⟩, ∅, ∅, .empty, .empty⟩

def addReferenceEdge (z : ReferenceZone) (sourceRow attrId targetRow : ℕ) : ReferenceZone :=
  { z with
    forwardCsr := z.forwardCsr.pushAt (toLex (sourceRow, attrId), targetRow)
    reverseVaetCsr := z.reverseVaetCsr.pushAt (toLex (targetRow, attrId), sourceRow) }

/-! ### Sealing -/

/-- The greatest row among the keys, or 0. -/
def maxRow (csr : OrdMap RowAttr (List ℕ)) : ℕ :=
  ((csr.entries.map fun e => (ofLex e.1).1).max?).getD 0

def nodeCount (z : ReferenceZone) : ℕ := max (maxRow z.forwardCsr) (maxRow z.reverseVaetCsr) + 1

/-- An edge under its row, with its attribute behind the neighbour. -/
def arrayCell (cell : RowAttr × ℕ) : ℕ × RowAttr :=
  ((ofLex cell.1).1, toLex (cell.2, (ofLex cell.1).2))

/-- `fwd_adj` and `rev_adj`; a row that is not below `n` is left out. -/
def adjacency (n : ℕ) (csr : OrdMap RowAttr (List ℕ)) : List (List RowAttr) :=
  fillRows n (csr.cells.map arrayCell)

/-- `sort_unstable` of pairs. -/
def sortPairs (edges : List RowAttr) : List RowAttr := edges.mergeSort fun a b => decide (a ≤ b)

def sealSide (n : ℕ) (csr : OrdMap RowAttr (List ℕ)) : ContiguousArrays :=
  let packed := PackedRows.pack (2 ^ 32) ((adjacency n csr).map sortPairs)
  { offsets := packed.offsets
    neighbours := packed.cells.map fun edge => (ofLex edge).1
    attrIds := packed.cells.map fun edge => (ofLex edge).2 }

def sealContiguousCsrArrays (z : ReferenceZone) : ReferenceZone :=
  { z with
    fwd := sealSide z.nodeCount z.forwardCsr
    rev := sealSide z.nodeCount z.reverseVaetCsr }

def reverseReferrers (z : ReferenceZone) (targetRow attrId : ℕ) : List ℕ :=
  z.reverseVaetCsr.group (toLex (targetRow, attrId))

end ReferenceZone

/-! ### What the arrays are for -/

/-- The edges of a node, with their attributes. -/
def ContiguousArrays.slice (s : ContiguousArrays) (u : ℕ) : List RowAttr :=
  PackedRows.slice s.offsets (List.zipWith (fun t a => toLex (t, a)) s.neighbours s.attrIds) u

/-- The arrays hold these edges, each with the node it belongs to. -/
structure ContiguousArrays.Holds (s : ContiguousArrays) (edges : List (ℕ × RowAttr)) : Prop where
  sorted_offsets : s.offsets.Pairwise (· ≤ ·)
  start : s.offsets.head? = some 0
  stop : s.offsets.getLast? = some edges.length
  sorted_slice : ∀ u, (s.slice u).Pairwise (· ≤ ·)
  slice_perm : ∀ u, (s.slice u).Perm ((edges.filter fun edge => edge.1 = u).map Prod.snd)

/-- Each edge stands on both sides equally often. -/
def ReferenceZone.Transposed (z : ReferenceZone) : Prop :=
  ∀ u a v, (z.fwd.slice u).count (toLex (v, a)) = (z.rev.slice v).count (toLex (u, a))

/-- An edge whose rows are words of 32 bits and whose attribute is one of 16. -/
structure Edge where
  sourceRow : ℕ
  attrId : ℕ
  targetRow : ℕ
  sourceRow_lt : sourceRow < 2 ^ 32
  attrId_lt : attrId < 2 ^ 16
  targetRow_lt : targetRow < 2 ^ 32

namespace Edge

def forward (e : Edge) : ℕ × RowAttr := (e.sourceRow, toLex (e.targetRow, e.attrId))
def backward (e : Edge) : ℕ × RowAttr := (e.targetRow, toLex (e.sourceRow, e.attrId))

/-- As the edge is pushed on either side. -/
def forwardCell (e : Edge) : RowAttr × ℕ := (toLex (e.sourceRow, e.attrId), e.targetRow)
def backwardCell (e : Edge) : RowAttr × ℕ := (toLex (e.targetRow, e.attrId), e.sourceRow)

end Edge

namespace ReferenceZone

def addEdges (z : ReferenceZone) (edges : List Edge) : ReferenceZone :=
  edges.foldl (fun z e => z.addReferenceEdge e.sourceRow e.attrId e.targetRow) z

/-! ### One side -/

theorem addEdges_eq (z : ReferenceZone) (edges : List Edge) : z.addEdges edges =
    { z with
      forwardCsr := z.forwardCsr.pushAll (edges.map Edge.forwardCell)
      reverseVaetCsr := z.reverseVaetCsr.pushAll (edges.map Edge.backwardCell) } := by
  induction edges generalizing z with
  | nil => rfl
  | cons e edges ih =>
    change (z.addReferenceEdge e.sourceRow e.attrId e.targetRow).addEdges edges = _
    rw [ih]
    rfl

theorem max?_getD_le_iff {l : List ℕ} {b : ℕ} : l.max?.getD 0 ≤ b ↔ ∀ a ∈ l, a ≤ b := by
  cases hmax : l.max? with
  | none =>
    rw [List.max?_eq_none_iff] at hmax
    subst hmax
    simp
  | some m => exact List.max?_le_iff hmax

/-- Where every key has a value, the rows are those of the values. -/
theorem maxRow_le_iff {csr : OrdMap RowAttr (List ℕ)} (h : csr.NoneEmpty) {b : ℕ} :
    maxRow csr ≤ b ↔ ∀ cell ∈ csr.cells, (arrayCell cell).1 ≤ b := by
  rw [maxRow, max?_getD_le_iff]
  constructor
  · intro hle cell hcell
    obtain ⟨e, he, hmem⟩ := List.mem_flatMap.mp hcell
    obtain ⟨t, _, rfl⟩ := List.mem_map.mp hmem
    exact hle _ (List.mem_map.mpr ⟨e, he, rfl⟩)
  · intro hle row hrow
    obtain ⟨e, he, rfl⟩ := List.mem_map.mp hrow
    have hkept : csr.lookup e.1 = some e.2 := OrdMap.lookup_eq_some.mpr he
    cases hts : e.2 with
    | nil =>
      rw [hts] at hkept
      exact absurd hkept (h e.1)
    | cons t ts =>
      have hmem : (e.1, t) ∈ csr.cells := by
        rw [OrdMap.mem_cells, OrdMap.group, hkept, hts]
        exact List.mem_cons_self
      exact hle _ hmem

theorem maxRow_congr {csr csr' : OrdMap RowAttr (List ℕ)} (h : csr.NoneEmpty) (h' : csr'.NoneEmpty)
    (hperm : csr.cells.Perm csr'.cells) : maxRow csr = maxRow csr' := by
  apply le_antisymm
  · rw [maxRow_le_iff h]
    intro cell hcell
    exact (maxRow_le_iff h').mp le_rfl cell (hperm.mem_iff.mp hcell)
  · rw [maxRow_le_iff h']
    intro cell hcell
    exact (maxRow_le_iff h).mp le_rfl cell (hperm.mem_iff.mpr hcell)

/-! ### Sorted rows -/

theorem sortPairs_perm (edges : List RowAttr) : (sortPairs edges).Perm edges :=
  List.mergeSort_perm _ _

theorem sorted_sortPairs (edges : List RowAttr) : (sortPairs edges).Pairwise (· ≤ ·) := by
  have htrans : ∀ a b c : RowAttr, decide (a ≤ b) = true → decide (b ≤ c) = true →
      decide (a ≤ c) = true := by
    intro a b c hab hbc
    exact decide_eq_true ((of_decide_eq_true hab).trans (of_decide_eq_true hbc))
  have htotal : ∀ a b : RowAttr, (decide (a ≤ b) || decide (b ≤ a)) = true := by
    intro a b
    simpa using le_total a b
  have hsorted := List.pairwise_mergeSort htrans htotal edges
  exact hsorted.imp fun h => of_decide_eq_true h

/-- The order in which the edges came does not matter. -/
theorem sortPairs_congr {edges edges' : List RowAttr} (h : edges.Perm edges') :
    sortPairs edges = sortPairs edges' :=
  (((sortPairs_perm edges).trans h).trans (sortPairs_perm edges').symm).eq_of_pairwise
    (fun _ _ _ _ hab hba => le_antisymm hab hba) (sorted_sortPairs edges) (sorted_sortPairs edges')

theorem length_flatten_sorted (rows : List (List RowAttr)) :
    (rows.map sortPairs).flatten.length = rows.flatten.length := by
  induction rows with
  | nil => rfl
  | cons row rows ih =>
    rw [List.map_cons, List.flatten_cons, List.flatten_cons, List.length_append,
      List.length_append, ih, (sortPairs_perm row).length_eq]

section Side
variable {n : ℕ} {csr : OrdMap RowAttr (List ℕ)} {edges : List (ℕ × RowAttr)}

theorem length_rows (hperm : (csr.cells.map arrayCell).Perm edges) (hrows : ∀ e ∈ edges, e.1 < n) :
    ((adjacency n csr).map sortPairs).flatten.length = edges.length := by
  rw [length_flatten_sorted, adjacency, length_flatten_fillRows]
  · exact hperm.length_eq
  · intro cell hcell
    exact hrows cell (hperm.mem_iff.mp hcell)

theorem slice_sealSide (u : ℕ) : (sealSide n csr).slice u =
    PackedRows.slice (PackedRows.pack (2 ^ 32) ((adjacency n csr).map sortPairs)).offsets
      (PackedRows.pack (2 ^ 32) ((adjacency n csr).map sortPairs)).cells u := by
  have hcells : ∀ cells : List RowAttr,
      List.zipWith (fun t a => (toLex (t, a) : RowAttr)) (cells.map fun edge => (ofLex edge).1)
        (cells.map fun edge => (ofLex edge).2) = cells := by
    intro cells
    induction cells with
    | nil => rfl
    | cons cell cells ih =>
      rw [List.map_cons, List.map_cons, List.zipWith_cons_cons, ih]
      rfl
  rw [ContiguousArrays.slice, sealSide]
  dsimp only
  rw [hcells]

theorem slice_eq (hperm : (csr.cells.map arrayCell).Perm edges) (hrows : ∀ e ∈ edges, e.1 < n)
    (hlt : edges.length < 2 ^ 32) (u : ℕ) : (sealSide n csr).slice u =
      sortPairs ((edges.filter fun edge => edge.1 = u).map Prod.snd) := by
  have hlength := length_rows hperm hrows
  rw [slice_sealSide, PackedRows.slice_pack (by rwa [hlength]), List.getElem?_map, adjacency]
  by_cases hu : u < n
  · rw [getElem?_fillRows hu]
    exact sortPairs_congr ((hperm.filter _).map _)
  · have hnone : (fillRows n (csr.cells.map arrayCell))[u]? = none :=
      List.getElem?_eq_none (by rw [length_fillRows]; omega)
    have hnil : (edges.filter fun edge => edge.1 = u) = [] := by
      rw [List.filter_eq_nil_iff]
      intro e he heq
      have hrow := hrows e he
      rw [of_decide_eq_true heq] at hrow
      exact hu hrow
    rw [hnone, hnil]
    simp [sortPairs]

/-- A side with all its rows in range holds its edges while 32 bits count them. -/
theorem sealSide_holds (hperm : (csr.cells.map arrayCell).Perm edges)
    (hrows : ∀ e ∈ edges, e.1 < n) (hlt : edges.length < 2 ^ 32) : (sealSide n csr).Holds edges where
  sorted_offsets := PackedRows.sorted_offsets (by rwa [length_rows hperm hrows])
  start := PackedRows.head?_offsets _ _
  stop := by
    have hlast := PackedRows.getLast?_offsets (2 ^ 32) ((adjacency n csr).map sortPairs)
    rwa [length_rows hperm hrows, Nat.mod_eq_of_lt hlt] at hlast
  sorted_slice := by
    intro u
    rw [slice_eq hperm hrows hlt]
    exact sorted_sortPairs _
  slice_perm := by
    intro u
    rw [slice_eq hperm hrows hlt]
    exact sortPairs_perm _

/-- The last offset tells the number of edges only while 32 bits hold it. -/
theorem length_lt_of_holds (hperm : (csr.cells.map arrayCell).Perm edges)
    (hrows : ∀ e ∈ edges, e.1 < n) (h : (sealSide n csr).Holds edges) : edges.length < 2 ^ 32 := by
  have hlast := PackedRows.getLast?_offsets (2 ^ 32) ((adjacency n csr).map sortPairs)
  rw [length_rows hperm hrows] at hlast
  have hstop := h.stop
  have heq : edges.length % 2 ^ 32 = edges.length := Option.some.inj (hlast.symm.trans hstop)
  rw [← heq]
  exact Nat.mod_lt _ (Nat.two_pow_pos 32)

/-- The arrays do not depend on the order in which the edges came. -/
theorem sealSide_congr {csr' : OrdMap RowAttr (List ℕ)} (h : csr.cells.Perm csr'.cells) :
    sealSide n csr = sealSide n csr' := by
  have hrows : (adjacency n csr).map sortPairs = (adjacency n csr').map sortPairs := by
    apply List.ext_getElem?
    intro u
    rw [List.getElem?_map, List.getElem?_map, adjacency, adjacency]
    by_cases hu : u < n
    · rw [getElem?_fillRows hu, getElem?_fillRows hu]
      exact congrArg some (sortPairs_congr (((h.map arrayCell).filter _).map _))
    · rw [List.getElem?_eq_none (by rw [length_fillRows]; omega),
        List.getElem?_eq_none (by rw [length_fillRows]; omega)]
  rw [sealSide, sealSide, hrows]

end Side

/-! ### Both sides -/

/-- The zone after these edges were added to a new one. -/
def ofEdges (euler : OrdMap ℕ EulerTreeNode) (edges : List Edge) : ReferenceZone :=
  ({ new with eulerNodes := euler }.addEdges edges).sealContiguousCsrArrays

section Both
variable (euler : OrdMap ℕ EulerTreeNode) (edges : List Edge)

theorem ofEdges_forwardCsr : (ofEdges euler edges).forwardCsr =
    (∅ : OrdMap RowAttr (List ℕ)).pushAll (edges.map Edge.forwardCell) := by
  rw [ofEdges, addEdges_eq]
  rfl

theorem ofEdges_reverseVaetCsr : (ofEdges euler edges).reverseVaetCsr =
    (∅ : OrdMap RowAttr (List ℕ)).pushAll (edges.map Edge.backwardCell) := by
  rw [ofEdges, addEdges_eq]
  rfl

@[simp] theorem ofEdges_eulerNodes : (ofEdges euler edges).eulerNodes = euler := by
  rw [ofEdges, addEdges_eq]
  rfl

theorem ofEdges_fwd : (ofEdges euler edges).fwd =
    sealSide (ofEdges euler edges).nodeCount (ofEdges euler edges).forwardCsr := rfl

theorem ofEdges_rev : (ofEdges euler edges).rev =
    sealSide (ofEdges euler edges).nodeCount (ofEdges euler edges).reverseVaetCsr := rfl

theorem forward_noneEmpty : (ofEdges euler edges).forwardCsr.NoneEmpty := by
  rw [ofEdges_forwardCsr]
  exact OrdMap.noneEmpty_empty.pushAll _

theorem reverse_noneEmpty : (ofEdges euler edges).reverseVaetCsr.NoneEmpty := by
  rw [ofEdges_reverseVaetCsr]
  exact OrdMap.noneEmpty_empty.pushAll _

theorem forward_cells_perm :
    (ofEdges euler edges).forwardCsr.cells.Perm (edges.map Edge.forwardCell) := by
  rw [ofEdges_forwardCsr]
  exact OrdMap.cells_pushAll _

theorem reverse_cells_perm :
    (ofEdges euler edges).reverseVaetCsr.cells.Perm (edges.map Edge.backwardCell) := by
  rw [ofEdges_reverseVaetCsr]
  exact OrdMap.cells_pushAll _

theorem forward_perm : ((ofEdges euler edges).forwardCsr.cells.map arrayCell).Perm
    (edges.map Edge.forward) := by
  have hperm := (forward_cells_perm euler edges).map arrayCell
  rwa [List.map_map] at hperm

theorem reverse_perm : ((ofEdges euler edges).reverseVaetCsr.cells.map arrayCell).Perm
    (edges.map Edge.backward) := by
  have hperm := (reverse_cells_perm euler edges).map arrayCell
  rwa [List.map_map] at hperm

theorem forward_rows : ∀ e ∈ edges.map Edge.forward, e.1 < (ofEdges euler edges).nodeCount := by
  intro e he
  obtain ⟨cell, hcell, rfl⟩ := List.mem_map.mp ((forward_perm euler edges).mem_iff.mpr he)
  have hle := (maxRow_le_iff (forward_noneEmpty euler edges)).mp le_rfl cell hcell
  exact Nat.lt_succ_of_le (hle.trans (le_max_left _ _))

theorem reverse_rows : ∀ e ∈ edges.map Edge.backward, e.1 < (ofEdges euler edges).nodeCount := by
  intro e he
  obtain ⟨cell, hcell, rfl⟩ := List.mem_map.mp ((reverse_perm euler edges).mem_iff.mpr he)
  have hle := (maxRow_le_iff (reverse_noneEmpty euler edges)).mp le_rfl cell hcell
  exact Nat.lt_succ_of_le (hle.trans (le_max_right _ _))

/-- The side of the sources holds the edges exactly while 32 bits count them. -/
theorem fwd_holds_iff :
    (ofEdges euler edges).fwd.Holds (edges.map Edge.forward) ↔ edges.length < 2 ^ 32 := by
  rw [ofEdges_fwd]
  constructor
  · intro h
    have hlt := length_lt_of_holds (forward_perm euler edges) (forward_rows euler edges) h
    rwa [List.length_map] at hlt
  · intro h
    exact sealSide_holds (forward_perm euler edges) (forward_rows euler edges)
      (by rwa [List.length_map])

theorem rev_holds (h : edges.length < 2 ^ 32) :
    (ofEdges euler edges).rev.Holds (edges.map Edge.backward) := by
  rw [ofEdges_rev]
  exact sealSide_holds (reverse_perm euler edges) (reverse_rows euler edges)
    (by rwa [List.length_map])

theorem count_forward (u a v : ℕ) :
    (((edges.map Edge.forward).filter fun e => e.1 = u).map Prod.snd).count (toLex (v, a)) =
      (((edges.map Edge.backward).filter fun e => e.1 = v).map Prod.snd).count (toLex (u, a)) := by
  induction edges with
  | nil => rfl
  | cons e edges ih =>
    by_cases hu : e.sourceRow = u
    · by_cases hv : e.targetRow = v
      · simp [Edge.forward, Edge.backward, hu, hv, List.count_cons, ih]
      · simp [Edge.forward, Edge.backward, hu, hv, ih]
    · by_cases hv : e.targetRow = v
      · simp [Edge.forward, Edge.backward, hu, hv, ih]
      · simp [Edge.forward, Edge.backward, hu, hv, ih]

/-- The two sides are transposed. -/
theorem ofEdges_transposed (h : edges.length < 2 ^ 32) : (ofEdges euler edges).Transposed := by
  intro u a v
  rw [(((fwd_holds_iff euler edges).mpr h).slice_perm u).count_eq,
    ((rev_holds euler edges h).slice_perm v).count_eq]
  exact count_forward edges u a v

end Both
end ReferenceZone
end MetriEngine.Storage.CsrGraph

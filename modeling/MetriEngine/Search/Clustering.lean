import MetriEngine.Search.HybridIndex

/-!
# Density clusters

Points with enough neighbours are cores. A cluster is a set of cores that are chained to each other
by neighbours, with the other points next to one of them. The scan of `cluster_spatial_dbscan` finds
exactly these clusters, whatever reflexive and symmetric relation stands for the distance test.
-/
namespace MetriEngine.Search
open Foundation Eav

/-! ### The scan -/

section Scan
variable (near : ℕ → ℕ → Bool) (n minPoints : ℕ)

def neighborsOf (i : ℕ) : List ℕ := (List.range n).filter fun j => near i j

/-- The state of the loop that grows one cluster. -/
structure Expansion where
  neighbors : List ℕ
  cursor : ℕ
  visited : List ℕ
  assigned : List ℕ
  cluster : List ℕ

/-- The points that are not in the list yet, behind it. -/
def pushNew (neighbors new : List ℕ) : List ℕ :=
  new.foldl (fun ns k => if k ∈ ns then ns else ns ++ [k]) neighbors

def visitNeighbor (nb : ℕ) (e : Expansion) : Expansion :=
  let nbNeighbors := neighborsOf near n nb
  { neighbors :=
      if nb ∉ e.visited ∧ minPoints ≤ nbNeighbors.length then pushNew e.neighbors nbNeighbors
      else e.neighbors
    cursor := e.cursor + 1
    visited := if nb ∈ e.visited then e.visited else nb :: e.visited
    assigned := if nb ∈ e.assigned then e.assigned else nb :: e.assigned
    cluster := if nb ∈ e.assigned then e.cluster else e.cluster ++ [nb] }

/-- The loop over the growing list of neighbours, at most so many turns of it. -/
def expand : (turns : ℕ) → Expansion → Option Expansion
  | 0, _ => none
  | turns + 1, e =>
    match e.neighbors[e.cursor]? with
    | none => some e
    | some nb => expand turns (visitNeighbor near n minPoints nb e)

structure Scan where
  visited : List ℕ := []
  assigned : List ℕ := []
  clusters : List (List ℕ) := []

def scanPoint (turns : ℕ) (s : Scan) (i : ℕ) : Option Scan :=
  if i ∈ s.visited then some s
  else
    let neighbors := neighborsOf near n i
    if neighbors.length < minPoints then some { s with visited := i :: s.visited }
    else do
      let e ← expand near n minPoints turns ⟨neighbors, 0, i :: s.visited, s.assigned, []⟩
      return {
        visited := e.visited
        assigned := e.assigned
        clusters := if e.cluster.isEmpty then s.clusters else s.clusters ++ [e.cluster] }

def dbscan (turns : ℕ) : Option (List (List ℕ)) :=
  ((List.range n).foldlM (scanPoint near n minPoints turns) {}).map Scan.clusters

end Scan

/-- The names and places of the documents that have a place. -/
def located (docs : List IndexedEntityDocument) : List (String × F64 × F64) :=
  docs.filterMap fun d => d.coordinatesWgs84.map fun c => (d.entityId, c)

def nearAt (near : F64 × F64 → F64 × F64 → Bool) (pts : List (String × F64 × F64)) (i j : ℕ) : Bool :=
  match pts[i]?, pts[j]? with
  | some p, some q => near p.2 q.2
  | _, _ => false

def nameAt (pts : List (String × F64 × F64)) (i : ℕ) : String := (pts[i]?).elim "" Prod.fst

/-- With `near` in the place of the distance test. A loop never takes more turns than there are
points: `expand_ok`. -/
def clusterSpatialDbscan (near : F64 × F64 → F64 × F64 → Bool) (docs : List IndexedEntityDocument)
    (minPoints : ℕ) : Option (List (List String)) :=
  let pts := located docs
  (dbscan (nearAt near pts) pts.length minPoints (pts.length + 1)).map
    fun clusters => clusters.map fun cluster => cluster.map (nameAt pts)

/-! ### Cores and chains -/

section Density
variable {near : ℕ → ℕ → Bool} {n minPoints : ℕ}

variable (near n minPoints) in
def Core (x : ℕ) : Prop := x < n ∧ minPoints ≤ (neighborsOf near n x).length

variable (near n minPoints) in
/-- A chain of cores, each a neighbour of the next. -/
def CoreChain : ℕ → ℕ → Prop :=
  Relation.ReflTransGen fun x y => Core near n minPoints x ∧ Core near n minPoints y ∧ near x y = true

theorem CoreChain.core {x y : ℕ} (h : CoreChain near n minPoints x y) (hx : Core near n minPoints x) :
    Core near n minPoints y := by
  induction h with
  | refl => exact hx
  | tail _ hstep _ => exact hstep.2.1

theorem CoreChain.symm (hsymm : ∀ x y, near x y = true → near y x = true) {x y : ℕ}
    (h : CoreChain near n minPoints x y) : CoreChain near n minPoints y x := by
  induction h with
  | refl => exact .refl
  | tail _ hstep ih => exact ih.head ⟨hstep.2.1, hstep.1, hsymm _ _ hstep.2.2⟩

variable (near n minPoints) in
/-- The cores chained to a seed, and points next to one of them. -/
structure IsDense (seed : ℕ) (cluster : List ℕ) : Prop where
  core : Core near n minPoints seed
  mem_core : ∀ x, Core near n minPoints x → (x ∈ cluster ↔ CoreChain near n minPoints seed x)
  border : ∀ x ∈ cluster, x < n ∧ ∃ c ∈ cluster, Core near n minPoints c ∧ near c x = true

variable (near n minPoints) in
/-- Disjoint clusters without repetition: two cores are together exactly if a chain of cores leads
from one to the other, a point next to a core is in one cluster, which has such a core, and other
points are in none. -/
structure IsClustering (clusters : List (List ℕ)) : Prop where
  nodup : clusters.flatten.Nodup
  core_iff : ∀ x y, Core near n minPoints x → Core near n minPoints y →
    ((∃ cluster ∈ clusters, x ∈ cluster ∧ y ∈ cluster) ↔ CoreChain near n minPoints x y)
  border : ∀ x < n, ¬Core near n minPoints x → (∃ c, Core near n minPoints c ∧ near x c = true) →
    ∃ cluster ∈ clusters, x ∈ cluster ∧
      (∃ c ∈ cluster, Core near n minPoints c ∧ near x c = true) ∧
      ∀ other ∈ clusters, x ∈ other → other = cluster
  only : ∀ x ∈ clusters.flatten, x < n ∧
    (Core near n minPoints x ∨ ∃ c, Core near n minPoints c ∧ near x c = true)

theorem mem_neighborsOf {i j : ℕ} : j ∈ neighborsOf near n i ↔ j < n ∧ near i j = true := by
  rw [neighborsOf, List.mem_filter, List.mem_range]

/-! ### Growing one cluster -/

theorem mem_pushNew {neighbors new : List ℕ} {x : ℕ} :
    x ∈ pushNew neighbors new ↔ x ∈ neighbors ∨ x ∈ new := by
  induction new generalizing neighbors with
  | nil => simp [pushNew]
  | cons k new ih =>
    rw [pushNew, List.foldl_cons]
    change x ∈ pushNew _ new ↔ _
    rw [ih]
    split_ifs with hk
    · rw [List.mem_cons]
      constructor
      · tauto
      · rintro (hx | rfl | hx)
        · exact .inl hx
        · exact .inl hk
        · exact .inr hx
    · rw [List.mem_append, List.mem_singleton, List.mem_cons]
      tauto

theorem nodup_pushNew {neighbors : List ℕ} (h : neighbors.Nodup) (new : List ℕ) :
    (pushNew neighbors new).Nodup := by
  induction new generalizing neighbors with
  | nil => exact h
  | cons k new ih =>
    rw [pushNew, List.foldl_cons]
    split_ifs with hk
    · exact ih h
    · apply ih
      rw [← List.concat_eq_append, List.nodup_concat]
      exact ⟨hk, h⟩

theorem prefix_pushNew (neighbors new : List ℕ) : neighbors <+: pushNew neighbors new := by
  induction new generalizing neighbors with
  | nil => exact List.prefix_rfl
  | cons k new ih =>
    rw [pushNew, List.foldl_cons]
    split_ifs with hk
    · exact ih neighbors
    · exact (List.prefix_append _ _).trans (ih _)

variable (near n minPoints) in
/-- The loop at its cursor: the points before it are visited and assigned, those with enough
neighbours have them in the list, and everything in the list is next to a core of the chain. -/
structure Growing (s : Scan) (i : ℕ) (e : Expansion) : Prop where
  nodup : e.neighbors.Nodup
  next_to : ∀ x ∈ e.neighbors, x < n ∧ ∃ c, CoreChain near n minPoints i c ∧ near c x = true
  start : ∀ x ∈ neighborsOf near n i, x ∈ e.neighbors
  visited : ∀ x, x ∈ e.visited ↔ x ∈ s.visited ∨ x = i ∨ x ∈ e.neighbors.take e.cursor
  assigned : ∀ x, x ∈ e.assigned ↔ x ∈ s.assigned ∨ x ∈ e.neighbors.take e.cursor
  cluster : ∀ x, x ∈ e.cluster ↔ x ∈ e.neighbors.take e.cursor ∧ x ∉ s.assigned
  cluster_nodup : e.cluster.Nodup
  closed : ∀ x ∈ e.neighbors.take e.cursor, Core near n minPoints x → x ∉ s.visited →
    ∀ y ∈ neighborsOf near n x, y ∈ e.neighbors
  cursor : e.cursor ≤ e.neighbors.length

variable {s : Scan} {i nb : ℕ} {e : Expansion}

theorem Growing.length_le (h : Growing near n minPoints s i e) : e.neighbors.length ≤ n := by
  have hsub : e.neighbors.toFinset ⊆ Finset.range n := by
    intro x hx
    exact Finset.mem_range.mpr (h.next_to x (List.mem_toFinset.mp hx)).1
  have hcard := Finset.card_le_card hsub
  rwa [Finset.card_range, List.toFinset_card_of_nodup h.nodup] at hcard

theorem growing_start (near : ℕ → ℕ → Bool) (n minPoints : ℕ) (s : Scan) (i : ℕ) :
    Growing near n minPoints s i ⟨neighborsOf near n i, 0, i :: s.visited, s.assigned, []⟩ where
  nodup := List.nodup_range.filter _
  next_to x hx := by
    obtain ⟨hlt, hnear⟩ := mem_neighborsOf.mp hx
    exact ⟨hlt, i, .refl, hnear⟩
  start _ hx := hx
  visited x := by simp [or_comm]
  assigned x := by simp
  cluster x := by simp
  cluster_nodup := List.nodup_nil
  closed := by simp
  cursor := Nat.zero_le _

/-- One turn of the loop. -/
theorem Growing.turn (h : Growing near n minPoints s i e) (hi : Core near n minPoints i)
    (hnb : e.neighbors[e.cursor]? = some nb) :
    Growing near n minPoints s i (visitNeighbor near n minPoints nb e) := by
  obtain ⟨hcursor, hget⟩ := List.getElem?_eq_some_iff.mp hnb
  have hmem : nb ∈ e.neighbors := List.mem_of_getElem? hnb
  obtain ⟨hlt, c, hchain, hnear⟩ := h.next_to nb hmem
  have hprefix : e.neighbors <+: (visitNeighbor near n minPoints nb e).neighbors := by
    dsimp only [visitNeighbor]
    split_ifs
    · exact prefix_pushNew _ _
    · exact List.prefix_rfl
  have htake (x : ℕ) : x ∈ (visitNeighbor near n minPoints nb e).neighbors.take
      (visitNeighbor near n minPoints nb e).cursor ↔ x ∈ e.neighbors.take e.cursor ∨ x = nb := by
    have hsame : (visitNeighbor near n minPoints nb e).neighbors.take (e.cursor + 1) =
        e.neighbors.take (e.cursor + 1) := by
      obtain ⟨rest, hrest⟩ := hprefix
      rw [← hrest, List.take_append_of_le_length hcursor]
    change x ∈ List.take (e.cursor + 1) _ ↔ _
    rw [hsame, List.take_add_one, hnb, Option.toList_some, List.mem_append, List.mem_singleton]
  have hgrown (hcore : Core near n minPoints nb) (hnew : nb ∉ e.visited) :
      ∀ y ∈ neighborsOf near n nb, y ∈ (visitNeighbor near n minPoints nb e).neighbors := by
    intro y hy
    dsimp only [visitNeighbor]
    rw [if_pos ⟨hnew, hcore.2⟩]
    exact mem_pushNew.mpr (.inr hy)
  constructor
  · dsimp only [visitNeighbor]
    split_ifs
    · exact nodup_pushNew h.nodup _
    · exact h.nodup
  · intro x hx
    dsimp only [visitNeighbor] at hx
    split_ifs at hx with hexpand
    · rcases mem_pushNew.mp hx with hold | hnew
      · exact h.next_to x hold
      · obtain ⟨hxlt, hxnear⟩ := mem_neighborsOf.mp hnew
        have hcore : Core near n minPoints nb := ⟨hlt, hexpand.2⟩
        exact ⟨hxlt, nb, hchain.tail ⟨hchain.core hi, hcore, hnear⟩, hxnear⟩
    · exact h.next_to x hx
  · intro x hx
    exact hprefix.subset (h.start x hx)
  · intro x
    rw [htake]
    have hvisited := h.visited x
    dsimp only [visitNeighbor]
    split_ifs with hseen
    · rw [hvisited]
      constructor
      · tauto
      · rintro (hx | hx | hx | rfl)
        · exact .inl hx
        · exact .inr (.inl hx)
        · exact .inr (.inr hx)
        · exact hvisited.mp hseen
    · rw [List.mem_cons, hvisited]
      tauto
  · intro x
    rw [htake]
    have hassigned := h.assigned x
    dsimp only [visitNeighbor]
    split_ifs with hseen
    · rw [hassigned]
      constructor
      · tauto
      · rintro (hx | hx | rfl)
        · exact .inl hx
        · exact .inr hx
        · exact hassigned.mp hseen
    · rw [List.mem_cons, hassigned]
      tauto
  · intro x
    rw [htake]
    have hcluster := h.cluster x
    have hassigned := h.assigned nb
    dsimp only [visitNeighbor]
    split_ifs with hseen
    · rw [hcluster]
      constructor
      · tauto
      · rintro ⟨hx | rfl, hfresh⟩
        · exact ⟨hx, hfresh⟩
        · exact ⟨(hassigned.mp hseen).resolve_left hfresh, hfresh⟩
    · rw [List.mem_append, List.mem_singleton, hcluster]
      constructor
      · rintro (⟨hx, hfresh⟩ | rfl)
        · exact ⟨.inl hx, hfresh⟩
        · exact ⟨.inr rfl, fun hold => hseen (hassigned.mpr (.inl hold))⟩
      · rintro ⟨hx | rfl, hfresh⟩
        · exact .inl ⟨hx, hfresh⟩
        · exact .inr rfl
  · dsimp only [visitNeighbor]
    split_ifs with hseen
    · exact h.cluster_nodup
    · rw [← List.concat_eq_append, List.nodup_concat]
      refine ⟨?_, h.cluster_nodup⟩
      intro hmem
      exact hseen ((h.assigned nb).mpr (.inr ((h.cluster nb).mp hmem).1))
  · intro x hx hcore hfresh y hy
    rcases (htake x).mp hx with hold | rfl
    · exact hprefix.subset (h.closed x hold hcore hfresh y hy)
    · by_cases hseen : x ∈ e.visited
      · rcases (h.visited x).mp hseen with hbefore | rfl | hold
        · exact absurd hbefore hfresh
        · exact hprefix.subset (h.start y hy)
        · exact hprefix.subset (h.closed x hold hcore hfresh y hy)
      · exact hgrown hcore hseen y hy
  · exact hcursor.trans_le hprefix.length_le

/-- The loop comes to the end of its list, which never has more entries than there are points. -/
theorem expand_ok (hi : Core near n minPoints i) {turns : ℕ} (h : Growing near n minPoints s i e)
    (hturns : n - e.cursor < turns) :
    ∃ e', expand near n minPoints turns e = some e' ∧ Growing near n minPoints s i e' ∧
      e'.cursor = e'.neighbors.length := by
  induction turns generalizing e with
  | zero => omega
  | succ turns ih =>
    rw [expand]
    cases hnb : e.neighbors[e.cursor]? with
    | none =>
      have hend := List.getElem?_eq_none_iff.mp hnb
      exact ⟨e, rfl, h, h.cursor.antisymm hend⟩
    | some nb =>
      have hcursor := (List.getElem?_eq_some_iff.mp hnb).1
      have hlength := h.length_le
      apply ih (h.turn hi hnb)
      change n - (e.cursor + 1) < turns
      omega

theorem expand_mono {turns turns' : ℕ} (hle : turns ≤ turns') {e' : Expansion}
    (h : expand near n minPoints turns e = some e') : expand near n minPoints turns' e = some e' := by
  induction turns generalizing turns' e with
  | zero => cases h
  | succ turns ih =>
    obtain ⟨turns', rfl⟩ := Nat.exists_eq_add_of_le' (Nat.one_le_of_lt hle)
    rw [expand] at h ⊢
    cases hnb : e.neighbors[e.cursor]? with
    | none =>
      rw [hnb] at h
      exact h
    | some nb =>
      rw [hnb] at h
      exact ih (Nat.le_of_succ_le_succ hle) h

theorem scanPoint_mono {turns turns' : ℕ} (hle : turns ≤ turns') {s' : Scan}
    (h : scanPoint near n minPoints turns s i = some s') :
    scanPoint near n minPoints turns' s i = some s' := by
  rw [scanPoint] at h ⊢
  split_ifs at h ⊢ with hseen
  · exact h
  dsimp only at h ⊢
  split_ifs at h ⊢ with hfew
  · exact h
  · obtain ⟨e, hexpand, hs'⟩ := Option.bind_eq_some_iff.mp h
    rw [expand_mono hle hexpand]
    exact hs'

theorem foldlM_scanPoint_mono {turns turns' : ℕ} (hle : turns ≤ turns') {s' : Scan} {l : List ℕ}
    (h : l.foldlM (scanPoint near n minPoints turns) s = some s') :
    l.foldlM (scanPoint near n minPoints turns') s = some s' := by
  induction l generalizing s with
  | nil => exact h
  | cons i l ih =>
    rw [List.foldlM_cons] at h ⊢
    obtain ⟨s₁, hscan, hrest⟩ := Option.bind_eq_some_iff.mp h
    rw [scanPoint_mono hle hscan]
    exact ih hrest

/-! ### The scan over all points -/

variable (near n minPoints) in
/-- Between two points of the scan: the clusters are dense and disjoint, and a core that was
visited is assigned with all its neighbours. -/
structure Scanned (s : Scan) : Prop where
  assigned_visited : ∀ x ∈ s.assigned, x ∈ s.visited
  assigned : ∀ x, x ∈ s.assigned ↔ x ∈ s.clusters.flatten
  nodup : s.clusters.flatten.Nodup
  dense : ∀ cluster ∈ s.clusters, ∃ seed, IsDense near n minPoints seed cluster
  closed : ∀ x ∈ s.visited, Core near n minPoints x →
    x ∈ s.assigned ∧ ∀ y ∈ neighborsOf near n x, y ∈ s.assigned

theorem scanned_start : Scanned near n minPoints {} where
  assigned_visited := by simp
  assigned := by simp
  nodup := by simp
  dense := by simp
  closed := by simp

variable (hrefl : ∀ x < n, near x x = true) (hsymm : ∀ x y, near x y = true → near y x = true)
include hrefl hsymm

/-- A finished cluster has the whole chain, and none of it was visited before: a visited core has
assigned its neighbours. -/
theorem mem_of_chain (hs : Scanned near n minPoints s) (hi : Core near n minPoints i)
    (hfresh : i ∉ s.visited) (h : Growing near n minPoints s i e)
    (hend : e.cursor = e.neighbors.length) {x : ℕ} (hx : CoreChain near n minPoints i x) :
    x ∈ e.neighbors ∧ x ∉ s.visited := by
  induction hx with
  | refl => exact ⟨h.start i (mem_neighborsOf.mpr ⟨hi.1, hrefl i hi.1⟩), hfresh⟩
  | @tail c x hchain hstep ih =>
    obtain ⟨hc, hx, hnear⟩ := hstep
    have htake : c ∈ e.neighbors.take e.cursor := by
      rw [hend, List.take_length]
      exact ih.1
    refine ⟨h.closed c htake hc ih.2 x (mem_neighborsOf.mpr ⟨hx.1, hnear⟩), ?_⟩
    intro hvisited
    have hassigned := (hs.closed x hvisited hx).2 c (mem_neighborsOf.mpr ⟨hc.1, hsymm c x hnear⟩)
    exact ih.2 (hs.assigned_visited c hassigned)

theorem isDense_of_growing (hs : Scanned near n minPoints s) (hi : Core near n minPoints i)
    (hfresh : i ∉ s.visited) (h : Growing near n minPoints s i e)
    (hend : e.cursor = e.neighbors.length) : IsDense near n minPoints i e.cluster := by
  have htake : e.neighbors.take e.cursor = e.neighbors := by
    rw [hend, List.take_length]
  have hcore : ∀ x, Core near n minPoints x →
      (x ∈ e.cluster ↔ CoreChain near n minPoints i x) := by
    intro x hx
    rw [h.cluster, htake]
    constructor
    · rintro ⟨hmem, -⟩
      obtain ⟨-, c, hchain, hnear⟩ := h.next_to x hmem
      exact hchain.tail ⟨hchain.core hi, hx, hnear⟩
    · intro hchain
      obtain ⟨hmem, hnew⟩ := mem_of_chain hrefl hsymm hs hi hfresh h hend hchain
      exact ⟨hmem, fun hassigned => hnew (hs.assigned_visited x hassigned)⟩
  refine ⟨hi, hcore, ?_⟩
  intro x hx
  rw [h.cluster, htake] at hx
  obtain ⟨hlt, c, hchain, hnear⟩ := h.next_to x hx.1
  have hc := hchain.core hi
  exact ⟨hlt, c, (hcore c hc).mpr hchain, hc, hnear⟩

theorem scanPoint_ok {turns : ℕ} (hturns : n < turns) (hs : Scanned near n minPoints s) (hlt : i < n) :
    ∃ s', scanPoint near n minPoints turns s i = some s' ∧ Scanned near n minPoints s' ∧
      i ∈ s'.visited ∧ s.visited ⊆ s'.visited := by
  rw [scanPoint]
  split_ifs with hseen
  · exact ⟨s, rfl, hs, hseen, List.Subset.refl _⟩
  dsimp only
  split_ifs with hfew
  · refine ⟨_, rfl, ⟨?_, hs.assigned, hs.nodup, hs.dense, ?_⟩, List.mem_cons_self,
      List.subset_cons_self _ _⟩
    · intro x hx
      exact List.mem_cons_of_mem _ (hs.assigned_visited x hx)
    · intro x hx hcore
      rcases List.mem_cons.mp hx with rfl | hold
      · exact absurd hcore.2 (Nat.not_le.mpr hfew)
      · exact hs.closed x hold hcore
  · have hi : Core near n minPoints i := ⟨hlt, Nat.le_of_not_lt hfew⟩
    obtain ⟨e, hexpand, h, hend⟩ := expand_ok hi (growing_start near n minPoints s i)
      (show n - 0 < turns by omega)
    have hdense := isDense_of_growing hrefl hsymm hs hi hseen h hend
    have htake : e.neighbors.take e.cursor = e.neighbors := by
      rw [hend, List.take_length]
    have hmem : i ∈ e.cluster := (hdense.mem_core i hi).mpr .refl
    have hnonempty : e.cluster.isEmpty = false := by
      rw [List.isEmpty_eq_false_iff]
      exact List.ne_nil_of_mem hmem
    refine ⟨⟨e.visited, e.assigned, s.clusters ++ [e.cluster]⟩, ?_, ?_, ?_, ?_⟩
    · rw [hexpand]
      change some _ = some _
      rw [hnonempty]
      rfl
    · constructor
      · intro x hx
        rw [h.visited]
        rcases (h.assigned x).mp hx with hold | hnew
        · exact .inl (hs.assigned_visited x hold)
        · exact .inr (.inr hnew)
      · intro x
        change x ∈ e.assigned ↔ x ∈ (s.clusters ++ [e.cluster]).flatten
        rw [h.assigned, List.flatten_append, List.flatten_singleton, List.mem_append, ← hs.assigned,
          h.cluster]
        tauto
      · change (s.clusters ++ [e.cluster]).flatten.Nodup
        rw [List.flatten_append, List.flatten_singleton, List.nodup_append]
        refine ⟨hs.nodup, h.cluster_nodup, ?_⟩
        rintro x hx y hy rfl
        exact ((h.cluster x).mp hy).2 ((hs.assigned x).mpr hx)
      · intro cluster hcluster
        rcases List.mem_append.mp hcluster with hold | hnew
        · exact hs.dense cluster hold
        · exact ⟨i, List.mem_singleton.mp hnew ▸ hdense⟩
      · intro x hx hcore
        change x ∈ e.assigned ∧ ∀ y ∈ neighborsOf near n x, y ∈ e.assigned
        by_cases hold : x ∈ s.visited
        · obtain ⟨hassigned, hneighbors⟩ := hs.closed x hold hcore
          exact ⟨(h.assigned x).mpr (.inl hassigned),
            fun y hy => (h.assigned y).mpr (.inl (hneighbors y hy))⟩
        · have hlisted : x ∈ e.neighbors.take e.cursor := by
            rcases (h.visited x).mp hx with hbefore | rfl | hlisted
            · exact absurd hbefore hold
            · exact ((h.cluster x).mp hmem).1
            · exact hlisted
          refine ⟨(h.assigned x).mpr (.inr hlisted), ?_⟩
          intro y hy
          rw [h.assigned, htake]
          exact .inr (h.closed x hlisted hcore hold y hy)
    · exact (h.visited i).mpr (.inr (.inl rfl))
    · intro x hx
      exact (h.visited x).mpr (.inl hx)

theorem foldlM_scanPoint_ok {turns : ℕ} (hturns : n < turns) {l : List ℕ} (hl : ∀ i ∈ l, i < n)
    (hs : Scanned near n minPoints s) :
    ∃ s', l.foldlM (scanPoint near n minPoints turns) s = some s' ∧ Scanned near n minPoints s' ∧
      (∀ i ∈ l, i ∈ s'.visited) ∧ s.visited ⊆ s'.visited := by
  induction l generalizing s with
  | nil => exact ⟨s, rfl, hs, by simp, List.Subset.refl _⟩
  | cons i l ih =>
    obtain ⟨s₁, hscan, hs₁, hi, hsub₁⟩ := scanPoint_ok hrefl hsymm hturns hs (hl i List.mem_cons_self)
    obtain ⟨s', hfold, hs', hall, hsub⟩ := ih (fun j hj => hl j (List.mem_cons_of_mem _ hj)) hs₁
    refine ⟨s', ?_, hs', ?_, List.Subset.trans hsub₁ hsub⟩
    · rw [List.foldlM_cons, hscan]
      exact hfold
    · intro j hj
      rcases List.mem_cons.mp hj with rfl | hmem
      · exact hsub hi
      · exact hall j hmem

omit hrefl in
theorem Scanned.isClustering (hs : Scanned near n minPoints s) (hall : ∀ i < n, i ∈ s.visited) :
    IsClustering near n minPoints s.clusters := by
  have hdisjoint := (List.nodup_flatten.mp hs.nodup).2
  constructor
  · exact hs.nodup
  · intro x y hx hy
    constructor
    · rintro ⟨cluster, hcluster, hxmem, hymem⟩
      obtain ⟨seed, hdense⟩ := hs.dense cluster hcluster
      exact (((hdense.mem_core x hx).mp hxmem).symm hsymm).trans ((hdense.mem_core y hy).mp hymem)
    · intro hchain
      have hassigned := (hs.closed x (hall x hx.1) hx).1
      obtain ⟨cluster, hcluster, hxmem⟩ := List.mem_flatten.mp ((hs.assigned x).mp hassigned)
      obtain ⟨seed, hdense⟩ := hs.dense cluster hcluster
      have hseed := (hdense.mem_core x hx).mp hxmem
      exact ⟨cluster, hcluster, hxmem, (hdense.mem_core y hy).mpr (hseed.trans hchain)⟩
  · rintro x hlt - ⟨c, hc, hnear⟩
    have hassigned := (hs.closed c (hall c hc.1) hc).2 x
      (mem_neighborsOf.mpr ⟨hlt, hsymm x c hnear⟩)
    obtain ⟨cluster, hcluster, hxmem⟩ := List.mem_flatten.mp ((hs.assigned x).mp hassigned)
    obtain ⟨seed, hdense⟩ := hs.dense cluster hcluster
    obtain ⟨-, c', hc'mem, hc', hnear'⟩ := hdense.border x hxmem
    refine ⟨cluster, hcluster, hxmem, ⟨c', hc'mem, hc', hsymm c' x hnear'⟩, ?_⟩
    intro other hother hxother
    by_contra hne
    have : Std.Symm (@List.Disjoint ℕ) := ⟨fun _ _ h => h.symm⟩
    exact hdisjoint.forall hother hcluster hne hxother hxmem
  · intro x hx
    obtain ⟨cluster, hcluster, hxmem⟩ := List.mem_flatten.mp hx
    obtain ⟨seed, hdense⟩ := hs.dense cluster hcluster
    obtain ⟨hlt, c, -, hc, hnear⟩ := hdense.border x hxmem
    exact ⟨hlt, .inr ⟨c, hc, hsymm c x hnear⟩⟩

theorem dbscan_ok : ∃ clusters, IsClustering near n minPoints clusters ∧
    ∀ turns, n < turns → dbscan near n minPoints turns = some clusters := by
  obtain ⟨s, hfold, hs, hall, -⟩ := foldlM_scanPoint_ok hrefl hsymm (Nat.lt_succ_self n)
    (fun i hi => List.mem_range.mp hi) (@scanned_start near n minPoints)
  refine ⟨s.clusters, hs.isClustering hsymm fun i hi => hall i (List.mem_range.mpr hi), ?_⟩
  intro turns hturns
  rw [dbscan, foldlM_scanPoint_mono hturns hfold, Option.map_some]

end Density

/-! ### Documents with a place -/

section Documents
variable {near : F64 × F64 → F64 × F64 → Bool} {pts : List (String × F64 × F64)}

theorem nearAt_refl (hrefl : ∀ p, near p p = true) {i : ℕ} (hi : i < pts.length) :
    nearAt near pts i i = true := by
  rw [nearAt, List.getElem?_eq_getElem hi]
  exact hrefl _

theorem nearAt_symm (hsymm : ∀ p q, near p q = true → near q p = true) (i j : ℕ)
    (h : nearAt near pts i j = true) : nearAt near pts j i = true := by
  unfold nearAt at h ⊢
  cases hi : pts[i]? <;> cases hj : pts[j]? <;> rw [hi, hj] at h
  · exact h
  · exact h
  · exact h
  · exact hsymm _ _ h

theorem nodup_names (hnames : (pts.map Prod.fst).Nodup) {clusters : List (List ℕ)}
    (hnodup : clusters.flatten.Nodup) (hlt : ∀ x ∈ clusters.flatten, x < pts.length) :
    (clusters.map fun cluster => cluster.map (nameAt pts)).flatten.Nodup := by
  rw [← List.map_flatten]
  apply List.Nodup.map_on _ hnodup
  intro i hi j hj heq
  have hname (k : ℕ) (hk : k < pts.length) : (pts.map Prod.fst)[k]? = some (nameAt pts k) := by
    rw [List.getElem?_map, nameAt, List.getElem?_eq_getElem hk]
    rfl
  apply (List.getElem?_inj (by simpa using hlt i hi) hnames).mp
  rw [hname i (hlt i hi), hname j (hlt j hj), heq]

/-- For every reflexive and symmetric distance test the scan ends with the density clusters of the
places, named by their documents; with names of their own the documents stand in it once. -/
theorem clusterSpatialDbscan_isClustering (near : F64 × F64 → F64 × F64 → Bool)
    (hrefl : ∀ p, near p p = true) (hsymm : ∀ p q, near p q = true → near q p = true)
    (docs : List IndexedEntityDocument) (minPoints : ℕ) :
    ∃ clusters, IsClustering (nearAt near (located docs)) (located docs).length minPoints clusters ∧
      clusterSpatialDbscan near docs minPoints =
        some (clusters.map fun cluster => cluster.map (nameAt (located docs))) ∧
      (∀ turns, (located docs).length < turns →
        dbscan (nearAt near (located docs)) (located docs).length minPoints turns = some clusters) ∧
      (((located docs).map Prod.fst).Nodup →
        (clusters.map fun cluster => cluster.map (nameAt (located docs))).flatten.Nodup) := by
  obtain ⟨clusters, h, hturns⟩ := @dbscan_ok (nearAt near (located docs)) (located docs).length
    minPoints (fun _ hx => nearAt_refl hrefl hx) (nearAt_symm hsymm)
  refine ⟨clusters, h, ?_, hturns, ?_⟩
  · rw [clusterSpatialDbscan, hturns _ (Nat.lt_succ_self _)]
    rfl
  · intro hnames
    exact nodup_names hnames h.nodup fun x hx => (h.only x hx).1

end Documents

/-! ### Two towns -/

def documentAt (entityId : String) (place : F64 × F64) : IndexedEntityDocument where
  entityId := entityId
  rowId := 0
  code := ""
  title := ""
  description := ""
  embedding := none
  coordinatesWgs84 := some place

def townOf (place : F64 × F64) : F64 := place.1

/-- Two shops of one town are a cluster, and a third in another town is in none. -/
theorem towns_are_clusters :
    ∃ clusters, IsClustering
      (nearAt (fun p q => townOf p = townOf q) (located [documentAt "a" (⟨0⟩, ⟨0⟩),
        documentAt "b" (⟨1⟩, ⟨0⟩), documentAt "c" (⟨0⟩, ⟨1⟩)])) 3 2 clusters ∧
      clusters.map (fun cluster => cluster.map (nameAt (located [documentAt "a" (⟨0⟩, ⟨0⟩),
        documentAt "b" (⟨1⟩, ⟨0⟩), documentAt "c" (⟨0⟩, ⟨1⟩)]))) = [["a", "c"]] := by
  obtain ⟨clusters, h, hscan, -⟩ := clusterSpatialDbscan_isClustering
    (fun p q => townOf p = townOf q) (by simp) (by simp [eq_comm]) [documentAt "a" (⟨0⟩, ⟨0⟩),
      documentAt "b" (⟨1⟩, ⟨0⟩), documentAt "c" (⟨0⟩, ⟨1⟩)] 2
  have hnames : clusterSpatialDbscan (fun p q => townOf p = townOf q) [documentAt "a" (⟨0⟩, ⟨0⟩),
      documentAt "b" (⟨1⟩, ⟨0⟩), documentAt "c" (⟨0⟩, ⟨1⟩)] 2 = some [["a", "c"]] := by
    decide +kernel
  exact ⟨clusters, h, Option.some_inj.mp (hscan.symm.trans hnames)⟩
end MetriEngine.Search

import MetriEngine.Storage.EulerTree

/-!
# Subtrees are intervals

The intervals of a zone tell which nodes and which rows are below a node as long as no interval
ends where the timer has wrapped, and no row lies where its place no longer has 32 bits.
-/
namespace MetriEngine.Storage.CsrGraph
open Foundation

/-! ### What a build leaves -/

section Built
variable {nodes : List NodeTuple}

/-- The order in which a build entered the nodes, and what it wrote of each. -/
structure Built (nodes : List NodeTuple) (l : List ℕ) (zone : CsrGraphZone) : Prop where
  nodup : l.Nodup
  mem : ∀ v, v ∈ l ↔ Reachable nodes v
  outside : ∀ v, v ∉ l → zone.eulerNodes.lookup v = none
  interval : ∀ v ∈ l, ∃ before m after x, l = before ++ v :: m ++ after ∧
    (∀ w, w ∈ v :: m ↔ Descendant nodes v w) ∧ zone.eulerNodes.lookup v = some x ∧
    x.tin = (1 + before.length) % 2 ^ 32 ∧ x.tout = (before.length + m.length + 1) % 2 ^ 32 ∧
    Inherits nodes v x.inheritedAttributeId
  last : ∀ r, IsRoot nodes r → (∀ r', IsRoot nodes r' → r' ≤ r) →
    ∃ before m, l = before ++ m ∧ ∀ w, w ∈ m ↔ Descendant nodes r w

variable (hids : (nodes.map Prod.fst).Nodup)
include hids

/-- An attribute comes from the node or from its parent. -/
theorem inherits_getD {v a : ℕ} {parent attr : Option ℕ} (h : (v, parent, attr) ∈ nodes)
    (hparent : attr = none → parent.elim (a = 0) fun p => Inherits nodes p a) :
    Inherits nodes v (((treeMaps nodes).ownAttr v).getD a) := by
  rw [ownAttr_eq hids h]
  cases attr with
  | some own => exact Inherits.own h
  | none =>
    cases parent with
    | none =>
      have hzero : a = 0 := hparent rfl
      subst hzero
      exact Inherits.root h
    | some p => exact Inherits.parent h (hparent rfl)

/-- A node has one inherited attribute. -/
theorem inherits_unique {v a a' : ℕ} (h : Inherits nodes v a) (h' : Inherits nodes v a') :
    a = a' := by
  induction h generalizing a' with
  | own hmem =>
    cases h' with
    | own hmem' =>
      have heq := tuple_unique hids hmem hmem' rfl
      simp only [Prod.mk.injEq, Option.some.injEq, true_and] at heq
      exact heq.2
    | root hmem' => simpa using tuple_unique hids hmem hmem' rfl
    | parent hmem' _ => simpa using tuple_unique hids hmem hmem' rfl
  | root hmem =>
    cases h' with
    | own hmem' => simpa using tuple_unique hids hmem hmem' rfl
    | root _ => rfl
    | parent hmem' _ => simpa using tuple_unique hids hmem hmem' rfl
  | parent hmem _ ih =>
    cases h' with
    | own hmem' => simpa using tuple_unique hids hmem hmem' rfl
    | root hmem' => simpa using tuple_unique hids hmem hmem' rfl
    | parent hmem' hp' =>
      have heq := tuple_unique hids hmem hmem' rfl
      simp only [Prod.mk.injEq, Option.some.injEq, true_and, and_true] at heq
      exact ih (heq ▸ hp')

/-- A root is below no other node. -/
theorem eq_of_descendant_root {u r : ℕ} (hr : IsRoot nodes r) (h : Descendant nodes u r) :
    u = r := by
  rcases Relation.ReflTransGen.cases_tail h with heq | ⟨p, -, attr, hp⟩
  · exact heq.symm
  · obtain ⟨attr', hr⟩ := hr
    simpa using tuple_unique hids hp hr rfl

theorem exists_built : ∃ l zone, buildHierarchicalEulerTree ⟨∅⟩ nodes = some zone ∧
    Built nodes l zone := by
  have hforest := forest hids
  obtain ⟨l, hwalk⟩ := hforest.exists_walk
  have hnodup := hforest.walk_roots_nodup hwalk
  have hlen := hforest.walk_length_le hwalk
  rw [List.length_map] at hlen
  have hsuits : ∀ u a v, Inherits nodes u a → v ∈ (treeMaps nodes).children u →
      Inherits nodes v (((treeMaps nodes).ownAttr v).getD a) := by
    intro u a v hu hv
    obtain ⟨attr, hmem⟩ := (mem_children nodes).mp hv
    exact inherits_getD hids hmem fun _ => hu
  have hroots : ∀ r ∈ (treeMaps nodes).roots,
      Inherits nodes r (((treeMaps nodes).ownAttr r).getD 0) := by
    intro r hr
    obtain ⟨attr, hmem⟩ := (mem_roots nodes).mp hr
    exact inherits_getD hids hmem fun _ => rfl
  obtain ⟨s, hrun, hvisited⟩ := @exists_visited _ _ hsuits _ _ hwalk nodes.length 0 0
    ⟨1, ∅⟩ hlen hnodup (by norm_num) hroots
  refine ⟨l, ⟨s.eulerNodes⟩, ?_, hnodup, ?_, ?_, ?_, ?_⟩
  · rw [buildHierarchicalEulerTree, hrun]
    rfl
  · intro v
    rw [hwalk.mem_iff, Reachable]
    constructor
    · rintro ⟨r, hr, hbelow⟩
      exact ⟨r, (mem_roots nodes).mp hr, below_iff.mp hbelow⟩
    · rintro ⟨r, hr, hbelow⟩
      exact ⟨r, (mem_roots nodes).mpr hr, below_iff.mpr hbelow⟩
  · intro v hv
    exact hvisited.others v hv
  · intro v hv
    obtain ⟨before, m, after, x, hl, hm, hlookup, htin, htout, hattr⟩ := hvisited.interval v hv
    obtain ⟨inner, rfl, -⟩ := hm.exists_cons
    refine ⟨before, inner, after, x, hl, ?_, hlookup, htin, ?_, hattr⟩
    · intro w
      rw [hm.mem_single_iff, below_iff]
    · rw [htout, List.length_cons]
      dsimp only
      omega
  · intro r hr hgreatest
    have hmem := (mem_roots nodes).mpr hr
    obtain ⟨init, last, hsplit⟩ := List.eq_nil_or_concat (treeMaps nodes).roots |>.resolve_left
      (List.ne_nil_of_mem hmem)
    rw [List.concat_eq_append] at hsplit
    have hlast : last = r := by
      have hle := hgreatest last ((mem_roots nodes).mp (by simp [hsplit]))
      have hsorted := sorted_sortUnstable (nodes.foldl addNode ⟨∅, ∅, []⟩).roots
      change (treeMaps nodes).roots.Pairwise (· ≤ ·) at hsorted
      rw [hsplit, List.pairwise_append] at hsorted
      rw [hsplit, List.mem_append, List.mem_singleton] at hmem
      rcases hmem with hinit | heq
      · have := hsorted.2.2 r hinit last (List.mem_singleton_self last)
        omega
      · exact heq.symm
    rw [hsplit, hlast] at hwalk
    obtain ⟨l₁, l₂, hl, -, h₂⟩ := hwalk.exists_append
    refine ⟨l₁, l₂, hl, ?_⟩
    intro w
    rw [h₂.mem_single_iff, below_iff]

end Built

/-! ### Times -/

/-- Of `n` times from 1 on an interval has those of its places, if it does not end in the time
that wraps or is that time alone. -/
theorem interval_iff {n a m k : ℕ} (hn : n ≤ 2 ^ 32) (hm : 1 ≤ m) (ham : a + m ≤ n) (hk : k < n)
    (hwrap : n < 2 ^ 32 ∨ (a + m = n → m = 1)) :
    (1 + a) % 2 ^ 32 ≤ (1 + k) % 2 ^ 32 ∧ (1 + k) % 2 ^ 32 ≤ (a + m) % 2 ^ 32 ↔
      a ≤ k ∧ k < a + m := by
  rcases hwrap with hlt | hone
  · omega
  · by_cases hend : a + m = n
    · have := hone hend
      omega
    · omega

/-- Every number between two ends of an interval is a time of it. -/
theorem exists_time {n a m t : ℕ} (hn : n ≤ 2 ^ 32) (hm : 1 ≤ m) (ham : a + m ≤ n)
    (hwrap : n < 2 ^ 32 ∨ (a + m = n → m = 1)) (hle : (1 + a) % 2 ^ 32 ≤ t)
    (hge : t ≤ (a + m) % 2 ^ 32) : ∃ k < n, t = (1 + k) % 2 ^ 32 := by
  by_cases hend : a + m = 2 ^ 32
  · have hone : m = 1 := by
      rcases hwrap with hlt | hone
      · omega
      · exact hone (by omega)
    exact ⟨a, by omega, by omega⟩
  · exact ⟨t - 1, by omega, by omega⟩

theorem length_le_of_lt {l : List ℕ} {n : ℕ} (hnodup : l.Nodup) (hlt : ∀ v ∈ l, v < n) :
    l.length ≤ n := by
  have hsub : l ⊆ List.range n := fun v hv => List.mem_range.mpr (hlt v hv)
  have hle := (hnodup.subperm hsub).length_le
  rwa [List.length_range] at hle

section Intervals
variable {nodes : List NodeTuple} {l : List ℕ} {zone : CsrGraphZone}

/-- The number of nodes that roots reach. -/
noncomputable def reached (nodes : List NodeTuple) : ℕ := {v | Reachable nodes v}.ncard

/-- The timer does not wrap, or only when the last root is entered, which then has no child. -/
def TimerSuffices (nodes : List NodeTuple) : Prop :=
  reached nodes < 2 ^ 32 ∨
    ∃ r, IsRoot nodes r ∧ (∀ r', IsRoot nodes r' → r' ≤ r) ∧ ∀ v, ¬Child nodes r v

namespace Built
variable (h : Built nodes l zone)
include h

theorem length_eq : l.length = reached nodes := by
  have hset : {v | Reachable nodes v} = (l.toFinset : Set ℕ) := by
    ext v
    rw [Set.mem_ofPred_eq, Finset.mem_coe, List.mem_toFinset, h.mem]
  rw [reached, hset, Set.ncard_coe_finset, List.toFinset_card_of_nodup h.nodup]

theorem mem_of_lookup {v : ℕ} {x : EulerTreeNode} (hx : zone.eulerNodes.lookup v = some x) :
    v ∈ l := by
  by_contra hv
  rw [h.outside v hv] at hx
  simp at hx

theorem exists_node {v : ℕ} (hv : v ∈ l) : ∃ x, zone.eulerNodes.lookup v = some x := by
  obtain ⟨-, -, -, x, -, -, hx, -⟩ := h.interval v hv
  exact ⟨x, hx⟩

/-- The node at a place was entered at the time after it. -/
theorem tin_eq {k v : ℕ} {x : EulerTreeNode} (hk : l[k]? = some v)
    (hx : zone.eulerNodes.lookup v = some x) : x.tin = (1 + k) % 2 ^ 32 := by
  obtain ⟨before, m, after, x', hl, -, hx', htin, -⟩ := h.interval v (List.mem_of_getElem? hk)
  have hplace : l[before.length]? = some v := by
    rw [hl, List.append_assoc, List.getElem?_append_right le_rfl, Nat.sub_self]
    rfl
  obtain ⟨hlt, -⟩ := List.getElem?_eq_some_iff.mp hk
  have heq := (List.getElem?_inj hlt h.nodup).mp (hk.trans hplace.symm)
  rw [hx] at hx'
  cases hx'
  rw [htin, heq]

/-- Where the last root has no child, an interval that ends last is of one node. -/
theorem single_of_last (hids : (nodes.map Prod.fst).Nodup) {r : ℕ} (hr : IsRoot nodes r)
    (hgreatest : ∀ r', IsRoot nodes r' → r' ≤ r) (hchild : ∀ v, ¬Child nodes r v)
    {before m : List ℕ} {v : ℕ} (hl : l = before ++ v :: m)
    (hm : ∀ w, w ∈ v :: m ↔ Descendant nodes v w) : m = [] := by
  obtain ⟨init, tree, hl', htree⟩ := h.last r hr hgreatest
  have honly : ∀ w, Descendant nodes r w → w = r := by
    intro w hw
    rcases Relation.ReflTransGen.cases_head hw with heq | ⟨c, hc, -⟩
    · exact heq.symm
    · exact absurd hc (hchild c)
  have hrtree : r ∈ tree := (htree r).mpr Relation.ReflTransGen.refl
  -- The last node of the walk is the last root, so it is below `v`.
  have hlast : l.getLast? = some r := by
    obtain ⟨z, hz⟩ := Option.ne_none_iff_exists'.mp (mt List.getLast?_eq_none_iff.mp
      (List.ne_nil_of_mem hrtree))
    rw [hl', List.getLast?_append, hz, Option.some_or,
      honly z ((htree z).mp (List.mem_of_getLast? hz))]
  have hrm : r ∈ v :: m := by
    rw [hl, List.getLast?_append_of_ne_nil _ (List.cons_ne_nil v m)] at hlast
    exact List.mem_of_getLast? hlast
  have hv : v = r := eq_of_descendant_root hids hr ((hm r).mp hrm)
  rw [List.eq_nil_iff_forall_not_mem]
  intro w hw
  have hw' : w = r := honly w (hv ▸ (hm w).mp (List.mem_cons_of_mem v hw))
  have hnodup := h.nodup
  rw [hl, List.nodup_append] at hnodup
  exact (List.nodup_cons.mp hnodup.2.1).1 (hv.trans hw'.symm ▸ hw)

theorem length_le (hsmall : ∀ node ∈ nodes, node.1 < 2 ^ 32) : l.length ≤ 2 ^ 32 := by
  apply length_le_of_lt h.nodup
  intro v hv
  obtain ⟨r, hr, hbelow⟩ := (h.mem v).mp hv
  rcases Relation.ReflTransGen.cases_tail hbelow with rfl | ⟨p, -, attr, hp⟩
  · obtain ⟨attr, hr⟩ := hr
    exact hsmall _ hr
  · exact hsmall _ hp

/-- With a timer that suffices the places of an interval are its times. -/
theorem exists_places (hids : (nodes.map Prod.fst).Nodup) (htimer : TimerSuffices nodes) {u : ℕ}
    {x : EulerTreeNode} (hx : zone.eulerNodes.lookup u = some x) : ∃ a m, 1 ≤ m ∧ a + m ≤ l.length ∧
      x.tin = (1 + a) % 2 ^ 32 ∧ x.tout = (a + m) % 2 ^ 32 ∧
      (l.length < 2 ^ 32 ∨ (a + m = l.length → m = 1)) ∧
      ∀ k v, l[k]? = some v → (Descendant nodes u v ↔ a ≤ k ∧ k < a + m) := by
  obtain ⟨before, m, after, x', hl, hm, hx', htin, htout, -⟩ := h.interval u (h.mem_of_lookup hx)
  rw [hx] at hx'
  cases hx'
  have hlen : l.length = before.length + (m.length + 1) + after.length := by
    rw [hl]
    simp only [List.length_append, List.length_cons]
  refine ⟨before.length, m.length + 1, by omega, by omega, htin, htout, ?_, ?_⟩
  · rcases htimer with hlt | ⟨r, hr, hgreatest, hchild⟩
    · exact Or.inl (h.length_eq ▸ hlt)
    · right
      intro hend
      have hafter : after = [] := List.eq_nil_of_length_eq_zero (by omega)
      rw [hafter, List.append_nil] at hl
      rw [h.single_of_last hids hr hgreatest hchild hl hm]
      rfl
  · intro k v hk
    rw [← hm v, mem_segment_iff hl h.nodup hk, List.length_cons]

end Built
end Intervals

/-! ### Subtrees -/

/-- What the intervals of a zone are for. -/
structure SubtreesByInterval (nodes : List NodeTuple) (zone : CsrGraphZone) : Prop where
  entered : ∀ v, (zone.eulerNodes.lookup v).isSome ↔ Reachable nodes v
  contains : ∀ u v x y, zone.eulerNodes.lookup u = some x → zone.eulerNodes.lookup v = some y →
    (x.containsInSubtree y = true ↔ Descendant nodes u v)
  inherits : ∀ v x, zone.eulerNodes.lookup v = some x →
    ∀ a, Inherits nodes v a ↔ a = x.inheritedAttributeId
  descendants : ∀ u v, v ∈ filterSubtreeDescendants zone u ↔
    Reachable nodes u ∧ Descendant nodes u v
  ascending : ∀ u, (filterSubtreeDescendants zone u).Pairwise (· < ·)

/-- The rows that a filter selects are those whose time is that of a node of the subtree. -/
def RowsBySubtree (nodes : List NodeTuple) (zone : CsrGraphZone) (rows : List ℕ) : Prop :=
  ∀ u, (filterRowsInSubtreeVectorized zone u rows).Pairwise (· < ·) ∧
    ∀ i, i ∈ filterRowsInSubtreeVectorized zone u rows ↔ Reachable nodes u ∧
      ∃ v x, Descendant nodes u v ∧ zone.eulerNodes.lookup v = some x ∧ rows[i]? = some x.tin

/-- Of the rows whose place takes more than 32 bits none has the time of a node. -/
def RowsSuffice (nodes : List NodeTuple) (rows : List ℕ) : Prop :=
  ∀ i t, 2 ^ 32 ≤ i → rows[i]? = some t → ¬∃ k < reached nodes, t = (1 + k) % 2 ^ 32

theorem containsInSubtree_iff {x y : EulerTreeNode} :
    x.containsInSubtree y = true ↔ x.tin ≤ y.tin ∧ y.tin ≤ x.tout := by
  rw [EulerTreeNode.containsInSubtree, Bool.and_eq_true, decide_eq_true_eq, decide_eq_true_eq]

theorem mem_filterSubtreeDescendants {zone : CsrGraphZone} {u v : ℕ} :
    v ∈ filterSubtreeDescendants zone u ↔ ∃ x y, zone.eulerNodes.lookup u = some x ∧
      zone.eulerNodes.lookup v = some y ∧ x.containsInSubtree y = true := by
  rw [filterSubtreeDescendants]
  cases hx : zone.eulerNodes.lookup u with
  | none => simp
  | some x =>
    simp only [mem_sortUnstable, List.mem_map, List.mem_filter]
    constructor
    · rintro ⟨⟨v', y⟩, ⟨hentry, hcontains⟩, rfl⟩
      exact ⟨x, y, rfl, OrdMap.lookup_eq_some.mpr hentry, hcontains⟩
    · rintro ⟨x', y, hx', hy, hcontains⟩
      cases hx'
      exact ⟨(v, y), ⟨OrdMap.lookup_eq_some.mp hy, hcontains⟩, rfl⟩

/-- Descendants are listed once each, in ascending order. -/
theorem filterSubtreeDescendants_ascending (zone : CsrGraphZone) (u : ℕ) :
    (filterSubtreeDescendants zone u).Pairwise (· < ·) := by
  rw [filterSubtreeDescendants]
  cases zone.eulerNodes.lookup u with
  | none => exact List.Pairwise.nil
  | some x =>
    dsimp only
    have hnodup : ((zone.eulerNodes.entries.filter fun e =>
        x.containsInSubtree e.2).map Prod.fst).Nodup := by
      apply List.Nodup.sublist (List.filter_sublist.map Prod.fst)
      exact zone.eulerNodes.keys_nodup
    apply ((sorted_sortUnstable _).and (nodup_sortUnstable.mpr hnodup)).imp
    intro a b hab
    exact lt_of_le_of_ne hab.1 hab.2

theorem exists_greatest_root {nodes : List NodeTuple} {v : ℕ} (hv : Reachable nodes v) :
    ∃ r, IsRoot nodes r ∧ ∀ r', IsRoot nodes r' → r' ≤ r := by
  obtain ⟨r, hr, -⟩ := hv
  have hmem : ∀ w, w ∈ (treeMaps nodes).roots.toFinset ↔ IsRoot nodes w := by
    intro w
    rw [List.mem_toFinset, mem_roots]
  obtain ⟨g, hg, hmax⟩ := Finset.exists_max_image _ id ⟨r, (hmem r).mpr hr⟩
  exact ⟨g, (hmem g).mp hg, fun r' hr' => hmax r' ((hmem r').mpr hr')⟩

theorem mem_filterRows {zone : CsrGraphZone} {u i : ℕ} {rows : List ℕ} :
    i ∈ filterRowsInSubtreeVectorized zone u rows ↔ ∃ x, zone.eulerNodes.lookup u = some x ∧
      ∃ j t, rows[j]? = some t ∧ x.tin ≤ t ∧ t ≤ x.tout ∧ i = j % 2 ^ 32 := by
  rw [filterRowsInSubtreeVectorized]
  cases zone.eulerNodes.lookup u with
  | none => simp
  | some x =>
    simp only [filterChunks_eq, List.mem_map, List.mem_filter, List.mem_range, inInterval,
      Nat.zero_mul, Nat.zero_add, Option.any_eq_true, decide_eq_true_eq]
    constructor
    · rintro ⟨j, ⟨-, t, hj, hle, hge⟩, rfl⟩
      exact ⟨x, rfl, j, t, hj, hle, hge, rfl⟩
    · rintro ⟨x', hx', j, t, hj, hle, hge, rfl⟩
      cases hx'
      exact ⟨j, ⟨(List.getElem?_eq_some_iff.mp hj).1, t, hj, hle, hge⟩, rfl⟩

section Subtrees
variable {nodes : List NodeTuple} {l : List ℕ} {zone : CsrGraphZone}
  (h : Built nodes l zone) (hsmall : ∀ node ∈ nodes, node.1 < 2 ^ 32)
  (hids : (nodes.map Prod.fst).Nodup)
include h hsmall

/-- Times of two nodes are the same only for the same node. -/
theorem Built.tin_injective {v w : ℕ} {y z : EulerTreeNode}
    (hy : zone.eulerNodes.lookup v = some y) (hz : zone.eulerNodes.lookup w = some z)
    (heq : y.tin = z.tin) : v = w := by
  obtain ⟨k, hk⟩ := List.mem_iff_getElem?.mp (h.mem_of_lookup hy)
  obtain ⟨k', hk'⟩ := List.mem_iff_getElem?.mp (h.mem_of_lookup hz)
  have hlt := (List.getElem?_eq_some_iff.mp hk).1
  have hlt' := (List.getElem?_eq_some_iff.mp hk').1
  have hlen := h.length_le hsmall
  rw [h.tin_eq hk hy, h.tin_eq hk' hz] at heq
  have hsame : k = k' := by omega
  rw [hsame, hk'] at hk
  exact (Option.some.inj hk).symm

include hids

/-- With a timer that suffices the times of an interval are those of the nodes below. -/
theorem Built.time_iff (htimer : TimerSuffices nodes) {u : ℕ} {x : EulerTreeNode}
    (hx : zone.eulerNodes.lookup u = some x) (t : ℕ) : x.tin ≤ t ∧ t ≤ x.tout ↔
      ∃ v y, Descendant nodes u v ∧ zone.eulerNodes.lookup v = some y ∧ t = y.tin := by
  obtain ⟨a, m, hm, ham, htin, htout, hwrap, hplaces⟩ := h.exists_places hids htimer hx
  have hlen := h.length_le hsmall
  rw [htin, htout]
  constructor
  · rintro ⟨hle, hge⟩
    obtain ⟨k, hk, rfl⟩ := exists_time hlen hm ham hwrap hle hge
    have hget := List.getElem?_eq_getElem hk
    obtain ⟨y, hy⟩ := h.exists_node (List.mem_of_getElem? hget)
    have hdesc := (hplaces k _ hget).mpr ((interval_iff hlen hm ham hk hwrap).mp ⟨hle, hge⟩)
    exact ⟨_, y, hdesc, hy, (h.tin_eq hget hy).symm⟩
  · rintro ⟨v, y, hdesc, hy, rfl⟩
    obtain ⟨k, hget⟩ := List.mem_iff_getElem?.mp (h.mem_of_lookup hy)
    have hk := (List.getElem?_eq_some_iff.mp hget).1
    rw [h.tin_eq hget hy]
    exact (interval_iff hlen hm ham hk hwrap).mpr ((hplaces k v hget).mp hdesc)

theorem Built.subtreesByInterval (htimer : TimerSuffices nodes) :
    SubtreesByInterval nodes zone := by
  have hcontains : ∀ u v x y, zone.eulerNodes.lookup u = some x →
      zone.eulerNodes.lookup v = some y →
      (x.containsInSubtree y = true ↔ Descendant nodes u v) := by
    intro u v x y hx hy
    rw [containsInSubtree_iff, h.time_iff hsmall hids htimer hx]
    constructor
    · rintro ⟨w, z, hdesc, hz, heq⟩
      exact h.tin_injective hsmall hy hz heq ▸ hdesc
    · intro hdesc
      exact ⟨v, y, hdesc, hy, rfl⟩
  constructor
  · intro v
    rw [← h.mem, Option.isSome_iff_exists]
    exact ⟨fun ⟨_, hx⟩ => h.mem_of_lookup hx, h.exists_node⟩
  · exact hcontains
  · intro v x hx a
    obtain ⟨-, -, -, x', -, -, hx', -, -, hattr⟩ := h.interval v (h.mem_of_lookup hx)
    rw [hx] at hx'
    cases hx'
    exact ⟨fun ha => inherits_unique hids ha hattr, fun ha => ha ▸ hattr⟩
  · intro u v
    rw [mem_filterSubtreeDescendants]
    constructor
    · rintro ⟨x, y, hx, hy, hin⟩
      exact ⟨(h.mem u).mp (h.mem_of_lookup hx), (hcontains u v x y hx hy).mp hin⟩
    · rintro ⟨⟨r, hr, hu⟩, hdesc⟩
      obtain ⟨x, hx⟩ := h.exists_node ((h.mem u).mpr ⟨r, hr, hu⟩)
      obtain ⟨y, hy⟩ := h.exists_node ((h.mem v).mpr ⟨r, hr, hu.trans hdesc⟩)
      exact ⟨x, y, hx, hy, (hcontains u v x y hx hy).mpr hdesc⟩
  · exact filterSubtreeDescendants_ascending zone

/-- An interval that wraps does not hold its own node. -/
theorem Built.timerSuffices (hsub : SubtreesByInterval nodes zone) : TimerSuffices nodes := by
  by_contra hnot
  rw [TimerSuffices, not_or] at hnot
  obtain ⟨hfull, hnone⟩ := hnot
  have hlen : l.length = 2 ^ 32 := by
    have := h.length_le hsmall
    have := h.length_eq
    omega
  have hpos : 0 < l.length := by omega
  obtain ⟨v, hv⟩ := List.exists_mem_of_length_pos hpos
  obtain ⟨r, hr, hgreatest⟩ := exists_greatest_root ((h.mem v).mp hv)
  apply hnone
  refine ⟨r, hr, hgreatest, ?_⟩
  intro c hc
  have hreach : Reachable nodes r := ⟨r, hr, Relation.ReflTransGen.refl⟩
  obtain ⟨before, m, after, x, hl, hm, hx, htin, htout, -⟩ := h.interval r ((h.mem r).mpr hreach)
  obtain ⟨init, tree, hl', htree⟩ := h.last r hr hgreatest
  -- The interval of the last root ends with the last node.
  have hlast : before.length + (m.length + 1) = 2 ^ 32 := by
    have hget := List.getElem?_eq_getElem (Nat.sub_one_lt_of_lt hpos)
    have hrtree : r ∈ tree := (htree r).mpr Relation.ReflTransGen.refl
    have htreePos := List.length_pos_of_mem hrtree
    have hlen' := congrArg List.length hl'
    have hlenM := congrArg List.length hl
    simp only [List.length_append, List.length_cons] at hlen' hlenM
    rw [← List.append_nil (init ++ tree)] at hl'
    have hz := (mem_segment_iff hl' h.nodup hget).mpr (by omega)
    have hzm := (mem_segment_iff hl h.nodup hget).mp ((hm _).mpr ((htree _).mp hz))
    rw [List.length_cons] at hzm
    omega
  have hne : m ≠ [] := by
    rintro rfl
    have hcr := (hm c).mpr (Relation.ReflTransGen.single hc)
    rw [List.mem_singleton] at hcr
    obtain ⟨attr, hc⟩ := hc
    obtain ⟨attr', hr⟩ := hr
    simpa using tuple_unique hids hc hr hcr
  have hmPos := List.length_pos_iff_ne_nil.mpr hne
  have hself := containsInSubtree_iff.mp ((hsub.contains r r x x hx hx).mpr
    Relation.ReflTransGen.refl)
  rw [htin, htout] at hself
  omega

theorem Built.rowsBySubtree (htimer : TimerSuffices nodes) {rows : List ℕ}
    (hrows : RowsSuffice nodes rows) : RowsBySubtree nodes zone rows := by
  -- A row in an interval has the time of a node, so its place has at most 32 bits.
  have hplace : ∀ {u x j t}, zone.eulerNodes.lookup u = some x → rows[j]? = some t →
      x.tin ≤ t ∧ t ≤ x.tout → j < 2 ^ 32 := by
    intro u x j t hx hj hin
    by_contra hge
    apply hrows j t (not_lt.mp hge) hj
    obtain ⟨v, y, -, hy, rfl⟩ := (h.time_iff hsmall hids htimer hx t).mp hin
    obtain ⟨k, hk⟩ := List.mem_iff_getElem?.mp (h.mem_of_lookup hy)
    exact ⟨k, h.length_eq ▸ (List.getElem?_eq_some_iff.mp hk).1, h.tin_eq hk hy⟩
  intro u
  constructor
  · rw [filterRowsInSubtreeVectorized]
    cases hx : zone.eulerNodes.lookup u with
    | none => exact List.Pairwise.nil
    | some x =>
      dsimp only
      rw [filterChunks_eq]
      have hsame : ((List.range rows.length).filter (inInterval x.tin x.tout rows)).map
          (fun j => (0 * 16 + j) % 2 ^ 32) =
          (List.range rows.length).filter (inInterval x.tin x.tout rows) := by
        rw [List.map_congr_left, List.map_id]
        intro j hj
        have hin := (List.mem_filter.mp hj).2
        rw [inInterval, Option.any_eq_true] at hin
        obtain ⟨t, ht, hin⟩ := hin
        have hlt := hplace hx ht (of_decide_eq_true hin)
        rw [Nat.zero_mul, Nat.zero_add, Nat.mod_eq_of_lt hlt]
        rfl
      rw [hsame]
      exact List.pairwise_lt_range.sublist List.filter_sublist
  · intro i
    rw [mem_filterRows]
    constructor
    · rintro ⟨x, hx, j, t, hj, hle, hge, rfl⟩
      have hlt := hplace hx hj ⟨hle, hge⟩
      obtain ⟨v, y, hdesc, hy, rfl⟩ := (h.time_iff hsmall hids htimer hx t).mp ⟨hle, hge⟩
      rw [Nat.mod_eq_of_lt hlt]
      exact ⟨(h.mem u).mp (h.mem_of_lookup hx), v, y, hdesc, hy, hj⟩
    · rintro ⟨hu, v, y, hdesc, hy, hi⟩
      obtain ⟨x, hx⟩ := h.exists_node ((h.mem u).mpr hu)
      obtain ⟨hle, hge⟩ := (h.time_iff hsmall hids htimer hx y.tin).mpr ⟨v, y, hdesc, hy, rfl⟩
      exact ⟨x, hx, i, y.tin, hi, hle, hge, (Nat.mod_eq_of_lt (hplace hx hi ⟨hle, hge⟩)).symm⟩

omit hsmall hids in
/-- A row whose place takes more bits is never selected. -/
theorem Built.rowsSuffice {rows : List ℕ} (hrows : RowsBySubtree nodes zone rows) :
    RowsSuffice nodes rows := by
  rintro i t hi hrow ⟨k, hk, rfl⟩
  have hget := List.getElem?_eq_getElem (h.length_eq ▸ hk)
  have hmem := List.mem_of_getElem? hget
  obtain ⟨y, hy⟩ := h.exists_node hmem
  rw [← h.tin_eq hget hy] at hrow
  have hselected := ((hrows _).2 i).mpr
    ⟨(h.mem _).mp hmem, _, y, Relation.ReflTransGen.refl, hy, hrow⟩
  obtain ⟨-, -, j, -, -, -, -, rfl⟩ := mem_filterRows.mp hselected
  have := Nat.mod_lt j (show 0 < 2 ^ 32 by norm_num)
  omega

end Subtrees

/-- A build always ends. Its intervals tell subtrees apart, and the filters select them, exactly
when the timer suffices for the nodes and 32 bits for the places of the rows. -/
theorem subtrees_by_interval_iff {nodes : List NodeTuple} (hids : (nodes.map Prod.fst).Nodup)
    (hsmall : ∀ node ∈ nodes, node.1 < 2 ^ 32) (rows : List ℕ) :
    ∃ zone, buildHierarchicalEulerTree ⟨∅⟩ nodes = some zone ∧
      (SubtreesByInterval nodes zone ∧ RowsBySubtree nodes zone rows ↔
        TimerSuffices nodes ∧ RowsSuffice nodes rows) := by
  obtain ⟨l, zone, hbuild, h⟩ := exists_built hids
  refine ⟨zone, hbuild, ?_⟩
  constructor
  · rintro ⟨hsub, hrows⟩
    exact ⟨h.timerSuffices hsmall hids hsub, h.rowsSuffice hrows⟩
  · rintro ⟨htimer, hrows⟩
    exact ⟨h.subtreesByInterval hsmall hids htimer, h.rowsBySubtree hsmall hids htimer hrows⟩

/-- A tree, an orphan and two nodes on a cycle. -/
def threeHierarchies : List NodeTuple :=
  [(0, none, some 7), (1, some 0, none), (2, some 9, none), (3, some 4, none), (4, some 3, none)]

theorem three_hierarchies :
    ∃ zone, buildHierarchicalEulerTree ⟨∅⟩ threeHierarchies = some zone ∧
      (SubtreesByInterval threeHierarchies zone ∧ RowsBySubtree threeHierarchies zone [2, 5, 1] ↔
        TimerSuffices threeHierarchies ∧ RowsSuffice threeHierarchies [2, 5, 1]) :=
  subtrees_by_interval_iff (by decide) (by decide) [2, 5, 1]

/-- The last of 2³² + 1 rows of one root is not selected. -/
theorem last_row_is_lost :
    ¬∃ zone, buildHierarchicalEulerTree ⟨∅⟩ [(0, none, none)] = some zone ∧
      SubtreesByInterval [(0, none, none)] zone ∧
      RowsBySubtree [(0, none, none)] zone (List.replicate (2 ^ 32 + 1) 1) := by
  rintro ⟨zone, hbuild, -, hrows⟩
  obtain ⟨l, zone', hbuild', h⟩ := @exists_built [(0, none, none)] (by decide)
  rw [hbuild] at hbuild'
  cases hbuild'
  have hroot : Reachable [(0, none, none)] 0 :=
    ⟨0, ⟨none, List.mem_singleton_self _⟩, Relation.ReflTransGen.refl⟩
  have hpos := List.length_pos_of_mem ((h.mem 0).mpr hroot)
  rw [h.length_eq] at hpos
  apply h.rowsSuffice hrows (2 ^ 32) 1 le_rfl _ ⟨0, hpos, rfl⟩
  rw [List.getElem?_replicate, if_pos (Nat.lt_succ_self _)]

end MetriEngine.Storage.CsrGraph

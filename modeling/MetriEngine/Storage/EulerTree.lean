import MetriEngine.Foundation.Bitmap
import MetriEngine.Foundation.OrdMap
import MetriEngine.Foundation.Walks

/-!
# Intervals for a hierarchy

A hierarchy is a list of nodes with their parents. A walk in depth gives each node that a root
reaches the time at which it was entered and the last time at which a node below it was; nodes
whose parent is missing, and those on a cycle, are never entered. One timer of 32 bits runs
through all trees and wraps. Rows are filtered by the times of their nodes, sixteen at once.

Of the zone only the intervals are kept here; the edges have no part in this.
-/
namespace MetriEngine.Storage.CsrGraph
open Foundation

/-- `(node_id, parent_id, own_inherited_attr_id)` -/
abbrev NodeTuple := ℕ × Option ℕ × Option ℕ

structure EulerTreeNode where
  tin : ℕ
  tout : ℕ
  inheritedAttributeId : ℕ
  depth : ℕ
  flags : ℕ
deriving DecidableEq

def EulerTreeNode.containsInSubtree (self other : EulerTreeNode) : Bool :=
  self.tin ≤ other.tin && other.tin ≤ self.tout

/-- The intervals of a zone. -/
structure CsrGraphZone where
  eulerNodes : OrdMap ℕ EulerTreeNode
deriving DecidableEq

/-! ### The walk -/

/-- What the walk looks up. -/
structure TreeMaps where
  childrenMap : OrdMap ℕ (List ℕ)
  ownAttrMap : OrdMap ℕ (Option ℕ)
  roots : List ℕ

/-- The entry of one node in the maps. -/
def addNode (maps : TreeMaps) (node : NodeTuple) : TreeMaps :=
  let maps := { maps with ownAttrMap := maps.ownAttrMap.insert node.1 node.2.2 }
  match node.2.1 with
  | some parentId =>
    let siblings := (maps.childrenMap.lookup parentId).getD []
    { maps with childrenMap := maps.childrenMap.insert parentId (siblings ++ [node.1]) }
  | none => { maps with roots := maps.roots ++ [node.1] }

/-- `sort_unstable` of numbers. -/
def sortUnstable (ids : List ℕ) : List ℕ := ids.mergeSort fun a b => decide (a ≤ b)

def treeMaps (nodes : List NodeTuple) : TreeMaps :=
  let maps := nodes.foldl addNode ⟨∅, ∅, []⟩
  { maps with
    roots := sortUnstable maps.roots
    childrenMap := maps.childrenMap.mapValues sortUnstable }

def TreeMaps.children (maps : TreeMaps) (u : ℕ) : List ℕ := (maps.childrenMap.lookup u).getD []

def TreeMaps.ownAttr (maps : TreeMaps) (u : ℕ) : Option ℕ := (maps.ownAttrMap.lookup u).bind id

structure DfsState where
  timer : ℕ
  eulerNodes : OrdMap ℕ EulerTreeNode

/-- One call of `dfs_euler`; nothing when calls are nested deeper than `fuel`. -/
def dfsEuler (maps : TreeMaps) : ℕ → ℕ → ℕ → ℕ → DfsState → Option DfsState
  | 0, _, _, _, _ => none
  | fuel + 1, u, depth, inheritedAttr, s =>
    let tin := s.timer
    let effectiveAttr := (maps.ownAttr u).getD inheritedAttr
    let children := maps.children u
    let entered : DfsState := { s with timer := (s.timer + 1) % 2 ^ 32 }
    (children.foldlM (fun s v => dfsEuler maps fuel v ((depth + 1) % 2 ^ 16) effectiveAttr s)
      entered).map fun s =>
        let tout := (s.timer + (2 ^ 32 - 1)) % 2 ^ 32
        let flags := if children.isEmpty then 0 else 1
        { s with eulerNodes := s.eulerNodes.insert u ⟨tin, tout, effectiveAttr, depth, flags⟩ }

/-- Calls may be nested as deep as there are nodes. -/
def buildHierarchicalEulerTree (zone : CsrGraphZone) (nodes : List NodeTuple) :
    Option CsrGraphZone :=
  let maps := treeMaps nodes
  (maps.roots.foldlM (fun s root => dfsEuler maps nodes.length root 0 0 s)
    (⟨1, zone.eulerNodes⟩ : DfsState)).map fun s => ⟨s.eulerNodes⟩

/-! ### Filters -/

def filterSubtreeDescendants (zone : CsrGraphZone) (rootId : ℕ) : List ℕ :=
  match zone.eulerNodes.lookup rootId with
  | none => []
  | some rootEuler =>
    sortUnstable ((zone.eulerNodes.entries.filter fun e =>
      rootEuler.containsInSubtree e.2).map Prod.fst)

/-- The lanes of a mask from the lowest on; sixteen turns are enough for sixteen bits. -/
def popLanes : ℕ → BitVec 16 → List ℕ
  | 0, _ => []
  | turns + 1, laneMask =>
    if laneMask = 0 then []
    else laneMask.ctz.toNat :: popLanes turns (laneMask &&& (laneMask - 1))

/-- The mask of the rows of a chunk that lie in the interval. -/
def laneMask (tinU toutU : ℕ) (chunk : List ℕ) : BitVec 16 :=
  chunk.zipIdx.foldl (fun mask entry =>
    if tinU ≤ entry.1 ∧ entry.1 ≤ toutU then mask ||| 1#16 <<< entry.2 else mask) 0

def filterChunks (tinU toutU : ℕ) (chunkIdx : ℕ) (rows : List ℕ) : List ℕ :=
  if h : rows = [] then []
  else
    let base := chunkIdx * 16 % 2 ^ 32
    (popLanes 16 (laneMask tinU toutU (rows.take 16))).map (base + ·) ++
      filterChunks tinU toutU (chunkIdx + 1) (rows.drop 16)
termination_by rows.length
decreasing_by
  have := List.length_pos_iff_ne_nil.mpr h
  rw [List.length_drop]
  omega

def filterRowsInSubtreeVectorized (zone : CsrGraphZone) (rootId : ℕ) (rowLocationTins : List ℕ) :
    List ℕ :=
  match zone.eulerNodes.lookup rootId with
  | none => []
  | some rootEuler => filterChunks rootEuler.tin rootEuler.tout 0 rowLocationTins

/-! ### What the maps hold -/

/-- Of each node the children in the order of the list. -/
def listedChildren (nodes : List NodeTuple) (u : ℕ) : List ℕ :=
  nodes.filterMap fun node => if node.2.1 = some u then some node.1 else none

def listedRoots (nodes : List NodeTuple) : List ℕ :=
  nodes.filterMap fun node => if node.2.1 = none then some node.1 else none

/-- The maps after these nodes, before they are sorted. -/
structure Listed (nodes : List NodeTuple) (maps : TreeMaps) : Prop where
  children : ∀ u, (maps.childrenMap.lookup u).getD [] = listedChildren nodes u
  roots : maps.roots = listedRoots nodes
  own : ∀ v, v ∉ nodes.map Prod.fst → maps.ownAttrMap.lookup v = none
  own_mem : (nodes.map Prod.fst).Nodup →
    ∀ node ∈ nodes, maps.ownAttrMap.lookup node.1 = some node.2.2

theorem Listed.addNode {nodes : List NodeTuple} {maps : TreeMaps} (h : Listed nodes maps)
    (node : NodeTuple) : Listed (nodes ++ [node]) (CsrGraph.addNode maps node) := by
  obtain ⟨id, parent, attr⟩ := node
  have hown : (CsrGraph.addNode maps (id, parent, attr)).ownAttrMap =
      maps.ownAttrMap.insert id attr := by
    cases parent <;> rfl
  constructor
  · intro u
    cases parent with
    | none => simpa [CsrGraph.addNode, listedChildren] using h.children u
    | some p =>
      have hu := h.children u
      by_cases heq : u = p
      · subst heq
        simp [CsrGraph.addNode, listedChildren] at hu ⊢
        exact hu
      · simp [CsrGraph.addNode, listedChildren, heq, Ne.symm heq] at hu ⊢
        exact hu
  · cases parent with
    | none => simp [CsrGraph.addNode, listedRoots, h.roots]
    | some p => simp [CsrGraph.addNode, listedRoots, h.roots]
  · intro v hv
    rw [List.map_append, List.mem_append, not_or] at hv
    rw [hown, OrdMap.lookup_insert_of_ne _ _ (by simpa using hv.2)]
    exact h.own v hv.1
  · intro hnodup node hnode
    rw [List.map_append, List.nodup_append] at hnodup
    rw [hown]
    rcases List.mem_append.mp hnode with hold | hnew
    · have hne : node.1 ≠ id := hnodup.2.2 _ (List.mem_map_of_mem hold) id (by simp)
      rw [OrdMap.lookup_insert_of_ne _ _ hne]
      exact h.own_mem hnodup.1 node hold
    · rw [List.mem_singleton.mp hnew, OrdMap.lookup_insert_self]

theorem listed_foldl (nodes : List NodeTuple) :
    Listed nodes (nodes.foldl addNode ⟨∅, ∅, []⟩) := by
  induction nodes using List.reverseRecOn with
  | nil => exact ⟨fun _ => rfl, rfl, fun _ _ => rfl, by simp⟩
  | append_singleton nodes node ih =>
    rw [List.foldl_append]
    exact ih.addNode node

theorem mem_sortUnstable {ids : List ℕ} {v : ℕ} : v ∈ sortUnstable ids ↔ v ∈ ids :=
  List.mem_mergeSort

theorem nodup_sortUnstable {ids : List ℕ} : (sortUnstable ids).Nodup ↔ ids.Nodup :=
  (List.mergeSort_perm ids _).nodup_iff

theorem sorted_sortUnstable (ids : List ℕ) : (sortUnstable ids).Pairwise (· ≤ ·) := by
  have hsorted := @List.pairwise_mergeSort _ (fun a b : ℕ => decide (a ≤ b))
    (fun a b c hab hbc => by
      rw [decide_eq_true_eq] at hab hbc ⊢
      omega)
    (fun a b => by
      simp only [Bool.or_eq_true, decide_eq_true_eq]
      omega) ids
  simpa [sortUnstable] using hsorted

/-! ### Trees -/

section Trees
variable (nodes : List NodeTuple)

def Child (u v : ℕ) : Prop := ∃ attr, (v, some u, attr) ∈ nodes

/-- A node, or one below it. -/
def Descendant : ℕ → ℕ → Prop := Relation.ReflTransGen (Child nodes)

def IsRoot (r : ℕ) : Prop := ∃ attr, (r, none, attr) ∈ nodes

def Reachable (v : ℕ) : Prop := ∃ r, IsRoot nodes r ∧ Descendant nodes r v

/-- The own attribute of the nearest node from `v` upwards that has one, or 0. -/
inductive Inherits : ℕ → ℕ → Prop
  | own {v a : ℕ} {parent : Option ℕ} : (v, parent, some a) ∈ nodes → Inherits v a
  | root {v : ℕ} : (v, none, none) ∈ nodes → Inherits v 0
  | parent {v p a : ℕ} : (v, some p, none) ∈ nodes → Inherits p a → Inherits v a

theorem mem_children {u v : ℕ} : v ∈ (treeMaps nodes).children u ↔ Child nodes u v := by
  have hlisted := (listed_foldl nodes).children u
  have hmem : v ∈ (treeMaps nodes).children u ↔ v ∈ listedChildren nodes u := by
    rw [← hlisted, TreeMaps.children, treeMaps, OrdMap.lookup_mapValues]
    cases (nodes.foldl addNode ⟨∅, ∅, []⟩).childrenMap.lookup u with
    | none => rfl
    | some ids => exact mem_sortUnstable
  rw [hmem, listedChildren, List.mem_filterMap, Child]
  constructor
  · rintro ⟨⟨id, parent, attr⟩, hnode, hif⟩
    split_ifs at hif with hparent
    cases hif
    exact ⟨attr, hparent ▸ hnode⟩
  · rintro ⟨attr, hnode⟩
    exact ⟨_, hnode, if_pos rfl⟩

theorem mem_roots {r : ℕ} : r ∈ (treeMaps nodes).roots ↔ IsRoot nodes r := by
  rw [treeMaps, mem_sortUnstable, (listed_foldl nodes).roots, listedRoots, List.mem_filterMap,
    IsRoot]
  constructor
  · rintro ⟨⟨id, parent, attr⟩, hnode, hif⟩
    split_ifs at hif with hparent
    cases hif
    exact ⟨attr, hparent ▸ hnode⟩
  · rintro ⟨attr, hnode⟩
    exact ⟨_, hnode, if_pos rfl⟩

variable {nodes}

theorem below_iff {u v : ℕ} : Below (treeMaps nodes).children u v ↔ Descendant nodes u v := by
  rw [Below, Descendant]
  have heq : (fun a b => b ∈ (treeMaps nodes).children a) = Child nodes := by
    funext a b
    exact propext (mem_children nodes)
  rw [heq]

variable (hids : (nodes.map Prod.fst).Nodup)
include hids

theorem tuple_unique {node node' : NodeTuple} (h : node ∈ nodes) (h' : node' ∈ nodes)
    (heq : node.1 = node'.1) : node = node' :=
  List.inj_on_of_nodup_map hids h h' heq

theorem ownAttr_eq {v : ℕ} {parent attr : Option ℕ} (h : (v, parent, attr) ∈ nodes) :
    (treeMaps nodes).ownAttr v = attr := by
  rw [TreeMaps.ownAttr]
  change (((nodes.foldl addNode ⟨∅, ∅, []⟩).ownAttrMap.lookup v).bind id) = attr
  rw [(listed_foldl nodes).own_mem hids _ h]
  rfl

omit hids in
theorem filterMap_fst_sublist (p : NodeTuple → Prop) [DecidablePred p] :
    (nodes.filterMap fun node => if p node then some node.1 else none).Sublist
      (nodes.map Prod.fst) := by
  induction nodes with
  | nil => exact List.Sublist.slnil
  | cons node nodes ih =>
    rw [List.filterMap_cons, List.map_cons]
    by_cases hp : p node
    · simp only [hp, if_true]
      exact ih.cons_cons _
    · simp only [hp, if_false]
      exact ih.cons _

theorem nodup_listed (p : NodeTuple → Prop) [DecidablePred p] :
    (nodes.filterMap fun node => if p node then some node.1 else none).Nodup :=
  List.Nodup.sublist (filterMap_fst_sublist p) hids

theorem forest : Forest (treeMaps nodes).children (treeMaps nodes).roots (nodes.map Prod.fst) := by
  constructor
  · intro a a' b hb hb'
    obtain ⟨attr, h⟩ := (mem_children nodes).mp hb
    obtain ⟨attr', h'⟩ := (mem_children nodes).mp hb'
    have heq := tuple_unique hids h h' rfl
    simp only [Prod.mk.injEq, Option.some.injEq, true_and] at heq
    exact heq.1
  · intro r hr a ha
    obtain ⟨attr, h⟩ := (mem_roots nodes).mp hr
    obtain ⟨attr', h'⟩ := (mem_children nodes).mp ha
    have heq := tuple_unique hids h h' rfl
    simp at heq
  · intro u
    have hnodup := nodup_listed hids fun node => node.2.1 = some u
    have hlisted := (listed_foldl nodes).children u
    rw [← listedChildren, ← hlisted] at hnodup
    rw [TreeMaps.children, treeMaps, OrdMap.lookup_mapValues]
    cases hlookup : (nodes.foldl addNode ⟨∅, ∅, []⟩).childrenMap.lookup u with
    | none => exact List.nodup_nil
    | some ids =>
      rw [hlookup] at hnodup
      exact nodup_sortUnstable.mpr hnodup
  · rw [treeMaps, nodup_sortUnstable, (listed_foldl nodes).roots]
    exact nodup_listed hids fun node => node.2.1 = none
  · intro a b hb
    obtain ⟨attr, h⟩ := (mem_children nodes).mp hb
    exact List.mem_map_of_mem h
  · intro r hr
    obtain ⟨attr, h⟩ := (mem_roots nodes).mp hr
    exact List.mem_map_of_mem h

end Trees

/-! ### What a walk records -/

/-- What the calls for the nodes of this walk make of a state: the timer goes on by one for each
node, and each has the interval of those below it and an attribute that suits it. -/
structure Visited (maps : TreeMaps) (suits : ℕ → ℕ → Prop) (l : List ℕ) (s s' : DfsState) :
    Prop where
  timer : s'.timer = (s.timer + l.length) % 2 ^ 32
  others : ∀ w, w ∉ l → s'.eulerNodes.lookup w = s.eulerNodes.lookup w
  interval : ∀ w ∈ l, ∃ before m after node, l = before ++ m ++ after ∧
    Walk maps.children [w] m ∧ s'.eulerNodes.lookup w = some node ∧
    node.tin = (s.timer + before.length) % 2 ^ 32 ∧
    node.tout = (s.timer + before.length + m.length + (2 ^ 32 - 1)) % 2 ^ 32 ∧
    suits w node.inheritedAttributeId

section Walks
variable {maps : TreeMaps} {suits : ℕ → ℕ → Prop}
  (hsuits : ∀ u a v, suits u a → v ∈ maps.children u → suits v ((maps.ownAttr v).getD a))
include hsuits

/-- With as much fuel as there are nodes to visit the calls come to an end. -/
theorem exists_visited {us l : List ℕ} (hwalk : Walk maps.children us l) :
    ∀ {fuel depth inherited : ℕ} {s : DfsState}, l.length ≤ fuel → l.Nodup → s.timer < 2 ^ 32 →
      (∀ u ∈ us, suits u ((maps.ownAttr u).getD inherited)) →
      ∃ s', us.foldlM (fun s v => dfsEuler maps fuel v depth inherited s) s = some s' ∧
        Visited maps suits l s s' := by
  induction hwalk with
  | nil =>
    intro fuel depth inherited s _ _ htimer _
    exact ⟨s, rfl, by rw [List.length_nil, Nat.add_zero, Nat.mod_eq_of_lt htimer],
      fun _ _ => rfl, by simp⟩
  | @cons u us inner rest hinner hrest ihinner ihrest =>
    intro fuel depth inherited s hfuel hnodup htimer hroots
    obtain ⟨fuel, rfl⟩ : ∃ f, fuel = f + 1 := by
      cases fuel with
      | zero => simp at hfuel
      | succ f => exact ⟨f, rfl⟩
    simp only [List.cons_append, List.length_cons, List.length_append] at hfuel
    rw [List.nodup_append] at hnodup
    obtain ⟨hfirst, hnodupRest, hapart⟩ := hnodup
    obtain ⟨hfresh, hnodupInner⟩ := List.nodup_cons.mp hfirst
    have hu := hroots u List.mem_cons_self
    obtain ⟨s₂, hrun, hvisited⟩ := @ihinner fuel ((depth + 1) % 2 ^ 16)
      ((maps.ownAttr u).getD inherited) { s with timer := (s.timer + 1) % 2 ^ 32 } (by omega)
      hnodupInner (Nat.mod_lt _ (by norm_num)) fun v hv => hsuits u _ v hu hv
    set node : EulerTreeNode := ⟨s.timer, (s₂.timer + (2 ^ 32 - 1)) % 2 ^ 32,
      (maps.ownAttr u).getD inherited, depth, if (maps.children u).isEmpty then 0 else 1⟩
      with hnode
    set s₃ : DfsState := { s₂ with eulerNodes := s₂.eulerNodes.insert u node } with hs₃
    have hdfs : dfsEuler maps (fuel + 1) u depth inherited s = some s₃ := by
      rw [dfsEuler]
      dsimp only
      rw [hrun]
      rfl
    have htimer₂ := hvisited.timer
    have hlt : s₃.timer < 2 ^ 32 := by
      change s₂.timer < 2 ^ 32
      rw [htimer₂]
      exact Nat.mod_lt _ (by norm_num)
    obtain ⟨s', hrunRest, hvisitedRest⟩ := @ihrest (fuel + 1) depth inherited s₃ (by omega)
      hnodupRest hlt fun v hv => hroots v (List.mem_cons_of_mem _ hv)
    refine ⟨s', ?_, ?_⟩
    · rw [List.foldlM_cons, hdfs]
      exact hrunRest
    have htimer₃ : s₃.timer = (s.timer + 1 + inner.length) % 2 ^ 32 := by
      change s₂.timer = _
      rw [htimer₂]
      dsimp only
      omega
    constructor
    · rw [hvisitedRest.timer, htimer₃]
      simp only [List.cons_append, List.length_cons, List.length_append]
      omega
    · intro w hw
      rw [List.mem_append, List.mem_cons, not_or, not_or] at hw
      rw [hvisitedRest.others w hw.2]
      change (s₂.eulerNodes.insert u node).lookup w = _
      rw [OrdMap.lookup_insert_of_ne _ _ hw.1.1, hvisited.others w hw.1.2]
    · intro w hw
      rcases List.mem_append.mp hw with hw | hw
      · have hafter : s'.eulerNodes.lookup w = s₃.eulerNodes.lookup w :=
          hvisitedRest.others w fun hrest => hapart w hw w hrest rfl
        rcases List.mem_cons.mp hw with rfl | hw
        · refine ⟨[], w :: inner, rest, node, rfl, hinner.single, ?_, ?_, ?_, hu⟩
          · rw [hafter]
            exact OrdMap.lookup_insert_self _ _ _
          · change s.timer = _
            rw [List.length_nil, Nat.add_zero, Nat.mod_eq_of_lt htimer]
          · change (s₂.timer + (2 ^ 32 - 1)) % 2 ^ 32 = _
            change s₂.timer = (s.timer + 1 + inner.length) % 2 ^ 32 at htimer₃
            rw [htimer₃, List.length_nil, List.length_cons]
            omega
        · obtain ⟨before, m, after, node', rfl, hm, hlookup, htin, htout, hattr⟩ :=
            hvisited.interval w hw
          have hne : w ≠ u := fun heq => hfresh (heq ▸ hw)
          refine ⟨u :: before, m, after ++ rest, node', by simp, hm, ?_, ?_, ?_, hattr⟩
          · rw [hafter, ← hlookup]
            exact OrdMap.lookup_insert_of_ne _ _ hne
          · rw [htin, List.length_cons]
            dsimp only
            omega
          · rw [htout, List.length_cons]
            dsimp only
            omega
      · obtain ⟨before, m, after, node', rfl, hm, hlookup, htin, htout, hattr⟩ :=
          hvisitedRest.interval w hw
        refine ⟨u :: inner ++ before, m, after, node', by simp, hm, hlookup, ?_, ?_, hattr⟩
        · rw [htin, htimer₃, List.length_append, List.length_cons]
          omega
        · rw [htout, htimer₃, List.length_append, List.length_cons]
          omega

end Walks

/-! ### Lanes -/

theorem popLanes_popBits (turns : ℕ) (w : BitVec 16) :
    popLanes turns w = Bitmap.popBits turns w := by
  induction turns generalizing w with
  | zero => rfl
  | succ turns ih => rw [popLanes, Bitmap.popBits, ih]

theorem popLanes_eq {turns : ℕ} {w : BitVec 16}
    (hturns : Nat.count (fun q => w.getLsbD q = true) 16 ≤ turns) :
    popLanes turns w = (List.range 16).filter fun q => w.getLsbD q := by
  rw [popLanes_popBits, Bitmap.popBits_eq hturns]

/-- The bits of the mask are those of the rows in the interval. -/
theorem getLsbD_laneMask (tinU toutU : ℕ) (chunk : List ℕ) (q : ℕ) :
    (laneMask tinU toutU chunk).getLsbD q =
      (decide (q < 16) && (chunk[q]?).any fun x => decide (tinU ≤ x ∧ x ≤ toutU)) := by
  induction chunk using List.reverseRecOn with
  | nil => simp [laneMask]
  | append_singleton chunk x ih =>
    have hstep : laneMask tinU toutU (chunk ++ [x]) =
        if tinU ≤ x ∧ x ≤ toutU then laneMask tinU toutU chunk ||| 1#16 <<< chunk.length
        else laneMask tinU toutU chunk := by
      rw [laneMask, List.zipIdx_append, List.foldl_append]
      simp [laneMask]
    have hlast : ¬q < chunk.length →
        (chunk ++ [x])[q]? = if q = chunk.length then some x else none := by
      intro hq
      rw [List.getElem?_append_right (by omega), List.getElem?_singleton]
      by_cases heq : q = chunk.length
      · rw [if_pos (by omega), if_pos heq]
      · rw [if_neg (by omega), if_neg heq]
    have hmask : (1#16 <<< chunk.length).getLsbD q =
        (decide (q < 16) && decide (q = chunk.length)) := by
      rw [← BitVec.twoPow_eq, BitVec.getLsbD_twoPow]
      by_cases hq : q = chunk.length <;> simp [hq, eq_comm]
    rw [hstep]
    by_cases hq : q < chunk.length
    · rw [List.getElem?_append_left hq]
      split_ifs with hx
      · rw [BitVec.getLsbD_or, hmask, ih, decide_eq_false (by omega : q ≠ chunk.length),
          Bool.and_false, Bool.or_false]
      · exact ih
    · rw [List.getElem?_eq_none (by omega)] at ih
      rw [hlast hq]
      split_ifs with hx heq heq
      · rw [BitVec.getLsbD_or, hmask, ih]
        simp [heq, hx]
      · rw [BitVec.getLsbD_or, hmask, ih]
        simp [heq]
      · rw [ih]
        simpa using fun _ hle => not_le.mp fun hle' => hx ⟨hle, hle'⟩
      · exact ih

def inInterval (tinU toutU : ℕ) (rows : List ℕ) (j : ℕ) : Bool :=
  (rows[j]?).any fun x => decide (tinU ≤ x ∧ x ≤ toutU)

theorem popLanes_laneMask (tinU toutU : ℕ) {chunk : List ℕ} (hlen : chunk.length ≤ 16) :
    popLanes 16 (laneMask tinU toutU chunk) =
      (List.range chunk.length).filter (inInterval tinU toutU chunk) := by
  rw [popLanes_eq (Nat.count_le _)]
  have hsplit : List.range 16 = List.range chunk.length ++
      List.range' chunk.length (16 - chunk.length) := by
    rw [List.range_eq_range', List.range_eq_range', show 16 = chunk.length + (16 - chunk.length) by
      omega, ← List.range'_append_1, Nat.zero_add, Nat.add_sub_cancel_left]
  rw [hsplit, List.filter_append]
  have hnone : (List.range' chunk.length (16 - chunk.length)).filter
      (fun q => (laneMask tinU toutU chunk).getLsbD q) = [] := by
    rw [List.filter_eq_nil_iff]
    intro q hq
    have hge := (List.mem_range'_1.mp hq).1
    rw [getLsbD_laneMask, List.getElem?_eq_none hge]
    simp
  rw [hnone, List.append_nil]
  apply List.filter_congr
  intro q hq
  have hlt := List.mem_range.mp hq
  rw [getLsbD_laneMask, decide_eq_true (by omega), Bool.true_and, inInterval]

/-- The chunks together filter the rows in their order; a row has the 32 low bits of its place. -/
theorem filterChunks_eq (tinU toutU chunkIdx : ℕ) (rows : List ℕ) :
    filterChunks tinU toutU chunkIdx rows =
      ((List.range rows.length).filter (inInterval tinU toutU rows)).map
        fun j => (chunkIdx * 16 + j) % 2 ^ 32 := by
  induction hlen : rows.length using Nat.strong_induction_on generalizing chunkIdx rows with
  | _ n ih =>
    rw [filterChunks]
    split_ifs with hnil
    · subst hnil
      rw [← hlen]
      rfl
    have hpos := List.length_pos_iff_ne_nil.mpr hnil
    set chunk := rows.take 16 with hchunk
    set rest := rows.drop 16 with hrest
    have hrows : rows = chunk ++ rest := (List.take_append_drop 16 rows).symm
    have hchunkLen : chunk.length = min 16 n := by rw [hchunk, List.length_take, hlen]
    have hrestLen : rest.length = n - 16 := by rw [hrest, List.length_drop, hlen]
    have hsplit : List.range n = List.range chunk.length ++
        (List.range rest.length).map (chunk.length + ·) := by
      rw [← List.range_add]
      congr 1
      omega
    have hfirst : (List.range chunk.length).filter (inInterval tinU toutU rows) =
        (List.range chunk.length).filter (inInterval tinU toutU chunk) := by
      apply List.filter_congr
      intro q hq
      rw [inInterval, inInterval, hrows, List.getElem?_append_left (List.mem_range.mp hq)]
    have hsecond : ((List.range rest.length).map (chunk.length + ·)).filter
        (inInterval tinU toutU rows) =
        ((List.range rest.length).filter (inInterval tinU toutU rest)).map (chunk.length + ·) := by
      rw [List.filter_map]
      congr 1
      apply List.filter_congr
      intro q _
      rw [Function.comp_apply, inInterval, inInterval, hrows,
        List.getElem?_append_right (Nat.le_add_right _ _), Nat.add_sub_cancel_left]
    rw [popLanes_laneMask _ _ (by omega), ih rest.length (by omega) (chunkIdx + 1) rest rfl, hsplit,
      List.filter_append, hfirst, hsecond, List.map_append, List.map_map]
    dsimp only
    congr 1
    · apply List.map_congr_left
      intro j hj
      have hlt := List.mem_range.mp (List.mem_filter.mp hj).1
      have : j < 16 := by omega
      omega
    · apply List.map_congr_left
      intro j hj
      have hlt := List.mem_range.mp (List.mem_filter.mp hj).1
      rw [Function.comp_apply]
      congr 1
      omega

end MetriEngine.Storage.CsrGraph

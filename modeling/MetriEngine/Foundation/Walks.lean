import Mathlib

/-!
# Searches in a graph

The points that a search from some roots can come to, with the number of steps taken. A set that
has the roots and with each point the next ones has them all.
-/
namespace MetriEngine.Foundation

universe u

variable {α : Type u}

/-- A point is reached from the roots in so many steps. -/
inductive Reached (next : α → List α) (roots : List α) : ℕ → α → Prop
  | root {r : α} (h : r ∈ roots) : Reached next roots 0 r
  | step {n : ℕ} {x y : α} (h : Reached next roots n x) (hy : y ∈ next x) :
    Reached next roots (n + 1) y

namespace Reached

variable {next : α → List α} {roots : List α} {n : ℕ} {x : α} {S : Set α}

theorem mem_of_closed (h : Reached next roots n x) (hroots : ∀ r ∈ roots, r ∈ S)
    (hclosed : ∀ y ∈ S, ∀ z ∈ next y, z ∈ S) : x ∈ S := by
  induction h with
  | root hr => exact hroots _ hr
  | step _ hy ih => exact hclosed _ ih _ hy

/-- A set of reached points that is closed is the set of all of them. -/
theorem mem_iff_of_closed (hreached : ∀ y ∈ S, ∃ n, Reached next roots n y)
    (hroots : ∀ r ∈ roots, r ∈ S) (hclosed : ∀ y ∈ S, ∀ z ∈ next y, z ∈ S) :
    x ∈ S ↔ ∃ n, Reached next roots n x := by
  constructor
  · exact hreached x
  · rintro ⟨n, h⟩
    exact h.mem_of_closed hroots hclosed

/-- What is reached in less than `k` steps has a least number of steps below `k`. -/
theorem exists_lt_iff_isLeast {k : ℕ} :
    (∃ n < k, Reached next roots n x) ↔ ∃ d < k, IsLeast {n | Reached next roots n x} d := by
  constructor
  · rintro ⟨n, hn, h⟩
    classical
    have hex : ∃ m, Reached next roots m x := ⟨n, h⟩
    refine ⟨Nat.find hex, (Nat.find_min' hex h).trans_lt hn, Nat.find_spec hex, ?_⟩
    intro m hm
    exact Nat.find_min' hex hm
  · rintro ⟨d, hd, hleast⟩
    exact ⟨d, hd, hleast.1⟩

/-! ### Level after level -/

/-- The state of a search by levels before level `k`: what it has expanded and what is next. -/
structure Levels (next : α → List α) (roots : List α) (k : ℕ) (expanded queue : List α) : Prop where
  expanded_iff : ∀ x, x ∈ expanded ↔ ∃ n < k, Reached next roots n x
  queued : ∀ x ∈ queue, Reached next roots k x
  rooted : ∀ r ∈ roots, r ∈ expanded ∨ r ∈ queue
  closed : ∀ x ∈ expanded, ∀ y ∈ next x, y ∈ expanded ∨ y ∈ queue

theorem levels_start (next : α → List α) (roots : List α) : Levels next roots 0 [] roots where
  expanded_iff := by simp
  queued _ h := .root h
  rooted _ h := .inr h
  closed := by simp

variable {k : ℕ} {expanded queue expanded' queue' : List α}

/-- What is `k` steps away has been expanded before level `k`, or it is next. -/
theorem Levels.mem_of_reached (h : Levels next roots k expanded queue)
    (hx : Reached next roots k x) : x ∈ expanded ∨ x ∈ queue := by
  cases hx with
  | root hr => exact h.rooted x hr
  | step hy hx => exact h.closed _ ((h.expanded_iff _).mpr ⟨_, Nat.lt_succ_self _, hy⟩) x hx

/-- One level: the queue is expanded, and the next queue has the points behind what is new. -/
theorem Levels.step (h : Levels next roots k expanded queue)
    (hexpanded : ∀ x, x ∈ expanded' ↔ x ∈ expanded ∨ x ∈ queue)
    (hqueue : ∀ y, y ∈ queue' ↔ ∃ x ∈ queue, x ∉ expanded ∧ y ∈ next x) :
    Levels next roots (k + 1) expanded' queue' where
  expanded_iff x := by
    rw [hexpanded]
    constructor
    · rintro (hx | hx)
      · obtain ⟨n, hn, hreached⟩ := (h.expanded_iff x).mp hx
        exact ⟨n, by omega, hreached⟩
      · exact ⟨k, Nat.lt_succ_self k, h.queued x hx⟩
    · rintro ⟨n, hn, hreached⟩
      rcases Nat.lt_succ_iff_lt_or_eq.mp hn with hlt | rfl
      · exact .inl ((h.expanded_iff x).mpr ⟨n, hlt, hreached⟩)
      · exact h.mem_of_reached hreached
  queued y hy := by
    obtain ⟨x, hx, -, hy⟩ := (hqueue y).mp hy
    exact .step (h.queued x hx) hy
  rooted r hr := .inl ((hexpanded r).mpr (h.rooted r hr))
  closed x hx y hy := by
    rcases (hexpanded x).mp hx with hold | hnew
    · exact .inl ((hexpanded y).mpr (h.closed x hold y hy))
    · by_cases hmem : x ∈ expanded
      · exact .inl ((hexpanded y).mpr (h.closed x hmem y hy))
      · exact .inr ((hqueue y).mpr ⟨x, hnew, hmem, hy⟩)

/-- With an empty queue a search has found everything. -/
theorem Levels.of_empty (h : Levels next roots k expanded []) {m : ℕ} (hm : k ≤ m) :
    Levels next roots m expanded [] where
  expanded_iff x := by
    constructor
    · intro hx
      obtain ⟨n, hn, hreached⟩ := (h.expanded_iff x).mp hx
      exact ⟨n, hn.trans_le hm, hreached⟩
    · rintro ⟨n, -, hreached⟩
      apply hreached.mem_of_closed (S := {y | y ∈ expanded})
      · simpa using h.rooted
      · simpa using h.closed
  queued := by simp
  rooted := h.rooted
  closed := h.closed

end Reached
end MetriEngine.Foundation

/-!
## Walks over a forest

A graph in which no node is a child of two nodes may hold cycles, but nothing reached from a node
without a parent is on one. A walk lists the nodes of such trees, each before its children; the
nodes below one of them stand together in the list.
-/
namespace MetriEngine.Foundation

universe u
variable {α : Type u}

/-- The nodes below these ones, each before its children and these in their order. -/
inductive Walk (children : α → List α) : List α → List α → Prop
  | nil : Walk children [] []
  | cons {a : α} {as inner rest : List α} : Walk children (children a) inner →
      Walk children as rest → Walk children (a :: as) (a :: inner ++ rest)

/-- A node and the nodes below it. -/
def Below (children : α → List α) : α → α → Prop :=
  Relation.ReflTransGen fun a b => b ∈ children a

/-- Children have one parent, these roots have none, and all of them are among these nodes. -/
structure Forest (children : α → List α) (roots nodes : List α) : Prop where
  parent_unique : ∀ a a' b, b ∈ children a → b ∈ children a' → a = a'
  root : ∀ r ∈ roots, ∀ a, r ∉ children a
  children_nodup : ∀ a, (children a).Nodup
  roots_nodup : roots.Nodup
  children_mem : ∀ a, ∀ b ∈ children a, b ∈ nodes
  roots_mem : ∀ r ∈ roots, r ∈ nodes

variable {children : α → List α}

namespace Walk

theorem append {as bs l m : List α} (h : Walk children as l) (h' : Walk children bs m) :
    Walk children (as ++ bs) (l ++ m) := by
  induction h with
  | nil => exact h'
  | cons hinner _ _ ihrest =>
    rw [List.append_assoc]
    exact Walk.cons hinner ihrest

theorem single {a : α} {inner : List α} (h : Walk children (children a) inner) :
    Walk children [a] (a :: inner) := by
  have hone := Walk.cons h Walk.nil
  rwa [List.append_nil] at hone

theorem mem_iff {as l : List α} (h : Walk children as l) (b : α) :
    b ∈ l ↔ ∃ a ∈ as, Below children a b := by
  induction h with
  | nil => simp
  | @cons a as inner rest _ _ ihinner ihrest =>
    rw [List.cons_append, List.mem_cons, List.mem_append, ihinner, ihrest]
    constructor
    · rintro (rfl | ⟨c, hc, hbelow⟩ | ⟨c, hc, hbelow⟩)
      · exact ⟨b, List.mem_cons_self, Relation.ReflTransGen.refl⟩
      · exact ⟨a, List.mem_cons_self, Relation.ReflTransGen.head hc hbelow⟩
      · exact ⟨c, List.mem_cons_of_mem _ hc, hbelow⟩
    · rintro ⟨c, hc, hbelow⟩
      rcases List.mem_cons.mp hc with rfl | hc
      · rcases Relation.ReflTransGen.cases_head hbelow with rfl | ⟨d, hd, hbelow⟩
        · exact Or.inl rfl
        · exact Or.inr (Or.inl ⟨d, hd, hbelow⟩)
      · exact Or.inr (Or.inr ⟨c, hc, hbelow⟩)

theorem mem_single_iff {a : α} {l : List α} (h : Walk children [a] l) (b : α) :
    b ∈ l ↔ Below children a b := by
  rw [h.mem_iff]
  simp

/-- A walk of one node begins with it. -/
theorem exists_cons {a : α} {l : List α} (h : Walk children [a] l) :
    ∃ inner, l = a :: inner ∧ Walk children (children a) inner := by
  cases h with
  | cons hinner hrest =>
    cases hrest
    exact ⟨_, List.append_nil _, hinner⟩

/-- Walks of single nodes make a walk of them all. -/
theorem exists_of_each {as : List α} (h : ∀ a ∈ as, ∃ l, Walk children [a] l) :
    ∃ l, Walk children as l := by
  induction as with
  | nil => exact ⟨[], Walk.nil⟩
  | cons a as ih =>
    obtain ⟨l, hl⟩ := h a List.mem_cons_self
    obtain ⟨m, hm⟩ := ih fun b hb => h b (List.mem_cons_of_mem _ hb)
    exact ⟨l ++ m, hl.append hm⟩

theorem exists_append {as bs l : List α} (h : Walk children (as ++ bs) l) :
    ∃ l₁ l₂, l = l₁ ++ l₂ ∧ Walk children as l₁ ∧ Walk children bs l₂ := by
  induction as generalizing l with
  | nil => exact ⟨[], l, rfl, Walk.nil, h⟩
  | cons a as ih =>
    cases h with
    | @cons _ _ inner rest hinner hrest =>
      obtain ⟨l₁, l₂, rfl, h₁, h₂⟩ := ih hrest
      exact ⟨a :: inner ++ l₁, l₂, (List.append_assoc _ _ _).symm, Walk.cons hinner h₁, h₂⟩

end Walk

/-- Whether a member of a list without repeats is in a segment is a matter of its place. -/
theorem mem_segment_iff {l before m after : List α} (hl : l = before ++ m ++ after)
    (hnodup : l.Nodup) {k : ℕ} {v : α} (hk : l[k]? = some v) :
    v ∈ m ↔ before.length ≤ k ∧ k < before.length + m.length := by
  constructor
  · intro hv
    obtain ⟨j, hj⟩ := List.mem_iff_getElem?.mp hv
    obtain ⟨hlt, -⟩ := List.getElem?_eq_some_iff.mp hj
    have hplace : l[before.length + j]? = some v := by
      rw [hl, List.append_assoc, List.getElem?_append_right (Nat.le_add_right _ _),
        Nat.add_sub_cancel_left, List.getElem?_append_left hlt, hj]
    obtain ⟨hklt, -⟩ := List.getElem?_eq_some_iff.mp hk
    have heq := (List.getElem?_inj hklt hnodup).mp (hk.trans hplace.symm)
    omega
  · rintro ⟨hle, hlt⟩
    rw [hl, List.append_assoc, List.getElem?_append_right hle,
      List.getElem?_append_left (by omega)] at hk
    exact List.mem_of_getElem? hk

/-! ### Depths -/

/-- How far below a root a node is. -/
inductive AtDepth (children : α → List α) (roots : List α) : α → ℕ → Prop
  | root {r : α} : r ∈ roots → AtDepth children roots r 0
  | child {a b : α} {n : ℕ} : AtDepth children roots a n → b ∈ children a →
      AtDepth children roots b (n + 1)

theorem AtDepth.descend {roots : List α} {a b : α} {n : ℕ} (hn : AtDepth children roots a n)
    (hbelow : Below children a b) : ∃ k, AtDepth children roots b (n + k) := by
  induction hbelow with
  | refl => exact ⟨0, hn⟩
  | tail _ hchild ih =>
    obtain ⟨k, hk⟩ := ih
    exact ⟨k + 1, AtDepth.child hk hchild⟩

namespace Forest
variable {roots nodes : List α} (h : Forest children roots nodes)
include h

theorem depth_unique {a : α} {n n' : ℕ} (hn : AtDepth children roots a n)
    (hn' : AtDepth children roots a n') : n = n' := by
  induction hn generalizing n' with
  | root hr =>
    cases hn' with
    | root _ => rfl
    | child _ hchild => exact absurd hchild (h.root _ hr _)
  | child _ hchild ih =>
    cases hn' with
    | root hr => exact absurd hchild (h.root _ hr _)
    | child hn' hchild' =>
      rw [h.parent_unique _ _ _ hchild' hchild] at hn'
      rw [ih hn']

theorem mem_of_depth {a : α} {n : ℕ} (hn : AtDepth children roots a n) : a ∈ nodes := by
  cases hn with
  | root hr => exact h.roots_mem _ hr
  | child _ hchild => exact h.children_mem _ _ hchild

/-- The way from a root to a node visits as many nodes as its depth says, none twice. -/
theorem exists_path {a : α} {n : ℕ} (hn : AtDepth children roots a n) :
    ∃ path : List α, path.length = n + 1 ∧ path.Nodup ∧
      ∀ b ∈ path, b ∈ nodes ∧ ∃ k ≤ n, AtDepth children roots b k := by
  induction hn with
  | @root r hr =>
    refine ⟨[r], rfl, List.nodup_singleton r, ?_⟩
    intro b hb
    rw [List.mem_singleton.mp hb]
    exact ⟨h.roots_mem r hr, 0, le_rfl, AtDepth.root hr⟩
  | @child a b n ha hchild ih =>
    obtain ⟨path, hlen, hnodup, hpath⟩ := ih
    refine ⟨b :: path, by rw [List.length_cons, hlen], List.nodup_cons.mpr ⟨fun hb => ?_, hnodup⟩,
      ?_⟩
    · obtain ⟨-, k, hk, hdepth⟩ := hpath b hb
      have := h.depth_unique hdepth (AtDepth.child ha hchild)
      omega
    · intro c hc
      rcases List.mem_cons.mp hc with rfl | hc
      · exact ⟨h.children_mem _ _ hchild, n + 1, le_rfl, AtDepth.child ha hchild⟩
      · obtain ⟨hmem, k, hk, hdepth⟩ := hpath c hc
        exact ⟨hmem, k, by omega, hdepth⟩

theorem depth_lt {a : α} {n : ℕ} (hn : AtDepth children roots a n) : n < nodes.length := by
  obtain ⟨path, hlen, hnodup, hpath⟩ := h.exists_path hn
  have hle := (hnodup.subperm fun b hb => (hpath b hb).1).length_le
  omega

/-- No cycle is below a root: each node there has a walk. -/
theorem exists_walk_of_depth (k : ℕ) : ∀ {a : α} {n : ℕ}, AtDepth children roots a n →
    nodes.length ≤ n + k → ∃ l, Walk children [a] l := by
  induction k with
  | zero =>
    intro a n hn hle
    have := h.depth_lt hn
    omega
  | succ k ih =>
    intro a n hn hle
    obtain ⟨inner, hinner⟩ := @Walk.exists_of_each _ children (children a) fun b hb =>
      ih (AtDepth.child hn hb) (by omega)
    exact ⟨a :: inner, hinner.single⟩

theorem exists_walk : ∃ l, Walk children roots l :=
  Walk.exists_of_each fun _ hr => h.exists_walk_of_depth nodes.length (AtDepth.root hr) (by omega)

/-- Of two nodes of one depth with a node below both. -/
theorem above_unique {a a' b : α} {n : ℕ} (ha : AtDepth children roots a n)
    (ha' : AtDepth children roots a' n) (hbelow : Below children a b)
    (hbelow' : Below children a' b) : a = a' := by
  induction hbelow with
  | refl =>
    rcases Relation.ReflTransGen.cases_tail hbelow' with rfl | ⟨c, hc, hchild⟩
    · rfl
    · obtain ⟨k, hk⟩ := ha'.descend hc
      have := h.depth_unique ha (AtDepth.child hk hchild)
      omega
  | tail hab hchild ih =>
    rcases Relation.ReflTransGen.cases_tail hbelow' with heq | ⟨c, hc, hchild'⟩
    · obtain ⟨k, hk⟩ := ha.descend hab
      rw [heq] at hchild
      have := h.depth_unique ha' (AtDepth.child hk hchild)
      omega
    · rw [h.parent_unique _ _ _ hchild' hchild] at hc
      exact ih hc

theorem walk_nodup {as l : List α} (hwalk : Walk children as l) (hnodup : as.Nodup) {n : ℕ}
    (hdepth : ∀ a ∈ as, AtDepth children roots a n) : l.Nodup := by
  induction hwalk generalizing n with
  | nil => exact List.nodup_nil
  | @cons a as inner rest hinner hrest ihinner ihrest =>
    have ha := hdepth a List.mem_cons_self
    have hchildren : ∀ b ∈ children a, AtDepth children roots b (n + 1) := fun b hb =>
      AtDepth.child ha hb
    obtain ⟨hfresh, htail⟩ := List.nodup_cons.mp hnodup
    have hfirst : a ∉ inner := by
      rw [hinner.mem_iff]
      rintro ⟨b, hb, hbelow⟩
      obtain ⟨k, hk⟩ := (hchildren b hb).descend hbelow
      have := h.depth_unique ha hk
      omega
    have hapart : ∀ b ∈ a :: inner, b ∉ rest := by
      intro b hb hb'
      obtain ⟨c, hc, hbelow'⟩ := (hrest.mem_iff b).mp hb'
      have hbelow := (hinner.single.mem_single_iff b).mp hb
      have hsame := h.above_unique ha (hdepth c (List.mem_cons_of_mem _ hc)) hbelow hbelow'
      exact hfresh (hsame ▸ hc)
    rw [List.nodup_append]
    refine ⟨List.nodup_cons.mpr ⟨hfirst, ihinner (h.children_nodup a) hchildren⟩,
      ihrest htail fun b hb => hdepth b (List.mem_cons_of_mem _ hb), ?_⟩
    intro b hb c hc heq
    exact hapart b hb (heq ▸ hc)

theorem walk_roots_nodup {l : List α} (hwalk : Walk children roots l) : l.Nodup :=
  h.walk_nodup hwalk h.roots_nodup fun _ hr => AtDepth.root hr

theorem walk_length_le {l : List α} (hwalk : Walk children roots l) : l.length ≤ nodes.length := by
  apply ((h.walk_roots_nodup hwalk).subperm fun b hb => ?_).length_le
  obtain ⟨r, hr, hbelow⟩ := (hwalk.mem_iff b).mp hb
  obtain ⟨k, hk⟩ := (AtDepth.root hr).descend hbelow
  exact h.mem_of_depth hk

end Forest

/-!
## Chains of parents

Where each point has at most one parent, a chain of ancestors. A new parent makes a cycle only if the
point is among the ancestors of that parent, and looking at so many of them tells whether there is a
cycle of that length.
-/

section Parents
variable {α : Type u} {parent parent' : α → Option α} {n : ℕ} {x y : α}

/-- The ancestor so many steps up, if there is one. -/
def ancestor (parent : α → Option α) : ℕ → α → Option α
  | 0, x => some x
  | n + 1, x => (parent x).bind (ancestor parent n)

/-- A point and its ancestors, so many of them together. -/
def chain (parent : α → Option α) : ℕ → α → List α
  | 0, _ => []
  | n + 1, x => x :: (parent x).elim [] (chain parent n)

/-- No point comes back in so many steps. -/
def NoCycle (parent : α → Option α) (n : ℕ) : Prop :=
  ∀ x, ∀ k < n, ancestor parent (k + 1) x ≠ some x

@[simp] theorem ancestor_zero (x : α) : ancestor parent 0 x = some x := rfl

theorem ancestor_succ (n : ℕ) (x : α) :
    ancestor parent (n + 1) x = (parent x).bind (ancestor parent n) := rfl

theorem ancestor_add (m n : ℕ) (x : α) :
    ancestor parent (m + n) x = (ancestor parent m x).bind (ancestor parent n) := by
  induction m generalizing x with
  | zero => simp
  | succ m ih =>
    rw [Nat.succ_add, ancestor_succ, ancestor_succ]
    cases parent x with
    | none => rfl
    | some y => exact ih y

theorem mem_chain : y ∈ chain parent n x ↔ ∃ k < n, ancestor parent k x = some y := by
  induction n generalizing x with
  | zero => simp [chain]
  | succ n ih =>
    rw [chain, List.mem_cons]
    constructor
    · rintro (rfl | hy)
      · exact ⟨0, n.succ_pos, rfl⟩
      · cases hparent : parent x with
        | none => simp [hparent] at hy
        | some z =>
          rw [hparent] at hy
          obtain ⟨k, hk, hky⟩ := ih.mp hy
          exact ⟨k + 1, Nat.succ_lt_succ hk, by simpa [ancestor_succ, hparent] using hky⟩
    · rintro ⟨k, hk, hky⟩
      cases k with
      | zero => exact .inl (Option.some.inj hky).symm
      | succ k =>
        right
        cases hparent : parent x with
        | none => simp [ancestor_succ, hparent] at hky
        | some z =>
          rw [ancestor_succ, hparent] at hky
          exact ih.mpr ⟨k, Nat.lt_of_succ_lt_succ hk, hky⟩

/-- Chains agree as long as they meet no point whose parent has changed. -/
theorem ancestor_congr (h : ∀ k < n, ∀ z, ancestor parent k x = some z → parent' z = parent z) :
    ancestor parent' n x = ancestor parent n x := by
  induction n generalizing x with
  | zero => rfl
  | succ n ih =>
    rw [ancestor_succ, ancestor_succ, h 0 n.succ_pos x rfl]
    cases hparent : parent x with
    | none => rfl
    | some y =>
      apply ih
      intro k hk z hz
      apply h (k + 1) (Nat.succ_lt_succ hk)
      rw [ancestor_succ, hparent]
      exact hz

/-- Without some of the parents there are no more cycles than with them. -/
theorem NoCycle.mono (h : NoCycle parent n)
    (hless : ∀ x y, parent' x = some y → parent x = some y) : NoCycle parent' n := by
  have hancestor (k : ℕ) : ∀ x y, ancestor parent' k x = some y → ancestor parent k x = some y := by
    induction k with
    | zero => exact fun x y hy => hy
    | succ k ih =>
      intro x y hy
      obtain ⟨z, hz, hzy⟩ := Option.bind_eq_some_iff.mp hy
      rw [ancestor_succ, hless x z hz]
      exact ih z y hzy
  exact fun x k hk hcycle => h x k hk (hancestor _ x x hcycle)

variable [DecidableEq α]

/-- A new parent that does not have the point among so many ancestors makes no cycle of that length. -/
theorem NoCycle.update (h : NoCycle parent n) (hy : x ∉ chain parent n y) :
    NoCycle (Function.update parent x (some y)) n := by
  set after := Function.update parent x (some y) with hafter
  have hsame {z : α} (hz : z ≠ x) : after z = parent z := by simp [hafter, hz]
  intro z k hk hcycle
  by_cases hpass : ∃ i ≤ k, ancestor after i z = some x
  · -- the cycle goes through the point: of its returns take the first
    obtain ⟨i, hi, hix⟩ := hpass
    have hreturns : ∃ m, m ≤ k ∧ ancestor after (m + 1) x = some x := by
      refine ⟨k, le_rfl, ?_⟩
      have hback : ancestor after (k + 1 - i) x = some z := by
        have hsplit := @ancestor_add _ after i (k + 1 - i) z
        rw [Nat.add_sub_of_le (by omega), hcycle, hix] at hsplit
        exact hsplit.symm
      have hagain := @ancestor_add _ after (k + 1 - i) i x
      rw [Nat.sub_add_cancel (by omega), hback] at hagain
      exact hagain.trans hix
    classical
    obtain ⟨hm, hfirst⟩ := Nat.find_spec hreturns
    set m := Nat.find hreturns with hmdef
    have hstep (j : ℕ) : ancestor after (j + 1) x = ancestor after j y := by
      rw [ancestor_succ, hafter, Function.update_self]
      rfl
    have hold : ancestor parent m y = ancestor after m y := by
      apply ancestor_congr
      intro j hj w hw
      refine (hsame ?_).symm
      rintro rfl
      exact Nat.find_min hreturns hj ⟨by omega, (hstep j).trans hw⟩
    exact hy (mem_chain.mpr ⟨m, by omega, hold.trans ((hstep m).symm.trans hfirst)⟩)
  · have hold : ancestor parent (k + 1) z = ancestor after (k + 1) z := by
      apply ancestor_congr
      intro j hj w hw
      refine (hsame ?_).symm
      rintro rfl
      exact hpass ⟨j, by omega, hw⟩
    exact h z k hk (hold.trans hcycle)

end Parents

end MetriEngine.Foundation

import MetriEngine.Foundation.OrdMap

/-!
# Rows gathered by key

A scan goes over keyed rows and keeps one value for each key. What it keeps for a key depends on
the rows of that key alone.
-/
namespace MetriEngine.Foundation

universe u v w
variable {κ : Type u} {ρ : Type v} {ν : Type w} [LinearOrder κ]

/-- What is kept for each key, and the keys in the order in which they came. -/
structure Grouped (κ : Type u) (ν : Type w) [LinearOrder κ] where
  kept : OrdMap κ ν
  order : List κ

namespace Grouped

def empty : Grouped κ ν := ⟨∅, []⟩

/-- Takes a row in; `upd` says what is kept from then on, if it changes. -/
def take (upd : Option ν → ρ → Option ν) (g : Grouped κ ν) (row : κ × ρ) : Grouped κ ν :=
  match upd (g.kept.lookup row.1) row.2 with
  | none => g
  | some v =>
    ⟨g.kept.insert row.1 v, if g.kept.contains row.1 then g.order else g.order ++ [row.1]⟩

def gather (upd : Option ν → ρ → Option ν) (rows : List (κ × ρ)) : Grouped κ ν :=
  rows.foldl (take upd) empty

/-- The keys with a value that passes. -/
def select (g : Grouped κ ν) (p : ν → Bool) : List κ :=
  g.order.filter fun k => (g.kept.lookup k).any p

variable {upd : Option ν → ρ → Option ν}

theorem lookup_take (g : Grouped κ ν) (row : κ × ρ) (k : κ) :
    (g.take upd row).kept.lookup k =
      if row.1 = k then (upd (g.kept.lookup k) row.2).or (g.kept.lookup k)
      else g.kept.lookup k := by
  rw [take]
  by_cases hk : row.1 = k
  · subst hk
    rw [if_pos rfl]
    cases hupd : upd (g.kept.lookup row.1) row.2 with
    | none => rfl
    | some v => simp
  · rw [if_neg hk]
    cases upd (g.kept.lookup row.1) row.2 with
    | none => rfl
    | some v => exact OrdMap.lookup_insert_of_ne _ _ (Ne.symm hk)

theorem lookup_foldl_take (rows : List (κ × ρ)) (g : Grouped κ ν) (k : κ) :
    (rows.foldl (take upd) g).kept.lookup k =
      ((rows.filter fun row => row.1 = k).map Prod.snd).foldl
        (fun kept r => (upd kept r).or kept) (g.kept.lookup k) := by
  induction rows generalizing g with
  | nil => rfl
  | cons row rows ih =>
    rw [List.foldl_cons, ih, lookup_take]
    by_cases hk : row.1 = k
    · simp [hk]
    · simp [hk]

/-- What is kept for a key is what its own rows make of nothing. -/
theorem lookup_gather (rows : List (κ × ρ)) (k : κ) :
    (gather upd rows).kept.lookup k =
      ((rows.filter fun row => row.1 = k).map Prod.snd).foldl
        (fun kept r => (upd kept r).or kept) none :=
  lookup_foldl_take rows empty k

/-- The keys that came are those with a value, each once. -/
structure Ordered (g : Grouped κ ν) : Prop where
  nodup : g.order.Nodup
  mem : ∀ k, k ∈ g.order ↔ g.kept.contains k = true

theorem Ordered.take {g : Grouped κ ν} (h : g.Ordered) (row : κ × ρ) :
    (g.take upd row).Ordered := by
  rw [Grouped.take]
  cases upd (g.kept.lookup row.1) row.2 with
  | none => exact h
  | some v =>
    by_cases hrow : g.kept.contains row.1 = true
    · refine ⟨?_, fun k => ?_⟩
      · simp only [hrow, if_true]
        exact h.nodup
      · simp only [hrow, if_true, OrdMap.contains_insert]
        rw [h.mem]
        by_cases hk : k = row.1
        · simp [hk, hrow]
        · simp [hk]
    · refine ⟨?_, fun k => ?_⟩
      · simp only [hrow]
        rw [if_neg Bool.false_ne_true, List.nodup_append]
        refine ⟨h.nodup, List.nodup_singleton _, ?_⟩
        rintro a ha b hb rfl
        rw [List.mem_singleton.mp hb] at ha
        exact hrow ((h.mem _).mp ha)
      · simp only [hrow]
        rw [if_neg Bool.false_ne_true, List.mem_append, h.mem, List.mem_singleton,
          OrdMap.contains_insert]
        simp [or_comm]

theorem ordered_gather (rows : List (κ × ρ)) : (gather upd rows).Ordered := by
  have hfold : ∀ g : Grouped κ ν, g.Ordered → (rows.foldl (Grouped.take upd) g).Ordered := by
    induction rows with
    | nil => exact fun g h => h
    | cons row rows ih => exact fun g h => ih _ (h.take row)
  apply hfold
  refine ⟨List.nodup_nil, fun k => ?_⟩
  rw [empty, OrdMap.contains_empty]
  simp

theorem nodup_select (rows : List (κ × ρ)) (p : ν → Bool) :
    ((gather upd rows).select p).Nodup :=
  (ordered_gather rows).nodup.filter _

/-- A key is selected by what its own rows make of nothing. -/
theorem mem_select_gather {rows : List (κ × ρ)} {p : ν → Bool} {k : κ} :
    k ∈ (gather upd rows).select p ↔
      (((rows.filter fun row => row.1 = k).map Prod.snd).foldl
        (fun kept r => (upd kept r).or kept) none).any p = true := by
  rw [select, List.mem_filter, (ordered_gather rows).mem, OrdMap.contains, lookup_gather]
  cases ((rows.filter fun row => row.1 = k).map Prod.snd).foldl
    (fun kept r => (upd kept r).or kept) none with
  | none => simp
  | some v => simp

theorem mem_rows_of_mem_select {rows : List (κ × ρ)} {p : ν → Bool} {k : κ}
    (h : k ∈ (gather upd rows).select p) : k ∈ rows.map Prod.fst := by
  by_contra hk
  have hnone : (rows.filter fun row => row.1 = k) = [] := by
    rw [List.filter_eq_nil_iff]
    intro row hrow hrk
    apply hk
    rw [← of_decide_eq_true hrk]
    exact List.mem_map_of_mem hrow
  rw [mem_select_gather, hnone] at h
  cases h

end Grouped
end MetriEngine.Foundation

/-!
## Groups of a hash map

Rows are pushed into the group of their key, and a row without a key into none. The groups are a
partition of the rows by a relation exactly where every row has a key and the keys are equal
where the relation holds.
-/
namespace MetriEngine.Foundation

universe u v
variable {κ : Type u} {ρ : Type v} [LinearOrder κ] (key : ρ → Option κ)

def keyed (rows : List ρ) : List (κ × ρ) := rows.filterMap fun r => (key r).map fun k => (k, r)

/-- `entry(key).or_default().push(row)` -/
def push (kept : Option (List ρ)) (r : ρ) : Option (List ρ) := some (kept.getD [] ++ [r])

def hashGroups (rows : List ρ) : Grouped κ (List ρ) := Grouped.gather push (keyed key rows)

/-- The groups, in the order in which their keys came. -/
def groupsOf (rows : List ρ) : List (List ρ) :=
  (hashGroups key rows).order.map fun k => ((hashGroups key rows).kept.lookup k).getD []

/-- Every row is in one group and in no other, and two rows are in one group if they agree. -/
structure PartitionsBy (agree : ρ → ρ → Prop) (rows : List ρ) (groups : List (List ρ)) : Prop where
  perm : groups.flatten.Perm rows
  disjoint : groups.Pairwise List.Disjoint
  together : ∀ r ∈ rows, ∀ r' ∈ rows, (∃ group ∈ groups, r ∈ group ∧ r' ∈ group) ↔ agree r r'

variable {key} {rows : List ρ}

theorem keyed_filter (k : κ) :
    ((keyed key rows).filter fun row => row.1 = k).map Prod.snd =
      rows.filter fun r => key r = some k := by
  induction rows with
  | nil => rfl
  | cons r rows ih =>
    unfold keyed at ih ⊢
    cases hr : key r with
    | none => simp [hr, ih]
    | some k' =>
      by_cases hk : k' = k
      · simp [hr, hk, ih]
      · simp [hr, hk, ih]

theorem foldl_push (rows : List ρ) (kept : List ρ) :
    rows.foldl (fun kept r => (push kept r).or kept) (some kept) = some (kept ++ rows) := by
  induction rows generalizing kept with
  | nil => rw [List.foldl_nil, List.append_nil]
  | cons r rows ih =>
    rw [List.foldl_cons]
    change rows.foldl _ (some (kept ++ [r])) = _
    rw [ih, List.append_assoc]
    rfl

theorem lookup_hashGroups (k : κ) :
    (hashGroups key rows).kept.lookup k =
      if (rows.filter fun r => key r = some k) = [] then none
      else some (rows.filter fun r => key r = some k) := by
  rw [hashGroups, Grouped.lookup_gather, keyed_filter]
  cases rows.filter fun r => key r = some k with
  | nil => rfl
  | cons r rest =>
    rw [List.foldl_cons, if_neg (List.cons_ne_nil _ _)]
    exact foldl_push rest [r]

theorem mem_order_iff (k : κ) :
    k ∈ (hashGroups key rows).order ↔ ∃ r ∈ rows, key r = some k := by
  have hordered : (hashGroups key rows).Ordered := Grouped.ordered_gather _
  rw [hordered.mem, OrdMap.contains, lookup_hashGroups]
  split_ifs with hnil
  · simp only [Option.isSome_none, Bool.false_eq_true, false_iff]
    rintro ⟨r, hr, hk⟩
    exact List.ne_nil_of_mem (List.mem_filter.mpr ⟨hr, decide_eq_true hk⟩) hnil
  · simp only [Option.isSome_some, true_iff]
    obtain ⟨r, hr⟩ := List.exists_mem_of_ne_nil _ hnil
    obtain ⟨hmem, hk⟩ := List.mem_filter.mp hr
    exact ⟨r, hmem, of_decide_eq_true hk⟩

theorem groupsOf_eq : groupsOf key rows =
    (hashGroups key rows).order.map fun k => rows.filter fun r => key r = some k := by
  apply List.map_congr_left
  intro k _
  rw [lookup_hashGroups]
  split_ifs with hnil
  · exact hnil.symm
  · rfl

theorem mem_groupsOf_iff {group : List ρ} : group ∈ groupsOf key rows ↔
    ∃ k, (∃ r ∈ rows, key r = some k) ∧ group = rows.filter fun r => key r = some k := by
  rw [groupsOf_eq, List.mem_map]
  constructor
  · rintro ⟨k, hk, rfl⟩
    exact ⟨k, (mem_order_iff k).mp hk, rfl⟩
  · rintro ⟨k, hk, rfl⟩
    exact ⟨k, (mem_order_iff k).mpr hk, rfl⟩

/-- The rows of some keys, group by group. -/
theorem flatMap_filter_perm (rows : List ρ) : ∀ {keys : List κ}, keys.Nodup →
    (keys.flatMap fun k => rows.filter fun r => key r = some k).Perm
      (rows.filter fun r => (key r).any fun k => k ∈ keys) := by
  intro keys hnodup
  induction keys with
  | nil =>
    have hnone : rows.filter (fun r => (key r).any fun k => decide (k ∈ ([] : List κ))) = [] := by
      rw [List.filter_eq_nil_iff]
      intro r _
      cases key r <;> simp
    rw [hnone]
    exact List.Perm.refl _
  | cons k keys ih =>
    obtain ⟨hk, hnodup⟩ := List.nodup_cons.mp hnodup
    rw [List.flatMap_cons]
    have hsplit := List.filter_append_perm (fun r => decide (key r = some k))
      (rows.filter fun r => (key r).any fun k' => decide (k' ∈ k :: keys))
    refine List.Perm.trans ?_ hsplit
    rw [List.filter_filter, List.filter_filter]
    have hfirst : (rows.filter fun r => decide (key r = some k) &&
        (key r).any fun k' => decide (k' ∈ k :: keys)) = rows.filter fun r => key r = some k := by
      apply List.filter_congr
      intro r _
      by_cases hr : key r = some k
      · simp [hr]
      · simp [hr]
    have hrest : (rows.filter fun r => !decide (key r = some k) &&
        (key r).any fun k' => decide (k' ∈ k :: keys)) =
          rows.filter fun r => (key r).any fun k' => decide (k' ∈ keys) := by
      apply List.filter_congr
      intro r _
      cases hr : key r with
      | none => simp
      | some k' =>
        by_cases hkk : k' = k
        · subst hkk
          simp [hk]
        · simp [hkk]
    rw [hfirst, hrest]
    exact (ih hnodup).append_left _

theorem flatten_groupsOf_perm : (groupsOf key rows).flatten.Perm
    (rows.filter fun r => (key r).isSome) := by
  have hkeys : (rows.filter fun r => (key r).any fun k => k ∈ (hashGroups key rows).order) =
      rows.filter fun r => (key r).isSome := by
    apply List.filter_congr
    intro r hr
    cases hk : key r with
    | none => rfl
    | some k =>
      have hmem := (mem_order_iff k).mpr ⟨r, hr, hk⟩
      simp [hmem]
  rw [groupsOf_eq, ← List.flatMap_def, ← hkeys]
  exact flatMap_filter_perm rows (Grouped.ordered_gather _).nodup

theorem disjoint_groupsOf : (groupsOf key rows).Pairwise List.Disjoint := by
  have hnodup : (hashGroups key rows).order.Nodup := (Grouped.ordered_gather _).nodup
  rw [groupsOf_eq, List.pairwise_map]
  apply hnodup.imp
  intro k k' hne r hr hr'
  have hk := of_decide_eq_true (List.mem_filter.mp hr).2
  have hk' := of_decide_eq_true (List.mem_filter.mp hr').2
  exact hne (Option.some.inj (hk.symm.trans hk'))

theorem together_groupsOf_iff {r r' : ρ} (hr : r ∈ rows) (hr' : r' ∈ rows) :
    (∃ group ∈ groupsOf key rows, r ∈ group ∧ r' ∈ group) ↔
      (key r).isSome ∧ key r = key r' := by
  constructor
  · rintro ⟨group, hgroup, hmem, hmem'⟩
    obtain ⟨k, _, rfl⟩ := mem_groupsOf_iff.mp hgroup
    have hk := of_decide_eq_true (List.mem_filter.mp hmem).2
    have hk' := of_decide_eq_true (List.mem_filter.mp hmem').2
    rw [hk, hk']
    exact ⟨rfl, rfl⟩
  · rintro ⟨hsome, heq⟩
    obtain ⟨k, hk⟩ := Option.isSome_iff_exists.mp hsome
    refine ⟨_, mem_groupsOf_iff.mpr ⟨k, ⟨r, hr, hk⟩, rfl⟩, ?_, ?_⟩
    · exact List.mem_filter.mpr ⟨hr, decide_eq_true hk⟩
    · exact List.mem_filter.mpr ⟨hr', decide_eq_true (heq.symm.trans hk)⟩

theorem PartitionsBy.of_perm {agree : ρ → ρ → Prop} {groups groups' : List (List ρ)}
    (h : PartitionsBy agree rows groups) (hperm : groups'.Perm groups) :
    PartitionsBy agree rows groups' where
  perm := hperm.flatten.trans h.perm
  disjoint := h.disjoint.perm hperm.symm List.Disjoint.symm
  together := by
    intro r hr r' hr'
    rw [← h.together r hr r' hr']
    constructor
    · rintro ⟨group, hgroup, hmem⟩
      exact ⟨group, hperm.mem_iff.mp hgroup, hmem⟩
    · rintro ⟨group, hgroup, hmem⟩
      exact ⟨group, hperm.mem_iff.mpr hgroup, hmem⟩

/-- The groups are a partition exactly where every row has a key and rows agree exactly where
their keys are equal. -/
theorem partitionsBy_groupsOf_iff {agree : ρ → ρ → Prop} :
    PartitionsBy agree rows (groupsOf key rows) ↔
      (∀ r ∈ rows, (key r).isSome) ∧ ∀ r ∈ rows, ∀ r' ∈ rows, (key r = key r' ↔ agree r r') := by
  constructor
  · intro h
    have hall : ∀ r ∈ rows, (key r).isSome := by
      intro r hr
      have hmem := h.perm.mem_iff.mpr hr
      exact (List.mem_filter.mp (flatten_groupsOf_perm.mem_iff.mp hmem)).2
    refine ⟨hall, ?_⟩
    intro r hr r' hr'
    rw [← h.together r hr r' hr', together_groupsOf_iff hr hr']
    exact (and_iff_right (hall r hr)).symm
  · rintro ⟨hall, hagree⟩
    refine ⟨?_, disjoint_groupsOf, ?_⟩
    · have hwhole : (rows.filter fun r => (key r).isSome) = rows := List.filter_eq_self.mpr hall
      have hperm : (groupsOf key rows).flatten.Perm (rows.filter fun r => (key r).isSome) :=
        flatten_groupsOf_perm
      rwa [hwhole] at hperm
    · intro r hr r' hr'
      rw [together_groupsOf_iff hr hr', ← hagree r hr r' hr']
      exact and_iff_right (hall r hr)

end MetriEngine.Foundation

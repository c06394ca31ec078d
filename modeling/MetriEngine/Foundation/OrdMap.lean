import Mathlib

/-!
# Ordered finite maps as strictly sorted association lists

A map is the list of its entries in ascending key order, together with the
proof that the keys increase strictly. Two maps with the same lookups are
therefore equal, iteration is the list itself, and a range scan that starts at
a key and stops early is a `dropWhile` followed by a `takeWhile`.
-/
namespace MetriEngine.Foundation

universe u v

/-- A finite map over a linear order, carried by its sorted entry list. -/
structure OrdMap (κ : Type u) (α : Type v) [LinearOrder κ] where
  entries : List (κ × α)
  sorted : entries.Pairwise (fun a b => a.1 < b.1)

namespace OrdMap
variable {κ : Type u} {α : Type v} [LinearOrder κ]

theorem ext_entries {m n : OrdMap κ α} (h : m.entries = n.entries) : m = n := by
  cases m
  cases n
  cases h
  rfl

instance [DecidableEq α] : DecidableEq (OrdMap κ α) := fun m n =>
  decidable_of_iff (m.entries = n.entries) ⟨ext_entries, fun h => h ▸ rfl⟩

instance : EmptyCollection (OrdMap κ α) := ⟨⟨[], List.Pairwise.nil⟩⟩

instance : Inhabited (OrdMap κ α) := ⟨∅⟩

@[simp] theorem entries_empty : (∅ : OrdMap κ α).entries = [] := rfl

/-- The value bound to `k`, if any. -/
def lookup (m : OrdMap κ α) (k : κ) : Option α :=
  (m.entries.find? (fun e => e.1 = k)).map Prod.snd

def contains (m : OrdMap κ α) (k : κ) : Bool := (m.lookup k).isSome

def isEmpty (m : OrdMap κ α) : Bool := m.entries.isEmpty

theorem keys_nodup (m : OrdMap κ α) : (m.entries.map Prod.fst).Nodup :=
  List.pairwise_map.mpr (m.sorted.imp fun h => h.ne)

theorem entry_unique (m : OrdMap κ α) {k : κ} {a b : α}
    (ha : (k, a) ∈ m.entries) (hb : (k, b) ∈ m.entries) : a = b :=
  congrArg Prod.snd (List.inj_on_of_nodup_map m.keys_nodup ha hb rfl)

theorem lookup_eq_some {m : OrdMap κ α} {k : κ} {a : α} :
    m.lookup k = some a ↔ (k, a) ∈ m.entries := by
  constructor
  · intro h
    obtain ⟨⟨k', a'⟩, hf, rfl⟩ := Option.map_eq_some_iff.mp h
    have hk : k' = k := by simpa using List.find?_some hf
    exact hk ▸ List.mem_of_find?_eq_some hf
  · intro h
    cases hf : m.entries.find? (fun e => e.1 = k) with
    | none => simpa using List.find?_eq_none.mp hf _ h
    | some e =>
      obtain ⟨k', a'⟩ := e
      have hk : k' = k := by simpa using List.find?_some hf
      subst hk
      have hm := List.mem_of_find?_eq_some hf
      simp [lookup, hf, m.entry_unique hm h]

theorem lookup_eq_none {m : OrdMap κ α} {k : κ} :
    m.lookup k = none ↔ ∀ a, (k, a) ∉ m.entries := by
  rw [Option.eq_none_iff_forall_ne_some]
  exact forall_congr' fun a => not_congr lookup_eq_some

theorem contains_iff {m : OrdMap κ α} {k : κ} :
    m.contains k = true ↔ ∃ a, m.lookup k = some a := Option.isSome_iff_exists

@[simp] theorem lookup_empty (k : κ) : (∅ : OrdMap κ α).lookup k = none := rfl

@[simp] theorem contains_empty (k : κ) : (∅ : OrdMap κ α).contains k = false := rfl

theorem isEmpty_iff {m : OrdMap κ α} : m.isEmpty = true ↔ m = ∅ := by
  refine ⟨fun h => ext_entries (List.isEmpty_iff.mp h), ?_⟩
  rintro rfl
  rfl

theorem lookup_of_isEmpty {m : OrdMap κ α} (h : m.isEmpty = true) (k : κ) :
    m.lookup k = none := by
  rw [isEmpty_iff.mp h, lookup_empty]

/-- Lookups determine a map: both entry lists are sorted by a strict order. -/
theorem ext {m n : OrdMap κ α} (h : ∀ k, m.lookup k = n.lookup k) : m = n := by
  have hmem (e : κ × α) : e ∈ m.entries ↔ e ∈ n.entries := by
    obtain ⟨k, a⟩ := e
    rw [← lookup_eq_some, ← lookup_eq_some, h]
  have hnd (p : OrdMap κ α) : p.entries.Nodup :=
    p.sorted.imp fun hlt heq => hlt.ne (congrArg Prod.fst heq)
  have hperm : m.entries.Perm n.entries :=
    (List.perm_ext_iff_of_nodup (hnd m) (hnd n)).mpr hmem
  exact ext_entries (hperm.eq_of_pairwise
    (fun a b _ _ hab hba => absurd hab hba.asymm) m.sorted n.sorted)

/-- A map to lists none of which is empty is told by what it lists. -/
theorem ext_of_getD {m n : OrdMap κ (List α)}
    (hm : ∀ k, m.lookup k ≠ some []) (hn : ∀ k, n.lookup k ≠ some [])
    (h : ∀ k, (m.lookup k).getD [] = (n.lookup k).getD []) : m = n := by
  apply ext
  intro k
  have hk := h k
  cases hl : m.lookup k with
  | none =>
    cases hr : n.lookup k with
    | none => rfl
    | some l =>
      rw [hl, hr] at hk
      have hnil : [] = l := hk
      exact absurd (hnil ▸ hr) (hn k)
  | some l =>
    cases hr : n.lookup k with
    | none =>
      rw [hl, hr] at hk
      have hnil : l = [] := hk
      exact absurd (hnil ▸ hl) (hm k)
    | some l' =>
      rw [hl, hr] at hk
      rw [show l = l' from hk]

/-! ### Insertion and removal -/

/-- Sorted insertion, replacing the entry under an equal key. -/
def insertEntry (k : κ) (a : α) : List (κ × α) → List (κ × α)
  | [] => [(k, a)]
  | e :: l =>
    if k < e.1 then (k, a) :: e :: l
    else if k = e.1 then (k, a) :: l
    else e :: insertEntry k a l

theorem mem_insertEntry {k : κ} {a : α} {l : List (κ × α)}
    (hs : l.Pairwise (fun a b => a.1 < b.1)) {e : κ × α} :
    e ∈ insertEntry k a l ↔ e = (k, a) ∨ (e.1 ≠ k ∧ e ∈ l) := by
  induction l with
  | nil => simp [insertEntry]
  | cons x l ih =>
    obtain ⟨hx, hl⟩ := List.pairwise_cons.mp hs
    simp only [insertEntry]
    split_ifs with hlt heq
    · have hne (y : κ × α) (hy : y ∈ x :: l) : y.1 ≠ k := by
        rcases List.mem_cons.mp hy with rfl | hy
        · exact hlt.ne'
        · exact (hlt.trans (hx y hy)).ne'
      grind
    · subst heq
      have hne (y : κ × α) (hy : y ∈ l) : y.1 ≠ x.1 := (hx y hy).ne'
      grind
    · grind

theorem insertEntry_sorted (k : κ) (a : α) {l : List (κ × α)}
    (hs : l.Pairwise (fun a b => a.1 < b.1)) :
    (insertEntry k a l).Pairwise (fun a b => a.1 < b.1) := by
  induction l with
  | nil => simp [insertEntry]
  | cons x l ih =>
    obtain ⟨hx, hl⟩ := List.pairwise_cons.mp hs
    simp only [insertEntry]
    split_ifs with hlt heq
    · refine List.pairwise_cons.mpr ⟨fun y hy => ?_, hs⟩
      rcases List.mem_cons.mp hy with rfl | hy
      · exact hlt
      · exact hlt.trans (hx y hy)
    · subst heq
      exact List.pairwise_cons.mpr ⟨hx, hl⟩
    · refine List.pairwise_cons.mpr ⟨fun y hy => ?_, ih hl⟩
      rcases (mem_insertEntry hl).mp hy with rfl | ⟨_, hy⟩
      · exact lt_of_le_of_ne (not_lt.mp hlt) (Ne.symm heq)
      · exact hx y hy

def insert (m : OrdMap κ α) (k : κ) (a : α) : OrdMap κ α :=
  ⟨insertEntry k a m.entries, insertEntry_sorted k a m.sorted⟩

def erase (m : OrdMap κ α) (k : κ) : OrdMap κ α :=
  ⟨m.entries.filter (fun e => e.1 ≠ k), m.sorted.filter _⟩

theorem mem_entries_insert {m : OrdMap κ α} {k : κ} {a : α} {e : κ × α} :
    e ∈ (m.insert k a).entries ↔ e = (k, a) ∨ (e.1 ≠ k ∧ e ∈ m.entries) :=
  mem_insertEntry m.sorted

theorem mem_entries_erase {m : OrdMap κ α} {k : κ} {e : κ × α} :
    e ∈ (m.erase k).entries ↔ e ∈ m.entries ∧ e.1 ≠ k := by
  simp [erase]

@[simp, grind =] theorem lookup_insert (m : OrdMap κ α) (k k' : κ) (a : α) :
    (m.insert k a).lookup k' = if k' = k then some a else m.lookup k' := by
  ext b
  rw [lookup_eq_some, mem_entries_insert]
  split_ifs with h
  · simp [h, eq_comm]
  · simp [h, lookup_eq_some]

theorem lookup_insert_self (m : OrdMap κ α) (k : κ) (a : α) :
    (m.insert k a).lookup k = some a := by simp

theorem lookup_insert_of_ne (m : OrdMap κ α) {k k' : κ} (a : α) (h : k' ≠ k) :
    (m.insert k a).lookup k' = m.lookup k' := by simp [h]

@[simp, grind =] theorem lookup_erase (m : OrdMap κ α) (k k' : κ) :
    (m.erase k).lookup k' = if k' = k then none else m.lookup k' := by
  ext b
  rw [lookup_eq_some, mem_entries_erase]
  split_ifs with h
  · simp [h]
  · simp [h, lookup_eq_some]

@[simp, grind =] theorem contains_insert (m : OrdMap κ α) (k k' : κ) (a : α) :
    (m.insert k a).contains k' = (decide (k' = k) || m.contains k') := by
  by_cases h : k' = k <;> simp [contains, h]

@[simp, grind =] theorem contains_erase (m : OrdMap κ α) (k k' : κ) :
    (m.erase k).contains k' = (!decide (k' = k) && m.contains k') := by
  by_cases h : k' = k <;> simp [contains, h]

/-- Putting back the value a map already holds changes nothing. -/
theorem insert_lookup_self {m : OrdMap κ α} {k : κ} {a : α} (h : m.lookup k = some a) :
    m.insert k a = m := by
  refine ext fun k' => ?_
  rw [lookup_insert]
  split_ifs with hk
  · rw [hk, h]
  · rfl

theorem erase_insert_self (m : OrdMap κ α) (k : κ) (a : α) :
    (m.erase k).insert k a = m.insert k a := by
  refine ext fun k' => ?_
  simp only [lookup_insert, lookup_erase]
  split_ifs <;> rfl

theorem erase_of_lookup_eq_none {m : OrdMap κ α} {k : κ} (h : m.lookup k = none) :
    m.erase k = m := by
  refine ext fun k' => ?_
  rw [lookup_erase]
  split_ifs with hk
  · rw [hk, h]
  · rfl

/-! ### Bulk construction -/

/-- Inserting a list of entries one after the other: the last one under a key wins. -/
def insertList (m : OrdMap κ α) (l : List (κ × α)) : OrdMap κ α :=
  l.foldl (fun m e => m.insert e.1 e.2) m

@[simp] theorem insertList_nil (m : OrdMap κ α) : m.insertList [] = m := rfl

@[simp] theorem insertList_cons (m : OrdMap κ α) (e : κ × α) (l : List (κ × α)) :
    m.insertList (e :: l) = (m.insert e.1 e.2).insertList l := rfl

theorem lookup_insertList_of_notMem (m : OrdMap κ α) {l : List (κ × α)} {k : κ}
    (h : k ∉ l.map Prod.fst) : (m.insertList l).lookup k = m.lookup k := by
  induction l generalizing m with
  | nil => rfl
  | cons e l ih =>
    simp only [List.map_cons, List.mem_cons, not_or] at h
    rw [insertList_cons, ih _ h.2, lookup_insert_of_ne _ _ h.1]

theorem lookup_insertList_of_mem (m : OrdMap κ α) {l : List (κ × α)}
    (hl : (l.map Prod.fst).Nodup) {k : κ} {a : α} (h : (k, a) ∈ l) :
    (m.insertList l).lookup k = some a := by
  induction l generalizing m with
  | nil => simp at h
  | cons e l ih =>
    rw [List.map_cons, List.nodup_cons] at hl
    rw [insertList_cons]
    rcases List.mem_cons.mp h with rfl | h
    · rw [lookup_insertList_of_notMem _ hl.1, lookup_insert_self]
    · exact ih _ hl.2 h

theorem lookup_insertList_eq_none (m : OrdMap κ α) {l : List (κ × α)} {k : κ} :
    (m.insertList l).lookup k = none ↔ m.lookup k = none ∧ k ∉ l.map Prod.fst := by
  induction l generalizing m with
  | nil => simp
  | cons e l ih =>
    rw [insertList_cons, ih, lookup_insert, List.map_cons, List.mem_cons]
    by_cases h : k = e.1 <;> simp [h]

/-- Inserting a list over a map: what the list holds, and beneath it the map. -/
theorem lookup_insertList_or (m : OrdMap κ α) (l : List (κ × α)) (k : κ) :
    (m.insertList l).lookup k = (((∅ : OrdMap κ α).insertList l).lookup k).or (m.lookup k) := by
  induction l generalizing m with
  | nil => simp
  | cons e l ih =>
    rw [insertList_cons, insertList_cons, ih (m.insert e.1 e.2),
      ih ((∅ : OrdMap κ α).insert e.1 e.2), Option.or_assoc]
    congr 1
    by_cases h : k = e.1 <;> simp [h]

theorem insertList_append (m : OrdMap κ α) (l l' : List (κ × α)) :
    m.insertList (l ++ l') = (m.insertList l).insertList l' := by
  induction l generalizing m with
  | nil => rfl
  | cons e l ih => rw [List.cons_append, insertList_cons, insertList_cons, ih]

theorem mem_of_lookup_insertList {m : OrdMap κ α} {l : List (κ × α)} {k : κ} {a : α}
    (h : (m.insertList l).lookup k = some a) : (k, a) ∈ l ∨ m.lookup k = some a := by
  induction l generalizing m with
  | nil => exact Or.inr h
  | cons e l ih =>
    rw [insertList_cons] at h
    rcases ih h with hmem | hlookup
    · exact Or.inl (List.mem_cons_of_mem _ hmem)
    · rw [lookup_insert] at hlookup
      split_ifs at hlookup with hk
      · cases hlookup
        exact Or.inl (by rw [hk]; exact List.mem_cons_self)
      · exact Or.inr hlookup

/-- A map that holds two keys at most lists the smaller one first. -/
theorem entries_of_pair {m : OrdMap κ α} {k k' : κ} (hlt : k < k')
    (h : ∀ x, m.lookup x ≠ none → x = k ∨ x = k') :
    m.entries = ((m.lookup k).map fun a => (k, a)).toList ++
      ((m.lookup k').map fun a => (k', a)).toList := by
  have hsorted : (((m.lookup k).map fun a => (k, a)).toList ++
      ((m.lookup k').map fun a => (k', a)).toList).Pairwise fun a b => a.1 < b.1 := by
    cases m.lookup k <;> cases m.lookup k' <;> simp [hlt]
  have hm : m = ⟨_, hsorted⟩ := by
    apply ext
    intro x
    ext a
    rw [lookup_eq_some (m := ⟨_, hsorted⟩)]
    simp only [List.mem_append, Option.mem_toList, Option.map_eq_some_iff,
      Prod.mk.injEq]
    constructor
    · intro ha
      rcases h x (by rw [ha]; exact Option.some_ne_none a) with rfl | rfl
      · exact Or.inl ⟨a, ha, rfl, rfl⟩
      · exact Or.inr ⟨a, ha, rfl, rfl⟩
    · rintro (⟨a, ha, rfl, rfl⟩ | ⟨a, ha, rfl, rfl⟩)
      · exact ha
      · exact ha
  exact congrArg entries hm

theorem insertList_entries (m : OrdMap κ α) : (∅ : OrdMap κ α).insertList m.entries = m := by
  apply ext
  intro k
  cases h : m.lookup k with
  | some a => exact lookup_insertList_of_mem _ m.keys_nodup (lookup_eq_some.mp h)
  | none =>
    rw [lookup_insertList_of_notMem, lookup_empty]
    intro hmem
    obtain ⟨e, he, rfl⟩ := List.mem_map.mp hmem
    exact lookup_eq_none.mp h e.2 he

/-! ### Changing values and dropping keys -/

section Mapped
variable {β : Type v}

def mapValues (f : α → β) (m : OrdMap κ α) : OrdMap κ β where
  entries := m.entries.map fun e => (e.1, f e.2)
  sorted := List.pairwise_map.mpr m.sorted

@[simp] theorem lookup_mapValues (f : α → β) (m : OrdMap κ α) (k : κ) :
    (m.mapValues f).lookup k = (m.lookup k).map f := by
  ext b
  simp only [lookup_eq_some, Option.map_eq_some_iff, mapValues, List.mem_map, Prod.mk.injEq]
  constructor
  · rintro ⟨e, he, rfl, rfl⟩
    exact ⟨e.2, he, rfl⟩
  · rintro ⟨a, ha, rfl⟩
    exact ⟨(k, a), ha, rfl, rfl⟩

@[simp] theorem mapValues_empty (f : α → β) : (∅ : OrdMap κ α).mapValues f = ∅ := rfl

def filterKeys (p : κ → Bool) (m : OrdMap κ α) : OrdMap κ α where
  entries := m.entries.filter fun e => p e.1
  sorted := m.sorted.filter _

@[simp] theorem lookup_filterKeys (p : κ → Bool) (m : OrdMap κ α) (k : κ) :
    (m.filterKeys p).lookup k = if p k then m.lookup k else none := by
  ext b
  simp only [lookup_eq_some, filterKeys, List.mem_filter]
  split_ifs with hp <;> simp [hp, lookup_eq_some]

/-- Inserting some of the entries of a map over another. -/
theorem lookup_insertList_filter (m n : OrdMap κ α) (p : κ × α → Bool) (k : κ) :
    (m.insertList (n.entries.filter p)).lookup k =
      ((n.lookup k).filter fun a => p (k, a)).or (m.lookup k) := by
  have hnodup : ((n.entries.filter p).map Prod.fst).Nodup :=
    n.keys_nodup.sublist (List.filter_sublist.map Prod.fst)
  cases hn : (n.lookup k).filter fun a => p (k, a) with
  | none =>
    rw [lookup_insertList_of_notMem, Option.none_or]
    intro hmem
    obtain ⟨⟨k', a⟩, hin, rfl⟩ := List.mem_map.mp hmem
    obtain ⟨hin, hp⟩ := List.mem_filter.mp hin
    rw [lookup_eq_some.mpr hin, Option.filter_some, if_pos hp] at hn
    cases hn
  | some a =>
    obtain ⟨hlookup, hp⟩ := Option.filter_eq_some_iff.mp hn
    rw [lookup_insertList_of_mem _ hnodup (List.mem_filter.mpr ⟨lookup_eq_some.mp hlookup, hp⟩),
      Option.some_or]

/-- The map of what `g` makes of the entries, where it makes something. -/
def collect (g : κ → α → Option β) (m : OrdMap κ α) : OrdMap κ β where
  entries := m.entries.filterMap fun e => (g e.1 e.2).map fun b => (e.1, b)
  sorted := by
    apply List.Pairwise.filterMap _ _ m.sorted
    intro e f hlt x hx y hy
    obtain ⟨_, _, rfl⟩ := Option.map_eq_some_iff.mp hx
    obtain ⟨_, _, rfl⟩ := Option.map_eq_some_iff.mp hy
    exact hlt

@[simp] theorem lookup_collect (g : κ → α → Option β) (m : OrdMap κ α) (k : κ) :
    (m.collect g).lookup k = (m.lookup k).bind (g k) := by
  ext b
  simp only [lookup_eq_some, Option.bind_eq_some_iff, collect, List.mem_filterMap,
    Option.map_eq_some_iff, Prod.mk.injEq]
  constructor
  · rintro ⟨e, he, b', hb, rfl, rfl⟩
    exact ⟨e.2, he, hb⟩
  · rintro ⟨a, ha, hb⟩
    exact ⟨(k, a), ha, b, hb, rfl, rfl⟩

theorem map_snd_entries_collect (g : κ → α → Option β) (m : OrdMap κ α) :
    (m.collect g).entries.map Prod.snd = m.entries.filterMap fun e => g e.1 e.2 := by
  simp only [collect, List.map_filterMap, Option.map_map]
  congr 1
  funext e
  cases g e.1 e.2 <;> rfl

/-- A map with the entries of two, the keys of the one before those of the other. -/
theorem entries_eq_append {m n r : OrdMap κ α}
    (hlt : ∀ a ∈ m.entries, ∀ b ∈ n.entries, a.1 < b.1)
    (h : ∀ k, r.lookup k = (m.lookup k).or (n.lookup k)) : r.entries = m.entries ++ n.entries := by
  have hr : r = ⟨m.entries ++ n.entries, List.pairwise_append.mpr ⟨m.sorted, n.sorted, hlt⟩⟩ := by
    apply ext
    intro k
    rw [h k]
    ext a
    rw [lookup_eq_some, List.mem_append, ← lookup_eq_some, ← lookup_eq_some]
    cases hm : m.lookup k with
    | none => simp
    | some b =>
      simp only [Option.some_or, Option.some.injEq, iff_self_or]
      intro hn
      exact absurd (hlt _ (lookup_eq_some.mp hm) _ (lookup_eq_some.mp hn)) (lt_irrefl k)
  rw [hr]

end Mapped

/-! ### Range scans -/

/-- The entries from `start` on, as an ordered tree's `range(start..)` yields them. -/
def rangeFrom (m : OrdMap κ α) (start : κ) : List (κ × α) :=
  m.entries.dropWhile (fun e => e.1 < start)

/-- On a sorted list, dropping while a lower-closed test holds is filtering. -/
theorem dropWhile_eq_filter {l : List (κ × α)} (hs : l.Pairwise (fun a b => a.1 < b.1))
    {p : κ × α → Bool} (hp : ∀ a b : κ × α, a.1 < b.1 → p b = true → p a = true) :
    l.dropWhile p = l.filter (fun e => !p e) := by
  induction l with
  | nil => rfl
  | cons x l ih =>
    obtain ⟨hx, hl⟩ := List.pairwise_cons.mp hs
    by_cases h : p x
    · simp [h, ih hl]
    · have hall : ∀ y ∈ l, p y = false := fun y hy => by
        by_contra hy'
        exact h (hp x y (hx y hy) (by simpa using hy'))
      rw [List.dropWhile_cons, if_neg h, List.filter_cons, if_pos (by simpa using h)]
      congr 1
      exact (List.filter_eq_self.mpr fun y hy => by simp [hall y hy]).symm

/-- On a sorted list, taking while a lower-closed test holds is filtering. -/
theorem takeWhile_eq_filter {l : List (κ × α)} (hs : l.Pairwise (fun a b => a.1 < b.1))
    {p : κ × α → Bool}
    (hp : ∀ a ∈ l, ∀ b ∈ l, a.1 < b.1 → p b = true → p a = true) :
    l.takeWhile p = l.filter p := by
  induction l with
  | nil => rfl
  | cons x l ih =>
    obtain ⟨hx, hl⟩ := List.pairwise_cons.mp hs
    have ih' := ih hl fun a ha b hb =>
      hp a (List.mem_cons_of_mem _ ha) b (List.mem_cons_of_mem _ hb)
    by_cases h : p x
    · simp [h, ih']
    · have hall : ∀ y ∈ l, ¬ p y = true := fun y hy hy' =>
        h (hp x List.mem_cons_self y (List.mem_cons_of_mem _ hy) (hx y hy) hy')
      rw [List.takeWhile_cons, if_neg h, List.filter_cons, if_neg h,
        List.filter_eq_nil_iff.mpr hall]

theorem rangeFrom_eq_filter (m : OrdMap κ α) (start : κ) :
    m.rangeFrom start = m.entries.filter (fun e => start ≤ e.1) := by
  rw [rangeFrom, dropWhile_eq_filter m.sorted
    (fun a b hab hb => by simpa using hab.trans (by simpa using hb))]
  refine List.filter_congr fun e _ => ?_
  by_cases h : e.1 < start <;> simp [h, not_lt.mp]

theorem rangeFrom_sorted (m : OrdMap κ α) (start : κ) :
    (m.rangeFrom start).Pairwise (fun a b => a.1 < b.1) :=
  m.sorted.sublist (List.dropWhile_sublist _)

end OrdMap
end MetriEngine.Foundation

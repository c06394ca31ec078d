import MetriEngine.Foundation.OrdMap

/-!
# Maps of lists

Each key has the values that were pushed under it, in the order in which they came. The values
with their keys are those that were pushed, in another order. Where only their number counts, the counts
under some keys add up to the elements under them.
-/
namespace MetriEngine.Foundation.OrdMap

universe u v
variable {κ : Type u} {α : Type v} [LinearOrder κ]

/-- The values under a key; none if it has none. -/
def group (m : OrdMap κ (List α)) (k : κ) : List α := (m.lookup k).getD []

/-- `entry(key).or_default().push(value)` -/
def pushAt (m : OrdMap κ (List α)) (p : κ × α) : OrdMap κ (List α) :=
  m.insert p.1 (m.group p.1 ++ [p.2])

def pushAll (m : OrdMap κ (List α)) (ps : List (κ × α)) : OrdMap κ (List α) := ps.foldl pushAt m

/-- Every value behind its key. -/
def cells (m : OrdMap κ (List α)) : List (κ × α) :=
  m.entries.flatMap fun e => e.2.map fun a => (e.1, a)

/-- No key stands without a value. -/
def NoneEmpty (m : OrdMap κ (List α)) : Prop := ∀ k, m.lookup k ≠ some []

theorem group_pushAt (m : OrdMap κ (List α)) (p : κ × α) (k : κ) :
    (m.pushAt p).group k = if p.1 = k then m.group k ++ [p.2] else m.group k := by
  unfold pushAt group
  by_cases hk : p.1 = k
  · subst hk
    simp [lookup_insert]
  · rw [if_neg hk, lookup_insert_of_ne _ _ (Ne.symm hk)]

/-- The values of a key come in the order in which they were pushed. -/
theorem group_pushAll (m : OrdMap κ (List α)) (ps : List (κ × α)) (k : κ) :
    (m.pushAll ps).group k = m.group k ++ (ps.filter fun p => p.1 = k).map Prod.snd := by
  induction ps generalizing m with
  | nil => simp [pushAll]
  | cons p ps ih =>
    rw [pushAll, List.foldl_cons]
    change ((m.pushAt p).pushAll ps).group k = _
    rw [ih, group_pushAt]
    by_cases hk : p.1 = k
    · simp [hk]
    · simp [hk]

theorem noneEmpty_empty : (∅ : OrdMap κ (List α)).NoneEmpty := by
  intro k h
  rw [lookup_empty] at h
  cases h

theorem NoneEmpty.pushAt {m : OrdMap κ (List α)} (h : m.NoneEmpty) (p : κ × α) :
    (m.pushAt p).NoneEmpty := by
  intro k
  unfold OrdMap.pushAt
  by_cases hk : k = p.1
  · subst hk
    rw [lookup_insert_self]
    simp
  · rw [lookup_insert_of_ne _ _ hk]
    exact h k

theorem NoneEmpty.pushAll {m : OrdMap κ (List α)} (h : m.NoneEmpty) (ps : List (κ × α)) :
    (m.pushAll ps).NoneEmpty := by
  induction ps generalizing m with
  | nil => exact h
  | cons p ps ih => exact ih (h.pushAt p)

/-- Where no key stands without a value, the values say all. -/
theorem NoneEmpty.ext {m n : OrdMap κ (List α)} (hm : m.NoneEmpty) (hn : n.NoneEmpty)
    (h : ∀ k, m.group k = n.group k) : m = n := by
  apply OrdMap.ext
  intro k
  have hk := h k
  unfold group at hk
  cases hmk : m.lookup k with
  | none =>
    cases hnk : n.lookup k with
    | none => rfl
    | some b =>
      rw [hmk, hnk] at hk
      have hb : b = [] := hk.symm
      subst hb
      exact absurd hnk (hn k)
  | some a =>
    cases hnk : n.lookup k with
    | none =>
      rw [hmk, hnk] at hk
      have ha : a = [] := hk
      subst ha
      exact absurd hmk (hm k)
    | some b =>
      rw [hmk, hnk] at hk
      exact congrArg some hk

/-! ### The values with their keys -/

theorem mem_cells {m : OrdMap κ (List α)} {k : κ} {a : α} : (k, a) ∈ m.cells ↔ a ∈ m.group k := by
  unfold cells group
  rw [List.mem_flatMap]
  constructor
  · rintro ⟨e, he, hmem⟩
    obtain ⟨b, hb, heq⟩ := List.mem_map.mp hmem
    cases heq
    rw [lookup_eq_some.mpr he]
    exact hb
  · intro hmem
    cases hk : m.lookup k with
    | none =>
      rw [hk] at hmem
      cases hmem
    | some as =>
      rw [hk] at hmem
      exact ⟨(k, as), lookup_eq_some.mp hk, List.mem_map.mpr ⟨a, hmem, rfl⟩⟩

theorem filter_cells_of_notMem {k : κ} {entries : List (κ × List α)}
    (h : k ∉ entries.map Prod.fst) :
    ((entries.flatMap fun e => e.2.map fun a => (e.1, a)).filter fun p => p.1 = k) = [] := by
  rw [List.filter_eq_nil_iff]
  intro p hp hk
  obtain ⟨e, he, hmem⟩ := List.mem_flatMap.mp hp
  obtain ⟨a, _, rfl⟩ := List.mem_map.mp hmem
  exact h (List.mem_map.mpr ⟨e, he, of_decide_eq_true hk⟩)

/-- Of the values behind their keys those of one key. -/
theorem filter_cells (m : OrdMap κ (List α)) (k : κ) :
    (m.cells.filter fun p => p.1 = k).map Prod.snd = m.group k := by
  have hnodup := m.keys_nodup
  unfold cells group lookup
  generalize m.entries = entries at hnodup ⊢
  induction entries with
  | nil => rfl
  | cons e entries ih =>
    rw [List.map_cons, List.nodup_cons] at hnodup
    rw [List.flatMap_cons, List.filter_append, List.map_append]
    by_cases hk : e.1 = k
    · subst hk
      have hrest := filter_cells_of_notMem hnodup.1
      have hself : (e.2.map fun a => (e.1, a)).filter (fun p => p.1 = e.1) =
          e.2.map fun a => (e.1, a) := by
        rw [List.filter_eq_self]
        intro p hp
        obtain ⟨a, _, rfl⟩ := List.mem_map.mp hp
        exact decide_eq_true rfl
      rw [hrest, hself]
      simp
    · have hfirst : (e.2.map fun a => (e.1, a)).filter (fun p => p.1 = k) = [] := by
        rw [List.filter_eq_nil_iff]
        intro p hp heq
        obtain ⟨a, _, rfl⟩ := List.mem_map.mp hp
        exact hk (of_decide_eq_true heq)
      rw [hfirst, ih hnodup.2, List.find?_cons_of_neg (by simpa using hk)]
      rfl

/-- Lists of keyed values with the same values under each key, in the same order, hold the same
values. -/
theorem perm_of_filter_eq {ps qs : List (κ × α)}
    (h : ∀ k, (ps.filter fun p => p.1 = k).map Prod.snd =
      (qs.filter fun p => p.1 = k).map Prod.snd) : ps.Perm qs := by
  classical
  rw [List.perm_iff_count]
  rintro ⟨k, a⟩
  have hcount : ∀ l : List (κ × α),
      l.count (k, a) = ((l.filter fun p => p.1 = k).map Prod.snd).count a := by
    intro l
    induction l with
    | nil => rfl
    | cons p l ih =>
      by_cases hk : p.1 = k
      · by_cases ha : p.2 = a
        · have hp : p = (k, a) := Prod.ext hk ha
          subst hp
          simp [ih]
        · have hp : p ≠ (k, a) := fun hp => ha (congrArg Prod.snd hp)
          simp [hk, ha, hp, ih]
      · have hp : p ≠ (k, a) := fun hp => hk (congrArg Prod.fst hp)
        simp [hk, hp, ih]
  rw [hcount, hcount, h]

/-- What was pushed is there, and nothing else. -/
theorem cells_pushAll (ps : List (κ × α)) :
    ((∅ : OrdMap κ (List α)).pushAll ps).cells.Perm ps := by
  apply perm_of_filter_eq
  intro k
  rw [filter_cells, group_pushAll]
  rfl

/-- The values pushed again group by group make the same map. -/
theorem NoneEmpty.pushAll_cells {m : OrdMap κ (List α)} (h : m.NoneEmpty) :
    (∅ : OrdMap κ (List α)).pushAll m.cells = m := by
  apply (noneEmpty_empty.pushAll _).ext h
  intro k
  rw [group_pushAll, filter_cells]
  rfl

/-- Of maps with the same values with their keys each key has the same values. -/
theorem group_perm {m n : OrdMap κ (List α)} (h : m.cells.Perm n.cells) (k : κ) :
    (m.group k).Perm (n.group k) := by
  rw [← filter_cells, ← filter_cells]
  exact (h.filter _).map _

theorem pushAll_append (m : OrdMap κ (List α)) (ps qs : List (κ × α)) :
    m.pushAll (ps ++ qs) = (m.pushAll ps).pushAll qs := List.foldl_append ..

theorem length_group_le (m : OrdMap κ (List α)) {e : κ × List α} (h : e ∈ m.entries) :
    e.2.length ≤ m.cells.length := by
  have hsub := (List.sublist_flatten_of_mem (List.mem_map.mpr ⟨e, h, rfl⟩) :
    (e.2.map fun a => (e.1, a)).Sublist (m.entries.map fun e => e.2.map fun a => (e.1, a)).flatten)
  have hle := hsub.length_le
  rwa [List.length_map] at hle

/-- Keys that all have values are no more than these. -/
theorem NoneEmpty.length_entries_le {m : OrdMap κ (List α)} (h : m.NoneEmpty) :
    m.entries.length ≤ m.cells.length := by
  have hvalues : ∀ e ∈ m.entries, 1 ≤ e.2.length := by
    intro e he
    have hne : e.2 ≠ [] := by
      intro hnil
      have hkept : m.lookup e.1 = some e.2 := lookup_eq_some.mpr he
      rw [hnil] at hkept
      exact h e.1 hkept
    exact List.length_pos_of_ne_nil hne
  unfold cells
  generalize m.entries = entries at hvalues ⊢
  induction entries with
  | nil => exact le_rfl
  | cons e entries ih =>
    obtain ⟨hfirst, hrest⟩ := List.forall_mem_cons.mp hvalues
    rw [List.flatMap_cons, List.length_append, List.length_map, List.length_cons]
    have hle := ih hrest
    omega

/-! ### How many keys there are -/

theorem length_insertEntry_le {β : Type*} (k : κ) (b : β) (l : List (κ × β)) :
    (insertEntry k b l).length ≤ l.length + 1 := by
  fun_induction insertEntry k b l <;> simp_all

theorem length_insertList_le {β : Type*} (m : OrdMap κ β) (l : List (κ × β)) :
    (m.insertList l).entries.length ≤ m.entries.length + l.length := by
  induction l generalizing m with
  | nil => exact le_rfl
  | cons e l ih =>
    have hinsert : (m.insert e.1 e.2).entries.length ≤ m.entries.length + 1 :=
      length_insertEntry_le ..
    have hle := ih (m.insert e.1 e.2)
    rw [insertList_cons, List.length_cons]
    omega

/-! ### Counts -/

/-- What stands under the keys that satisfy `p`, added up. -/
def sumWhere (p : κ → Bool) (m : OrdMap κ ℤ) : ℤ := (m.entries.map fun e => if p e.1 then e.2 else 0).sum

/-- `*entry(key).or_insert(0) += 1` -/
def bump (m : OrdMap κ ℤ) (k : κ) : OrdMap κ ℤ := m.insert k ((m.lookup k).getD 0 + 1)

/-- How often each key is in a list. -/
def counts (ks : List κ) : OrdMap κ ℤ := ks.foldl bump ∅

theorem nodup_entries (m : OrdMap κ α) : m.entries.Nodup := m.keys_nodup.of_map _

theorem perm_entries_insert (m : OrdMap κ α) (k : κ) (a : α) :
    (m.insert k a).entries.Perm ((k, a) :: (m.erase k).entries) := by
  have hnot : (k, a) ∉ (m.erase k).entries := by simp [mem_entries_erase]
  apply (List.perm_ext_iff_of_nodup (nodup_entries _) _).mpr
  · intro e
    rw [mem_entries_insert, List.mem_cons, mem_entries_erase, and_comm (a := e.1 ≠ k)]
  · exact List.nodup_cons.mpr ⟨hnot, nodup_entries _⟩

theorem sumWhere_insert (p : κ → Bool) (m : OrdMap κ ℤ) (k : κ) (n : ℤ) :
    (m.insert k n).sumWhere p = (if p k then n else 0) + (m.erase k).sumWhere p :=
  ((perm_entries_insert m k n).map _).sum_eq

theorem sumWhere_split (p : κ → Bool) (m : OrdMap κ ℤ) (k : κ) :
    m.sumWhere p = (if p k then (m.lookup k).getD 0 else 0) + (m.erase k).sumWhere p := by
  cases hlookup : m.lookup k with
  | none => simp [erase_of_lookup_eq_none hlookup]
  | some n => rw [Option.getD_some, ← sumWhere_insert, insert_lookup_self hlookup]

theorem sumWhere_bump (p : κ → Bool) (m : OrdMap κ ℤ) (k : κ) :
    (m.bump k).sumWhere p = m.sumWhere p + if p k then 1 else 0 := by
  rw [bump, sumWhere_insert, sumWhere_split p m k]
  split_ifs <;> ring

/-- The counts under the keys that satisfy `p` are the elements that do. -/
theorem sumWhere_counts (p : κ → Bool) (ks : List κ) : (counts ks).sumWhere p = ks.countP p := by
  have hfold (m : OrdMap κ ℤ) : (ks.foldl bump m).sumWhere p = m.sumWhere p + ks.countP p := by
    induction ks generalizing m with
    | nil => simp
    | cons k ks ih =>
      rw [List.foldl_cons, ih, sumWhere_bump, List.countP_cons]
      push_cast
      split_ifs <;> ring
  have hempty : (∅ : OrdMap κ ℤ).sumWhere p = 0 := rfl
  rw [counts, hfold, hempty, zero_add]

theorem lookup_foldl_bump (m : OrdMap κ ℤ) (ks : List κ) (k : κ) :
    (ks.foldl bump m).lookup k =
      if k ∈ ks then some ((m.lookup k).getD 0 + ks.count k) else m.lookup k := by
  induction ks generalizing m with
  | nil => simp
  | cons k' ks ih =>
    rw [List.foldl_cons, ih, bump, lookup_insert]
    by_cases hk : k = k'
    · subst hk
      by_cases hmem : k ∈ ks
      · simp [hmem]
        ring
      · simp [hmem, List.count_eq_zero_of_not_mem hmem]
    · have hcount : (k' :: ks).count k = ks.count k := List.count_cons_of_ne (Ne.symm hk)
      simp [hk, hcount]

theorem lookup_counts (ks : List κ) (k : κ) :
    (counts ks).lookup k = if k ∈ ks then some (ks.count k : ℤ) else none := by
  rw [counts, lookup_foldl_bump]
  simp

/-- A count is the count of a key that is there. -/
theorem mem_counts {ks : List κ} {e : κ × ℤ} (h : e ∈ (counts ks).entries) :
    e.1 ∈ ks ∧ 0 < e.2 ∧ e.2 ≤ ks.length := by
  have hlookup : (counts ks).lookup e.1 = some e.2 := lookup_eq_some.mpr h
  rw [lookup_counts] at hlookup
  split_ifs at hlookup with hmem
  have hpos := List.count_pos_iff.mpr hmem
  have hle := List.count_le_length (a := e.1) (l := ks)
  have hcount := Option.some.inj hlookup
  refine ⟨hmem, ?_, ?_⟩ <;> omega

end MetriEngine.Foundation.OrdMap

/-!
## Rows in one array

Cells are put into the row of their number, and the rows are laid one behind the other. Beside
the cells stands where each row begins, in words of a fixed size; while all cells can be counted
in such a word, the row is found again between two of these.
-/
namespace MetriEngine.Foundation

universe u
variable {α : Type u}

/-! ### Cells in rows -/

/-- Puts a cell behind the others of its row, if there is such a row. -/
def putCell (rows : List (List α)) (cell : ℕ × α) : List (List α) :=
  rows.modify cell.1 fun row => row ++ [cell.2]

def fillRows (n : ℕ) (cells : List (ℕ × α)) : List (List α) :=
  cells.foldl putCell (List.replicate n [])

theorem length_foldl_putCell (cells : List (ℕ × α)) (rows : List (List α)) :
    (cells.foldl putCell rows).length = rows.length := by
  induction cells generalizing rows with
  | nil => rfl
  | cons cell cells ih =>
    rw [List.foldl_cons, ih]
    exact List.length_modify _ _ _

@[simp] theorem length_fillRows (n : ℕ) (cells : List (ℕ × α)) : (fillRows n cells).length = n := by
  rw [fillRows, length_foldl_putCell, List.length_replicate]

theorem getElem?_foldl_putCell (cells : List (ℕ × α)) (rows : List (List α)) (u : ℕ) :
    (cells.foldl putCell rows)[u]? =
      rows[u]?.map fun row => row ++ (cells.filter fun cell => cell.1 = u).map Prod.snd := by
  induction cells generalizing rows with
  | nil => simp
  | cons cell cells ih =>
    rw [List.foldl_cons, ih, putCell]
    by_cases hu : cell.1 = u
    · subst hu
      rw [List.getElem?_modify_eq]
      simp [Function.comp_def]
    · rw [List.getElem?_modify_ne _ _ hu]
      simp [hu]

/-- A row holds its own cells in the order in which they came. -/
theorem getElem?_fillRows {n u : ℕ} (h : u < n) (cells : List (ℕ × α)) :
    (fillRows n cells)[u]? = some ((cells.filter fun cell => cell.1 = u).map Prod.snd) := by
  rw [fillRows, getElem?_foldl_putCell, List.getElem?_replicate_of_lt h]
  rfl

theorem length_flatten_modify (f : List α → List α) (hf : ∀ row, (f row).length = row.length + 1)
    {rows : List (List α)} {u : ℕ} (h : u < rows.length) :
    (rows.modify u f).flatten.length = rows.flatten.length + 1 := by
  induction rows generalizing u with
  | nil => cases h
  | cons row rows ih =>
    cases u with
    | zero =>
      rw [List.modify_zero_cons, List.flatten_cons, List.flatten_cons, List.length_append,
        List.length_append, hf]
      omega
    | succ u =>
      rw [List.modify_succ_cons, List.flatten_cons, List.flatten_cons, List.length_append,
        List.length_append, ih (Nat.lt_of_succ_lt_succ h)]
      omega

theorem length_flatten_foldl_putCell {rows : List (List α)} {cells : List (ℕ × α)}
    (h : ∀ cell ∈ cells, cell.1 < rows.length) :
    (cells.foldl putCell rows).flatten.length = rows.flatten.length + cells.length := by
  induction cells generalizing rows with
  | nil => rfl
  | cons cell cells ih =>
    obtain ⟨hcell, hcells⟩ := List.forall_mem_cons.mp h
    have hlength : (putCell rows cell).length = rows.length := List.length_modify _ _ _
    have hput : (putCell rows cell).flatten.length = rows.flatten.length + 1 :=
      length_flatten_modify _ (fun row => by rw [List.length_append]; rfl) hcell
    rw [List.foldl_cons, ih (by rwa [hlength]), hput, List.length_cons]
    omega

/-- No cell is lost where each has a row. -/
theorem length_flatten_fillRows {n : ℕ} {cells : List (ℕ × α)} (h : ∀ cell ∈ cells, cell.1 < n) :
    (fillRows n cells).flatten.length = cells.length := by
  rw [fillRows, length_flatten_foldl_putCell (by rwa [List.length_replicate])]
  simp

/-! ### Rows behind each other -/

structure PackedRows (α : Type u) where
  offsets : List ℕ
  cells : List α

namespace PackedRows

/-- Lays a row behind the others and notes in a word below `w` where it ends. -/
def push (w : ℕ) (p : PackedRows α) (row : List α) : PackedRows α :=
  let cells := p.cells ++ row
  ⟨p.offsets ++ [cells.length % w], cells⟩

def pack (w : ℕ) (rows : List (List α)) : PackedRows α := rows.foldl (push w) ⟨[0], []⟩

/-- The cells between two offsets; none where there is no such row. -/
def slice (offsets : List ℕ) (cells : List α) (u : ℕ) : List α :=
  match offsets[u]?, offsets[u + 1]? with
  | some start, some stop => (cells.drop start).take (stop - start)
  | _, _ => []

variable {w : ℕ} {rows : List (List α)}

theorem pack_append (rows : List (List α)) (row : List α) :
    pack w (rows ++ [row]) = (pack w rows).push w row := by
  rw [pack, List.foldl_append]
  rfl

theorem cells_pack (w : ℕ) (rows : List (List α)) : (pack w rows).cells = rows.flatten := by
  induction rows using List.reverseRecOn with
  | nil => rfl
  | append_singleton rows row ih =>
    rw [pack_append, List.flatten_append, List.flatten_singleton, ← ih]
    rfl

theorem offsets_pack (w : ℕ) (rows : List (List α)) :
    (pack w rows).offsets =
      (List.range (rows.length + 1)).map fun i => (rows.take i).flatten.length % w := by
  induction rows using List.reverseRecOn with
  | nil => simp [pack]
  | append_singleton rows row ih =>
    have hkept : ∀ i ∈ List.range (rows.length + 1),
        (rows.take i).flatten.length % w = ((rows ++ [row]).take i).flatten.length % w := by
      intro i hi
      rw [List.take_append_of_le_length (by have := List.mem_range.mp hi; omega)]
    have hlast : (rows ++ [row]).take (rows.length + 1) = rows ++ [row] :=
      List.take_of_length_le (by simp)
    rw [pack_append, List.length_append, List.length_singleton, List.range_succ, List.map_append,
      ← List.map_congr_left hkept, ← ih, List.map_singleton, hlast, List.flatten_append,
      List.flatten_singleton, ← cells_pack w rows]
    rfl

theorem head?_offsets (w : ℕ) (rows : List (List α)) : (pack w rows).offsets.head? = some 0 := by
  rw [offsets_pack, List.range_succ_eq_map]
  simp

/-- The last offset is the number of cells, as far as the word holds it. -/
theorem getLast?_offsets (w : ℕ) (rows : List (List α)) :
    (pack w rows).offsets.getLast? = some (rows.flatten.length % w) := by
  rw [offsets_pack, List.range_succ, List.map_append, List.map_singleton,
    List.getLast?_concat, List.take_length]

theorem getElem?_offsets {i : ℕ} (h : i ≤ rows.length) :
    (pack w rows).offsets[i]? = some ((rows.take i).flatten.length % w) := by
  rw [offsets_pack, List.getElem?_map, List.getElem?_range (by omega)]
  rfl

theorem getElem?_offsets_of_lt {i : ℕ} (h : rows.length < i) :
    (pack w rows).offsets[i]? = none := by
  rw [offsets_pack, List.getElem?_map, List.getElem?_eq_none (by rw [List.length_range]; omega)]
  rfl

theorem length_flatten_take_le (rows : List (List α)) {i j : ℕ} (h : i ≤ j) :
    (rows.take i).flatten.length ≤ (rows.take j).flatten.length := by
  have hsplit : rows.take j = rows.take i ++ (rows.take j).drop i := by
    conv_lhs => rw [← List.take_append_drop i (rows.take j)]
    rw [List.take_take, Nat.min_eq_left h]
  rw [hsplit, List.flatten_append, List.length_append]
  exact Nat.le_add_right _ _

theorem length_flatten_take_le_flatten (rows : List (List α)) (i : ℕ) :
    (rows.take i).flatten.length ≤ rows.flatten.length := by
  rcases Nat.le_total i rows.length with hi | hi
  · have hle := length_flatten_take_le rows hi
    rwa [List.take_length] at hle
  · rw [List.take_of_length_le hi]

/-- The offsets do not fall while the word holds the number of cells. -/
theorem sorted_offsets (h : rows.flatten.length < w) : (pack w rows).offsets.Pairwise (· ≤ ·) := by
  rw [offsets_pack, List.pairwise_map]
  apply List.pairwise_lt_range.imp
  intro i j hij
  have hi := length_flatten_take_le_flatten rows i
  have hj := length_flatten_take_le_flatten rows j
  rw [Nat.mod_eq_of_lt (by omega), Nat.mod_eq_of_lt (by omega)]
  exact length_flatten_take_le rows hij.le

/-- A row is found between its two offsets. -/
theorem slice_pack (h : rows.flatten.length < w) (u : ℕ) :
    slice (pack w rows).offsets (pack w rows).cells u = rows[u]?.getD [] := by
  rw [slice]
  by_cases hu : u < rows.length
  · have hstart := length_flatten_take_le_flatten rows u
    have hstop := length_flatten_take_le_flatten rows (u + 1)
    rw [getElem?_offsets hu.le, getElem?_offsets (show u + 1 ≤ rows.length from hu), cells_pack,
      Nat.mod_eq_of_lt (by omega), Nat.mod_eq_of_lt (by omega)]
    have hrow : rows.take (u + 1) = rows.take u ++ [rows[u]] := List.take_succ_eq_append_getElem hu
    have hrows : rows.flatten =
        (rows.take u).flatten ++ (rows[u] ++ (rows.drop (u + 1)).flatten) := by
      conv_lhs => rw [← List.take_append_drop u rows, List.drop_eq_getElem_cons hu]
      rw [List.flatten_append, List.flatten_cons]
    dsimp only
    rw [hrow, List.flatten_append, List.length_append, List.flatten_singleton,
      Nat.add_sub_cancel_left, hrows, List.drop_left, List.take_left, List.getElem?_eq_getElem hu]
    rfl
  · have hnone : rows[u]? = none := List.getElem?_eq_none (Nat.le_of_not_lt hu)
    rw [getElem?_offsets_of_lt (show rows.length < u + 1 by omega), hnone]
    cases (pack w rows).offsets[u]? <;> rfl

end PackedRows
end MetriEngine.Foundation

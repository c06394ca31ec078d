import Mathlib.Data.List.Flatten
import Mathlib.Data.List.Nodup
import Mathlib.Tactic.Linarith
import Mathlib.Tactic.Ring

/-!
# Symmetric matrices laid out in rows

Row after row a square matrix stands in one list. A loop over the places on or above the diagonal
that writes each value at both mirrored places reaches every place, and each place once.
-/
namespace MetriEngine.Foundation

variable {α : Type*}

/-! ### Places -/

def cell (m i j : ℕ) : ℕ := i * m + j

theorem cell_lt {m i j : ℕ} (hi : i < m) (hj : j < m) : cell m i j < m * m :=
  calc
    i * m + j < i * m + m := Nat.add_lt_add_left hj _
    _ = (i + 1) * m := (Nat.succ_mul i m).symm
    _ ≤ m * m := Nat.mul_le_mul_right m hi

theorem cell_inj {m i j i' j' : ℕ} (hj : j < m) (hj' : j' < m) :
    cell m i j = cell m i' j' ↔ i = i' ∧ j = j' := by
  constructor
  · intro h
    have hm : 0 < m := Nat.zero_lt_of_lt hj
    have hrow : (cell m i j) / m = i := by
      rw [cell, mul_comm, Nat.mul_add_div hm, Nat.div_eq_of_lt hj, Nat.add_zero]
    have hrow' : (cell m i' j') / m = i' := by
      rw [cell, mul_comm, Nat.mul_add_div hm, Nat.div_eq_of_lt hj', Nat.add_zero]
    have hi : i = i' := by rw [← hrow, h, hrow']
    subst hi
    exact ⟨rfl, Nat.add_left_cancel h⟩
  · rintro ⟨rfl, rfl⟩
    rfl

/-- Every cell is in a row and a column. -/
theorem exists_cell {m k : ℕ} (h : k < m * m) : ∃ i < m, ∃ j < m, cell m i j = k := by
  have hm : 0 < m := Nat.pos_of_mul_pos_right (Nat.zero_lt_of_lt h)
  exact ⟨k / m, Nat.div_lt_of_lt_mul h, k % m, Nat.mod_lt k hm, by rw [cell, Nat.div_add_mod']⟩

/-- `for i in 0..m`, `for j in i..m` -/
def upperPairs (m : ℕ) : List (ℕ × ℕ) :=
  (List.range m).flatMap fun i => (List.range' i (m - i)).map fun j => (i, j)

theorem mem_upperPairs {m i j : ℕ} : (i, j) ∈ upperPairs m ↔ i ≤ j ∧ j < m := by
  simp only [upperPairs, List.mem_flatMap, List.mem_range, List.mem_map, List.mem_range'_1,
    Prod.mk.injEq]
  constructor
  · rintro ⟨i', hi', j', hj', rfl, rfl⟩
    omega
  · intro h
    exact ⟨i, by omega, j, by omega, rfl, rfl⟩

theorem upperPairs_nodup (m : ℕ) : (upperPairs m).Nodup := by
  rw [upperPairs, List.nodup_flatMap]
  constructor
  · intro i _
    exact (List.nodup_range' ..).map (Prod.mk_right_injective i)
  · refine (List.nodup_range).imp ?_
    intro i i' hne p hp hp'
    obtain ⟨j, _, rfl⟩ := List.mem_map.mp hp
    obtain ⟨j', _, heq⟩ := List.mem_map.mp hp'
    exact hne (congrArg Prod.fst heq).symm

theorem length_upperPairs (m : ℕ) : (upperPairs m).length = m * (m + 1) / 2 := by
  have hrows (k : ℕ) (hk : k ≤ m) :
      2 * ((List.range k).map fun i => m - i).sum + k * k = k * (2 * m + 1) := by
    induction k with
    | zero => simp
    | succ k ih =>
      rw [List.range_succ, List.map_append, List.sum_append]
      obtain ⟨d, rfl⟩ := Nat.exists_eq_add_of_le hk
      have hlast : k + 1 + d - k = 1 + d := by omega
      have hbefore := ih (by omega)
      simp only [List.map_cons, List.map_nil, List.sum_cons, List.sum_nil, hlast]
      linarith
  have hall := hrows m le_rfl
  have hlength : (upperPairs m).length = ((List.range m).map fun i => m - i).sum := by
    simp [upperPairs, List.length_flatMap]
  have htwice : 2 * (upperPairs m).length = m * (m + 1) := by
    rw [hlength]
    linarith
  omega

/-- All cells, row after row. -/
def table (m : ℕ) (f : ℕ → ℕ → α) : List α := (List.range m).flatMap fun i => (List.range m).map (f i)

@[simp] theorem length_table (m : ℕ) (f : ℕ → ℕ → α) : (table m f).length = m * m := by
  simp [table, List.length_flatMap]

/-- Rows of one length, one behind the other. -/
theorem getElem?_flatMap_rows {g : ℕ → List α} {m i j : ℕ} (hg : ∀ i, (g i).length = m) (hi : i < m)
    (hj : j < m) : ((List.range m).flatMap g)[cell m i j]? = (g i)[j]? := by
  obtain ⟨k, hk⟩ := Nat.exists_eq_add_of_lt hi
  have hrange : List.range m = List.range i ++ i :: (List.range k).map fun l => i + (l + 1) := by
    rw [hk, Nat.add_assoc, List.range_add, List.range_succ_eq_map, List.map_cons, List.map_map]
    rfl
  have hbefore : ((List.range i).flatMap g).length = i * m := by
    simp [List.length_flatMap, hg]
  rw [hrange, List.flatMap_append, List.flatMap_cons, List.getElem?_append_right, hbefore, cell,
    Nat.add_sub_cancel_left, List.getElem?_append_left]
  · rw [hg]
    exact hj
  · rw [hbefore, cell]
    exact Nat.le_add_right _ _

theorem getElem?_table (f : ℕ → ℕ → α) {m i j : ℕ} (hi : i < m) (hj : j < m) :
    (table m f)[cell m i j]? = some (f i j) := by
  rw [table, getElem?_flatMap_rows (by simp) hi hj]
  simp [hj]

theorem table_congr {m : ℕ} {f g : ℕ → ℕ → α} (h : ∀ i < m, ∀ j < m, f i j = g i j) :
    table m f = table m g := by
  rw [table, table, List.flatMap_def, List.flatMap_def]
  congr 1
  apply List.map_congr_left
  intro i hi
  apply List.map_congr_left
  intro j hj
  exact h i (List.mem_range.mp hi) j (List.mem_range.mp hj)

/-! ### Entries -/

section Entries
variable [Zero α]

def entry (m : ℕ) (c : List α) (i j : ℕ) : α := c.getD (cell m i j) 0

theorem entry_ext {m : ℕ} {c c' : List α} (hc : c.length = m * m) (hc' : c'.length = m * m)
    (h : ∀ i < m, ∀ j < m, entry m c i j = entry m c' i j) : c = c' := by
  apply List.ext_getElem (hc.trans hc'.symm)
  intro k hk hk'
  obtain ⟨i, hi, j, hj, rfl⟩ := exists_cell (hc ▸ hk)
  have hentry := h i hi j hj
  rwa [entry, entry, List.getD_eq_getElem?_getD, List.getD_eq_getElem?_getD,
    List.getElem?_eq_getElem hk, List.getElem?_eq_getElem hk', Option.getD_some,
    Option.getD_some] at hentry

theorem entry_replicate_zero (m n i j : ℕ) : entry m (List.replicate n (0 : α)) i j = 0 := by
  rw [entry, List.getD_eq_getElem?_getD, List.getElem?_replicate]
  split_ifs <;> rfl

theorem entry_table (f : ℕ → ℕ → α) {m i j : ℕ} (hi : i < m) (hj : j < m) :
    entry m (table m f) i j = f i j := by
  rw [entry, List.getD_eq_getElem?_getD, getElem?_table f hi hj, Option.getD_some]

theorem entry_set {m i j i' j' : ℕ} {c : List α} (hc : c.length = m * m) (hi : i < m) (hj : j < m)
    (hj' : j' < m) (a : α) :
    entry m (c.set (cell m i j) a) i' j' = if i = i' ∧ j = j' then a else entry m c i' j' := by
  have hcell : cell m i j < c.length := hc ▸ cell_lt hi hj
  rw [entry, List.getD_eq_getElem?_getD, List.getElem?_set]
  by_cases h : i = i' ∧ j = j'
  · rw [if_pos h, if_pos ((cell_inj hj hj').mpr h), if_pos hcell]
    rfl
  · rw [if_neg h, if_neg (mt (cell_inj hj hj').mp h), ← List.getD_eq_getElem?_getD, entry]

/-- The value at a place and at its mirror image. -/
def setBoth (m : ℕ) (c : List α) (p : ℕ × ℕ) (a : α) : List α :=
  (c.set (cell m p.1 p.2) a).set (cell m p.2 p.1) a

omit [Zero α] in
@[simp] theorem length_setBoth (m : ℕ) (c : List α) (p : ℕ × ℕ) (a : α) :
    (setBoth m c p a).length = c.length := by simp [setBoth]

theorem entry_setBoth {m i j i' j' : ℕ} {c : List α} (hc : c.length = m * m) (hi : i < m)
    (hj : j < m) (hj' : j' < m) (a : α) :
    entry m (setBoth m c (i, j) a) i' j' =
      if (i = i' ∧ j = j') ∨ (j = i' ∧ i = j') then a else entry m c i' j' := by
  rw [setBoth, entry_set (by rw [List.length_set, hc]) hj hi hj', entry_set hc hi hj hj']
  split_ifs <;> first | rfl | (exfalso; tauto)

/-- A loop that makes the value of a place from what stands there. -/
def updateUpper (m : ℕ) (f : ℕ × ℕ → α → α) (c : List α) (ps : List (ℕ × ℕ)) : List α :=
  ps.foldl (fun c p => setBoth m c p (f p (entry m c p.1 p.2))) c

theorem length_updateUpper (m : ℕ) (f : ℕ × ℕ → α → α) (c : List α) (ps : List (ℕ × ℕ)) :
    (updateUpper m f c ps).length = c.length := by
  induction ps generalizing c with
  | nil => rfl
  | cons p ps ih => exact (ih _).trans (length_setBoth ..)

/-- Places that the loop does not come to keep what they hold, as do their mirror images. -/
theorem entry_updateUpper_of_notMem {m : ℕ} (f : ℕ × ℕ → α → α) {c : List α} {ps : List (ℕ × ℕ)}
    (hc : c.length = m * m) (hps : ∀ p ∈ ps, p.1 ≤ p.2 ∧ p.2 < m) {i j : ℕ} (hi : i < m)
    (hj : j < m) (hij : (i, j) ∉ ps) (hji : (j, i) ∉ ps) :
    entry m (updateUpper m f c ps) i j = entry m c i j := by
  induction ps generalizing c with
  | nil => rfl
  | cons p ps ih =>
    obtain ⟨k, l⟩ := p
    obtain ⟨hkl, hl⟩ := hps (k, l) List.mem_cons_self
    rw [List.mem_cons, not_or, Prod.mk.injEq] at hij hji
    have hrest := ih (c := setBoth m c (k, l) (f (k, l) (entry m c k l)))
      ((length_setBoth ..).trans hc) (fun p hp => hps p (List.mem_cons_of_mem _ hp)) hij.2 hji.2
    refine hrest.trans ?_
    rw [entry_setBoth hc (by omega) hl hj, if_neg]
    rintro (⟨rfl, rfl⟩ | ⟨rfl, rfl⟩)
    · exact hij.1 ⟨rfl, rfl⟩
    · exact hji.1 ⟨rfl, rfl⟩

/-- A place that the loop comes to holds the new value, and so does its mirror image. -/
theorem entry_updateUpper {m : ℕ} (f : ℕ × ℕ → α → α) {c : List α} {ps : List (ℕ × ℕ)}
    (hc : c.length = m * m) (hps : ∀ p ∈ ps, p.1 ≤ p.2 ∧ p.2 < m) (hnodup : ps.Nodup) {i j : ℕ}
    (hmem : (i, j) ∈ ps) :
    entry m (updateUpper m f c ps) i j = f (i, j) (entry m c i j) ∧
      entry m (updateUpper m f c ps) j i = f (i, j) (entry m c i j) := by
  obtain ⟨hij, hj⟩ := hps _ hmem
  have hi : i < m := lt_of_le_of_lt hij hj
  induction ps generalizing c with
  | nil => cases hmem
  | cons p ps ih =>
    obtain ⟨hfresh, hothers⟩ := List.nodup_cons.mp hnodup
    have hrest : ∀ q ∈ ps, q.1 ≤ q.2 ∧ q.2 < m := fun q hq => hps q (List.mem_cons_of_mem _ hq)
    cases List.mem_cons.mp hmem with
    | inl heq =>
      subst heq
      have hmirror : (j, i) ∉ ps := by
        intro hin
        obtain rfl : i = j := le_antisymm hij (hrest _ hin).1
        exact hfresh hin
      have hlength := (length_setBoth m c (i, j) (f (i, j) (entry m c i j))).trans hc
      constructor
      · refine (entry_updateUpper_of_notMem f hlength hrest hi hj hfresh hmirror).trans ?_
        rw [entry_setBoth hc hi hj hj, if_pos (Or.inl ⟨rfl, rfl⟩)]
      · refine (entry_updateUpper_of_notMem f hlength hrest hj hi hmirror hfresh).trans ?_
        rw [entry_setBoth hc hi hj hi, if_pos (Or.inr ⟨rfl, rfl⟩)]
    | inr hin =>
      obtain ⟨k, l⟩ := p
      obtain ⟨hkl, hl⟩ := hps (k, l) List.mem_cons_self
      have hkeep : entry m (setBoth m c (k, l) (f (k, l) (entry m c k l))) i j = entry m c i j := by
        rw [entry_setBoth hc (by omega) hl hj, if_neg]
        rintro (⟨rfl, rfl⟩ | ⟨rfl, rfl⟩)
        · exact hfresh hin
        · obtain rfl : l = k := le_antisymm hij hkl
          exact hfresh hin
      have hstep := ih ((length_setBoth m c (k, l) (f (k, l) (entry m c k l))).trans hc) hrest
        hothers hin
      rw [hkeep] at hstep
      exact hstep

/-- The loop over the whole triangle. -/
theorem entry_updateUpper_upperPairs {m : ℕ} (f : ℕ × ℕ → α → α) {c : List α}
    (hc : c.length = m * m) {i j : ℕ} (hij : i ≤ j) (hj : j < m) :
    entry m (updateUpper m f c (upperPairs m)) i j = f (i, j) (entry m c i j) ∧
      entry m (updateUpper m f c (upperPairs m)) j i = f (i, j) (entry m c i j) :=
  entry_updateUpper f hc (fun _ hp => mem_upperPairs.mp hp) (upperPairs_nodup m)
    (mem_upperPairs.mpr ⟨hij, hj⟩)

end Entries

end MetriEngine.Foundation

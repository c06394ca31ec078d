import MetriEngine.Foundation.OrdMap

/-!
# Posting lists

Under each key the ascending row numbers filed there. A row is filed once; a key stays when
its last row is taken away.
-/
namespace MetriEngine.Search
open Foundation

abbrev Postings (κ : Type*) [LinearOrder κ] := OrdMap κ (List ℕ)

/-- `push_unique_row_id`: the list, and whether the row was new. `binary_search` in an
ascending list finds the row or the place to put it. -/
def pushUniqueRowId (list : List ℕ) (rowId : ℕ) : List ℕ × Bool :=
  match list.getLast? with
  | none => ([rowId], true)
  | some last =>
    if last = rowId then (list, false)
    else if last < rowId then (list ++ [rowId], true)
    else if rowId ∈ list then (list, false)
    else (list.orderedInsert (· ≤ ·) rowId, true)

theorem mem_pushUniqueRowId {list : List ℕ} {rowId r : ℕ} :
    r ∈ (pushUniqueRowId list rowId).1 ↔ r = rowId ∨ r ∈ list := by
  unfold pushUniqueRowId
  cases hlast : list.getLast? with
  | none => simp [List.getLast?_eq_none_iff.mp hlast]
  | some last =>
    have hmem : last ∈ list := List.mem_of_getLast? hlast
    dsimp only
    split_ifs with heq hlt hin
    · subst heq
      constructor
      · exact Or.inr
      · rintro (rfl | h)
        · exact hmem
        · exact h
    · simp [or_comm]
    · constructor
      · exact Or.inr
      · rintro (rfl | h)
        · exact hin
        · exact h
    · rw [List.mem_orderedInsert]

/-- A row that is refused was there. -/
theorem mem_of_not_pushed {list : List ℕ} {rowId : ℕ}
    (h : (pushUniqueRowId list rowId).2 = false) : rowId ∈ list := by
  unfold pushUniqueRowId at h
  cases hlast : list.getLast? with
  | none => simp [hlast] at h
  | some last =>
    rw [hlast] at h
    dsimp only at h
    split_ifs at h with heq hlt hin
    · exact heq ▸ List.mem_of_getLast? hlast
    · exact hin

/-- The list stays ascending, which is what `binary_search` asks for. -/
theorem pushUniqueRowId_ascending {list : List ℕ} (h : list.Pairwise (· < ·)) (rowId : ℕ) :
    (pushUniqueRowId list rowId).1.Pairwise (· < ·) := by
  unfold pushUniqueRowId
  cases hlast : list.getLast? with
  | none => exact List.pairwise_singleton _ _
  | some last =>
    dsimp only
    split_ifs with heq hlt hin
    · exact h
    · refine List.pairwise_append.mpr ⟨h, List.pairwise_singleton _ _, fun a ha b hb => ?_⟩
      rw [List.mem_singleton.mp hb]
      obtain ⟨front, rfl⟩ := List.getLast?_eq_some_iff.mp hlast
      rcases List.mem_append.mp ha with ha | ha
      · exact (((List.pairwise_append.mp h).2.2 a ha last List.mem_cons_self)).trans hlt
      · rwa [List.mem_singleton.mp ha]
    · exact h
    · have hle : list.Pairwise (· ≤ ·) := h.imp fun hab => hab.le
      have hnodup : (list.orderedInsert (· ≤ ·) rowId).Nodup :=
        (List.perm_orderedInsert _ rowId list).nodup_iff.mpr
          (List.nodup_cons.mpr ⟨hin, h.imp fun hab => hab.ne⟩)
      exact ((List.Pairwise.orderedInsert rowId list hle).and hnodup).imp fun hab =>
        lt_of_le_of_ne hab.1 hab.2

section
variable {κ : Type*} [LinearOrder κ]

namespace Postings

/-- The rows filed under a key. -/
def rows (m : Postings κ) (k : κ) : List ℕ := (m.lookup k).getD []

/-- A row filed under a key that may be new. -/
def post (m : Postings κ) (k : κ) (rowId : ℕ) : Postings κ :=
  m.insert k (pushUniqueRowId (m.rows k) rowId).1

/-- A row filed under a key that is there. -/
def postKnown (m : Postings κ) (k : κ) (rowId : ℕ) : Postings κ :=
  if m.contains k then m.post k rowId else m

/-- A row taken away from under every key. -/
def retain (m : Postings κ) (rowId : ℕ) : Postings κ :=
  m.mapValues fun rows => rows.filter fun r => r ≠ rowId

def Ascending (m : Postings κ) : Prop := ∀ k, (m.rows k).Pairwise (· < ·)

/-- A map with one more row under some of its keys. -/
structure Adds (rowId : ℕ) (m m' : Postings κ) : Prop where
  ascending : m.Ascending → m'.Ascending
  keeps : ∀ k r, r ∈ m.rows k → r ∈ m'.rows k
  only : ∀ k r, r ∈ m'.rows k → r ∈ m.rows k ∨ r = rowId

theorem Adds.refl (rowId : ℕ) (m : Postings κ) : Adds rowId m m :=
  ⟨id, fun _ _ h => h, fun _ _ h => Or.inl h⟩

theorem Adds.trans {rowId : ℕ} {m m' m'' : Postings κ} (h : Adds rowId m m')
    (h' : Adds rowId m' m'') : Adds rowId m m'' where
  ascending h₀ := h'.ascending (h.ascending h₀)
  keeps k r hr := h'.keeps k r (h.keeps k r hr)
  only k r hr := by
    rcases h'.only k r hr with hr | hr
    · exact h.only k r hr
    · exact Or.inr hr

theorem Adds.foldl {α : Type*} {rowId : ℕ} {f : Postings κ → α → Postings κ}
    (hf : ∀ m a, Adds rowId m (f m a)) (as : List α) (m : Postings κ) :
    Adds rowId m (as.foldl f m) := by
  induction as generalizing m with
  | nil => exact Adds.refl rowId m
  | cons a as ih => exact (hf m a).trans (ih _)

theorem mem_rows_post {m : Postings κ} {k k' : κ} {rowId r : ℕ} :
    r ∈ (m.post k rowId).rows k' ↔ (k' = k ∧ r = rowId) ∨ r ∈ m.rows k' := by
  unfold post rows
  rw [OrdMap.lookup_insert]
  split_ifs with h
  · rw [Option.getD_some, mem_pushUniqueRowId, h]
    simp
  · simp [h]

theorem rows_post_self (m : Postings κ) (k : κ) (rowId : ℕ) :
    (m.post k rowId).rows k = (pushUniqueRowId (m.rows k) rowId).1 := by
  rw [post, rows, OrdMap.lookup_insert_self, Option.getD_some]

theorem rows_post_of_ne (m : Postings κ) {k k' : κ} (rowId : ℕ) (h : k' ≠ k) :
    (m.post k rowId).rows k' = m.rows k' := by
  rw [post, rows, OrdMap.lookup_insert_of_ne _ _ h]
  rfl

theorem post_adds (m : Postings κ) (k : κ) (rowId : ℕ) : Adds rowId m (m.post k rowId) where
  ascending h k' := by
    by_cases hk : k' = k
    · subst hk
      rw [rows_post_self]
      exact pushUniqueRowId_ascending (h k') rowId
    · rw [rows_post_of_ne m rowId hk]
      exact h k'
  keeps _ _ h := mem_rows_post.mpr (Or.inr h)
  only _ _ h := by
    rcases mem_rows_post.mp h with h | h
    · exact Or.inr h.2
    · exact Or.inl h

theorem postKnown_adds (m : Postings κ) (k : κ) (rowId : ℕ) :
    Adds rowId m (m.postKnown k rowId) := by
  unfold postKnown
  split_ifs
  · exact post_adds m k rowId
  · exact Adds.refl rowId m

theorem rows_retain (m : Postings κ) (rowId : ℕ) (k : κ) :
    (m.retain rowId).rows k = (m.rows k).filter fun r => r ≠ rowId := by
  unfold retain rows
  rw [OrdMap.lookup_mapValues]
  cases m.lookup k <;> rfl

/-- A key stays when its rows are taken away. -/
theorem keys_retain (m : Postings κ) (rowId : ℕ) :
    (m.retain rowId).entries.map Prod.fst = m.entries.map Prod.fst := by
  unfold retain OrdMap.mapValues
  rw [List.map_map]
  rfl

@[simp] theorem mem_rows_retain {m : Postings κ} {rowId r : ℕ} {k : κ} :
    r ∈ (m.retain rowId).rows k ↔ r ∈ m.rows k ∧ r ≠ rowId := by
  rw [rows_retain, List.mem_filter, decide_eq_true_iff]

theorem Ascending.retain {m : Postings κ} (h : m.Ascending) (rowId : ℕ) :
    (m.retain rowId).Ascending := by
  intro k
  rw [rows_retain]
  exact (h k).filter _

@[simp] theorem rows_empty (k : κ) : Postings.rows (∅ : Postings κ) k = [] := rfl

end Postings
end
end MetriEngine.Search

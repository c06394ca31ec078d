import MetriEngine.Storage.IndexInvariant

/-!
# What merging a snapshot does to one key

A key the snapshot does not carry keeps its local item. A key it carries takes
the remote item or keeps the local one, by the rule of `takesRemote`; trigram
postings are never taken.
-/
namespace MetriEngine.Storage
open Foundation

namespace MbfPartitionStore
variable (st : MbfPartitionStore) (wasEmpty newer : Bool)

/-- The items after one entry, whichever way the entry is inserted. -/
theorem applyRemoteItem_items (e : PrimaryKey × Item) :
    (st.applyRemoteItem wasEmpty newer e).items =
      if Text.contains e.1.pk "#FTS#" ∨
          (wasEmpty = false ∧ takesRemote newer (st.items.lookup e.1) e.2 = false) then st.items
      else st.items.insert e.1 e.2 := by
  cases wasEmpty with
  | false =>
    rw [applyRemoteItem_merge]
    by_cases hf : Text.contains e.1.pk "#FTS#" <;>
      by_cases ht : takesRemote newer (st.items.lookup e.1) e.2 <;> simp [hf, ht]
  | true =>
    rw [applyRemoteItem_load]
    obtain ⟨_, _, hframe⟩ := st.indexSecondaryOnly_frame e.1 e.2
    by_cases hf : Text.contains e.1.pk "#FTS#" <;> simp [hf, hframe]

theorem applyRemoteItem_ledger (e : PrimaryKey × Item) :
    SameLedger st (st.applyRemoteItem wasEmpty newer e) := by
  cases wasEmpty with
  | false =>
    rw [applyRemoteItem_merge]
    split_ifs
    · exact SameLedger.refl st
    · exact st.insertIndexed_ledger e.1 e.2
  | true =>
    rw [applyRemoteItem_load]
    obtain ⟨_, _, hframe⟩ := st.indexSecondaryOnly_frame e.1 e.2
    rw [hframe]
    split_ifs <;> constructor <;> rfl

theorem mergeItems_ledger (snap : MbfPartitionWireSnapshot) :
    SameLedger st (st.mergeItems snap) :=
  SameLedger.foldl (fun st e => st.applyRemoteItem_ledger _ _ e) snap.items st

/-! ### One key along the loop -/

variable {st wasEmpty newer}

theorem applyRemoteItem_lookup_of_ne {e : PrimaryKey × Item} {key : PrimaryKey}
    (h : key ≠ e.1) :
    (st.applyRemoteItem wasEmpty newer e).items.lookup key = st.items.lookup key := by
  rw [applyRemoteItem_items]
  split_ifs
  · rfl
  · exact OrdMap.lookup_insert_of_ne _ _ h

theorem foldl_applyRemoteItem_of_notMem {l : List (PrimaryKey × Item)} {key : PrimaryKey}
    (h : key ∉ l.map Prod.fst) :
    (l.foldl (applyRemoteItem wasEmpty newer) st).items.lookup key = st.items.lookup key := by
  induction l generalizing st with
  | nil => rfl
  | cons e l ih =>
    rw [List.map_cons, List.mem_cons, not_or] at h
    rw [List.foldl_cons, ih h.2, applyRemoteItem_lookup_of_ne h.1]

/-- The rule for one entry, at its own key. -/
theorem applyRemoteItem_lookup_self {e : PrimaryKey × Item}
    (hempty : wasEmpty = true → st.items.lookup e.1 = none) :
    (st.applyRemoteItem wasEmpty newer e).items.lookup e.1 =
      if Text.contains e.1.pk "#FTS#" ∨ takesRemote newer (st.items.lookup e.1) e.2 = false
      then st.items.lookup e.1 else some e.2 := by
  rw [applyRemoteItem_items]
  cases wasEmpty with
  | false =>
    by_cases h : Text.contains e.1.pk "#FTS#" ∨
        takesRemote newer (st.items.lookup e.1) e.2 = false <;> simp [h]
  | true =>
    rw [hempty rfl]
    by_cases hf : Text.contains e.1.pk "#FTS#" <;> simp [hf, takesRemote, hempty rfl]

theorem foldl_applyRemoteItem_of_mem {l : List (PrimaryKey × Item)} {key : PrimaryKey}
    {remoteItem : Item} (hnd : (l.map Prod.fst).Nodup) (h : (key, remoteItem) ∈ l)
    (hempty : wasEmpty = true → st.items.lookup key = none) :
    (l.foldl (applyRemoteItem wasEmpty newer) st).items.lookup key =
      if Text.contains key.pk "#FTS#" ∨
          takesRemote newer (st.items.lookup key) remoteItem = false
      then st.items.lookup key else some remoteItem := by
  induction l generalizing st with
  | nil => simp at h
  | cons e l ih =>
    rw [List.map_cons, List.nodup_cons] at hnd
    rw [List.foldl_cons]
    rcases List.mem_cons.mp h with rfl | h
    · rw [foldl_applyRemoteItem_of_notMem hnd.1, applyRemoteItem_lookup_self hempty]
    · have hne : key ≠ e.1 := by
        rintro rfl
        exact hnd.1 (List.mem_map.mpr ⟨_, h, rfl⟩)
      rw [ih hnd.2 h (by rwa [applyRemoteItem_lookup_of_ne hne]),
        applyRemoteItem_lookup_of_ne hne]

/-- A key is absent after the loop if it was absent before and no entry brings it. -/
theorem foldl_applyRemoteItem_eq_none {l : List (PrimaryKey × Item)} {key : PrimaryKey} :
    (l.foldl (applyRemoteItem wasEmpty newer) st).items.lookup key = none ↔
      st.items.lookup key = none ∧
        (Text.contains key.pk "#FTS#" = true ∨ key ∉ l.map Prod.fst) := by
  induction l generalizing st with
  | nil => simp
  | cons e l ih =>
    rw [List.foldl_cons, ih, List.map_cons, List.mem_cons, not_or]
    by_cases hkey : key = e.1
    · subst hkey
      rw [applyRemoteItem_items]
      by_cases hf : Text.contains e.1.pk "#FTS#" = true
      · simp [hf]
      · cases hl : st.items.lookup e.1 with
        | none => simp [hf, takesRemote]
        | some localItem =>
          by_cases hskip : wasEmpty = false ∧ takesRemote newer (some localItem) e.2 = false
          · simp [hf, hl, hskip]
          · simp [hf, hskip]
    · rw [applyRemoteItem_lookup_of_ne hkey]
      simp [hkey]

/-! ### The whole merge -/

variable {snap : MbfPartitionWireSnapshot} {key : PrimaryKey}

theorem mergeItems_lookup_of_notMem (h : key ∉ snap.items.map Prod.fst) :
    (st.mergeItems snap).items.lookup key = st.items.lookup key :=
  foldl_applyRemoteItem_of_notMem h

theorem mergeItems_lookup_of_mem {remoteItem : Item} (hnd : (snap.items.map Prod.fst).Nodup)
    (h : (key, remoteItem) ∈ snap.items) :
    (st.mergeItems snap).items.lookup key =
      if Text.contains key.pk "#FTS#" ∨
          takesRemote (st.remoteIsNewer snap) (st.items.lookup key) remoteItem = false
      then st.items.lookup key else some remoteItem :=
  foldl_applyRemoteItem_of_mem hnd h fun hempty => OrdMap.lookup_of_isEmpty hempty key

theorem mergeItems_lookup_eq_none :
    (st.mergeItems snap).items.lookup key = none ↔
      st.items.lookup key = none ∧
        (Text.contains key.pk "#FTS#" = true ∨ key ∉ snap.items.map Prod.fst) :=
  foldl_applyRemoteItem_eq_none

@[simp] theorem applyWireSnapshot_items (etag : String) (nowMs : ℤ) :
    (st.applyWireSnapshot snap etag nowMs).items = (st.mergeItems snap).items := rfl

end MbfPartitionStore

/-! ### What a snapshot holds -/

/-- The item that a snapshot carries under a key. -/
def MbfPartitionWireSnapshot.itemAt (snap : MbfPartitionWireSnapshot) (key : PrimaryKey) :
    Option Item := (snap.items.find? fun e => e.1 = key).map Prod.snd

section ItemAt
variable {st : MbfPartitionStore} {snap : MbfPartitionWireSnapshot} {key : PrimaryKey}

theorem mem_of_itemAt {item : Item} (h : snap.itemAt key = some item) :
    (key, item) ∈ snap.items := by
  obtain ⟨⟨k, a⟩, hf, rfl⟩ := Option.map_eq_some_iff.mp h
  obtain rfl : k = key := by simpa using List.find?_some hf
  exact List.mem_of_find?_eq_some hf

theorem notMem_of_itemAt (h : snap.itemAt key = none) : key ∉ snap.items.map Prod.fst := by
  intro hmem
  obtain ⟨e, he, rfl⟩ := List.mem_map.mp hmem
  have hnone := List.find?_eq_none.mp (Option.map_eq_none_iff.mp h) e he
  simp at hnone

/-- What one merge does to one key. -/
theorem mergeItems_lookup (hnd : (snap.items.map Prod.fst).Nodup) :
    (st.mergeItems snap).items.lookup key =
      match snap.itemAt key with
      | none => st.items.lookup key
      | some remoteItem =>
        if Text.contains key.pk "#FTS#" ∨ MbfPartitionStore.takesRemote (st.remoteIsNewer snap)
            (st.items.lookup key) remoteItem = false
        then st.items.lookup key else some remoteItem := by
  cases h : snap.itemAt key with
  | none => exact MbfPartitionStore.mergeItems_lookup_of_notMem (notMem_of_itemAt h)
  | some remoteItem => exact MbfPartitionStore.mergeItems_lookup_of_mem hnd (mem_of_itemAt h)

theorem toWireSnapshot_itemAt :
    st.toWireSnapshot.itemAt key = if st.persists key then st.items.lookup key else none := by
  unfold MbfPartitionWireSnapshot.itemAt MbfPartitionStore.toWireSnapshot OrdMap.lookup
  rw [List.find?_filter]
  by_cases hp : st.persists key
  · rw [if_pos hp]
    congr 2
    funext e
    by_cases he : e.1 = key
    · simp [he, hp]
    · simp [he]
  · rw [if_neg hp, Option.map_eq_none_iff, List.find?_eq_none]
    rintro e _
    by_cases he : e.1 = key
    · simp [he, hp]
    · simp [he]

theorem toWireSnapshot_nodup (st : MbfPartitionStore) :
    (st.toWireSnapshot.items.map Prod.fst).Nodup := by
  have hlt : (st.items.entries.map Prod.fst).Pairwise (· < ·) :=
    List.pairwise_map.mpr st.items.sorted
  have hsub := (List.filter_sublist (l := st.items.entries) (p := fun e => st.persists e.1)).map
    Prod.fst
  exact (hlt.sublist hsub).imp fun h => h.ne

end ItemAt
end MetriEngine.Storage

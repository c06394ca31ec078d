import MetriEngine.Storage.Merge
import MetriEngine.Storage.QuotaLedger

/-!
# A merge only adds, and once is enough

Whatever a snapshot holds, its merge keeps the keys, the marks, the epoch and the sequence numbers
of the store from falling back, and a second merge of the same snapshot finds nothing to do.
-/
namespace MetriEngine.Storage
open Foundation

namespace MbfPartitionStore
variable {st : MbfPartitionStore} {snap : MbfPartitionWireSnapshot} {newer : Bool}

/-! ### Sequence numbers -/

/-- An item that is taken over another does not lower its number. -/
theorem le_of_takesRemote {localItem remoteItem : Item} {l r : ℤ}
    (h : takesRemote newer (some localItem) remoteItem = true)
    (hl : currentValue localItem = some l) (hr : currentValue remoteItem = some r) : l ≤ r := by
  rw [takesRemote] at h
  simp only [hl, hr, Bool.or_eq_true, decide_eq_true_eq, Bool.and_eq_true, beq_iff_eq] at h
  omega

/-- Numbered items do not fall back along the loop, as long as all that may replace them are
numbered. -/
theorem currentValue_foldl {rows : List (PrimaryKey × Item)} {key : PrimaryKey} {item : Item}
    {l : ℤ} (hitem : st.items.lookup key = some item) (hl : currentValue item = some l)
    (hrows : ∀ e ∈ rows, e.1 = key → currentValue e.2 ≠ none) :
    ∃ item' l', (rows.foldl (applyRemoteItem false newer) st).items.lookup key = some item' ∧
      currentValue item' = some l' ∧ l ≤ l' := by
  induction rows generalizing st item l with
  | nil => exact ⟨item, l, hitem, hl, le_refl l⟩
  | cons e rows ih =>
    rw [List.foldl_cons]
    have hrest : ∀ u ∈ rows, u.1 = key → currentValue u.2 ≠ none :=
      fun u hu => hrows u (List.mem_cons_of_mem _ hu)
    by_cases hkey : key = e.1
    · subst hkey
      have hself := @applyRemoteItem_lookup_self st false newer e (by intro h; cases h)
      rw [hitem] at hself
      split_ifs at hself with hkeep
      · exact ih hself hl hrest
      · rw [not_or, Bool.not_eq_false] at hkeep
        obtain ⟨r, hr⟩ := Option.ne_none_iff_exists'.mp (hrows e List.mem_cons_self rfl)
        obtain ⟨item', l', hitem', hl', hle⟩ := ih hself hr hrest
        exact ⟨item', l', hitem', hl', (le_of_takesRemote hkeep.2 hl hr).trans hle⟩
    · have hother : (st.applyRemoteItem false newer e).items.lookup key = some item := by
        rw [applyRemoteItem_lookup_of_ne hkey, hitem]
      exact ih hother hl hrest

/-! ### The three trees -/

/-- The secondary trees of a store. -/
inductive Tree
  | aevt
  | avet
  | vaet

namespace Tree

def of : Tree → MbfPartitionStore → OrdMap IndexKey Unit
  | aevt, st => st.aevtIndex
  | avet, st => st.avetIndex
  | vaet, st => st.vaetIndex

def pkAttr : Tree → String
  | aevt => "ap"
  | avet => "vp"
  | vaet => "rp"

def skAttr : Tree → String
  | aevt => "as"
  | avet => "vs"
  | vaet => "rs"

variable (t : Tree) (st : MbfPartitionStore) (key : PrimaryKey) (item : Item)

theorem of_indexSecondaryOnly :
    t.of (st.indexSecondaryOnly key item) = addEntry (t.of st) t.pkAttr t.skAttr key item := by
  obtain ⟨_, _, hframe⟩ := st.indexSecondaryOnly_frame key item
  rw [hframe]
  cases t <;> rfl

/-- What an insertion leaves of a tree before it adds the new entry. -/
def cleared : OrdMap IndexKey Unit :=
  match st.items.lookup key with
  | some oldItem => removeEntry (t.of st) t.pkAttr t.skAttr key oldItem
  | none => t.of st

theorem of_removeIndexed : t.of (st.removeIndexed key) = t.cleared st key := by
  rw [removeIndexed, cleared]
  cases st.items.lookup key with
  | none => rfl
  | some oldItem => cases t <;> rfl

theorem of_insertIndexed :
    t.of (st.insertIndexed key item) =
      addEntry (t.cleared st key) t.pkAttr t.skAttr key item := by
  rw [← of_removeIndexed, ← of_indexSecondaryOnly]
  cases t <;> rfl

end Tree

/-- Two trees with the same keys are one. -/
theorem tree_ext {m n : OrdMap IndexKey Unit} (h : ∀ k, m.contains k = true ↔ n.contains k = true) :
    m = n := by
  apply OrdMap.ext
  intro k
  have hk := h k
  rw [OrdMap.contains, OrdMap.contains] at hk
  cases hm : m.lookup k <;> cases hn : n.lookup k <;> simp_all

/-- The tree holds the entry of an item, if the item has one. -/
def HasEntry (t : Tree) (st : MbfPartitionStore) (key : PrimaryKey) (item : Item) : Prop :=
  ∀ k : IndexKey, k.primary = key → extractIndexKey item t.pkAttr t.skAttr = some (k.part, k.sort) →
    (t.of st).contains k = true

/-! ### Entries that a merge has dealt with -/

/-- A snapshot's entry has nothing left to change: it is a posting, the store keeps its own item,
or has the entry's item and its index entries. -/
def Settled (newer : Bool) (st : MbfPartitionStore) (e : PrimaryKey × Item) : Prop :=
  Text.contains e.1.pk "#FTS#" = true ∨ takesRemote newer (st.items.lookup e.1) e.2 = false ∨
    st.items.lookup e.1 = some e.2 ∧ ∀ t : Tree, HasEntry t st e.1 e.2

/-- Items and trees are the same. -/
structure SameContent (st st' : MbfPartitionStore) : Prop where
  items : st'.items = st.items
  trees : ∀ t : Tree, t.of st' = t.of st

theorem SameContent.refl (st : MbfPartitionStore) : SameContent st st := ⟨rfl, fun _ => rfl⟩

theorem SameContent.trans {a b c : MbfPartitionStore} (hab : SameContent a b)
    (hbc : SameContent b c) : SameContent a c :=
  ⟨hbc.items.trans hab.items, fun t => (hbc.trees t).trans (hab.trees t)⟩

theorem Settled.congr {st' : MbfPartitionStore} {e : PrimaryKey × Item} (h : Settled newer st e)
    (hsame : SameContent st st') : Settled newer st' e := by
  rw [Settled, hsame.items]
  rcases h with hfts | hkeep | ⟨hlookup, hentry⟩
  · exact Or.inl hfts
  · exact Or.inr (Or.inl hkeep)
  · refine Or.inr (Or.inr ⟨hlookup, fun t k hk hext => ?_⟩)
    rw [hsame.trees t]
    exact hentry t k hk hext

/-- A settled entry is merged without a change of content. -/
theorem Settled.sameContent {e : PrimaryKey × Item} (h : Settled newer st e) :
    SameContent st (st.applyRemoteItem false newer e) := by
  rw [applyRemoteItem_merge]
  by_cases hskip : Text.contains e.1.pk "#FTS#" ∨ ¬ takesRemote newer (st.items.lookup e.1) e.2
  · rw [if_pos hskip]
    exact SameContent.refl st
  · rw [if_neg hskip]
    rw [not_or, not_not] at hskip
    rcases h with hfts | hkeep | ⟨hlookup, hentry⟩
    · exact absurd hfts hskip.1
    · rw [hkeep] at hskip
      exact absurd hskip.2 Bool.false_ne_true
    · refine ⟨?_, fun t => ?_⟩
      · rw [insertIndexed_items]
        exact OrdMap.insert_lookup_self hlookup
      · rw [Tree.of_insertIndexed, Tree.cleared, hlookup]
        apply tree_ext
        intro k
        rw [contains_addEntry, contains_removeEntry]
        constructor
        · rintro (⟨hk, -⟩ | ⟨hk, hext⟩)
          · exact hk
          · exact hentry t k hk hext
        · intro hk
          by_cases hown : k.primary = e.1 ∧
              extractIndexKey e.2 t.pkAttr t.skAttr = some (k.part, k.sort)
          · exact Or.inr hown
          · exact Or.inl ⟨hk, hown⟩

/-- The entry that was merged is settled. -/
theorem settled_applyRemoteItem {wasEmpty : Bool} {e : PrimaryKey × Item} :
    Settled newer (st.applyRemoteItem wasEmpty newer e) e := by
  by_cases hfts : Text.contains e.1.pk "#FTS#" = true
  · exact Or.inl hfts
  · cases wasEmpty with
    | true =>
      rw [applyRemoteItem_load, if_neg hfts]
      refine Or.inr (Or.inr ⟨OrdMap.lookup_insert_self _ _ _, fun t k hk hext => ?_⟩)
      have htree : t.of { st.indexSecondaryOnly e.1 e.2 with
          items := (st.indexSecondaryOnly e.1 e.2).items.insert e.1 e.2 } =
          addEntry (t.of st) t.pkAttr t.skAttr e.1 e.2 := by
        rw [← Tree.of_indexSecondaryOnly]
        cases t <;> rfl
      rw [htree, contains_addEntry]
      exact Or.inr ⟨hk, hext⟩
    | false =>
      rw [applyRemoteItem_merge]
      cases htakes : takesRemote newer (st.items.lookup e.1) e.2 with
      | false =>
        rw [if_pos (by simp)]
        exact Or.inr (Or.inl htakes)
      | true =>
        rw [if_neg (by simp [hfts])]
        refine Or.inr (Or.inr ⟨by simp, fun t k hk hext => ?_⟩)
        rw [Tree.of_insertIndexed, contains_addEntry]
        exact Or.inr ⟨hk, hext⟩

/-- What is settled stays so while other keys are merged. -/
theorem Settled.applyRemoteItem {wasEmpty : Bool} {e u : PrimaryKey × Item}
    (h : Settled newer st e) (hne : u.1 ≠ e.1) :
    Settled newer (st.applyRemoteItem wasEmpty newer u) e := by
  rw [Settled, applyRemoteItem_lookup_of_ne (Ne.symm hne)]
  rcases h with hfts | hkeep | ⟨hlookup, hentry⟩
  · exact Or.inl hfts
  · exact Or.inr (Or.inl hkeep)
  · refine Or.inr (Or.inr ⟨hlookup, fun t k hk hext => ?_⟩)
    have hheld := hentry t k hk hext
    have hother : k.primary ≠ u.1 := fun h => hne (h.symm.trans hk)
    cases wasEmpty with
    | true =>
      rw [applyRemoteItem_load]
      split_ifs
      · exact hheld
      · have htree : t.of { st.indexSecondaryOnly u.1 u.2 with
            items := (st.indexSecondaryOnly u.1 u.2).items.insert u.1 u.2 } =
            addEntry (t.of st) t.pkAttr t.skAttr u.1 u.2 := by
          rw [← Tree.of_indexSecondaryOnly]
          cases t <;> rfl
        rw [htree, contains_addEntry]
        exact Or.inl hheld
    | false =>
      rw [applyRemoteItem_merge]
      split_ifs
      · exact hheld
      · rw [Tree.of_insertIndexed, contains_addEntry, Tree.cleared]
        cases st.items.lookup u.1 with
        | none => exact Or.inl hheld
        | some oldItem =>
          rw [contains_removeEntry]
          exact Or.inl ⟨hheld, fun h => hother h.1⟩

/-! ### Two merges of one snapshot -/

theorem settled_foldl {wasEmpty : Bool} {rows : List (PrimaryKey × Item)}
    (hnd : (rows.map Prod.fst).Nodup) {e : PrimaryKey × Item} (h : e ∈ rows) :
    Settled newer (rows.foldl (applyRemoteItem wasEmpty newer) st) e := by
  have hrest : ∀ (rows : List (PrimaryKey × Item)) (st : MbfPartitionStore),
      Settled newer st e → e.1 ∉ rows.map Prod.fst →
      Settled newer (rows.foldl (MbfPartitionStore.applyRemoteItem wasEmpty newer) st) e := by
    intro rows
    induction rows with
    | nil => exact fun st h _ => h
    | cons u rows ih =>
      intro st h hnot
      rw [List.map_cons, List.mem_cons, not_or] at hnot
      exact ih _ (h.applyRemoteItem (Ne.symm hnot.1)) hnot.2
  induction rows generalizing st with
  | nil => cases h
  | cons u rows ih =>
    rw [List.map_cons, List.nodup_cons] at hnd
    rcases List.mem_cons.mp h with rfl | h
    · exact hrest rows _ settled_applyRemoteItem hnd.1
    · exact ih hnd.2 h

theorem sameContent_foldl {rows : List (PrimaryKey × Item)}
    (h : ∀ e ∈ rows, Settled newer st e) :
    SameContent st (rows.foldl (MbfPartitionStore.applyRemoteItem false newer) st) := by
  induction rows generalizing st with
  | nil => exact SameContent.refl st
  | cons e rows ih =>
    have hstep := (h e List.mem_cons_self).sameContent
    have hrest : ∀ u ∈ rows, Settled newer (st.applyRemoteItem false newer e) u :=
      fun u hu => (h u (List.mem_cons_of_mem _ hu)).congr hstep
    exact hstep.trans (ih hrest)

/-- A store without items in which every entry is settled was given postings only. -/
theorem sameContent_of_empty {rows : List (PrimaryKey × Item)} (hempty : st.items.isEmpty = true)
    (h : ∀ e ∈ rows, Settled newer st e) :
    rows.foldl (MbfPartitionStore.applyRemoteItem true newer) st = st := by
  induction rows with
  | nil => rfl
  | cons e rows ih =>
    have hfts : Text.contains e.1.pk "#FTS#" = true := by
      rcases h e List.mem_cons_self with hfts | hkeep | ⟨hlookup, -⟩
      · exact hfts
      · rw [OrdMap.lookup_of_isEmpty hempty] at hkeep
        cases hkeep
      · rw [OrdMap.lookup_of_isEmpty hempty] at hlookup
        cases hlookup
    rw [List.foldl_cons, applyRemoteItem_load, if_pos hfts]
    exact ih fun u hu => h u (List.mem_cons_of_mem _ hu)

/-! ### Counters and marks -/

theorem applyRemoteIdem_twice (idem : OrdMap QuotaKey (String × ℤ))
    (rows : List (QuotaKey × (String × ℤ))) :
    rows.foldl applyRemoteIdem (rows.foldl applyRemoteIdem idem) =
      rows.foldl applyRemoteIdem idem := by
  apply OrdMap.ext
  intro k
  rw [lookup_foldl_applyRemoteIdem, lookup_foldl_applyRemoteIdem, Option.or_assoc, Option.or_self]

/-- A counter of an older snapshot is not above what is held after its merge. -/
theorem le_of_foldl_applyRemoteCounter {rows : List (QuotaKey × ℤ)}
    {counters : OrdMap QuotaKey ℤ} {e : QuotaKey × ℤ} (h : e ∈ rows) :
    ∃ held, (rows.foldl (applyRemoteCounter false) counters).lookup e.1 = some held ∧
      e.2 ≤ held := by
  have hstep (counters : OrdMap QuotaKey ℤ) (u : QuotaKey × ℤ) {k : QuotaKey} {value : ℤ}
      (hheld : ∃ held, counters.lookup k = some held ∧ value ≤ held) :
      ∃ held, (applyRemoteCounter false counters u).lookup k = some held ∧ value ≤ held := by
    obtain ⟨held, hlookup, hle⟩ := hheld
    rw [applyRemoteCounter, OrdMap.lookup_insert]
    by_cases hk : k = u.1
    · subst hk
      rw [if_pos rfl, hlookup]
      refine ⟨_, rfl, ?_⟩
      simp only [Bool.false_eq_true, if_false, Option.getD_some]
      split_ifs <;> omega
    · exact ⟨held, by rw [if_neg hk, hlookup], hle⟩
  have hrest : ∀ (rows : List (QuotaKey × ℤ)) (counters : OrdMap QuotaKey ℤ),
      (∃ held, counters.lookup e.1 = some held ∧ e.2 ≤ held) →
      ∃ held, (rows.foldl (applyRemoteCounter false) counters).lookup e.1 = some held ∧
        e.2 ≤ held := by
    intro rows
    induction rows with
    | nil => exact fun _ h => h
    | cons u rows ih => exact fun counters h => ih _ (hstep counters u h)
  induction rows generalizing counters with
  | nil => cases h
  | cons u rows ih =>
    rcases List.mem_cons.mp h with rfl | h
    · refine hrest rows (applyRemoteCounter false counters e)
        ⟨_, OrdMap.lookup_insert_self _ _ _, ?_⟩
      simp only [Bool.false_eq_true, if_false]
      split_ifs <;> omega
    · exact ih h

theorem applyRemoteCounter_twice (newer : Bool) (rows : List (QuotaKey × ℤ))
    (counters : OrdMap QuotaKey ℤ) :
    rows.foldl (applyRemoteCounter newer) (rows.foldl (applyRemoteCounter newer) counters) =
      rows.foldl (applyRemoteCounter newer) counters := by
  cases newer with
  | true =>
    rw [applyRemoteCounter_newer]
    change (counters.insertList rows).insertList rows = counters.insertList rows
    apply OrdMap.ext
    intro k
    rw [OrdMap.lookup_insertList_or, OrdMap.lookup_insertList_or counters, ← Option.or_assoc,
      Option.or_self]
  | false =>
    have hsame : ∀ (l : List (QuotaKey × ℤ)) (held : OrdMap QuotaKey ℤ),
        (∀ e ∈ l, ∃ value, held.lookup e.1 = some value ∧ e.2 ≤ value) →
        l.foldl (applyRemoteCounter false) held = held := by
      intro l held h
      induction l with
      | nil => rfl
      | cons e l ih =>
        obtain ⟨value, hvalue, hle⟩ := h e List.mem_cons_self
        have hstep : applyRemoteCounter false held e = held := by
          rw [applyRemoteCounter, hvalue]
          simp only [Bool.false_eq_true, if_false, Option.getD_some]
          rw [if_neg (by omega)]
          exact OrdMap.insert_lookup_self hvalue
        rw [List.foldl_cons, hstep]
        exact ih fun u hu => h u (List.mem_cons_of_mem _ hu)
    exact hsame rows _ fun e he => le_of_foldl_applyRemoteCounter he

/-! ### The merge as a whole -/

variable (st snap)

/-- What a merge of a snapshot keeps, and that a second one of it changes nothing. -/
structure MergeKeeps (etag : String) (nowMs : ℤ) : Prop where
  keys : ∀ key, st.items.contains key = true →
    (st.applyWireSnapshot snap etag nowMs).items.contains key = true
  marks : ∀ key mark, st.quotaIdem.lookup key = some mark →
    (st.applyWireSnapshot snap etag nowMs).quotaIdem.lookup key = some mark
  epoch : st.epochId ≤ (st.applyWireSnapshot snap etag nowMs).epochId
  numbers : ∀ key item l, st.items.lookup key = some item → currentValue item = some l →
    (∀ e ∈ snap.items, e.1 = key → currentValue e.2 ≠ none) →
    ∃ item' l', (st.applyWireSnapshot snap etag nowMs).items.lookup key = some item' ∧
      currentValue item' = some l' ∧ l ≤ l'
  again : (snap.items.map Prod.fst).Nodup →
    SameContent (st.applyWireSnapshot snap etag nowMs)
      ((st.applyWireSnapshot snap etag nowMs).applyWireSnapshot snap etag nowMs) ∧
    ((st.applyWireSnapshot snap etag nowMs).applyWireSnapshot snap etag nowMs).quotaCounters =
      (st.applyWireSnapshot snap etag nowMs).quotaCounters ∧
    ((st.applyWireSnapshot snap etag nowMs).applyWireSnapshot snap etag nowMs).quotaIdem =
      (st.applyWireSnapshot snap etag nowMs).quotaIdem ∧
    ((st.applyWireSnapshot snap etag nowMs).applyWireSnapshot snap etag nowMs).epochId =
      (st.applyWireSnapshot snap etag nowMs).epochId

/-- The flag of the second merge is that of the first. -/
theorem remoteIsNewer_applyWireSnapshot (etag : String) (nowMs : ℤ) :
    (st.applyWireSnapshot snap etag nowMs).remoteIsNewer snap = st.remoteIsNewer snap := by
  change decide (snap.epochId ≥ max st.epochId snap.epochId) = decide (snap.epochId ≥ st.epochId)
  rw [decide_eq_decide]
  omega

theorem applyWireSnapshot_again (etag : String) (nowMs : ℤ)
    (hnd : (snap.items.map Prod.fst).Nodup) :
    SameContent (st.applyWireSnapshot snap etag nowMs)
      ((st.applyWireSnapshot snap etag nowMs).applyWireSnapshot snap etag nowMs) := by
  have hmerged : SameContent (st.mergeItems snap) (st.applyWireSnapshot snap etag nowMs) :=
    ⟨rfl, fun t => by cases t <;> rfl⟩
  have hsettled : ∀ e ∈ snap.items,
      Settled (st.remoteIsNewer snap) (st.applyWireSnapshot snap etag nowMs) e :=
    fun e he => (settled_foldl hnd he).congr hmerged
  have hagain : SameContent (st.applyWireSnapshot snap etag nowMs)
      ((st.applyWireSnapshot snap etag nowMs).mergeItems snap) := by
    rw [mergeItems, remoteIsNewer_applyWireSnapshot]
    cases hempty : (st.applyWireSnapshot snap etag nowMs).items.isEmpty with
    | true =>
      rw [sameContent_of_empty hempty hsettled]
      exact SameContent.refl _
    | false => exact sameContent_foldl hsettled
  exact hagain.trans ⟨rfl, fun t => by cases t <;> rfl⟩

/-- Merging keeps keys, marks, the epoch and the sequence numbers, and merging again changes
nothing. -/
theorem applyWireSnapshot_keeps (etag : String) (nowMs : ℤ) : MergeKeeps st snap etag nowMs where
  keys key hkey := by
    rw [OrdMap.contains, Option.isSome_iff_ne_none] at hkey ⊢
    rw [applyWireSnapshot_items]
    exact fun h => hkey (mergeItems_lookup_eq_none.mp h).1
  marks key mark hmark := by
    change (snap.quotaIdem.foldl applyRemoteIdem st.quotaIdem).lookup key = some mark
    rw [lookup_foldl_applyRemoteIdem, hmark]
    rfl
  epoch := le_max_left _ _
  numbers key item l hitem hl hrows := by
    rw [applyWireSnapshot_items, mergeItems]
    cases hempty : st.items.isEmpty with
    | true =>
      rw [OrdMap.lookup_of_isEmpty hempty] at hitem
      cases hitem
    | false => exact currentValue_foldl hitem hl hrows
  again hnd := by
    refine ⟨applyWireSnapshot_again st snap etag nowMs hnd, ?_, ?_, ?_⟩
    · change snap.quotaCounters.foldl (applyRemoteCounter
        ((st.applyWireSnapshot snap etag nowMs).remoteIsNewer snap)) _ = _
      rw [remoteIsNewer_applyWireSnapshot]
      exact applyRemoteCounter_twice _ _ _
    · exact applyRemoteIdem_twice _ _
    · change max (max st.epochId snap.epochId) snap.epochId = max st.epochId snap.epochId
      omega

end MbfPartitionStore
end MetriEngine.Storage

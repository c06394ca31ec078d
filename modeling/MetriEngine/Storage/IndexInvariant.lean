import MetriEngine.Storage.Partition

/-!
# The secondary trees mirror the items

Each secondary tree is, at every moment, the set of index keys that the items
carry: this is what `insertIndexed`, `removeIndexed` and the merge of a remote
snapshot preserve.
-/
namespace MetriEngine.Storage
open Foundation

/-! ### What the operations leave alone -/

/-- Only items, trees and entity sets may differ. -/
structure SameLedger (st st' : MbfPartitionStore) : Prop where
  epochId : st'.epochId = st.epochId
  lastS3Etag : st'.lastS3Etag = st.lastS3Etag
  lastSyncMs : st'.lastSyncMs = st.lastSyncMs
  bulkDepth : st'.bulkDepth = st.bulkDepth
  dirtyEntities : st'.dirtyEntities = st.dirtyEntities
  quotaCounters : st'.quotaCounters = st.quotaCounters
  quotaIdem : st'.quotaIdem = st.quotaIdem

theorem SameLedger.refl (st : MbfPartitionStore) : SameLedger st st :=
  ⟨rfl, rfl, rfl, rfl, rfl, rfl, rfl⟩

theorem SameLedger.trans {a b c : MbfPartitionStore} (hab : SameLedger a b)
    (hbc : SameLedger b c) : SameLedger a c :=
  ⟨hbc.1.trans hab.1, hbc.2.trans hab.2, hbc.3.trans hab.3, hbc.4.trans hab.4,
    hbc.5.trans hab.5, hbc.6.trans hab.6, hbc.7.trans hab.7⟩

/-- What each step of a loop leaves alone the loop leaves alone. -/
theorem SameLedger.foldl {γ : Type*} {f : MbfPartitionStore → γ → MbfPartitionStore}
    (hf : ∀ st x, SameLedger st (f st x)) (l : List γ) (st : MbfPartitionStore) :
    SameLedger st (l.foldl f st) := by
  induction l generalizing st with
  | nil => exact SameLedger.refl st
  | cons x l ih => exact (hf st x).trans (ih (f st x))

namespace MbfPartitionStore
variable (st : MbfPartitionStore) (key : PrimaryKey) (item : Item)

theorem markEntity_frame (pk entityType : String) :
    ∃ transient outbox, st.markEntity pk entityType =
      { st with transientEntities := transient, outboxEntities := outbox } := by
  unfold markEntity
  split_ifs
  · exact ⟨_, _, rfl⟩
  · exact ⟨_, st.outboxEntities, rfl⟩
  · exact ⟨st.transientEntities, st.outboxEntities, rfl⟩

/-- Beside the trees, indexing an item touches the two entity sets only. -/
theorem indexSecondaryOnly_frame :
    ∃ transient outbox, st.indexSecondaryOnly key item =
      { st with
        aevtIndex := addEntry st.aevtIndex "ap" "as" key item
        avetIndex := addEntry st.avetIndex "vp" "vs" key item
        vaetIndex := addEntry st.vaetIndex "rp" "rs" key item
        transientEntities := transient
        outboxEntities := outbox } := by
  unfold indexSecondaryOnly
  dsimp only
  split_ifs
  · exact ⟨st.transientEntities, st.outboxEntities, rfl⟩
  · split
    · rename_i entityType _
      obtain ⟨transient, outbox, h⟩ := markEntity_frame { st with
        aevtIndex := addEntry st.aevtIndex "ap" "as" key item
        avetIndex := addEntry st.avetIndex "vp" "vs" key item
        vaetIndex := addEntry st.vaetIndex "rp" "rs" key item } key.pk entityType
      exact ⟨transient, outbox, h⟩
    · exact ⟨st.transientEntities, st.outboxEntities, rfl⟩

@[simp] theorem unindexItem_items : (st.unindexItem key item).items = st.items := rfl

theorem removeIndexed_of_some {oldItem : Item} (h : st.items.lookup key = some oldItem) :
    st.removeIndexed key = { st with items := st.items.erase key }.unindexItem key oldItem := by
  simp [removeIndexed, h]

theorem removeIndexed_of_none (h : st.items.lookup key = none) : st.removeIndexed key = st := by
  simp [removeIndexed, h]

@[simp] theorem removeIndexed_items : (st.removeIndexed key).items = st.items.erase key := by
  cases h : st.items.lookup key with
  | none => rw [removeIndexed_of_none _ _ h, OrdMap.erase_of_lookup_eq_none h]
  | some oldItem => rw [removeIndexed_of_some _ _ h, unindexItem_items]

/-- Beside items and trees, an insertion touches the two entity sets only. -/
theorem insertIndexed_frame :
    ∃ aevt avet vaet transient outbox, st.insertIndexed key item =
      { st with
        items := st.items.insert key item
        aevtIndex := aevt
        avetIndex := avet
        vaetIndex := vaet
        transientEntities := transient
        outboxEntities := outbox } := by
  cases hl : st.items.lookup key with
  | none =>
    obtain ⟨transient, outbox, h⟩ := st.indexSecondaryOnly_frame key item
    rw [insertIndexed, st.removeIndexed_of_none key hl, h]
    exact ⟨_, _, _, transient, outbox, rfl⟩
  | some oldItem =>
    obtain ⟨transient, outbox, h⟩ :=
      (({ st with items := st.items.erase key }.unindexItem key oldItem).indexSecondaryOnly_frame
        key item)
    rw [insertIndexed, st.removeIndexed_of_some key hl, h,
      ← OrdMap.erase_insert_self st.items key item]
    exact ⟨_, _, _, transient, outbox, rfl⟩

@[simp] theorem insertIndexed_items :
    (st.insertIndexed key item).items = st.items.insert key item := by
  obtain ⟨_, _, _, _, _, h⟩ := st.insertIndexed_frame key item
  rw [h]

theorem markEntity_ledger (pk entityType : String) :
    SameLedger st (st.markEntity pk entityType) := by
  obtain ⟨_, _, h⟩ := st.markEntity_frame pk entityType
  rw [h]
  constructor <;> rfl

theorem markEntity_items (pk entityType : String) :
    (st.markEntity pk entityType).items = st.items := by
  obtain ⟨_, _, h⟩ := st.markEntity_frame pk entityType
  rw [h]

theorem removeIndexed_ledger : SameLedger st (st.removeIndexed key) := by
  cases h : st.items.lookup key with
  | none =>
    rw [removeIndexed_of_none _ _ h]
    exact SameLedger.refl st
  | some oldItem =>
    rw [removeIndexed_of_some _ _ h]
    constructor <;> rfl

theorem insertIndexed_ledger : SameLedger st (st.insertIndexed key item) := by
  obtain ⟨_, _, _, _, _, h⟩ := st.insertIndexed_frame key item
  rw [h]
  constructor <;> rfl

/-- One entry merged into a store that held items already. -/
theorem applyRemoteItem_merge (newer : Bool) (e : PrimaryKey × Item) :
    st.applyRemoteItem false newer e =
      if Text.contains e.1.pk "#FTS#" ∨ ¬ takesRemote newer (st.items.lookup e.1) e.2 then st
      else st.insertIndexed e.1 e.2 := by
  unfold applyRemoteItem
  by_cases hf : Text.contains e.1.pk "#FTS#"
  · simp [hf]
  · by_cases ht : takesRemote newer (st.items.lookup e.1) e.2 <;> simp [hf, ht]

/-- One entry loaded into a store that held no items. -/
theorem applyRemoteItem_load (newer : Bool) (e : PrimaryKey × Item) :
    st.applyRemoteItem true newer e =
      if Text.contains e.1.pk "#FTS#" then st
      else { st.indexSecondaryOnly e.1 e.2 with
        items := (st.indexSecondaryOnly e.1 e.2).items.insert e.1 e.2 } := by
  simp [applyRemoteItem]

end MbfPartitionStore

/-! ### One tree -/

/-- `tree` holds the keys `(pkAttr, skAttr)` of the items and nothing else. -/
def TreeExact (items : OrdMap PrimaryKey Item) (tree : OrdMap IndexKey Unit)
    (pkAttr skAttr : String) : Prop :=
  ∀ k : IndexKey, tree.contains k = true ↔
    ∃ item, items.lookup k.primary = some item ∧
      extractIndexKey item pkAttr skAttr = some (k.part, k.sort)

section Tree
variable {items : OrdMap PrimaryKey Item} {tree : OrdMap IndexKey Unit} {pkAttr skAttr : String}
  {key : PrimaryKey} {item : Item}

theorem contains_removeEntry {k : IndexKey} :
    (removeEntry tree pkAttr skAttr key item).contains k = true ↔
      tree.contains k = true ∧
        ¬ (k.primary = key ∧ extractIndexKey item pkAttr skAttr = some (k.part, k.sort)) := by
  unfold removeEntry
  cases h : extractIndexKey item pkAttr skAttr with
  | none => simp
  | some e =>
    obtain ⟨part, sort⟩ := e
    obtain ⟨p, s, l⟩ := k
    simp only [OrdMap.contains_erase, IndexKey.mk.injEq, Bool.and_eq_true, Bool.not_eq_true',
      decide_eq_false_iff_not, Option.some.injEq, Prod.mk.injEq]
    tauto

theorem contains_addEntry {k : IndexKey} :
    (addEntry tree pkAttr skAttr key item).contains k = true ↔
      tree.contains k = true ∨
        (k.primary = key ∧ extractIndexKey item pkAttr skAttr = some (k.part, k.sort)) := by
  unfold addEntry
  cases h : extractIndexKey item pkAttr skAttr with
  | none => simp
  | some e =>
    obtain ⟨part, sort⟩ := e
    obtain ⟨p, s, l⟩ := k
    simp only [OrdMap.contains_insert, IndexKey.mk.injEq, Bool.or_eq_true, decide_eq_true_eq,
      Option.some.injEq, Prod.mk.injEq]
    tauto

theorem TreeExact.erase (h : TreeExact items tree pkAttr skAttr)
    (hl : items.lookup key = some item) :
    TreeExact (items.erase key) (removeEntry tree pkAttr skAttr key item) pkAttr skAttr := by
  intro k
  rw [contains_removeEntry, h k]
  by_cases hk : k.primary = key
  · simp [hk, hl]
  · simp [hk]

theorem TreeExact.insert (h : TreeExact items tree pkAttr skAttr)
    (hl : items.lookup key = none) :
    TreeExact (items.insert key item) (addEntry tree pkAttr skAttr key item) pkAttr skAttr := by
  intro k
  rw [contains_addEntry, h k]
  by_cases hk : k.primary = key
  · simp [hk, hl]
  · simp [hk]

/-- An edit that keeps an item's index key needs no work on the tree. -/
theorem TreeExact.edit (h : TreeExact items tree pkAttr skAttr)
    (hkeep : extractIndexKey item pkAttr skAttr =
      (items.lookup key).bind fun oldItem => extractIndexKey oldItem pkAttr skAttr) :
    TreeExact (items.insert key item) tree pkAttr skAttr := by
  intro k
  rw [h k]
  by_cases hk : k.primary = key
  · cases hl : items.lookup key with
    | none => simp [hk, hl, hkeep]
    | some oldItem => simp [hk, hl, hkeep]
  · simp [hk]

end Tree

/-! ### The three trees of a store -/

/-- The invariant: the three trees are the images of the items. -/
structure IndexExact (st : MbfPartitionStore) : Prop where
  aevt : TreeExact st.items st.aevtIndex "ap" "as"
  avet : TreeExact st.items st.avetIndex "vp" "vs"
  vaet : TreeExact st.items st.vaetIndex "rp" "rs"

namespace IndexExact
variable {st : MbfPartitionStore}

/-- The invariant reads items and trees only. -/
theorem congr {st' : MbfPartitionStore} (h : IndexExact st) (hitems : st'.items = st.items)
    (haevt : st'.aevtIndex = st.aevtIndex) (havet : st'.avetIndex = st.avetIndex)
    (hvaet : st'.vaetIndex = st.vaetIndex) : IndexExact st' := by
  constructor
  · rw [hitems, haevt]
    exact h.aevt
  · rw [hitems, havet]
    exact h.avet
  · rw [hitems, hvaet]
    exact h.vaet

theorem empty : IndexExact {} := by
  constructor <;> intro k <;> simp

theorem markEntity (h : IndexExact st) (pk entityType : String) :
    IndexExact (st.markEntity pk entityType) := by
  obtain ⟨_, _, hframe⟩ := st.markEntity_frame pk entityType
  rw [hframe]
  exact h.congr rfl rfl rfl rfl

theorem removeIndexed (h : IndexExact st) (key : PrimaryKey) :
    IndexExact (st.removeIndexed key) := by
  cases hl : st.items.lookup key with
  | none =>
    rw [st.removeIndexed_of_none key hl]
    exact h
  | some oldItem =>
    rw [st.removeIndexed_of_some key hl]
    exact ⟨h.aevt.erase hl, h.avet.erase hl, h.vaet.erase hl⟩

/-- Indexing an item under a fresh key, together with storing it. -/
theorem insertFresh (h : IndexExact st) {key : PrimaryKey} (item : Item)
    (hl : st.items.lookup key = none) :
    IndexExact { st.indexSecondaryOnly key item with
      items := (st.indexSecondaryOnly key item).items.insert key item } := by
  obtain ⟨_, _, hframe⟩ := st.indexSecondaryOnly_frame key item
  rw [hframe]
  exact ⟨h.aevt.insert hl, h.avet.insert hl, h.vaet.insert hl⟩

theorem insertIndexed (h : IndexExact st) (key : PrimaryKey) (item : Item) :
    IndexExact (st.insertIndexed key item) := by
  apply (h.removeIndexed key).insertFresh item
  simp

theorem edit (h : IndexExact st) {key : PrimaryKey} {item : Item}
    (hkeep : ∀ names ∈ [("ap", "as"), ("vp", "vs"), ("rp", "rs")],
      extractIndexKey item names.1 names.2 =
        (st.items.lookup key).bind fun oldItem => extractIndexKey oldItem names.1 names.2) :
    IndexExact { st with items := st.items.insert key item } :=
  ⟨h.aevt.edit (hkeep ("ap", "as") (by simp)), h.avet.edit (hkeep ("vp", "vs") (by simp)),
    h.vaet.edit (hkeep ("rp", "rs") (by simp))⟩

/-! ### Merging a snapshot -/

theorem applyRemoteItem_nonempty (h : IndexExact st) (newer : Bool) (e : PrimaryKey × Item) :
    IndexExact (st.applyRemoteItem false newer e) := by
  rw [st.applyRemoteItem_merge]
  split_ifs
  · exact h
  · exact h.insertIndexed _ _

theorem applyRemoteItems_nonempty (h : IndexExact st) (newer : Bool)
    (l : List (PrimaryKey × Item)) :
    IndexExact (l.foldl (MbfPartitionStore.applyRemoteItem false newer) st) := by
  induction l generalizing st with
  | nil => exact h
  | cons e l ih => exact ih (h.applyRemoteItem_nonempty newer e)

/-- Into an empty store the merge inserts without removing first, so the keys
of the snapshot have to differ. -/
theorem applyRemoteItems_empty (h : IndexExact st) (newer : Bool)
    {l : List (PrimaryKey × Item)} (hnd : (l.map Prod.fst).Nodup)
    (hfresh : ∀ e ∈ l, st.items.lookup e.1 = none) :
    IndexExact (l.foldl (MbfPartitionStore.applyRemoteItem true newer) st) := by
  induction l generalizing st with
  | nil => exact h
  | cons e l ih =>
    obtain ⟨hne, hnd⟩ := List.nodup_cons.mp hnd
    have hfresh' : ∀ f ∈ l, st.items.lookup f.1 = none := fun f hf =>
      hfresh f (List.mem_cons_of_mem _ hf)
    have hdiff : ∀ f ∈ l, f.1 ≠ e.1 := fun f hf heq =>
      hne (heq ▸ List.mem_map_of_mem hf)
    rw [List.foldl_cons, st.applyRemoteItem_load]
    split_ifs
    · exact ih h hnd hfresh'
    · apply ih (h.insertFresh e.2 (hfresh e List.mem_cons_self)) hnd
      intro f hf
      obtain ⟨_, _, hframe⟩ := st.indexSecondaryOnly_frame e.1 e.2
      simp only [hframe]
      rw [OrdMap.lookup_insert_of_ne _ _ (hdiff f hf)]
      exact hfresh' f hf

theorem applyWireSnapshot (h : IndexExact st) {snap : MbfPartitionWireSnapshot}
    (hnd : (snap.items.map Prod.fst).Nodup) (etag : String) (nowMs : ℤ) :
    IndexExact (st.applyWireSnapshot snap etag nowMs) := by
  have hmerge : IndexExact (st.mergeItems snap) := by
    unfold MbfPartitionStore.mergeItems
    cases hempty : st.items.isEmpty with
    | false => exact h.applyRemoteItems_nonempty _ _
    | true => exact h.applyRemoteItems_empty _ hnd fun e _ => OrdMap.lookup_of_isEmpty hempty e.1
  exact hmerge.congr rfl rfl rfl rfl

end IndexExact
end MetriEngine.Storage

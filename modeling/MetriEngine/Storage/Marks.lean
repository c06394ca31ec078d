import MetriEngine.Storage.Merge

/-!
# The entities that a store has marked

Indexing a row that asserts a type of its entity may mark the entity: an outbox event is kept
out of the search index and of every snapshot, an audit entry or a fault out of the search
index. An entity that is marked is not looked at again.
-/
namespace MetriEngine.Storage
open Foundation

structure EntityMarks where
  transient : Finset String
  outbox : Finset String
deriving DecidableEq

def MbfPartitionStore.marks (st : MbfPartitionStore) : EntityMarks :=
  ⟨st.transientEntities, st.outboxEntities⟩

/-- The type that an EAVT row asserts of its entity. -/
def assertedType (e : PrimaryKey × Item) : Option String :=
  if e.1.sk.length ≠ 11 ∨ tenantEntity e.1.pk = none ∨ e.1.sk[10]? = some 0 ∨
      apAttrName e.2 ≠ some "entity/type" then none
  else match e.2.lookup "v" with
    | some (.s entityType) => some entityType
    | _ => none

/-- The mark that a row asks for. -/
def markOf (e : PrimaryKey × Item) : Option String :=
  (assertedType e).filter fun t => t = "outbox_event" ∨ t = "audit_log" ∨ t = "domain_fault"

def EntityMarks.note (marks : EntityMarks) (e : PrimaryKey × Item) : EntityMarks :=
  if e.1.pk ∈ marks.transient then marks
  else match markOf e with
    | some mark =>
      ⟨insert e.1.pk marks.transient,
        if mark = "outbox_event" then insert e.1.pk marks.outbox else marks.outbox⟩
    | none => marks

/-- The first mark that the rows ask for an entity. -/
def firstMark (rows : List (PrimaryKey × Item)) (pk : String) : Option String :=
  rows.findSome? fun e => if e.1.pk = pk then markOf e else none

namespace MbfPartitionStore
variable (st : MbfPartitionStore)

theorem markEntity_marks (e : PrimaryKey × Item) {entityType : String}
    (h : assertedType e = some entityType) (hpk : e.1.pk ∉ st.transientEntities) :
    (st.markEntity e.1.pk entityType).marks = st.marks.note e := by
  unfold markEntity EntityMarks.note markOf
  rw [h, if_neg (show e.1.pk ∉ st.marks.transient from hpk), Option.filter_some]
  by_cases houtbox : entityType = "outbox_event"
  · simp [houtbox, marks]
  · by_cases haudit : entityType = "audit_log" ∨ entityType = "domain_fault"
    · simp [houtbox, haudit, marks]
    · simp [houtbox, haudit, marks]

theorem indexSecondaryOnly_marks (e : PrimaryKey × Item) :
    (st.indexSecondaryOnly e.1 e.2).marks = st.marks.note e := by
  by_cases hpk : e.1.pk ∈ st.transientEntities
  · rw [EntityMarks.note, if_pos (show e.1.pk ∈ st.marks.transient from hpk), indexSecondaryOnly]
    dsimp only
    rw [if_pos (Or.inr (Or.inl hpk))]
    rfl
  · unfold indexSecondaryOnly
    dsimp only
    by_cases hrow : e.1.sk.length ≠ 11 ∨ tenantEntity e.1.pk = none ∨ e.1.sk[10]? = some 0 ∨
        apAttrName e.2 ≠ some "entity/type"
    · have hnone : assertedType e = none := by rw [assertedType, if_pos hrow]
      rw [if_pos (by tauto), EntityMarks.note, if_neg (show e.1.pk ∉ st.marks.transient from hpk),
        markOf, hnone]
      rfl
    · rw [if_neg (by tauto)]
      cases hv : e.2.lookup "v" with
      | none =>
        have hnone : assertedType e = none := by rw [assertedType, if_neg hrow, hv]
        rw [EntityMarks.note, if_neg (show e.1.pk ∉ st.marks.transient from hpk), markOf, hnone]
        rfl
      | some value =>
        cases value with
        | s entityType =>
          have hsome : assertedType e = some entityType := by rw [assertedType, if_neg hrow, hv]
          exact markEntity_marks _ e hsome hpk
        | _ =>
          have hnone : assertedType e = none := by rw [assertedType, if_neg hrow, hv]
          rw [EntityMarks.note, if_neg (show e.1.pk ∉ st.marks.transient from hpk), markOf, hnone]
          rfl

@[simp] theorem removeIndexed_marks (key : PrimaryKey) : (st.removeIndexed key).marks = st.marks := by
  cases h : st.items.lookup key with
  | none => rw [removeIndexed_of_none _ _ h]
  | some oldItem =>
    rw [removeIndexed_of_some _ _ h]
    rfl

theorem insertIndexed_marks (e : PrimaryKey × Item) :
    (st.insertIndexed e.1 e.2).marks = st.marks.note e := by
  rw [← st.removeIndexed_marks e.1, ← indexSecondaryOnly_marks]
  rfl

end MbfPartitionStore

/-! ### Marks along a list of rows -/

section Rows
variable {marks : EntityMarks} {pk : String}

theorem note_of_ne {e : PrimaryKey × Item} (h : e.1.pk ≠ pk) :
    (pk ∈ (marks.note e).outbox ↔ pk ∈ marks.outbox) ∧
      (pk ∈ (marks.note e).transient ↔ pk ∈ marks.transient) := by
  unfold EntityMarks.note
  split_ifs
  · simp
  · cases markOf e with
    | none => simp
    | some mark =>
      have hne : pk ≠ e.1.pk := fun heq => h heq.symm
      by_cases houtbox : mark = "outbox_event" <;> simp [houtbox, hne]

theorem firstMark_cons (e : PrimaryKey × Item) (rows : List (PrimaryKey × Item)) :
    firstMark (e :: rows) pk =
      (if e.1.pk = pk then markOf e else none).or (firstMark rows pk) := by
  rw [firstMark, List.findSome?_cons]
  cases (if e.1.pk = pk then markOf e else none) with
  | none => rfl
  | some mark => rfl

/-- An entity becomes an outbox event by the first mark that is asked for it. -/
theorem outbox_foldl_note {rows : List (PrimaryKey × Item)} :
    pk ∈ (rows.foldl EntityMarks.note marks).outbox ↔
      pk ∈ marks.outbox ∨ pk ∉ marks.transient ∧ firstMark rows pk = some "outbox_event" := by
  induction rows generalizing marks with
  | nil => simp [firstMark]
  | cons e rows ih =>
    rw [List.foldl_cons, ih, firstMark_cons]
    by_cases hpk : e.1.pk = pk
    · subst hpk
      rw [if_pos rfl]
      by_cases htransient : e.1.pk ∈ marks.transient
      · rw [EntityMarks.note, if_pos htransient]
        simp [htransient]
      · rw [EntityMarks.note, if_neg htransient]
        cases hmark : markOf e with
        | none => rw [Option.none_or]
        | some mark =>
          by_cases houtbox : mark = "outbox_event" <;> simp [houtbox, htransient]
    · rw [if_neg hpk, Option.none_or, (note_of_ne hpk).1, (note_of_ne hpk).2]

end Rows

/-! ### Marks along a merge -/

section Merge
variable {st : MbfPartitionStore} {wasEmpty newer : Bool}

/-- The rows of a list that a merge takes over what a store holds. -/
def takenRows (newer : Bool) (held : PrimaryKey → Option Item) (rows : List (PrimaryKey × Item)) :
    List (PrimaryKey × Item) :=
  rows.filter fun e =>
    !Text.contains e.1.pk "#FTS#" && MbfPartitionStore.takesRemote newer (held e.1) e.2

theorem applyRemoteItem_marks (e : PrimaryKey × Item)
    (hempty : wasEmpty = true → st.items.lookup e.1 = none) :
    (st.applyRemoteItem wasEmpty newer e).marks =
      (takenRows newer st.items.lookup [e]).foldl EntityMarks.note st.marks := by
  unfold takenRows
  cases wasEmpty with
  | false =>
    rw [MbfPartitionStore.applyRemoteItem_merge]
    by_cases hfts : Text.contains e.1.pk "#FTS#" = true
    · simp [hfts]
    · by_cases htakes : MbfPartitionStore.takesRemote newer (st.items.lookup e.1) e.2 = true
      · simp [hfts, htakes, MbfPartitionStore.insertIndexed_marks]
      · simp [hfts, htakes]
  | true =>
    have htakes : MbfPartitionStore.takesRemote newer (st.items.lookup e.1) e.2 = true := by
      rw [hempty rfl]
      rfl
    rw [MbfPartitionStore.applyRemoteItem_load]
    by_cases hfts : Text.contains e.1.pk "#FTS#" = true
    · simp [hfts]
    · rw [if_neg hfts, List.filter_cons_of_pos (by simp [hfts, htakes])]
      exact st.indexSecondaryOnly_marks e

theorem foldl_applyRemoteItem_marks {rows : List (PrimaryKey × Item)}
    (hnd : (rows.map Prod.fst).Nodup)
    (hempty : wasEmpty = true → ∀ e ∈ rows, st.items.lookup e.1 = none) :
    (rows.foldl (MbfPartitionStore.applyRemoteItem wasEmpty newer) st).marks =
      (takenRows newer st.items.lookup rows).foldl EntityMarks.note st.marks := by
  induction rows generalizing st with
  | nil => rfl
  | cons e rows ih =>
    rw [List.map_cons, List.nodup_cons] at hnd
    have hkept : ∀ e' ∈ rows, (st.applyRemoteItem wasEmpty newer e).items.lookup e'.1 =
        st.items.lookup e'.1 := by
      intro e' he'
      apply MbfPartitionStore.applyRemoteItem_lookup_of_ne
      intro heq
      exact hnd.1 (heq ▸ List.mem_map_of_mem he')
    have hsame : takenRows newer (st.applyRemoteItem wasEmpty newer e).items.lookup rows =
        takenRows newer st.items.lookup rows := by
      apply List.filter_congr
      intro e' he'
      rw [hkept e' he']
    have hsplit : takenRows newer st.items.lookup (e :: rows) =
        takenRows newer st.items.lookup [e] ++ takenRows newer st.items.lookup rows :=
      @List.filter_append _ _ [e] rows
    rw [List.foldl_cons, ih hnd.2, hsame, hsplit, List.foldl_append, applyRemoteItem_marks]
    · intro h
      exact hempty h e List.mem_cons_self
    · intro h e' he'
      rw [hkept e' he']
      exact hempty h e' (List.mem_cons_of_mem _ he')

/-- What a merge marks: the rows that it takes. -/
theorem mergeItems_marks {snap : MbfPartitionWireSnapshot} (hnd : (snap.items.map Prod.fst).Nodup) :
    (st.mergeItems snap).marks =
      (takenRows (st.remoteIsNewer snap) st.items.lookup snap.items).foldl EntityMarks.note
        st.marks :=
  foldl_applyRemoteItem_marks hnd fun h e _ => OrdMap.lookup_of_isEmpty h e.1

end Merge
end MetriEngine.Storage

import MetriEngine.Eav.Transact

/-!
# Stores of datoms

Every item of a store that only transactions have written is kept under its own key, and
the eleven-byte sort keys are those of datoms. On such a store the readers are folds over
the keys of a partition.
-/
namespace MetriEngine.Eav
open Foundation Storage

/-! ### The invariant of the store -/

section Store
variable [F64Text]

/-- Items lie under their own keys, and the entries of the log are datoms with registered
attribute ids. -/
structure DatomStore (registry : CodeRegistry) (items : OrdMap PrimaryKey Item) : Prop where
  keyed : ∀ key item, items.lookup key = some item → extractPkSk item = some key
  datoms : ∀ key item, items.lookup key = some item → key.sk.length = 11 →
    ∃ d : Datom, key = d.key ∧ item = eavtItem d ∧ registry.getAttrName d.attrId ≠ none

variable {registry : CodeRegistry} {items : OrdMap PrimaryKey Item}

theorem DatomStore.empty : DatomStore registry ∅ := by
  constructor <;> simp

theorem datomKey_eavtItem (d : Datom) : datomKey (eavtItem d) = some (d.attrId, d.txId, d.op) := by
  rw [datomKey, eavtItem_SK, Option.bind_some, avBytes, Option.bind_some, Datom.eavtSk,
    decodeEavtSk_buildEavtSk]

/-- An item shows as a datom what its key says. -/
theorem DatomStore.datomKey_eq (h : DatomStore registry items) {key : PrimaryKey} {item : Item}
    (hitem : items.lookup key = some item) : datomKey item = decodeEavtSk key.sk := by
  by_cases hlength : key.sk.length = 11
  · obtain ⟨d, rfl, rfl, _⟩ := h.datoms key item hitem hlength
    rw [datomKey_eavtItem, Datom.key, Datom.eavtSk, decodeEavtSk_buildEavtSk]
  · rw [decodeEavtSk_of_length hlength]
    have hkeyed := h.keyed key item hitem
    rw [extractPkSk, extractIndexKey, Option.map_map, Option.map_eq_some_iff] at hkeyed
    obtain ⟨pk, _, rfl⟩ := hkeyed
    rw [datomKey]
    cases hsk : item.lookup "SK" with
    | none => rfl
    | some v =>
      cases v with
      | b blob =>
        simp only [Function.comp, hsk] at hlength
        exact decodeEavtSk_of_length hlength
      | _ => rfl

theorem DatomStore.lookup_PK (h : DatomStore registry items) {key : PrimaryKey} {item : Item}
    (hitem : items.lookup key = some item) : item.lookup "PK" = some (.s key.pk) := by
  have hkeyed := h.keyed key item hitem
  rw [extractPkSk, extractIndexKey, Option.map_map, Option.map_eq_some_iff] at hkeyed
  obtain ⟨pk, hpk, rfl⟩ := hkeyed
  obtain ⟨v, hv, hstring⟩ := Option.bind_eq_some_iff.mp hpk
  cases v with
  | s text =>
    cases hstring
    exact hv
  | _ => cases hstring

end Store

/-! ### Readers by key -/

section Readers
variable {α : Type} (take : U16 × U64 × Bool → Item → Change α)

/-- What a reader takes from an entry of a partition, under a name. -/
def takenAt (pk name : String) (key : PrimaryKey) (item : Item) : Option (Change α) :=
  if key.pk = pk then
    (decodeEavtSk key.sk).bind fun k => if (take k item).name = name then some (take k item) else none
  else none

/-- The value that the entries chosen by `g` show. -/
def valueBy (g : PrimaryKey → Item → Option (Change α)) (items : OrdMap PrimaryKey Item) :
    Option α :=
  (latestOf ((items.collect g).entries.map Prod.snd)).map Prod.snd

/-- Readers see the store through what they collect. -/
theorem valueBy_congr {g g' : PrimaryKey → Item → Option (Change α)}
    {items items' : OrdMap PrimaryKey Item}
    (h : ∀ key, (items.lookup key).bind (g key) = (items'.lookup key).bind (g' key)) :
    valueBy g items = valueBy g' items' := by
  have hcollect : items.collect g = items'.collect g' := by
    apply OrdMap.ext
    intro key
    rw [OrdMap.lookup_collect, OrdMap.lookup_collect, h key]
  rw [valueBy, valueBy, hcollect]

/-- An entry that a reader takes under a name is a datom of the partition. -/
theorem DatomStore.takenAt_origin [F64Text] {registry : CodeRegistry}
    {items : OrdMap PrimaryKey Item} (h : DatomStore registry items) {pk name : String}
    {key : PrimaryKey} {item : Item} {c : Change α} (hitem : items.lookup key = some item)
    (htaken : takenAt take pk name key item = some c) :
    ∃ d : Datom, key = d.key ∧ item = eavtItem d ∧ registry.getAttrName d.attrId ≠ none ∧
      d.eavtPk = pk ∧ c.name = name ∧ c = take (d.attrId, d.txId, d.op) (eavtItem d) := by
  unfold takenAt at htaken
  split_ifs at htaken with hpk
  obtain ⟨k, hkey, htaken⟩ := Option.bind_eq_some_iff.mp htaken
  split_ifs at htaken with hname
  cases htaken
  obtain ⟨d, rfl, rfl, hregistered⟩ := h.datoms key item hitem (length_of_decodeEavtSk hkey)
  rw [Datom.key, Datom.eavtSk, decodeEavtSk_buildEavtSk] at hkey
  cases hkey
  exact ⟨d, rfl, rfl, hregistered, hpk, hname, rfl⟩

/-- A latest value comes from an assertion. -/
theorem exists_of_foldl_over {changes : List (Change α)} {latest : Option (U64 × α)} {v : U64 × α}
    (h : changes.foldl (fun v c => c.over v) latest = some v) :
    latest = some v ∨ ∃ c ∈ changes, c.op = true ∧ c.txId = v.1 ∧ c.val = some v.2 := by
  induction changes generalizing latest with
  | nil => exact Or.inl h
  | cons c rest ih =>
    rcases ih h with hover | ⟨c', hc', hassert⟩
    · have hover : supersede latest c.txId c.op c.val = some v := hover
      unfold supersede at hover
      split_ifs at hover with hnewer hop
      · cases hval : c.val with
        | none =>
          rw [hval] at hover
          exact Or.inl hover
        | some a =>
          rw [hval] at hover
          cases hover
          exact Or.inr ⟨c, List.mem_cons_self, hop, rfl, hval⟩
      · exact Or.inl hover
    · exact Or.inr ⟨c', List.mem_cons_of_mem _ hc', hassert⟩

variable [F64Text] {registry : CodeRegistry} {st : MbfPartitionStore} {tenantId entityId : String}
  {attrs : Option (List String)}

/-- The changes under a name in a list of entries, by key. -/
theorem DatomStore.changes_filter (h : DatomStore registry st.items) (name : String)
    (p : PrimaryKey → Bool) (pk : String) (hp : ∀ key, p key = true → key.pk = pk) :
    (changesOf take ((st.items.entries.filter fun e => p e.1).map Prod.snd)).filter
        (fun c => c.name = name) =
      st.items.entries.filterMap fun e => if p e.1 then takenAt take pk name e.1 e.2 else none := by
  have hlist : ∀ l : List (PrimaryKey × Item), (∀ e ∈ l, st.items.lookup e.1 = some e.2) →
      (changesOf take ((l.filter fun e => p e.1).map Prod.snd)).filter (fun c => c.name = name) =
        l.filterMap fun e => if p e.1 then takenAt take pk name e.1 e.2 else none := by
    intro l
    induction l with
    | nil =>
      intro _
      rfl
    | cons e rest ih =>
      intro hl
      have hrest := ih fun f hf => hl f (List.mem_cons_of_mem _ hf)
      have he := hl e List.mem_cons_self
      rw [changesOf] at hrest ⊢
      by_cases hpe : p e.1 = true
      · have hfilter : (e :: rest).filter (fun e => p e.1) = e :: rest.filter fun e => p e.1 := by
          simp [hpe]
        rw [hfilter, List.map_cons, List.filterMap_cons, List.filterMap_cons,
          if_pos hpe, takenAt, if_pos (hp e.1 hpe), h.datomKey_eq he]
        cases hkey : decodeEavtSk e.1.sk with
        | none => exact hrest
        | some k =>
          rw [Option.map_some, Option.bind_some, List.filter_cons]
          by_cases hname : (take k e.2).name = name
          · rw [if_pos (by simpa using hname)]
            rw [if_pos hname, hrest]
          · rw [if_neg (by simpa using hname)]
            rw [if_neg hname, hrest]
      · have hfilter : (e :: rest).filter (fun e => p e.1) = rest.filter fun e => p e.1 := by
          simp [hpe]
        rw [hfilter, List.filterMap_cons, if_neg hpe]
        exact hrest
  exact hlist _ fun e he => OrdMap.lookup_eq_some.mpr he

theorem DatomStore.filterExact (h : DatomStore registry st.items) (p : PrimaryKey → Bool)
    (pk : String) (hp : ∀ key, p key = true → key.pk = pk) :
    filterExactEntityPartition ((st.items.entries.filter fun e => p e.1).map Prod.snd) pk =
      (st.items.entries.filter fun e => p e.1).map Prod.snd := by
  apply List.filter_eq_self.mpr
  intro item hitem
  obtain ⟨e, he, rfl⟩ := List.mem_map.mp hitem
  obtain ⟨hmem, hpe⟩ := List.mem_filter.mp he
  simp [h.lookup_PK (OrdMap.lookup_eq_some.mpr hmem), hp e.1 hpe]

/-- What `pull` shows under a name, read off the keys. -/
theorem DatomStore.pull_lookup (h : DatomStore registry st.items) (name : String) :
    (pull registry st tenantId entityId attrs).lookup name =
      if asksFor attrs name then
        valueBy (takenAt (shownTake registry) (eavtPk tenantId entityId) name) st.items
      else none := by
  have hpk : ∀ key : PrimaryKey, decide (key.pk = eavtPk tenantId entityId) = true →
      key.pk = eavtPk tenantId entityId := fun key hp => of_decide_eq_true hp
  rw [Eav.pull_lookup, assembleCurrentState_lookup, entityItems, partitionItems_eq,
    h.filterExact _ _ hpk, h.changes_filter _ name _ _ hpk, valueBy,
    OrdMap.map_snd_entries_collect]
  split_ifs
  · congr 3
    funext e
    by_cases hkey : e.1.pk = eavtPk tenantId entityId
    · simp [takenAt, hkey]
    · simp [takenAt, hkey]
  · rfl

/-- What `pull_as_of` shows: the cap cuts keys, not transactions. -/
theorem DatomStore.pullAsOf_lookup (h : DatomStore registry st.items) (asOfTx : U64)
    (name : String) :
    (pullAsOf registry st tenantId entityId asOfTx attrs).lookup name =
      if asksFor attrs name then
        valueBy (fun key item => if key.sk ≤ eavtSkAsOf 0xFFFF asOfTx then
          takenAt (shownTake registry) (eavtPk tenantId entityId) name key item else none) st.items
      else none := by
  have hpk : ∀ key : PrimaryKey, decide (key.pk = eavtPk tenantId entityId ∧
      key.sk ≤ eavtSkAsOf 0xFFFF asOfTx) = true → key.pk = eavtPk tenantId entityId :=
    fun key hp => (of_decide_eq_true hp).1
  rw [pullAsOf, assembleCurrentState_lookup, partitionItemsUpTo_eq, h.filterExact _ _ hpk,
    h.changes_filter _ name _ _ hpk, valueBy, OrdMap.map_snd_entries_collect]
  split_ifs
  · congr 3
    funext e
    by_cases hkey : e.1.pk = eavtPk tenantId entityId
    · simp [takenAt, hkey]
    · simp [takenAt, hkey]
  · rfl

/-- What the writer takes for the active value under a name. -/
theorem DatomStore.active_lookup (h : DatomStore registry st.items) (name : String) :
    (getActiveAttributes registry st tenantId entityId).lookup name =
      valueBy (takenAt (activeTake registry) (eavtPk tenantId entityId) name) st.items := by
  have hpk : ∀ key : PrimaryKey, decide (key.pk = eavtPk tenantId entityId) = true →
      key.pk = eavtPk tenantId entityId := fun key hp => of_decide_eq_true hp
  rw [getActiveAttributes_lookup, partitionItems_eq, h.changes_filter _ name _ _ hpk, valueBy,
    OrdMap.map_snd_entries_collect]
  congr 3
  funext e
  by_cases hkey : e.1.pk = eavtPk tenantId entityId
  · simp [takenAt, hkey]
  · simp [takenAt, hkey]

/-- What is shown under a name comes from an entry of the partition. -/
theorem DatomStore.valueBy_origin (h : DatomStore registry st.items) {pk name : String} {v : α}
    (hv : valueBy (takenAt take pk name) st.items = some v) :
    ∃ d : Datom, st.items.lookup d.key = some (eavtItem d) ∧ registry.getAttrName d.attrId ≠ none ∧
      d.eavtPk = pk ∧ (take (d.attrId, d.txId, d.op) (eavtItem d)).name = name ∧
      (take (d.attrId, d.txId, d.op) (eavtItem d)).op = true ∧
      (take (d.attrId, d.txId, d.op) (eavtItem d)).val = some v := by
  obtain ⟨⟨txId, v⟩, hlatest, rfl⟩ := Option.map_eq_some_iff.mp hv
  rcases exists_of_foldl_over hlatest with hnone | ⟨c, hc, hop, _, hval⟩
  · cases hnone
  · obtain ⟨⟨key, c'⟩, hentry, rfl⟩ := List.mem_map.mp hc
    have hcollect := OrdMap.lookup_eq_some.mpr hentry
    rw [OrdMap.lookup_collect] at hcollect
    obtain ⟨item, hitem, htaken⟩ := Option.bind_eq_some_iff.mp hcollect
    obtain ⟨d, rfl, rfl, hregistered, hpk, hname, rfl⟩ := h.takenAt_origin _ hitem htaken
    exact ⟨d, hitem, hregistered, hpk, hname, hop, hval⟩

/-- An active attribute carries the id of an entry of the partition that asserts it. -/
theorem DatomStore.active_origin (h : DatomStore registry st.items) {name : String} {attrId : U16}
    {value : DatomValue}
    (hactive : (getActiveAttributes registry st tenantId entityId).lookup name =
      some (attrId, value)) :
    ∃ d : Datom, d.eavtPk = eavtPk tenantId entityId ∧ d.attrId = attrId ∧ d.op = true ∧
      activeName registry attrId = name ∧ st.items.lookup d.key = some (eavtItem d) ∧
      d.value.shown.getD .null = value ∧ registry.getAttrName attrId ≠ none := by
  rw [h.active_lookup] at hactive
  obtain ⟨d, hitem, hregistered, hpk, hname, hop, hval⟩ := h.valueBy_origin _ hactive
  cases hval
  exact ⟨d, hpk, rfl, hop, hname, hitem, by rw [extractDatomValue_eavtItem], hregistered⟩

/-- A name that a pull shows is that of a registered id. -/
theorem DatomStore.pull_registered (h : DatomStore registry st.items) {name : String}
    (hpull : (pull registry st tenantId entityId attrs).lookup name ≠ none) :
    ∃ attrId, registry.getAttrName attrId = some name := by
  obtain ⟨v, hv⟩ := Option.ne_none_iff_exists'.mp hpull
  rw [h.pull_lookup] at hv
  split_ifs at hv
  obtain ⟨d, _, hregistered, _, hname, _, _⟩ := h.valueBy_origin _ hv
  obtain ⟨other, hother⟩ := Option.ne_none_iff_exists'.mp hregistered
  refine ⟨d.attrId, ?_⟩
  have hshown : registry.shownName d.attrId = name := hname
  rw [← hshown, CodeRegistry.shownName, hother, Option.getD_some]

end Readers
end MetriEngine.Eav

import MetriEngine.Eav.ReadCache
import MetriEngine.Eav.Cells
import MetriEngine.Eav.TimeTravel

/-!
# Pulls with and without the cache

Whatever was pulled and warmed before, a `pull` is to answer what it reads when the cache is empty. A
warmed entry was collected from the attribute index; a `pull` takes it for enough as soon as each name of
its filter is a name of the entry, or the bare name of one.
-/
namespace MetriEngine.Eav
open Foundation Storage

/-! ### The attribute index beside the partition -/

/-- The partition of the attribute index for an attribute of a tenant. -/
def attrPartition (tenantId attrName : String) : String := "T#" ++ tenantId ++ "#A#" ++ attrName

/-- The entity that the warm-up takes a partition key for. -/
def warmedEntity (pk : String) : String := (Text.split pk '#').getLastD ""

/-- An entry of the log stands in the attribute index under the name of its id, for the tenant and the
entity of its partition. -/
def IndexedUnder (registry : CodeRegistry) (tenantId attrName : String) (e : PrimaryKey × Item) : Prop :=
  e.1.pk = eavtPk tenantId (warmedEntity e.1.pk) ∧
    ∃ k ∈ decodeEavtSk e.1.sk, registry.shownName k.1 = attrName ∧
      extractIndexKey e.2 "ap" "as" =
        some (attrPartition tenantId attrName, buildAevtSk (warmedEntity e.1.pk) k.2.1)

/-- What the attribute index holds of an entity under a name is what its partition holds under it, with
one id. -/
def IndexedAsShown (registry : CodeRegistry) (items : OrdMap PrimaryKey Item)
    (tenantId attrName : String) : Prop :=
  ∀ e ∈ items.entries,
    ((extractIndexKey e.2 "ap" "as").map Prod.fst = some (attrPartition tenantId attrName)) →
    IndexedUnder registry tenantId attrName e ∧
      ∀ f ∈ items.entries, f.1.pk = e.1.pk →
        (decodeEavtSk f.1.sk).map (fun k => registry.shownName k.1) = some attrName →
        IndexedUnder registry tenantId attrName f ∧
          (decodeEavtSk f.1.sk).map Prod.fst = (decodeEavtSk e.1.sk).map Prod.fst

instance (registry : CodeRegistry) (tenantId attrName : String) (e : PrimaryKey × Item) :
    Decidable (IndexedUnder registry tenantId attrName e) :=
  inferInstanceAs (Decidable (_ ∧ _))

instance (registry : CodeRegistry) (items : OrdMap PrimaryKey Item) (tenantId attrName : String) :
    Decidable (IndexedAsShown registry items tenantId attrName) :=
  inferInstanceAs (Decidable (∀ e ∈ items.entries, _))

/-- The entries of an entity stand in the attribute index in the order of their transactions. -/
theorem buildAevtSk_lt_iff {entityId : String} {txId txId' : U64} :
    buildAevtSk entityId txId < buildAevtSk entityId txId' ↔ txId < txId' := by
  have htx (t : U64) : t.val < 256 ^ 8 := by
    have := t.isLt
    norm_num
    omega
  rw [buildAevtSk, buildAevtSk, append_lt_append_iff rfl, beBytes_lt_iff (htx txId) (htx txId')]
  simp

theorem filterMap_filter_isSome {α β : Type} (f : α → Option β) (l : List α) :
    (l.filter fun a => (f a).isSome).filterMap f = l.filterMap f := by
  rw [List.filterMap_filter]
  apply List.filterMap_congr
  intro a _
  cases f a <;> simp

section Index
variable [F64Text] {registry : CodeRegistry} {st : MbfPartitionStore}

/-- The query of the warm-up finds the entries of the attribute, in the order of the index. -/
theorem warmupItems_hits (hidx : IndexExact st) (tenantId attrName : String) :
    ∃ hits : List Hit, hits.Pairwise Hit.Before ∧
      (∀ hit, hit ∈ hits ↔ st.items.lookup hit.key = some hit.item ∧
        extractIndexKey hit.item "ap" "as" = some (attrPartition tenantId attrName, hit.sort)) ∧
      warmupItems st tenantId attrName = hits.filterMap fun hit => warmupItem hit.item := by
  have hlte : (Text.contains "#ap = :ap" "<=" || Text.contains "#ap = :ap" "BETWEEN") = false := by
    decide
  have hbegins : Text.contains "#ap = :ap" "begins_with" = false := by decide
  have hbounds : Expresses (scanBounds "#ap = :ap"
      ((∅ : Item).insert ":ap" (.s (attrPartition tenantId attrName)))) (attrPartition tenantId attrName)
        .partition := by
    refine ⟨?_, hlte, hbegins, ?_⟩
    · simp [scanBounds, avString]
    · simp [scanBounds]
  obtain ⟨hits, hperm, hsorted, hmatched⟩ := matchedItems_exact .aevt hidx hbounds
  refine ⟨hits, hsorted, ?_, ?_⟩
  · intro hit
    rw [hperm.mem_iff, mem_fullScan]
    simp [MbfSecondaryIndex.ownKey, KeyCondition.Matches]
  · have hquery : st.query (some "GSI-AEVT") "#ap = :ap"
        ((∅ : Item).insert ":ap" (.s (attrPartition tenantId attrName))) true none =
          hits.map Hit.item := by
      rw [MbfPartitionStore.query, ← hmatched]
      rfl
    rw [warmupItems, ← attrPartition, hquery, List.filterMap_map]
    rfl

/-- What the warm-up makes of an entry of the log. -/
theorem DatomStore.warmupItem_eq (h : DatomStore registry st.items) {key : PrimaryKey} {item : Item}
    (hitem : st.items.lookup key = some item) :
    warmupItem item = (decodeEavtSk key.sk).map fun k =>
      ⟨warmedEntity key.pk, k.2.1, k.2.2, (extractDatomValue item).getD .null⟩ := by
  rw [warmupItem, h.lookup_PK hitem, h.datomKey_eq hitem]
  cases decodeEavtSk key.sk <;> rfl

omit [F64Text] in
/-- An entry of the index under a name that is indexed as it is shown. -/
theorem IndexedAsShown.of_hit {tenantId attrName : String}
    (h : IndexedAsShown registry st.items tenantId attrName) {hit : Hit}
    (hitem : st.items.lookup hit.key = some hit.item)
    (hindex : extractIndexKey hit.item "ap" "as" = some (attrPartition tenantId attrName, hit.sort)) :
    IndexedUnder registry tenantId attrName (hit.key, hit.item) ∧
      ∀ key item, st.items.lookup key = some item → key.pk = hit.key.pk →
        (decodeEavtSk key.sk).map (fun k => registry.shownName k.1) = some attrName →
          IndexedUnder registry tenantId attrName (key, item) ∧
            (decodeEavtSk key.sk).map Prod.fst = (decodeEavtSk hit.key.sk).map Prod.fst := by
  have hmem := OrdMap.lookup_eq_some.mp hitem
  obtain ⟨hunder, hothers⟩ := h _ hmem (by rw [hindex]; rfl)
  refine ⟨hunder, ?_⟩
  intro key item hkey hpk hname
  exact hothers _ (OrdMap.lookup_eq_some.mp hkey) hpk hname

/-- What a pull takes under a name from an entry of a partition is there where the entry is of the
partition and its id has the name. -/
theorem isSome_takenAt {pk name : String} {key : PrimaryKey} {item : Item} :
    (takenAt (shownTake registry) pk name key item).isSome = true ↔
      key.pk = pk ∧ (decodeEavtSk key.sk).map (fun k => registry.shownName k.1) = some name := by
  unfold takenAt
  cases decodeEavtSk key.sk with
  | none => simp
  | some k =>
    by_cases hpk : key.pk = pk
    · by_cases hname : registry.shownName k.1 = name <;> simp [hpk, hname, shownTake]
    · simp [hpk]

/-- Once the index holds an entry of an entity under a name, it holds what the partition holds under it,
in the same order. -/
theorem hits_eq_entries (h : DatomStore registry st.items) {tenantId attrName pk : String}
    (hindexed : IndexedAsShown registry st.items tenantId attrName) {hits : List Hit}
    (hsorted : hits.Pairwise Hit.Before)
    (hmem : ∀ hit, hit ∈ hits ↔ st.items.lookup hit.key = some hit.item ∧
      extractIndexKey hit.item "ap" "as" = some (attrPartition tenantId attrName, hit.sort))
    {first : Hit} (hfirst : first ∈ hits) (hpk : first.key.pk = pk) :
    (hits.map fun hit => (hit.key, hit.item)).filter
        (fun e => (takenAt (shownTake registry) pk attrName e.1 e.2).isSome) =
      st.items.entries.filter fun e => (takenAt (shownTake registry) pk attrName e.1 e.2).isSome := by
  let taken (e : PrimaryKey × Item) : Bool := (takenAt (shownTake registry) pk attrName e.1 e.2).isSome
  have hunder {key : PrimaryKey} {item : Item} (hitem : st.items.lookup key = some item)
      (htaken : taken (key, item) = true) : IndexedUnder registry tenantId attrName (key, item) ∧
        (decodeEavtSk key.sk).map Prod.fst = (decodeEavtSk first.key.sk).map Prod.fst := by
    obtain ⟨hlookup, hindex⟩ := (hmem first).mp hfirst
    obtain ⟨hkey, hname⟩ := isSome_takenAt.mp htaken
    exact (hindexed.of_hit hlookup hindex).2 key item hitem (hkey.trans hpk.symm) hname
  have hleft : ((hits.map fun hit => (hit.key, hit.item)).filter taken).Pairwise
      fun a b => a.1 < b.1 := by
    rw [List.filter_map, List.pairwise_map]
    apply List.Pairwise.imp_of_mem _ (hsorted.filter _)
    intro a b ha hb hbefore
    obtain ⟨hamem, hataken⟩ := List.mem_filter.mp ha
    obtain ⟨hbmem, hbtaken⟩ := List.mem_filter.mp hb
    obtain ⟨haitem, haindex⟩ := (hmem a).mp hamem
    obtain ⟨hbitem, hbindex⟩ := (hmem b).mp hbmem
    rcases hbefore with hsort | ⟨_, hkey⟩
    · obtain ⟨⟨_, ka, hka, _, haown⟩, haid⟩ := hunder haitem hataken
      obtain ⟨⟨_, kb, hkb, _, hbown⟩, hbid⟩ := hunder hbitem hbtaken
      have hpks : a.key.pk = b.key.pk :=
        (isSome_takenAt.mp hataken).1.trans (isSome_takenAt.mp hbtaken).1.symm
      have hids : ka.1 = kb.1 := by
        have hmap := haid.trans hbid.symm
        rw [show decodeEavtSk a.key.sk = some ka from hka, show decodeEavtSk b.key.sk = some kb from hkb]
          at hmap
        exact Option.some.inj hmap
      have hasort : a.sort = buildAevtSk (warmedEntity a.key.pk) ka.2.1 :=
        (Prod.mk.inj (Option.some.inj (haindex.symm.trans haown))).2
      have hbsort : b.sort = buildAevtSk (warmedEntity b.key.pk) kb.2.1 :=
        (Prod.mk.inj (Option.some.inj (hbindex.symm.trans hbown))).2
      rw [hasort, hbsort, hpks, buildAevtSk_lt_iff] at hsort
      apply PrimaryKey.lt_iff.mpr
      apply Or.inr
      refine ⟨hpks, ?_⟩
      rw [h.sk_of_decode haitem hka, h.sk_of_decode hbitem hkb, buildEavtSk_lt_iff]
      exact Or.inr ⟨hids, Or.inl hsort⟩
    · exact hkey
  have hright : (st.items.entries.filter taken).Pairwise fun a b => a.1 < b.1 := st.items.sorted.filter _
  have hnodup {l : List (PrimaryKey × Item)} (hl : l.Pairwise fun a b => a.1 < b.1) : l.Nodup :=
    hl.imp fun hlt heq => hlt.ne (congrArg Prod.fst heq)
  have hperm : ((hits.map fun hit => (hit.key, hit.item)).filter taken).Perm
      (st.items.entries.filter taken) := by
    apply (List.perm_ext_iff_of_nodup (hnodup hleft) (hnodup hright)).mpr
    rintro ⟨key, item⟩
    rw [List.mem_filter, List.mem_filter, and_congr_left_iff]
    intro htaken
    rw [List.mem_map, ← OrdMap.lookup_eq_some]
    constructor
    · rintro ⟨hit, hhit, heq⟩
      cases heq
      exact ((hmem hit).mp hhit).1
    · intro hitem
      obtain ⟨⟨_, k, _, _, hown⟩, _⟩ := hunder hitem htaken
      exact ⟨⟨_, key, item⟩, (hmem _).mpr ⟨hitem, hown⟩, rfl⟩
  exact hperm.eq_of_pairwise (fun a b _ _ hab hba => absurd hab hba.asymm) hleft hright

/-- What an entry of the index tells the warm-up is what the same entry of the partition tells a pull. -/
theorem warmed_change [F64Text.Total] (h : DatomStore registry st.items) {tenantId attrName entityId : String}
    {key : PrimaryKey} {item : Item} (hitem : st.items.lookup key = some item)
    (hunder : IndexedUnder registry tenantId attrName (key, item)) :
    ((warmupItem item).filter fun w => w.entityId = entityId).map
        (fun w => (⟨attrName, w.txId, w.op, some w.value⟩ : Change DatomValue)) =
      takenAt (shownTake registry) (eavtPk tenantId entityId) attrName key item := by
  obtain ⟨hpk, k, hk, hname, _⟩ := hunder
  have hdecode : decodeEavtSk key.sk = some k := hk
  have hentity : warmedEntity key.pk = entityId ↔ key.pk = eavtPk tenantId entityId := by
    rw [show key.pk = eavtPk tenantId (warmedEntity key.pk) from hpk, eavtPk_inj, ← hpk]
  obtain ⟨d, _, rfl, _⟩ := h.datoms key item hitem (length_of_decodeEavtSk hdecode)
  obtain ⟨v, hv⟩ := Option.ne_none_iff_exists'.mp d.value.shown_ne_none
  rw [h.warmupItem_eq hitem, takenAt, hdecode, Option.map_some, Option.filter_some]
  by_cases hsame : key.pk = eavtPk tenantId entityId
  · rw [if_pos (decide_eq_true (hentity.mpr hsame)), if_pos hsame]
    simp [hname, shownTake, hv]
  · have hother : ¬ warmedEntity key.pk = entityId := fun heq => hsame (hentity.mp heq)
    simp [hother, hsame]

/-- Under a name that is indexed as it is shown, the warm-up collects nothing, or what a pull shows. -/
theorem warmValue_eq [F64Text.Total] (h : DatomStore registry st.items) (hidx : IndexExact st)
    {tenantId attrName : String} (hindexed : IndexedAsShown registry st.items tenantId attrName)
    (entityId : String) : warmValue st tenantId entityId attrName = none ∨
      warmValue st tenantId entityId attrName =
        (pull registry st tenantId entityId none).lookup attrName := by
  obtain ⟨hits, hsorted, hmem, hitems⟩ := warmupItems_hits hidx tenantId attrName
  let taken (e : PrimaryKey × Item) := takenAt (shownTake registry) (eavtPk tenantId entityId) attrName e.1 e.2
  have hchanges : ((warmupItems st tenantId attrName).filter fun w => w.entityId = entityId).map
      (fun w => (⟨attrName, w.txId, w.op, some w.value⟩ : Change DatomValue)) =
        (hits.map fun hit => (hit.key, hit.item)).filterMap taken := by
    rw [hitems, List.filter_filterMap, List.map_filterMap, List.filterMap_map]
    apply List.filterMap_congr
    intro hit hhit
    obtain ⟨hlookup, hindex⟩ := (hmem hit).mp hhit
    exact warmed_change h hlookup (hindexed.of_hit hlookup hindex).1
  have hwarm : warmValue st tenantId entityId attrName =
      (latestOf ((hits.map fun hit => (hit.key, hit.item)).filterMap taken)).map Prod.snd := by
    rw [← hchanges, latestOf, List.foldl_map]
    rfl
  by_cases hfirst : ∃ hit ∈ hits, hit.key.pk = eavtPk tenantId entityId
  · obtain ⟨first, hfirst, hpk⟩ := hfirst
    apply Or.inr
    rw [hwarm, h.pull_lookup, show asksFor none attrName = true from rfl, if_pos rfl, valueBy,
      OrdMap.map_snd_entries_collect, ← filterMap_filter_isSome taken,
      hits_eq_entries h hindexed hsorted hmem hfirst hpk, filterMap_filter_isSome taken]
  · apply Or.inl
    have hnone : (hits.map fun hit => (hit.key, hit.item)).filterMap taken = [] := by
      apply List.filterMap_eq_nil_iff.mpr
      intro e he
      obtain ⟨hit, hhit, rfl⟩ := List.mem_map.mp he
      by_contra hsome
      exact hfirst ⟨hit, hhit, (isSome_takenAt.mp (Option.isSome_iff_ne_none.mpr hsome)).1⟩
    rw [hwarm, hnone]
    rfl

end Index

/-! ### Pulls and warm-ups -/

section Calls
variable [F64Text] (registry : CodeRegistry) (st : MbfPartitionStore)

/-- `EavReader::pull`: the answer, and the cache after it. -/
def pullThrough (cache : EavCache) (now : ℕ) (tenantId entityId : String)
    (attrs : Option (List String)) (keys : List String) : EntityMap × EavCache :=
  match cache.answer now (eavtPk tenantId entityId) attrs with
  | some answer => (answer, cache)
  | none =>
    match readEntity registry st tenantId entityId with
    -- an empty partition is not cached
    | none => (∅, cache)
    | some map => (map.filterKeys (asksFor attrs),
        cache.insertEntry keys (eavtPk tenantId entityId) ⟨true, map, now⟩)

def warmCacheForTenant (cache : EavCache) (now : ℕ) (tenantId : String) (entityType : Option String)
    (specificAttrs : Option (List String)) (keys : String → List String) : EavCache :=
  (warmStates st tenantId (warmTargets registry entityType specificAttrs)).entries.foldl
    (fun cache e => cache.extendEntry now (keys e.1) e.1 e.2) cache

/-- The cache of an instance, and its clock. -/
structure CacheState where
  cache : EavCache
  now : ℕ

/-- What an instance does while nothing is written. -/
inductive CacheUse
  | pull (tenantId entityId : String) (attrs : Option (List String)) (keys : List String)
  | warm (tenantId : String) (entityType : Option String) (specificAttrs : Option (List String))
      (keys : String → List String)
  | evict (tenantId entityId : String)
  | tick (elapsed : ℕ)

namespace CacheState

def start (now : ℕ) : CacheState := ⟨∅, now⟩

def step (s : CacheState) : CacheUse → Option CacheState
  | .pull tenantId entityId attrs keys => some { s with
      cache := (pullThrough registry st s.cache s.now tenantId entityId attrs keys).2 }
  | .warm tenantId entityType specificAttrs keys => some { s with
      cache := warmCacheForTenant registry st s.cache s.now tenantId entityType specificAttrs keys }
  | .evict tenantId entityId => some { s with cache := s.cache.erase (eavtPk tenantId entityId) }
  | .tick elapsed => some { s with now := s.now + elapsed }

/-- A warm-up collects attributes that are indexed as they are shown. -/
def Indexed (_ : CacheState) : CacheUse → Prop
  | .warm tenantId entityType specificAttrs _ => ∀ attrName ∈ warmTargets registry entityType specificAttrs,
      IndexedAsShown registry st.items tenantId attrName
  | _ => True

instance (s : CacheState) (use : CacheUse) : Decidable (Indexed registry st s use) := by
  cases use <;> unfold Indexed <;> infer_instance

/-- The entries hold nothing but what a pull reads, and all of it where they are complete. -/
def Faithful (cache : EavCache) : Prop :=
  ∀ tenantId entityId entry, cache.lookup (eavtPk tenantId entityId) = some entry →
    (∀ name value, entry.map.lookup name = some value →
      (pull registry st tenantId entityId none).lookup name = some value) ∧
    (entry.isComplete = true → ∀ name,
      entry.map.lookup name = (pull registry st tenantId entityId none).lookup name)

/-- A partial entry that answers has every attribute of the entity that is asked for. -/
def PartialSuffices (s : CacheState) (tenantId entityId : String) (attrs : Option (List String)) : Prop :=
  ∀ entry ∈ s.cache.lookup (eavtPk tenantId entityId), entry.isSufficient s.now attrs = true →
    entry.isComplete = false → ∀ name, asksFor attrs name = true →
      (pull registry st tenantId entityId none).contains name = true → entry.map.contains name = true

end CacheState

/-! ### What the calls keep -/

variable {registry st}

/-- A pull reads the partition of its key. -/
theorem pull_congr {tenantId entityId tenantId' entityId' : String} (attrs : Option (List String))
    (h : eavtPk tenantId entityId = eavtPk tenantId' entityId') :
    pull registry st tenantId entityId attrs = pull registry st tenantId' entityId' attrs := by
  rw [pull, pull, readEntity, readEntity, entityItems, entityItems, h]

/-- A filter hides what it does not ask for. -/
theorem pull_lookup_if (tenantId entityId : String) (attrs : Option (List String)) (name : String) :
    (pull registry st tenantId entityId attrs).lookup name =
      if asksFor attrs name then (pull registry st tenantId entityId none).lookup name else none := by
  rw [pull, pull, OrdMap.lookup_filterKeys, OrdMap.lookup_filterKeys]
  rfl

theorem pullThrough_empty (now : ℕ) (tenantId entityId : String) (attrs : Option (List String))
    (keys : List String) : (pullThrough registry st ∅ now tenantId entityId attrs keys).1 =
      pull registry st tenantId entityId attrs := by
  have hnone : EavCache.answer ∅ now (eavtPk tenantId entityId) attrs = none := rfl
  rw [pullThrough, hnone, pull]
  cases readEntity registry st tenantId entityId <;> rfl

/-- The warm-up collects under the partition keys of its tenant. -/
theorem warmStates_key {tenantId : String} {targets : List String} {pk : String} {map : EntityMap}
    (h : (warmStates st tenantId targets).lookup pk = some map) :
    ∃ entityId, pk = eavtPk tenantId entityId := by
  let own (states : EntityStates) : Prop :=
    ∀ pk, states.lookup pk ≠ none → ∃ entityId, pk = eavtPk tenantId entityId
  have htake (attrName : String) (states : EntityStates) (hown : own states) (w : WarmupItem) :
      own (warmTake tenantId attrName states w) := by
    intro pk hpk
    rw [warmTake, OrdMap.lookup_insert] at hpk
    split_ifs at hpk with heq
    · exact ⟨w.entityId, heq⟩
    · exact hown pk hpk
  have hfold : own (targets.dedup.foldl (fun states attrName =>
      (warmupItems st tenantId attrName).foldl (warmTake tenantId attrName) states) ∅) := by
    apply List.foldlRecOn
    · intro pk hpk
      exact absurd (OrdMap.lookup_empty pk) hpk
    · intro states hown attrName _
      apply List.foldlRecOn _ _ hown
      intro states hown w _
      exact htake attrName states hown w
  rw [warmStates, OrdMap.lookup_mapValues] at h
  obtain ⟨latest, hlatest, _⟩ := Option.map_eq_some_iff.mp h
  exact hfold pk (by rw [hlatest]; exact Option.some_ne_none _)

namespace CacheState
variable {s s' : CacheState} {cache : EavCache}

theorem Faithful.empty : Faithful registry st ∅ := by
  intro tenantId entityId entry hentry
  cases hentry

theorem Faithful.insertEntry (h : Faithful registry st cache) {tenantId entityId : String}
    {map : EntityMap} (hread : readEntity registry st tenantId entityId = some map) (keys : List String)
    (now : ℕ) : Faithful registry st
      (cache.insertEntry keys (eavtPk tenantId entityId) ⟨true, map, now⟩) := by
  intro tenantId' entityId' entry hentry
  rcases EavCache.lookup_insertEntry hentry with ⟨hpk, rfl⟩ | ⟨_, hold⟩
  · have hmap (name : String) :
        map.lookup name = (pull registry st tenantId' entityId' none).lookup name := by
      rw [pull_congr none hpk, pull, hread, Option.getD_some, OrdMap.lookup_filterKeys]
      rfl
    exact ⟨fun name value hvalue => (hmap name).symm.trans hvalue, fun _ => hmap⟩
  · exact h tenantId' entityId' entry hold

theorem Faithful.extendEntry (h : Faithful registry st cache) {tenantId entityId : String}
    {finalMap : EntityMap} (hmap : ∀ name value, finalMap.lookup name = some value →
      (pull registry st tenantId entityId none).lookup name = some value) (keys : List String)
    (now : ℕ) : Faithful registry st (cache.extendEntry now keys (eavtPk tenantId entityId) finalMap) := by
  intro tenantId' entityId' entry hentry
  rcases EavCache.lookup_extendEntry hentry with ⟨_, hold⟩ | ⟨hpk, hextended⟩
  · exact h tenantId' entityId' entry hold
  · rw [pull_congr none hpk]
    rcases hextended with ⟨old, hold, hcomplete, hentryMap⟩ | ⟨hpart, hentryMap⟩
    · obtain ⟨hvalues, hall⟩ := h tenantId' entityId' old hold
      rw [pull_congr none hpk] at hvalues hall
      constructor
      · intro name value hvalue
        rw [hentryMap] at hvalue
        rcases Option.or_eq_some_iff.mp hvalue with hnew | ⟨_, hvalue⟩
        · exact hmap name value hnew
        · exact hvalues name value hvalue
      · intro hentryComplete name
        rw [hentryMap, ← hall (hcomplete.symm.trans hentryComplete) name]
        cases hnew : finalMap.lookup name with
        | none => rfl
        | some value =>
          rw [hall (hcomplete.symm.trans hentryComplete) name, hmap name value hnew]
          rfl
    · constructor
      · intro name value hvalue
        rw [hentryMap] at hvalue
        exact hmap name value hvalue
      · intro hcomplete
        rw [hpart] at hcomplete
        cases hcomplete

theorem Faithful.warm [F64Text.Total] (hstore : DatomStore registry st.items) (hidx : IndexExact st)
    (h : Faithful registry st cache) (now : ℕ) (tenantId : String) (entityType : Option String)
    (specificAttrs : Option (List String)) (keys : String → List String)
    (hindexed : ∀ attrName ∈ warmTargets registry entityType specificAttrs,
      IndexedAsShown registry st.items tenantId attrName) : Faithful registry st
        (warmCacheForTenant registry st cache now tenantId entityType specificAttrs keys) := by
  rw [warmCacheForTenant]
  apply List.foldlRecOn _ _ h
  intro cache hcache e he
  have hlookup := OrdMap.lookup_eq_some.mpr he
  obtain ⟨entityId, hpk⟩ := warmStates_key hlookup
  rw [hpk]
  apply hcache.extendEntry
  intro name value hvalue
  have hread := warmStates_value st tenantId entityId name (warmTargets registry entityType specificAttrs)
  rw [← hpk, hlookup, Option.bind_some, hvalue] at hread
  split_ifs at hread with htarget
  rcases warmValue_eq hstore hidx (hindexed name htarget) entityId with hnone | hshown
  · rw [hnone] at hread
    cases hread
  · rw [← hshown, ← hread]

theorem Faithful.step [F64Text.Total] (hstore : DatomStore registry st.items) (hidx : IndexExact st)
    (h : Faithful registry st s.cache) {use : CacheUse} (hindexed : Indexed registry st s use)
    (hstep : s.step registry st use = some s') : Faithful registry st s'.cache := by
  cases use with
  | pull tenantId entityId attrs keys =>
    cases hstep
    dsimp only
    rw [pullThrough]
    cases s.cache.answer s.now (eavtPk tenantId entityId) attrs with
    | some answer => exact h
    | none =>
      cases hread : readEntity registry st tenantId entityId with
      | none => exact h
      | some map => exact h.insertEntry hread keys s.now
  | warm tenantId entityType specificAttrs keys =>
    rw [CacheState.step, Option.some.injEq] at hstep
    rw [← hstep]
    dsimp only
    exact h.warm hstore hidx s.now tenantId entityType specificAttrs keys hindexed
  | evict tenantId entityId =>
    cases hstep
    intro tenantId' entityId' entry hentry
    rw [OrdMap.lookup_erase] at hentry
    split_ifs at hentry
    exact h tenantId' entityId' entry hentry
  | tick elapsed =>
    cases hstep
    exact h

/-- From a faithful cache a pull answers what it reads without one, just where a partial entry that
answers has all that is asked for. -/
theorem Faithful.pull_eq_iff (h : Faithful registry st s.cache) (tenantId entityId : String)
    (attrs : Option (List String)) (keys : List String) :
    (pullThrough registry st s.cache s.now tenantId entityId attrs keys).1 =
        pull registry st tenantId entityId attrs ↔
      PartialSuffices registry st s tenantId entityId attrs := by
  rw [pullThrough]
  cases hanswer : s.cache.answer s.now (eavtPk tenantId entityId) attrs with
  | none =>
    apply iff_of_true
    · have hempty : (pullThrough registry st ∅ s.now tenantId entityId attrs keys).1 =
          pull registry st tenantId entityId attrs := pullThrough_empty s.now tenantId entityId attrs keys
      have hnone : EavCache.answer ∅ s.now (eavtPk tenantId entityId) attrs = none := rfl
      rw [pullThrough, hnone] at hempty
      rw [← hempty]
      cases readEntity registry st tenantId entityId <;> rfl
    · intro entry hentry hsufficient
      rw [EavCache.answer, show s.cache.lookup (eavtPk tenantId entityId) = some entry from hentry,
        Option.bind_some, if_pos hsufficient] at hanswer
      cases hanswer
  | some answer =>
    obtain ⟨entry, hentry, hif⟩ := Option.bind_eq_some_iff.mp hanswer
    split_ifs at hif with hsufficient
    rw [← Option.some.inj hif]
    obtain ⟨hvalues, hcomplete⟩ := h tenantId entityId entry hentry
    constructor
    · intro heq entry' hentry' _ _ name hasks hcontains
      obtain rfl : entry = entry' := Option.some.inj (hentry.symm.trans hentry')
      obtain ⟨value, hvalue⟩ := OrdMap.contains_iff.mp hcontains
      have hname := congrArg (fun map => map.lookup name) heq
      dsimp only at hname
      rw [OrdMap.lookup_filterKeys, if_pos hasks, pull_lookup_if, if_pos hasks, hvalue] at hname
      exact OrdMap.contains_iff.mpr ⟨value, hname⟩
    · intro hsuffices
      apply OrdMap.ext
      intro name
      rw [OrdMap.lookup_filterKeys, pull_lookup_if]
      split_ifs with hasks
      · cases hpart : entry.isComplete with
        | true => exact hcomplete hpart name
        | false =>
          cases hshown : (pull registry st tenantId entityId none).lookup name with
          | none =>
            by_contra hsome
            obtain ⟨value, hvalue⟩ := Option.ne_none_iff_exists'.mp hsome
            rw [hvalues name value hvalue] at hshown
            cases hshown
          | some value =>
            have hheld := hsuffices entry hentry hsufficient hpart name hasks
              (OrdMap.contains_iff.mpr ⟨value, hshown⟩)
            obtain ⟨held, hheld⟩ := OrdMap.contains_iff.mp hheld
            rw [hheld, ← hshown, hvalues name held hheld]
      · rfl

/-- The attributes that one name of a filter stands for. -/
def Names (attr name : String) : Prop := name = attr ∨ bareName name = attr

/-- Where each name of the filter stands for one attribute of the entity at most, a partial entry that
answers has all that is asked for. -/
theorem Faithful.partialSuffices_of_unambiguous (h : Faithful registry st s.cache) {tenantId entityId : String}
    {attrs : Option (List String)} (hone : ∀ filter ∈ attrs, ∀ attr ∈ filter, ∀ name name',
      (pull registry st tenantId entityId none).contains name = true →
      (pull registry st tenantId entityId none).contains name' = true → Names attr name → Names attr name' →
        name = name') : PartialSuffices registry st s tenantId entityId attrs := by
  intro entry hentry hsufficient hpart name hasks hcontains
  simp only [CacheEntry.isSufficient] at hsufficient
  split_ifs at hsufficient
  rw [hpart, Bool.false_or] at hsufficient
  cases attrs with
  | none => cases hsufficient
  | some filter =>
    have hnamed : ∃ attr ∈ filter, Names attr name := by
      have hasks : (decide (name ∈ filter) || decide (bareName name ∈ filter)) = true := hasks
      rw [Bool.or_eq_true, decide_eq_true_eq, decide_eq_true_eq] at hasks
      rcases hasks with hname | hbare
      · exact ⟨name, hname, Or.inl rfl⟩
      · exact ⟨bareName name, hbare, Or.inr rfl⟩
    obtain ⟨attr, hattr, hnamed⟩ := hnamed
    have hheld := List.all_eq_true.mp hsufficient attr hattr
    have hother : ∃ other, entry.map.contains other = true ∧ Names attr other := by
      rw [Bool.or_eq_true, List.any_eq_true] at hheld
      rcases hheld with hheld | ⟨⟨other, value⟩, he, hbare⟩
      · exact ⟨attr, hheld, Or.inl rfl⟩
      · exact ⟨other, OrdMap.contains_iff.mpr ⟨value, OrdMap.lookup_eq_some.mpr he⟩,
          Or.inr (of_decide_eq_true hbare)⟩
    obtain ⟨other, hother, hotherNamed⟩ := hother
    obtain ⟨value, hvalue⟩ := OrdMap.contains_iff.mp hother
    have hshown := (h tenantId entityId entry hentry).1 other value hvalue
    rw [hone filter rfl attr hattr name other hcontains (OrdMap.contains_iff.mpr ⟨value, hshown⟩) hnamed
      hotherNamed]
    exact hother

end CacheState
end Calls

/-! ### Every history of pulls and warm-ups -/

/-- A call that succeeds commits one batch. -/
theorem transact_commits [F64Text] [Derived] [KeyHash] {registry : CodeRegistry} {table : String}
    {st st' : MbfPartitionStore} {call : TransactCall} {result : TransactResult}
    (h : transact registry table st call = .ok (st', result)) :
    ∃ batch touched, st.transactWrite batch = .ok (st', touched) := by
  unfold transact at h
  cases hplan : planTransact registry table call (readActive registry st call) with
  | error e =>
    rw [hplan] at h
    cases h
  | ok plan =>
    rw [hplan] at h
    cases hwrite : st.transactWrite plan.batch with
    | error e =>
      simp only [bind, Except.bind, hwrite] at h
      cases h
    | ok r =>
      simp only [bind, Except.bind, hwrite] at h
      cases h
      exact ⟨plan.batch, r.2, hwrite⟩

theorem EavHistory.indexExact_of_run [F64Text] [Derived] [KeyHash] {registry : CodeRegistry} {table : String}
    {w : EavHistory} (hrun : Run (EavHistory.step registry table) EavHistory.Successive EavHistory.start w) :
    IndexExact w.store := by
  apply hrun.invariant (I := fun w => IndexExact w.store) _ IndexExact.empty
  intro w call w' hidx _ hstep
  rw [EavHistory.step] at hstep
  cases hcall : transact registry table w.store call with
  | error e =>
    rw [hcall] at hstep
    cases hstep
    exact hidx
  | ok r =>
    rw [hcall] at hstep
    cases hstep
    obtain ⟨batch, touched, hwrite⟩ := transact_commits hcall
    exact hidx.transactWrite hwrite

section Transparency
variable [F64Text] [F64Text.Total] [Derived] [KeyHash] {registry : CodeRegistry} {table : String}

/-- After any pulls and warm-ups of attributes that are indexed as they are shown, a pull answers what it
would answer with an empty cache just where a partial entry that answers has every attribute of the entity
that is asked for; so it does where each name of its filter stands for one attribute at most. -/
theorem cached_pull_eq_iff {models : List EntityModel} (hbuild : CodeRegistry.build models = .ok registry)
    {w : EavHistory}
    (hrun : Run (EavHistory.step registry table) EavHistory.Successive EavHistory.start w) {now : ℕ}
    {s : CacheState} (huses : Run (CacheState.step registry w.store) (CacheState.Indexed registry w.store)
      (CacheState.start now) s) (tenantId entityId : String) (attrs : Option (List String))
    (keys : List String) :
    let cached := (pullThrough registry w.store s.cache s.now tenantId entityId attrs keys).1
    let uncached := (pullThrough registry w.store ∅ s.now tenantId entityId attrs keys).1
    (cached = uncached ↔ s.PartialSuffices registry w.store tenantId entityId attrs) ∧
    ((∀ filter ∈ attrs, ∀ attr ∈ filter, ∀ name name',
      uncached.contains name = true → uncached.contains name' = true →
        CacheState.Names attr name → CacheState.Names attr name' → name = name') → cached = uncached) := by
  intro cached uncached
  have hstore := (EavHistory.inv_of_run (CodeRegistry.build_sound hbuild) hrun).datoms
  have hidx := EavHistory.indexExact_of_run hrun
  have hfaithful : CacheState.Faithful registry w.store s.cache :=
    huses.invariant (I := fun s => CacheState.Faithful registry w.store s.cache)
      (fun _ _ _ h hg hs => h.step hstore hidx hg hs) CacheState.Faithful.empty
  have huncached : uncached = pull registry w.store tenantId entityId attrs :=
    pullThrough_empty s.now tenantId entityId attrs keys
  have hiff : cached = uncached ↔ s.PartialSuffices registry w.store tenantId entityId attrs := by
    rw [huncached]
    exact hfaithful.pull_eq_iff tenantId entityId attrs keys
  refine ⟨hiff, ?_⟩
  intro hone
  apply hiff.mpr
  apply hfaithful.partialSuffices_of_unambiguous
  intro filter hfilter attr hattr name name' hname hname' hnamed hnamed'
  have hasked {name : String} (hnamed : CacheState.Names attr name)
      (hname : (pull registry w.store tenantId entityId none).contains name = true) :
      uncached.contains name = true := by
    have hasks : asksFor attrs name = true := by
      rw [show attrs = some filter from hfilter, asksFor, Option.all_some, Bool.or_eq_true,
        decide_eq_true_eq, decide_eq_true_eq]
      rcases hnamed with rfl | rfl
      · exact Or.inl hattr
      · exact Or.inr hattr
    obtain ⟨value, hvalue⟩ := OrdMap.contains_iff.mp hname
    apply OrdMap.contains_iff.mpr
    refine ⟨value, ?_⟩
    rw [huncached, pull_lookup_if, if_pos hasks, hvalue]
  exact hone filter hfilter attr hattr name name' (hasked hnamed hname) (hasked hnamed' hname') hnamed hnamed'

end Transparency
/-! ### A note and a label -/

abbrev noteUse (st : MbfPartitionStore) : CacheState → CacheUse → Option CacheState :=
  @CacheState.step bitsText noteRegistry st

/-- A warmed note answers for its title what the storage holds. -/
theorem warmed_note_answers_its_title :
    ∃ (w : EavHistory) (s : CacheState), Run noteStep EavHistory.Successive EavHistory.start w ∧
      Run (noteUse w.store) (CacheState.Indexed noteRegistry w.store) (CacheState.start 0) s ∧
      (s.cache.lookup (eavtPk "t" "e")).isSome = true ∧
      (@pullThrough bitsText noteRegistry w.store s.cache s.now "t" "e" (some ["title"]) []).1 =
        (@pullThrough bitsText noteRegistry w.store ∅ s.now "t" "e" (some ["title"]) []).1 := by
  have hexec : (exec noteStep EavHistory.Successive EavHistory.start [noteCall .create "e" "a" 1]).any
      (fun w => (exec (noteUse w.store) (CacheState.Indexed noteRegistry w.store) (CacheState.start 0)
        [.warm "t" (some "note") none fun _ => []]).any fun s =>
          decide ((@pullThrough bitsText noteRegistry w.store ∅ s.now "t" "e" (some ["title"]) []).1.entries.map
            Prod.fst = ["title"]) && (s.cache.lookup (eavtPk "t" "e")).isSome) = true := by
    decide +kernel
  obtain ⟨w, hrun, hw⟩ := exists_run_of_exec hexec
  obtain ⟨s, huses, hs⟩ := exists_run_of_exec hw
  rw [Bool.and_eq_true, decide_eq_true_eq] at hs
  obtain ⟨htitle, hcached⟩ := hs
  refine ⟨w, s, hrun, huses, hcached, ?_⟩
  apply (@cached_pull_eq_iff bitsText bitsText_total plainDerived plainHash noteRegistry "metri" [noteModel]
    CodeRegistry.build_note w hrun 0 s huses "t" "e" (some ["title"]) []).2
  have honly {name : String} (hname : (@pullThrough bitsText noteRegistry w.store ∅ s.now "t" "e"
      (some ["title"]) []).1.contains name = true) : name = "title" := by
    obtain ⟨value, hvalue⟩ := OrdMap.contains_iff.mp hname
    have hmem := List.mem_map_of_mem (f := Prod.fst) (OrdMap.lookup_eq_some.mp hvalue)
    rw [htitle] at hmem
    exact List.mem_singleton.mp hmem
  intro filter _ attr _ name name' hname hname' _ _
  rw [honly hname, honly hname']

def labelModel : EntityModel where
  entity := "label"
  attributes := [{ name := "type" }]

def labelRegistry : CodeRegistry where
  byEntity := (∅ : OrdMap String EntityModel).insert "label" labelModel
  byAttrId := ((∅ : OrdMap U16 String).insertList systemAttrs).insert (hashAttrName "type") "type"

/-- A call that writes the type of a label. -/
def labelCall (op : TransactOp) (txId : U64) : TransactCall :=
  let call := noteCall op "e" "a" txId
  { call with payload := { call.payload with
      entityType := "label"
      attrs := ⟨[("type", .str "a")], List.nodup_singleton _⟩ } }

/-- A pull of `type` reads two attributes of a label from storage, and one from a warmed entry. -/
theorem warmed_label_hides_its_entity_type :
    CodeRegistry.build [labelModel] = .ok labelRegistry ∧
    ∃ (w : EavHistory) (s : CacheState),
      Run (@EavHistory.step bitsText plainDerived plainHash labelRegistry "metri") EavHistory.Successive
        EavHistory.start w ∧
      Run (@CacheState.step bitsText labelRegistry w.store) (CacheState.Indexed labelRegistry w.store)
        (CacheState.start 0) s ∧
      (@pullThrough bitsText labelRegistry w.store s.cache s.now "t" "e" (some ["type"]) []).1 =
        (∅ : EntityMap).insert "type" (.str "a") ∧
      (@pullThrough bitsText labelRegistry w.store ∅ s.now "t" "e" (some ["type"]) []).1 =
        ((∅ : EntityMap).insert "type" (.str "a")).insert "entity/type" (.str "label") := by
  constructor
  · have h : (CodeRegistry.build [labelModel]).toOption = some labelRegistry := by
      decide +kernel
    cases hbuild : CodeRegistry.build [labelModel] with
    | error e =>
      rw [hbuild] at h
      cases h
    | ok registry =>
      rw [hbuild] at h
      exact congrArg Except.ok (Option.some.inj h)
  have hexec : (exec (@EavHistory.step bitsText plainDerived plainHash labelRegistry "metri")
      EavHistory.Successive EavHistory.start [labelCall .create 1]).any (fun w =>
        (exec (@CacheState.step bitsText labelRegistry w.store)
          (CacheState.Indexed labelRegistry w.store) (CacheState.start 0)
          [.warm "t" (some "label") none fun _ => []]).any fun s =>
        decide ((@pullThrough bitsText labelRegistry w.store s.cache s.now "t" "e" (some ["type"]) []).1 =
          (∅ : EntityMap).insert "type" (.str "a")) &&
        decide ((@pullThrough bitsText labelRegistry w.store ∅ s.now "t" "e" (some ["type"]) []).1 =
          ((∅ : EntityMap).insert "type" (.str "a")).insert "entity/type" (.str "label"))) = true := by
    decide +kernel
  obtain ⟨w, hrun, hw⟩ := exists_run_of_exec hexec
  obtain ⟨s, huses, hs⟩ := exists_run_of_exec hw
  rw [Bool.and_eq_true, decide_eq_true_eq, decide_eq_true_eq] at hs
  exact ⟨w, s, hrun, huses, hs⟩

end MetriEngine.Eav

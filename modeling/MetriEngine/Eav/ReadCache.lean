import MetriEngine.Eav.Reader

/-!
# The cache of assembled entities

Entries of the cache are whole entities that a `pull` assembled, or the parts that the
warm-up of a tenant collected from the attribute index. A lookup answers from an entry
that is fresh and holds what is asked for.
-/
namespace MetriEngine.Eav
open Foundation Storage

/-! ### Entries -/

structure CacheEntry where
  isComplete : Bool
  map : EntityMap
  cachedAt : ℕ

/-- In nanoseconds. -/
def eavCacheTtl : ℕ := 60 * 10 ^ 9

def maxEavCacheSize : ℕ := 10000

/-- The entries under the partition keys of their entities. -/
abbrev EavCache := OrdMap String CacheEntry

namespace CacheEntry
variable (entry : CacheEntry)

def isSufficient (now : ℕ) (attrs : Option (List String)) : Bool :=
  if now - entry.cachedAt ≤ eavCacheTtl then
    entry.isComplete || match attrs with
      | some filter => filter.all fun attr => entry.map.contains attr ||
          entry.map.entries.any fun e => decide (bareName e.1 = attr)
      | none => false
  else false

end CacheEntry

namespace EavCache
variable (cache : EavCache)

/-- What `pull` answers from the cache. -/
def answer (now : ℕ) (pk : String) (attrs : Option (List String)) : Option EntityMap :=
  (cache.lookup pk).bind fun entry =>
    if entry.isSufficient now attrs then some (entry.map.filterKeys (asksFor attrs)) else none

/-- Drops a fifth of a full cache before a new key, in the order the map gives its keys. -/
def makeRoom (keys : List String) (pk : String) : EavCache :=
  if maxEavCacheSize ≤ cache.entries.length ∧ cache.contains pk = false then
    (keys.take (maxEavCacheSize / 5)).foldl OrdMap.erase cache
  else cache

def insertEntry (keys : List String) (pk : String) (entry : CacheEntry) : EavCache :=
  (cache.makeRoom keys pk).insert pk entry

/-- Adds what the warm-up collected to the entry of an entity, or to a partial one. -/
def extendEntry (now : ℕ) (keys : List String) (pk : String) (finalMap : EntityMap) : EavCache :=
  let room := cache.makeRoom keys pk
  let entry := (room.lookup pk).getD ⟨false, ∅, now⟩
  room.insert pk { entry with map := entry.map.insertList finalMap.entries }

/-- The invalidation of the entities that a transaction wrote. -/
def remove (pks : List String) : EavCache := pks.foldl OrdMap.erase cache

end EavCache

/-! ### The warm-up -/

structure WarmupItem where
  entityId : String
  txId : U64
  op : Bool
  value : DatomValue

section Warmup
variable [F64Text]

def warmupItem (item : Item) : Option WarmupItem := do
  let pk ← (item.lookup "PK").bind avString
  let (_, txId, op) ← datomKey item
  return ⟨(Text.split pk '#').getLastD "", txId, op, (extractDatomValue item).getD .null⟩

/-- What the attribute index holds of one attribute of a tenant. -/
def warmupItems (st : MbfPartitionStore) (tenantId attrName : String) : List WarmupItem :=
  (st.query (some "GSI-AEVT") "#ap = :ap"
    ((∅ : Item).insert ":ap" (.s ("T#" ++ tenantId ++ "#A#" ++ attrName))) true none).filterMap
      warmupItem

/-- The attributes that are warmed: the reserved ones, with those that are named, or
those of one model, or those of every model. -/
def warmTargets (registry : CodeRegistry) (entityType : Option String)
    (specificAttrs : Option (List String)) : List String :=
  let names (model : EntityModel) := model.attributes.map AttributeDescriptor.name
  systemAttrs.map Prod.snd ++
    match specificAttrs, entityType with
    | some attrsList, _ => attrsList
    | none, some entityName => ((registry.getModel entityName).map names).getD []
    | none, none => registry.byEntity.entries.flatMap fun e => names e.2

/-- The states that the warm-up collects, under the partition keys of the entities. -/
abbrev EntityStates := OrdMap String (Latest DatomValue)

def warmTake (tenantId attrName : String) (states : EntityStates) (w : WarmupItem) :
    EntityStates :=
  let pk := eavtPk tenantId w.entityId
  states.insert pk (((states.lookup pk).getD ∅).supersede attrName w.txId w.op (some w.value))

/-- What the warm-up of a tenant reads, attribute after attribute. -/
def warmStates (st : MbfPartitionStore) (tenantId : String) (targets : List String) :
    OrdMap String EntityMap :=
  (targets.dedup.foldl (fun states attrName =>
    (warmupItems st tenantId attrName).foldl (warmTake tenantId attrName) states)
      ∅).mapValues fun latest => latest.mapValues Prod.snd

/-! ### One attribute at a time -/

/-- What the attribute index shows of one attribute of one entity. -/
def warmValue (st : MbfPartitionStore) (tenantId entityId attrName : String) :
    Option DatomValue :=
  (((warmupItems st tenantId attrName).filter fun w => w.entityId = entityId).foldl
    (fun latest w => supersede latest w.txId w.op (some w.value)) none).map Prod.snd

/-- The latest value that the states hold of an attribute of an entity. -/
def EntityStates.value (states : EntityStates) (pk attrName : String) :
    Option (U64 × DatomValue) :=
  (states.lookup pk).bind fun latest => latest.lookup attrName

omit [F64Text] in
theorem value_warmTake (tenantId attrName name entityId : String) (states : EntityStates)
    (w : WarmupItem) :
    (warmTake tenantId attrName states w).value (eavtPk tenantId entityId) name =
      if name = attrName ∧ w.entityId = entityId then
        supersede (states.value (eavtPk tenantId entityId) name) w.txId w.op (some w.value)
      else states.value (eavtPk tenantId entityId) name := by
  unfold EntityStates.value warmTake
  rw [OrdMap.lookup_insert]
  by_cases hentity : w.entityId = entityId
  · rw [if_pos (by rw [hentity]), Option.bind_some, Latest.supersede, Latest.lookup_put, hentity]
    by_cases hname : name = attrName
    · rw [if_pos hname, if_pos ⟨hname, rfl⟩, hname]
      cases states.lookup (eavtPk tenantId entityId) <;> rfl
    · rw [if_neg hname, if_neg (fun h => hname h.1)]
      cases states.lookup (eavtPk tenantId entityId) <;> rfl
  · rw [if_neg (fun h => hentity (eavtPk_inj.mp h).symm), if_neg (fun h => hentity h.2)]

omit [F64Text] in
theorem value_foldl_warmTake (tenantId attrName name entityId : String) (items : List WarmupItem)
    (states : EntityStates) :
    (items.foldl (warmTake tenantId attrName) states).value (eavtPk tenantId entityId) name =
      if name = attrName then
        (items.filter fun w => w.entityId = entityId).foldl
          (fun latest w => supersede latest w.txId w.op (some w.value))
          (states.value (eavtPk tenantId entityId) name)
      else states.value (eavtPk tenantId entityId) name := by
  induction items generalizing states with
  | nil => simp
  | cons w rest ih =>
    rw [List.foldl_cons, ih, value_warmTake]
    by_cases hname : name = attrName
    · rw [if_pos hname, if_pos hname]
      by_cases hentity : w.entityId = entityId
      · rw [List.filter_cons_of_pos (by simpa using hentity), if_pos ⟨hname, hentity⟩,
          List.foldl_cons]
      · rw [List.filter_cons_of_neg (by simpa using hentity), if_neg (fun h => hentity h.2)]
    · rw [if_neg hname, if_neg hname, if_neg (fun h => hname h.1)]

/-- Each target is read once, so an attribute has the value that its index shows. -/
theorem warmStates_value (st : MbfPartitionStore) (tenantId entityId name : String)
    (targets : List String) :
    ((warmStates st tenantId targets).lookup (eavtPk tenantId entityId)).bind
        (fun map => map.lookup name) =
      if name ∈ targets then warmValue st tenantId entityId name else none := by
  have hfold : ∀ (l : List String) (states : EntityStates), l.Nodup →
      (l.foldl (fun states attrName =>
        (warmupItems st tenantId attrName).foldl (warmTake tenantId attrName) states)
          states).value (eavtPk tenantId entityId) name =
        if name ∈ l then
          ((warmupItems st tenantId name).filter fun w => w.entityId = entityId).foldl
            (fun latest w => supersede latest w.txId w.op (some w.value))
            (states.value (eavtPk tenantId entityId) name)
        else states.value (eavtPk tenantId entityId) name := by
    intro l
    induction l with
    | nil => simp
    | cons attrName rest ih =>
      intro states hnodup
      obtain ⟨hnot, hrest⟩ := List.nodup_cons.mp hnodup
      rw [List.foldl_cons, ih _ hrest, value_foldl_warmTake]
      by_cases hname : name = attrName
      · rw [if_neg (hname ▸ hnot), if_pos hname, if_pos (hname ▸ List.mem_cons_self), hname]
      · rw [if_neg hname]
        simp [hname]
  have hvalue := hfold targets.dedup ∅ targets.nodup_dedup
  rw [warmStates, OrdMap.lookup_mapValues, Option.bind_map]
  have hmap : ((targets.dedup.foldl (fun states attrName =>
      (warmupItems st tenantId attrName).foldl (warmTake tenantId attrName) states)
        ∅).lookup (eavtPk tenantId entityId)).bind
          ((fun map : EntityMap => map.lookup name) ∘ fun latest => latest.mapValues Prod.snd) =
      ((targets.dedup.foldl (fun states attrName =>
        (warmupItems st tenantId attrName).foldl (warmTake tenantId attrName) states)
          (∅ : EntityStates)).value (eavtPk tenantId entityId) name).map Prod.snd := by
    rw [EntityStates.value, Option.map_bind]
    congr 1
    funext latest
    exact OrdMap.lookup_mapValues _ _ _
  rw [hmap, hvalue, warmValue]
  simp only [List.mem_dedup]
  split_ifs <;> rfl

end Warmup

/-! ### What the cache operations keep -/

namespace EavCache
variable {cache : EavCache} {pk pk' : String} {entry : CacheEntry}

theorem lookup_foldl_erase {keys : List String} {cache : EavCache}
    (h : (keys.foldl OrdMap.erase cache).lookup pk = some entry) :
    cache.lookup pk = some entry ∧ pk ∉ keys := by
  induction keys generalizing cache with
  | nil => exact ⟨h, by simp⟩
  | cons key rest ih =>
    obtain ⟨hl, hnot⟩ := ih h
    rw [OrdMap.lookup_erase] at hl
    split_ifs at hl with hkey
    exact ⟨hl, by simp [hkey, hnot]⟩

theorem lookup_makeRoom {keys : List String} (h : (cache.makeRoom keys pk').lookup pk = some entry) :
    cache.lookup pk = some entry := by
  unfold makeRoom at h
  split_ifs at h
  · exact (lookup_foldl_erase h).1
  · exact h

theorem lookup_remove {pks : List String} (h : (cache.remove pks).lookup pk = some entry) :
    cache.lookup pk = some entry ∧ pk ∉ pks := lookup_foldl_erase h

theorem lookup_insertEntry {keys : List String} {entry' : CacheEntry}
    (h : (cache.insertEntry keys pk' entry').lookup pk = some entry) :
    pk = pk' ∧ entry = entry' ∨ pk ≠ pk' ∧ cache.lookup pk = some entry := by
  rw [insertEntry, OrdMap.lookup_insert] at h
  split_ifs at h with hpk
  · cases h
    exact Or.inl ⟨hpk, rfl⟩
  · exact Or.inr ⟨hpk, lookup_makeRoom h⟩

/-- The extended entry holds what it held and, over it, what was collected. -/
theorem lookup_extendEntry {now : ℕ} {keys : List String} {finalMap : EntityMap}
    (h : (cache.extendEntry now keys pk' finalMap).lookup pk = some entry) :
    (pk ≠ pk' ∧ cache.lookup pk = some entry) ∨
      pk = pk' ∧ ((∃ old, cache.lookup pk = some old ∧ entry.isComplete = old.isComplete ∧
        ∀ name, entry.map.lookup name = (finalMap.lookup name).or (old.map.lookup name)) ∨
      entry.isComplete = false ∧ ∀ name, entry.map.lookup name = finalMap.lookup name) := by
  rw [extendEntry, OrdMap.lookup_insert] at h
  split_ifs at h with hpk
  · refine Or.inr ⟨hpk, ?_⟩
    cases h
    cases hroom : (cache.makeRoom keys pk').lookup pk' with
    | some old =>
      refine Or.inl ⟨old, hpk ▸ lookup_makeRoom hroom, rfl, ?_⟩
      intro name
      rw [Option.getD_some, OrdMap.lookup_insertList_or, OrdMap.insertList_entries]
    | none =>
      refine Or.inr ⟨rfl, ?_⟩
      intro name
      rw [Option.getD_none, OrdMap.insertList_entries]
  · exact Or.inl ⟨hpk, lookup_makeRoom h⟩

end EavCache
end MetriEngine.Eav

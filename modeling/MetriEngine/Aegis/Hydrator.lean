import MetriEngine.Foundation.Tagged
import MetriEngine.Eav.Json
import MetriEngine.Eav.ReadCache
import MetriEngine.Eav.TimeTravel

/-!
# Hydration of rows

The ids of a plan become rows of JSON. What the cache holds is taken first; the rest is
pulled from the store, by tasks that end in any order, if rows are still wanted. The rows
come out in the order of the ids.
-/
namespace MetriEngine.Aegis
open Foundation Storage Eav

/-! ### Rows -/

/-- The order in which a hash map gives its entries. -/
class MapOrder where
  entriesOf : EntityMap → List (String × DatomValue)
  perm : ∀ map, (entriesOf map).Perm map.entries

/-- The order of the keys. -/
@[reducible] def keyOrder : MapOrder := ⟨OrdMap.entries, fun _ => List.Perm.refl _⟩

section Rows
variable [Codecs] (registry : CodeRegistry)

/-- The value of a column. -/
def columnValue (k : String) : DatomValue → JsonValue
  | .str s =>
    match Text.split k '/' with
    | [entity, attrName] =>
      if (registry.getAttribute entity attrName).any fun attr => decide (attr.attrType = .json) then
        (Codecs.parseJson s).getD (.string s)
      else .string s
    | _ => embedded s
  | .uuid s => .string s
  | .long n => .number (.ofSigned n)
  | .instant n => .number (.ofSigned n)
  | .double d => .ofF64 d
  | .bool b => .bool b
  -- beyond 64 bits the conversion fails, and the request with it
  | .bigInt n => if h : -2 ^ 63 ≤ n.val ∧ n.val < 2 ^ 64 then .number (.int ⟨n.val, h⟩) else .null
  | .ref r => .number (.int ⟨r.val, by omega, by omega⟩)
  | .array items => .strings items
  | .geo lat lon => .object [("lat", .ofF64 lat), ("lon", .ofF64 lon)]
  | .null => .null
  | .bytes _ => .string "_binary_"

/-- A column under its name and, where the name has a namespace, under its bare name. -/
def addColumn (row : JsonMap) (e : String × DatomValue) : JsonMap :=
  let jsonVal := columnValue registry e.1 e.2
  let bareKey := bareName e.1
  let aliased :=
    if '/' ∈ e.1.toList ∧ bareKey ≠ "" then
      if bareKey = "id" then
        if e.1 = "tenant/id" then row.insert "tenant_id" jsonVal else row
      else if bareKey = "type" then
        if e.1 ≠ "entity/type" then row.insert bareKey jsonVal else row
      else row.insert bareKey jsonVal
    else row
  aliased.insert e.1 jsonVal

/-- The time of an event under the names that clients know it by. -/
def addAliases (name snake camel : String) (row : JsonMap) : JsonMap :=
  match row.lookup name with
  | some v => (row.insert snake v).insert camel v
  | none => row

def entityMapToJson [MapOrder] (map : EntityMap) : JsonMap :=
  addAliases "meta/updated_at" "updated_at" "updatedAt"
    (addAliases "meta/created_at" "created_at" "createdAt"
      ((MapOrder.entriesOf map).foldl (addColumn registry) ∅))

theorem lookup_id_addColumn (row : JsonMap) (e : String × DatomValue) :
    (addColumn registry row e).lookup "id" =
      if e.1 = "id" then some (columnValue registry "id" e.2) else row.lookup "id" := by
  unfold addColumn
  dsimp only
  rw [OrdMap.lookup_insert]
  by_cases hid : e.1 = "id"
  · rw [if_pos hid.symm, if_pos hid, hid]
  · rw [if_neg (Ne.symm hid), if_neg hid]
    split_ifs with hbare hlast htenant htype hname
    · exact OrdMap.lookup_insert_of_ne _ _ (by decide)
    · rfl
    · exact OrdMap.lookup_insert_of_ne _ _ (Ne.symm hlast)
    · rfl
    · exact OrdMap.lookup_insert_of_ne _ _ (Ne.symm hlast)
    · rfl

omit [Codecs] in
theorem lookup_addAliases {name snake camel : String} (row : JsonMap) {key : String}
    (hsnake : key ≠ snake) (hcamel : key ≠ camel) :
    (addAliases name snake camel row).lookup key = row.lookup key := by
  unfold addAliases
  cases row.lookup name with
  | none => rfl
  | some v => rw [OrdMap.lookup_insert_of_ne _ _ hcamel, OrdMap.lookup_insert_of_ne _ _ hsnake]

/-- A row tells the id of its entity. -/
theorem lookup_id_entityMapToJson [MapOrder] (map : EntityMap) (id : String) :
    (entityMapToJson registry (map.insert "id" (.str id))).lookup "id" = some (embedded id) := by
  have hfold : ∀ (l : List (String × DatomValue)) (row : JsonMap),
      (∀ e ∈ l, e.1 = "id" → e.2 = .str id) →
      (("id", DatomValue.str id) ∈ l ∨ row.lookup "id" = some (embedded id)) →
      (l.foldl (addColumn registry) row).lookup "id" = some (embedded id) := by
    intro l
    induction l with
    | nil =>
      intro row _ h
      rcases h with h | h
      · cases h
      · exact h
    | cons e rest ih =>
      intro row hunique h
      obtain ⟨he, hrest⟩ := List.forall_mem_cons.mp hunique
      rw [List.foldl_cons]
      apply ih _ hrest
      rw [lookup_id_addColumn]
      by_cases hid : e.1 = "id"
      · rw [if_pos hid, he hid]
        exact Or.inr rfl
      · rw [if_neg hid]
        rcases h with h | h
        · rcases List.mem_cons.mp h with rfl | h
          · exact absurd rfl hid
          · exact Or.inl h
        · exact Or.inr h
  have hlookup : (map.insert "id" (.str id)).lookup "id" = some (.str id) :=
    OrdMap.lookup_insert_self _ _ _
  unfold entityMapToJson
  rw [lookup_addAliases _ (by decide) (by decide), lookup_addAliases _ (by decide) (by decide)]
  apply hfold
  · intro e he hid
    have hmem := OrdMap.lookup_eq_some.mpr ((MapOrder.perm _).mem_iff.mp he)
    rw [hid, hlookup] at hmem
    exact (Option.some.inj hmem).symm
  · exact Or.inl ((MapOrder.perm _).mem_iff.mpr (OrdMap.lookup_eq_some.mp hlookup))

end Rows

/-! ### Hydration -/

structure HydrateCall where
  tenantId : String
  entityIds : List String
  resolvedAttrs : List String
  maxHydrations : ℕ
  targetBreak : ℕ
  shouldBreakEarly : Bool

/-- An entry that holds the whole entity, or all that the query names of it. -/
def holdsAttrs (resolvedAttrs : List String) (entry : CacheEntry) : Bool :=
  entry.isComplete || resolvedAttrs.all entry.map.contains

section Hydrate
variable [Codecs] [MapOrder] (registry : CodeRegistry) (filterFn : JsonMap → Bool)

/-- The row of an entity, where it passes the filters. -/
def passingRow (id : String) (map : EntityMap) : Option JsonMap :=
  some (entityMapToJson registry (map.insert "id" (.str id))) |>.filter filterFn

variable (cache : EavCache) (pullOf : String → EntityMap) (call : HydrateCall)

/-- The entry that an entity is answered from. -/
def cachedEntry (id : String) : Option CacheEntry :=
  (cache.lookup (eavtPk call.tenantId id)).filter (holdsAttrs call.resolvedAttrs)

/-- Whether the collection ends before all the candidates are seen. -/
def HydrateCall.full (collected : List (ℕ × JsonMap)) : Bool :=
  call.shouldBreakEarly && decide (call.targetBreak ≤ collected.length)

/-- The pass over the cache: the rows it gives, and the candidates that it does not answer. -/
def collectCached : List (String × ℕ) → List (ℕ × JsonMap) →
    List (ℕ × JsonMap) × List (String × ℕ)
  | [], collected => (collected, [])
  | (id, idx) :: rest, collected =>
    match cachedEntry cache call id with
    | none =>
      let (rows, misses) := collectCached rest collected
      (rows, (id, idx) :: misses)
    | some entry =>
      match passingRow registry filterFn id entry.map with
      | none => collectCached rest collected
      | some row =>
        if call.full (collected ++ [(idx, row)]) then (collected ++ [(idx, row)], [])
        else collectCached rest (collected ++ [(idx, row)])

/-- The row of an entity that is pulled; one without attributes has none. -/
def pulledRow (id : String) : Option JsonMap :=
  if (pullOf id).isEmpty then none else passingRow registry filterFn id (pullOf id)

/-- The pulls, in the order in which they end. -/
def collectPulled : List (String × ℕ) → List (ℕ × JsonMap) → List (ℕ × JsonMap)
  | [], collected => collected
  | (id, idx) :: rest, collected =>
    match pulledRow registry filterFn pullOf id with
    | none => collectPulled rest collected
    | some row =>
      if call.full (collected ++ [(idx, row)]) then collected ++ [(idx, row)]
      else collectPulled rest (collected ++ [(idx, row)])

/-- `hydrate_entities`, the pulls of the misses ending in the order `completed`. -/
def hydrateEntities (completed : List (String × ℕ) → List (String × ℕ)) : List JsonMap :=
  let candidates := (call.entityIds.take call.maxHydrations).zipIdx
  let (rows, misses) := collectCached registry filterFn cache call candidates []
  let collected :=
    if misses ≠ [] ∧ rows.length < call.targetBreak then
      collectPulled registry filterFn pullOf call (completed misses) rows
    else rows
  (collected.insertionSort fun a b => a.1 ≤ b.1).map Prod.snd

/-- What hydration is for: the rows of the entities that have a state, in the order of the
ids. -/
def referenceRows : List JsonMap :=
  (call.entityIds.take call.maxHydrations).filterMap (pulledRow registry filterFn pullOf)

/-! ### Without an early end -/

section Whole
variable {registry} {filterFn} {cache} {pullOf} {call}

/-- What the cache answers of a candidate. -/
abbrev hitRow (registry : CodeRegistry) (filterFn : JsonMap → Bool) (cache : EavCache)
    (call : HydrateCall) (id : String) : Option JsonMap :=
  (cachedEntry cache call id).bind fun entry => passingRow registry filterFn id entry.map

/-- A pass that does not end early gives every row of the cache, and every miss. -/
theorem collectCached_eq (hbreak : call.shouldBreakEarly = false) (candidates : List (String × ℕ))
    (collected : List (ℕ × JsonMap)) :
    collectCached registry filterFn cache call candidates collected =
      (collected ++ candidates.filterMap fun e => (hitRow registry filterFn cache call e.1).map (e.2, ·),
        candidates.filter fun e => (cachedEntry cache call e.1).isNone) := by
  induction candidates generalizing collected with
  | nil => simp [collectCached]
  | cons e rest ih =>
    obtain ⟨id, idx⟩ := e
    have hfull (rows : List (ℕ × JsonMap)) : call.full rows = false := by
      simp [HydrateCall.full, hbreak]
    cases hentry : cachedEntry cache call id with
    | none => simp [collectCached, hitRow, hentry, ih]
    | some entry =>
      cases hrow : passingRow registry filterFn id entry.map with
      | none => simp [collectCached, hitRow, hentry, hrow, ih]
      | some row => simp [collectCached, hitRow, hentry, hrow, ih, hfull]

theorem collectPulled_eq (hbreak : call.shouldBreakEarly = false) (candidates : List (String × ℕ))
    (collected : List (ℕ × JsonMap)) :
    collectPulled registry filterFn pullOf call candidates collected =
      collected ++ candidates.filterMap fun e => (pulledRow registry filterFn pullOf e.1).map (e.2, ·) := by
  induction candidates generalizing collected with
  | nil => simp [collectPulled]
  | cons e rest ih =>
    obtain ⟨id, idx⟩ := e
    have hfull (rows : List (ℕ × JsonMap)) : call.full rows = false := by
      simp [HydrateCall.full, hbreak]
    cases hrow : pulledRow registry filterFn pullOf id with
    | none => simp [collectPulled, hrow, ih]
    | some row => simp [collectPulled, hrow, ih, hfull]

/-- The rows that the cache gives. -/
abbrev hitRows (registry : CodeRegistry) (filterFn : JsonMap → Bool) (cache : EavCache)
    (call : HydrateCall) : List JsonMap :=
  (call.entityIds.take call.maxHydrations).filterMap (hitRow registry filterFn cache call)

/-- The row that a hydration without an early end gives for an entity. -/
def hydratedRow (registry : CodeRegistry) (filterFn : JsonMap → Bool) (cache : EavCache)
    (pullOf : String → EntityMap) (call : HydrateCall) (id : String) : Option JsonMap :=
  match cachedEntry cache call id with
  | some entry => passingRow registry filterFn id entry.map
  | none =>
    if (hitRows registry filterFn cache call).length < call.targetBreak then
      pulledRow registry filterFn pullOf id
    else none

/-- Hydration without an early end gives the rows of the entities one by one, in whatever
order the pulls end. -/
theorem hydrateEntities_eq (hbreak : call.shouldBreakEarly = false)
    {completed : List (String × ℕ) → List (String × ℕ)}
    (hcompleted : ∀ misses, (completed misses).Perm misses) :
    hydrateEntities registry filterFn cache pullOf call completed =
      (call.entityIds.take call.maxHydrations).filterMap
        (hydratedRow registry filterFn cache pullOf call) := by
  let candidates := (call.entityIds.take call.maxHydrations).zipIdx
  have hhits : (candidates.filterMap fun e =>
      (hitRow registry filterFn cache call e.1).map (e.2, ·)).length =
        (hitRows registry filterFn cache call).length := by
    rw [hitRows, ← map_snd_filterMap_zipIdx _ (hitRow registry filterFn cache call), List.length_map]
  -- the hits and the misses make up the candidates
  have hparts := filterMap_parts_perm candidates (fun e => (cachedEntry cache call e.1).isSome)
    fun e => (hydratedRow registry filterFn cache pullOf call e.1).map (e.2, ·)
  have hhit : (candidates.filterMap fun e => if (cachedEntry cache call e.1).isSome then
      (hydratedRow registry filterFn cache pullOf call e.1).map (e.2, ·) else none) =
        candidates.filterMap fun e => (hitRow registry filterFn cache call e.1).map (e.2, ·) := by
    congr 1
    funext e
    cases hentry : cachedEntry cache call e.1 <;> simp [hydratedRow, hitRow, hentry]
  have hmiss : (candidates.filter fun e => !(cachedEntry cache call e.1).isSome) =
      candidates.filter fun e => (cachedEntry cache call e.1).isNone := by
    simp
  rw [hhit, hmiss] at hparts
  have hsorted := pairwise_filterMap_zipIdx (call.entityIds.take call.maxHydrations)
    (hydratedRow registry filterFn cache pullOf call)
  unfold hydrateEntities
  dsimp only
  rw [collectCached_eq hbreak]
  dsimp only
  rw [List.nil_append, ← map_snd_filterMap_zipIdx _ (hydratedRow registry filterFn cache pullOf call)]
  congr 1
  apply insertionSort_of_perm _ hsorted
  refine List.Perm.trans ?_ hparts
  split_ifs with hfetch
  · rw [collectPulled_eq hbreak]
    apply List.Perm.append_left
    rw [hhits] at hfetch
    refine ((hcompleted _).filterMap _).trans (List.Perm.of_eq ?_)
    apply List.filterMap_congr
    intro e he
    have hnone : cachedEntry cache call e.1 = none := by
      simpa using (List.mem_filter.mp he).2
    rw [hydratedRow, hnone]
    dsimp only
    rw [if_pos hfetch.2]
  · have hlost : (candidates.filter fun e => (cachedEntry cache call e.1).isNone).filterMap
        (fun e => (hydratedRow registry filterFn cache pullOf call e.1).map (e.2, ·)) = [] := by
      rw [hhits, not_and_or, not_not] at hfetch
      rcases hfetch with hempty | hfull
      · rw [hempty]
        rfl
      · apply List.filterMap_eq_nil_iff.mpr
        intro e he
        have hnone : cachedEntry cache call e.1 = none := by
          simpa using (List.mem_filter.mp he).2
        rw [hydratedRow, hnone]
        dsimp only
        rw [if_neg hfull]
        rfl
    rw [hlost, List.append_nil]

/-! ### As many rows as are wanted -/

/-- The row of an entity that is hydrated alone. -/
def ownRow (registry : CodeRegistry) (filterFn : JsonMap → Bool) (cache : EavCache)
    (pullOf : String → EntityMap) (call : HydrateCall) (id : String) : Option JsonMap :=
  match cachedEntry cache call id with
  | some entry => passingRow registry filterFn id entry.map
  | none => pulledRow registry filterFn pullOf id

/-- The same call with no early end. -/
def HydrateCall.whole (call : HydrateCall) : HydrateCall := { call with shouldBreakEarly := false }

omit [Codecs] [MapOrder] in
theorem HydrateCall.length_of_full {collected : List (ℕ × JsonMap)} (h : call.full collected = true) :
    call.targetBreak ≤ collected.length := by
  rw [HydrateCall.full, Bool.and_eq_true] at h
  exact of_decide_eq_true h.2

/-- With no more candidates than rows are wanted, the pass over the cache ends early only
where it ends anyhow. -/
theorem collectCached_whole (candidates : List (String × ℕ)) (collected : List (ℕ × JsonMap))
    (hle : collected.length + candidates.length ≤ call.targetBreak) :
    collectCached registry filterFn cache call candidates collected =
      collectCached registry filterFn cache call.whole candidates collected := by
  induction candidates generalizing collected with
  | nil => rfl
  | cons e rest ih =>
    obtain ⟨id, idx⟩ := e
    rw [List.length_cons] at hle
    have hentry : cachedEntry cache call.whole id = cachedEntry cache call id := rfl
    have hfull (rows : List (ℕ × JsonMap)) : call.whole.full rows = false := rfl
    unfold collectCached
    rw [hentry]
    cases cachedEntry cache call id with
    | none =>
      dsimp only
      rw [ih collected (by omega)]
    | some entry =>
      dsimp only
      cases passingRow registry filterFn id entry.map with
      | none => exact ih _ (by omega)
      | some row =>
        dsimp only
        have hrest := ih (collected ++ [(idx, row)]) (by
          rw [List.length_append, List.length_singleton]
          omega)
        rw [hfull, hrest]
        cases hend : call.full (collected ++ [(idx, row)]) with
        | false => rfl
        | true =>
          have hlength := HydrateCall.length_of_full hend
          rw [List.length_append, List.length_singleton] at hlength
          have hnil : rest = [] := List.length_eq_zero_iff.mp (by omega)
          rw [hnil]
          rfl

theorem collectPulled_whole (candidates : List (String × ℕ)) (collected : List (ℕ × JsonMap))
    (hle : collected.length + candidates.length ≤ call.targetBreak) :
    collectPulled registry filterFn pullOf call candidates collected =
      collectPulled registry filterFn pullOf call.whole candidates collected := by
  induction candidates generalizing collected with
  | nil => rfl
  | cons e rest ih =>
    obtain ⟨id, idx⟩ := e
    rw [List.length_cons] at hle
    have hfull (rows : List (ℕ × JsonMap)) : call.whole.full rows = false := rfl
    unfold collectPulled
    cases pulledRow registry filterFn pullOf id with
    | none => exact ih _ (by omega)
    | some row =>
      dsimp only
      have hrest := ih (collected ++ [(idx, row)]) (by
        rw [List.length_append, List.length_singleton]
        omega)
      rw [hfull, hrest]
      cases hend : call.full (collected ++ [(idx, row)]) with
      | false => rfl
      | true =>
        have hlength := HydrateCall.length_of_full hend
        rw [List.length_append, List.length_singleton] at hlength
        have hnil : rest = [] := List.length_eq_zero_iff.mp (by omega)
        rw [hnil]
        rfl

/-- The hits and the misses of a pass are no more than the candidates. -/
theorem hits_add_misses (candidates : List (String × ℕ)) :
    (candidates.filterMap fun e => (hitRow registry filterFn cache call e.1).map (e.2, ·)).length +
      (candidates.filter fun e => (cachedEntry cache call e.1).isNone).length ≤ candidates.length := by
  induction candidates with
  | nil => rfl
  | cons e rest ih =>
    cases hentry : cachedEntry cache call e.1 with
    | none =>
      simp only [List.filterMap_cons, List.filter_cons, hitRow, hentry, Option.bind_none,
        Option.map_none, Option.isNone_none, if_true, List.length_cons]
      simp only [hitRow] at ih
      omega
    | some entry =>
      cases hrow : passingRow registry filterFn e.1 entry.map with
      | none =>
        simp only [List.filterMap_cons, List.filter_cons, hitRow, hentry, hrow, Option.bind_some,
          Option.map_none, Option.isNone_some, Bool.false_eq_true, if_false, List.length_cons]
        simp only [hitRow] at ih
        omega
      | some row =>
        simp only [List.filterMap_cons, List.filter_cons, hitRow, hentry, hrow, Option.bind_some,
          Option.map_some, Option.isNone_some, Bool.false_eq_true, if_false, List.length_cons]
        simp only [hitRow] at ih
        omega

/-- With no more candidates than rows are wanted, each comes out as it does alone. -/
theorem hydrateEntities_of_length_le
    (hle : (call.entityIds.take call.maxHydrations).length ≤ call.targetBreak)
    {completed : List (String × ℕ) → List (String × ℕ)}
    (hcompleted : ∀ misses, (completed misses).Perm misses) :
    hydrateEntities registry filterFn cache pullOf call completed =
      (call.entityIds.take call.maxHydrations).filterMap (ownRow registry filterFn cache pullOf call) := by
  let candidates := (call.entityIds.take call.maxHydrations).zipIdx
  have hcandidates : candidates.length ≤ call.targetBreak := by
    rw [List.length_zipIdx]
    exact hle
  have hcached : collectCached registry filterFn cache call candidates [] =
      collectCached registry filterFn cache call.whole candidates [] :=
    collectCached_whole candidates [] (by simpa using hcandidates)
  have hparts : collectCached registry filterFn cache call candidates [] =
      (candidates.filterMap fun e => (hitRow registry filterFn cache call e.1).map (e.2, ·),
        candidates.filter fun e => (cachedEntry cache call e.1).isNone) := by
    rw [hcached, collectCached_eq rfl, List.nil_append]
    rfl
  have hcount := @hits_add_misses _ _ registry filterFn cache call candidates
  -- an early end changes nothing
  have hwhole : hydrateEntities registry filterFn cache pullOf call completed =
      hydrateEntities registry filterFn cache pullOf call.whole completed := by
    have hpulled (misses : List (String × ℕ)) (rows : List (ℕ × JsonMap))
        (h : rows.length + misses.length ≤ call.targetBreak) :
        collectPulled registry filterFn pullOf call (completed misses) rows =
          collectPulled registry filterFn pullOf call.whole (completed misses) rows := by
      apply collectPulled_whole
      rw [(hcompleted misses).length_eq]
      exact h
    have hsame : collectCached registry filterFn cache call
        (call.entityIds.take call.maxHydrations).zipIdx [] =
          collectCached registry filterFn cache call.whole
            (call.whole.entityIds.take call.whole.maxHydrations).zipIdx [] := hcached
    have hle : (collectCached registry filterFn cache call
        (call.entityIds.take call.maxHydrations).zipIdx []).1.length +
          (collectCached registry filterFn cache call
            (call.entityIds.take call.maxHydrations).zipIdx []).2.length ≤ call.targetBreak := by
      rw [hparts]
      dsimp only
      omega
    unfold hydrateEntities
    dsimp only
    rw [← hsame, hpulled _ _ hle]
    rfl
  rw [hwhole, @hydrateEntities_eq _ _ _ _ _ _ call.whole rfl _ hcompleted]
  apply List.filterMap_congr
  intro id hid
  unfold hydratedRow ownRow
  change (match cachedEntry cache call id with
    | some entry => passingRow registry filterFn id entry.map
    | none => if (hitRows registry filterFn cache call).length < call.targetBreak then
        pulledRow registry filterFn pullOf id else none) = _
  cases hentry : cachedEntry cache call id with
  | some entry => rfl
  | none =>
    dsimp only
    rw [if_pos]
    -- the entity itself is a miss
    have hhits : (candidates.filterMap fun e =>
        (hitRow registry filterFn cache call e.1).map (e.2, ·)).length =
          (hitRows registry filterFn cache call).length := by
      rw [hitRows, ← map_snd_filterMap_zipIdx _ (hitRow registry filterFn cache call), List.length_map]
    have hmiss : 0 < (candidates.filter fun e => (cachedEntry cache call e.1).isNone).length := by
      obtain ⟨n, hn⟩ := List.mem_iff_getElem?.mp hid
      apply List.length_pos_of_mem (a := (id, n))
      rw [List.mem_filter, hentry]
      refine ⟨?_, rfl⟩
      exact List.mem_zipIdx_iff_getElem?.mpr hn
    omega

end Whole

/-! ### Transparent caches -/

/-- The state of an entity of a tenant, whole. -/
def storedState [F64Text] (registry : CodeRegistry) (st : MbfPartitionStore) (tenantId id : String) :
    EntityMap := pull registry st tenantId id none

/-- A cache of the store: complete entries are the states, partial ones parts of them. -/
def Consistent (tenantId : String) : Prop :=
  ∀ id entry, cache.lookup (eavtPk tenantId id) = some entry →
    if entry.isComplete then entry.map = pullOf id
    else ∀ name value, entry.map.lookup name = some value → (pullOf id).lookup name = some value

/-- Where hydration does not depend on the cache: no entity without a state is shown from a
complete entry, what a partial one shows is what the state does, and either rows are still
wanted after the cache was seen or no other entity has one. -/
structure Transparent : Prop where
  complete : ∀ id ∈ call.entityIds.take call.maxHydrations, ∀ entry, cachedEntry cache call id = some entry →
    entry.isComplete = true → pullOf id = ∅ → passingRow registry filterFn id ∅ = none
  part : ∀ id ∈ call.entityIds.take call.maxHydrations, ∀ entry, cachedEntry cache call id = some entry →
    entry.isComplete = false →
      passingRow registry filterFn id entry.map = pulledRow registry filterFn pullOf id
  wanted : (hitRows registry filterFn cache call).length < call.targetBreak ∨
    ∀ id ∈ call.entityIds.take call.maxHydrations, cachedEntry cache call id = none →
      pulledRow registry filterFn pullOf id = none

section Transparent
variable {registry} {filterFn} {cache} {pullOf} {call}

theorem tag_passingRow {id : String} (hid : embedded id = .string id) {map : EntityMap} {row : JsonMap}
    (h : passingRow registry filterFn id map = some row) :
    (row.lookup "id").bind JsonValue.asStr = some id := by
  obtain ⟨hrow, _⟩ := Option.filter_eq_some_iff.mp h
  cases hrow
  rw [lookup_id_entityMapToJson, hid]
  rfl

theorem tag_pulledRow {id : String} (hid : embedded id = .string id) {row : JsonMap}
    (h : pulledRow registry filterFn pullOf id = some row) :
    (row.lookup "id").bind JsonValue.asStr = some id := by
  unfold pulledRow at h
  split_ifs at h
  exact tag_passingRow hid h

theorem tag_hydratedRow {id : String} (hid : embedded id = .string id) {row : JsonMap}
    (h : hydratedRow registry filterFn cache pullOf call id = some row) :
    (row.lookup "id").bind JsonValue.asStr = some id := by
  unfold hydratedRow at h
  split at h
  · exact tag_passingRow hid h
  · split_ifs at h
    exact tag_pulledRow hid h

/-- An entity is shown as its state is exactly where its entry is transparent. -/
theorem transparent_iff (hcache : Consistent cache pullOf call.tenantId) :
    Transparent registry filterFn cache pullOf call ↔
      ∀ id ∈ call.entityIds.take call.maxHydrations,
        hydratedRow registry filterFn cache pullOf call id = pulledRow registry filterFn pullOf id := by
  constructor
  · intro h id hid
    cases hentry : cachedEntry cache call id with
    | none =>
      rw [hydratedRow, hentry]
      dsimp only
      rcases h.wanted with hwanted | hnone
      · rw [if_pos hwanted]
      · rw [hnone id hid hentry, ite_self]
    | some entry =>
      rw [hydratedRow, hentry]
      dsimp only
      cases hcomplete : entry.isComplete with
      | false => exact h.part id hid entry hentry hcomplete
      | true =>
        have hstate := hcache id entry (Option.filter_eq_some_iff.mp hentry).1
        rw [if_pos hcomplete] at hstate
        rw [pulledRow, hstate]
        split_ifs with hempty
        · rw [OrdMap.isEmpty_iff.mp hempty]
          exact h.complete id hid entry hentry hcomplete (OrdMap.isEmpty_iff.mp hempty)
        · rfl
  · intro h
    have hshown {id : String} (hid : id ∈ call.entityIds.take call.maxHydrations) {entry : CacheEntry}
        (hentry : cachedEntry cache call id = some entry) :
        passingRow registry filterFn id entry.map = pulledRow registry filterFn pullOf id := by
      have hrow := h id hid
      rw [hydratedRow, hentry] at hrow
      exact hrow
    constructor
    · intro id hid entry hentry hcomplete hempty
      have hstate := hcache id entry (Option.filter_eq_some_iff.mp hentry).1
      rw [if_pos hcomplete] at hstate
      have hrow := hshown hid hentry
      rw [hstate, hempty, pulledRow, hempty] at hrow
      exact hrow
    · intro id hid entry hentry _
      exact hshown hid hentry
    · by_contra hnot
      obtain ⟨hfull, hlost⟩ := not_or.mp hnot
      apply hlost
      intro id hid hentry
      have hrow := h id hid
      rw [hydratedRow, hentry] at hrow
      dsimp only at hrow
      rw [if_neg hfull] at hrow
      exact hrow.symm

/-- Hydration gives the rows of the states for every transparent cache and, where the ids
are no JSON texts, for no other. -/
theorem hydrate_eq_reference_iff [F64Text] {st : MbfPartitionStore}
    (hcache : Consistent cache (storedState registry st call.tenantId) call.tenantId)
    (hbreak : call.shouldBreakEarly = false)
    {completed : List (String × ℕ) → List (String × ℕ)}
    (hcompleted : ∀ misses, (completed misses).Perm misses) :
    (Transparent registry filterFn cache (storedState registry st call.tenantId) call →
      hydrateEntities registry filterFn cache (storedState registry st call.tenantId) call completed =
        referenceRows registry filterFn (storedState registry st call.tenantId) call) ∧
    ((∀ id ∈ call.entityIds, embedded id = .string id) →
      hydrateEntities registry filterFn cache (storedState registry st call.tenantId) call completed =
        referenceRows registry filterFn (storedState registry st call.tenantId) call →
      Transparent registry filterFn cache (storedState registry st call.tenantId) call) := by
  rw [transparent_iff hcache, hydrateEntities_eq hbreak hcompleted, referenceRows]
  constructor
  · exact List.filterMap_congr
  · intro hids h
    have hid {id : String} (hmem : id ∈ call.entityIds.take call.maxHydrations) :
        embedded id = .string id := hids id (List.mem_of_mem_take hmem)
    apply @eq_of_filterMap_eq _ _ _ (fun row : JsonMap => (row.lookup "id").bind JsonValue.asStr) id
      _ _ _ _ _ _ h
    · exact fun _ _ _ _ heq => heq
    · exact fun a ha r hr => tag_hydratedRow (hid ha) hr
    · exact fun a ha r hr => tag_pulledRow (hid ha) hr

end Transparent
end Hydrate

/-! ### Two notes -/

abbrev noteState (w : EavHistory) : String → EntityMap := @storedState bitsText noteRegistry w.store "t"

/-- The first of two notes is cached, whole. -/
def firstCached (w : EavHistory) : EavCache :=
  (∅ : EavCache).insert (eavtPk "t" "e") ⟨true, noteState w "e", 0⟩

def twoNotesCall (targetBreak : ℕ) : HydrateCall := ⟨"t", ["e", "f"], [], 10, targetBreak, false⟩

theorem firstCached_eq_some {w : EavHistory} {id : String} {entry : CacheEntry}
    (h : (firstCached w).lookup (eavtPk "t" id) = some entry) :
    id = "e" ∧ entry = ⟨true, noteState w "e", 0⟩ := by
  rw [firstCached, OrdMap.lookup_insert] at h
  split_ifs at h with hpk
  · exact ⟨eavtPk_inj.mp hpk, (Option.some.inj h).symm⟩
  · cases h

theorem firstCached_consistent (w : EavHistory) : Consistent (firstCached w) (noteState w) "t" := by
  intro id entry h
  obtain ⟨rfl, rfl⟩ := firstCached_eq_some h
  rfl

/-- While rows are wanted, a cached note and one that is not both come out. -/
theorem two_notes_hydrate : ∃ w, Run noteStep EavHistory.Successive EavHistory.start w ∧
    (@hydrateEntities plainCodecs keyOrder noteRegistry (fun _ => true) (firstCached w) (noteState w)
      (twoNotesCall 3) List.reverse).length = 2 := by
  have hexec : (exec noteStep EavHistory.Successive EavHistory.start
      [noteCall .create "e" "a" 1, noteCall .create "f" "b" 2]).any (fun w =>
        decide (noteState w "e" ≠ ∅ ∧
          (@hitRows plainCodecs keyOrder noteRegistry (fun _ => true) (firstCached w)
            (twoNotesCall 3)).length = 1 ∧
          (@referenceRows plainCodecs keyOrder noteRegistry (fun _ => true) (noteState w)
            (twoNotesCall 3)).length = 2)) = true := by
    decide +kernel
  obtain ⟨w, hrun, hw⟩ := exists_run_of_exec hexec
  obtain ⟨hstate, hhits, hreference⟩ := of_decide_eq_true hw
  refine ⟨w, hrun, ?_⟩
  have heq := (@hydrate_eq_reference_iff plainCodecs keyOrder noteRegistry (fun _ => true)
    (firstCached w) (twoNotesCall 3) bitsText w.store (firstCached_consistent w) rfl List.reverse
    List.reverse_perm).1
  refine (congrArg List.length (heq ?_)).trans hreference
  apply @Transparent.mk plainCodecs keyOrder
  · intro id _ entry hentry _ hempty
    obtain ⟨rfl, rfl⟩ := firstCached_eq_some (Option.filter_eq_some_iff.mp hentry).1
    exact absurd hempty hstate
  · intro id _ entry hentry hpart
    obtain ⟨rfl, rfl⟩ := firstCached_eq_some (Option.filter_eq_some_iff.mp hentry).1
    cases hpart
  · apply Or.inl
    rw [hhits]
    decide

/-- A note that is not cached is not pulled once the cache gave as many rows as a page has. -/
theorem uncached_note_is_lost : ∃ w, exec noteStep EavHistory.Successive EavHistory.start
      [noteCall .create "e" "a" 1, noteCall .create "f" "b" 2] = some w ∧
    Consistent (firstCached w) (noteState w) "t" ∧ (twoNotesCall 1).shouldBreakEarly = false ∧
    (@hydrateEntities plainCodecs keyOrder noteRegistry (fun _ => true) (firstCached w) (noteState w)
      (twoNotesCall 1) id).length = 1 ∧
    (@referenceRows plainCodecs keyOrder noteRegistry (fun _ => true) (noteState w)
      (twoNotesCall 1)).length = 2 := by
  have hexec : (exec noteStep EavHistory.Successive EavHistory.start
      [noteCall .create "e" "a" 1, noteCall .create "f" "b" 2]).any (fun w => decide (
        (@hydrateEntities plainCodecs keyOrder noteRegistry (fun _ => true) (firstCached w)
          (noteState w) (twoNotesCall 1) id).length = 1 ∧
        (@referenceRows plainCodecs keyOrder noteRegistry (fun _ => true) (noteState w)
          (twoNotesCall 1)).length = 2)) = true := by
    decide +kernel
  obtain ⟨w, hw, hlengths⟩ := Option.any_eq_true _ _ |>.mp hexec
  obtain ⟨hlost, hreference⟩ := of_decide_eq_true hlengths
  exact ⟨w, hw, firstCached_consistent w, rfl, hlost, hreference⟩

end MetriEngine.Aegis

import MetriEngine.Foundation.Transition
import MetriEngine.Synopsis.Flush

/-!
# What a tenant's synopses count

The store of one partition from its start: it is written to, brought up to date from the
shared object, and flushed. Beside the cache stands what was merged into it, entity by entity.
-/
namespace MetriEngine.Synopsis
open Foundation Storage Eav

/-! ### Runs -/

/-- A partition, its cache, what the cache was filled with, and the last flush: the store
that it saw and the synopses that it wrote for each tenant. -/
structure World where
  store : MbfPartitionStore
  cache : SynopsesCache := ∅
  counted : String → Multiset Observation := fun _ => 0
  written : Option (MbfPartitionStore × OrdMap String Synopses) := none

inductive Action
  | write (op : StoreOp) (nowMs : ℤ)
  | sync (nowMs : ℤ) (answer : MbfConditionalGet VortexBody)
  | serialize (dirty : List TouchedEntity)
  | record (etag : String) (nowMs : ℤ)

section Step
variable [F64Text]

/-- What a flush adds to the cache of a tenant, where it has one. -/
def added (st : MbfPartitionStore) (dirty : List TouchedEntity) (tenantId : String) :
    List Observation :=
  (dirty.filter fun touched => isPlain touched && touched.1 = tenantId).flatMap fun touched =>
    entityObservations st (eavtPk touched.1 touched.2.2)

/-- Whether a tenant's synopses are taken from the cache, once the entities are merged. -/
def usesCache (st : MbfPartitionStore) (cache : SynopsesCache) (dirty : List TouchedEntity)
    (tenantId : String) : Bool :=
  ((dirty.foldl (flushEntity st) cache).lookup tenantId).any fun synopses => !synopses.isEmpty

/-- What a tenant's cache was filled with, after a flush. -/
def countedAfter (w : World) (dirty : List TouchedEntity) (tenantId : String) :
    Multiset Observation :=
  if tenantId ∈ touchedTenants dirty then
    if usesCache w.store w.cache dirty tenantId then
      w.counted tenantId + added w.store dirty tenantId
    else tenantObservations w.store tenantId
  else w.counted tenantId

def step (w : World) : Action → Option World
  | .write op nowMs =>
    match op.commit w.store nowMs with
    | .answered _ => some w
    | .changed st touched _ => some { w with store := st.addDirty touched }
  | .sync nowMs answer =>
    -- an object that is gone takes the whole partition with it, the cache included
    match answer with
    | .notFound =>
      if w.store.lastS3Etag.isSome then
        some { store := w.store.applyConditionalGet nowMs .notFound, written := w.written }
      else some { w with store := w.store.applyConditionalGet nowMs .notFound }
    | answer => some { w with store := w.store.applyConditionalGet nowMs answer }
  -- the entities that are dirty, in the order of the set
  | .serialize dirty =>
    if dirty.Nodup ∧ dirty.toFinset = w.store.dirtyEntities then
      let flushed := flushSynopses w.store w.cache dirty
      let st := w.store.serializeFlushArtifacts.1
      some ⟨st, flushed.1, countedAfter w dirty, some (st, flushed.2)⟩
    else none
  | .record etag nowMs => some { w with store := w.store.recordFlush etag nowMs }

end Step

/-! ### The property -/

/-- The statistics of the values of one attribute, or no synopsis where there are none. -/
def ExactFor (values : List F64) : Option MbfHyperSynopsis512 → Prop
  | none => values = []
  | some syn =>
    syn.validCount = values.length ∧ syn.sumExactI128 = (values.map tenThousandths).sum ∧
      (syn.minVal ∈ values ∧ ∀ v ∈ values, syn.minVal.place ≤ v.place) ∧
      (syn.maxVal ∈ values ∧ ∀ v ∈ values, v.place ≤ syn.maxVal.place)

/-- Each synopsis that the last flush wrote is that of what the tenant holds. -/
def CountsOnce [F64Text] (w : World) : Prop :=
  ∀ st written, w.written = some (st, written) → ∀ tenantId synopses,
    written.lookup tenantId = some synopses → ∀ attrId,
      ExactFor (valuesOf (tenantObservations st tenantId) attrId) (synopses.lookup attrId)

/-! ### The condition -/

section Guard
variable [F64Text]

/-- How often a flush merges an entity. -/
def timesDirty (dirty : List TouchedEntity) (tenantId pk : String) : ℕ :=
  (dirty.filter fun touched =>
    isPlain touched && touched.1 = tenantId && eavtPk touched.1 touched.2.2 = pk).length

def ofEntity (pk : String) (observed : Multiset Observation) : Multiset Observation :=
  observed.filter fun o => o.pk = pk

/-- An entity is counted by this flush and was not before, or was counted as it is and this
flush adds nothing. -/
def EntityCountedOnce (w : World) (dirty : List TouchedEntity) (tenantId pk : String) : Prop :=
  (timesDirty dirty tenantId pk = 1 ∧ ofEntity pk (w.counted tenantId) = 0 ∧
      pk ∉ w.store.transientEntities) ∨
    ((timesDirty dirty tenantId pk = 0 ∨ entityObservations w.store pk = []) ∧
      ofEntity pk (w.counted tenantId) =
        ofEntity pk (tenantObservations w.store tenantId : Multiset Observation))

/-- The entities that the cache of a tenant has met or should have. -/
def entitiesOf (w : World) (dirty : List TouchedEntity) (tenantId : String) : Finset String :=
  ((tenantObservations w.store tenantId).map Observation.pk).toFinset ∪
    (dirty.map fun touched => eavtPk touched.1 touched.2.2).toFinset ∪
    ((w.counted tenantId).map Observation.pk).toFinset

/-- The sum of each attribute fits its field. -/
def SumsFit (observations : List Observation) : Prop :=
  ∀ o ∈ observations,
    -2 ^ 127 ≤ ((valuesOf observations o.attrId).map tenThousandths).sum ∧
      ((valuesOf observations o.attrId).map tenThousandths).sum < 2 ^ 127

/-- At a flush: where the cache of a tenant is used, each entity of the tenant is in it once. -/
def EachOnce (w : World) : Action → Prop
  | .serialize dirty =>
    ∀ tenantId ∈ touchedTenants dirty,
      SumsFit (tenantObservations w.store tenantId) ∧
        (usesCache w.store w.cache dirty tenantId = true →
          ∀ pk ∈ entitiesOf w dirty tenantId, EntityCountedOnce w dirty tenantId pk)
  | _ => True

instance (w : World) (a : Action) : Decidable (EachOnce w a) := by
  unfold EachOnce EntityCountedOnce SumsFit
  cases a <;> infer_instance

end Guard

/-! ### Observations of an entity -/

section Observed
variable [F64Text] {st : MbfPartitionStore}

theorem observation_pk {key : PrimaryKey} {item : Item} {o : Observation}
    (h : observation key item = some o) : o.pk = key.pk ∧ o.value.isFinite = true := by
  unfold observation at h
  split at h
  · dsimp only at h
    split_ifs at h with hskip
    obtain ⟨val, hval, rfl⟩ := Option.map_eq_some_iff.mp h
    exact ⟨rfl, (Option.filter_eq_some_iff.mp hval).2⟩
  · cases h

theorem allFinite_filterMap (entries : List (PrimaryKey × Item)) :
    AllFinite (entries.filterMap fun e => observation e.1 e.2 : List Observation) := by
  intro o ho
  obtain ⟨e, -, he⟩ := List.mem_filterMap.mp ho
  exact (observation_pk he).2

theorem pk_of_entityObservations {pk : String} {o : Observation}
    (h : o ∈ entityObservations st pk) : o.pk = pk := by
  obtain ⟨e, he, ho⟩ := List.mem_filterMap.mp h
  exact (observation_pk ho).1.trans (of_decide_eq_true (List.mem_filter.mp he).2)

omit [F64Text] in
theorem startsWith_eavtPk (tenantId entityId : String) :
    Text.startsWith (eavtPk tenantId entityId) ("T#" ++ tenantId ++ "#E#") = true := by
  simp [Text.startsWith, eavtPk, String.toList_append]

/-- What a tenant's scan sees of one entity that it does not pass over. -/
theorem ofEntity_tenantObservations {tenantId pk : String}
    (htenant : Text.startsWith pk ("T#" ++ tenantId ++ "#E#") = true)
    (hplain : pk ∉ st.transientEntities) :
    ofEntity pk (tenantObservations st tenantId : Multiset Observation) =
      entityObservations st pk := by
  rw [ofEntity, Multiset.filter_coe, tenantObservations, entityObservations, List.filterMap_filter,
    List.filterMap_filter, List.filter_filterMap]
  congr 1
  apply List.filterMap_congr
  intro e _
  by_cases hpk : e.1.pk = pk
  · cases hobs : observation e.1 e.2 with
    | none => simp
    | some o => simp [hpk, htenant, hplain, (observation_pk hobs).1]
  · cases hobs : observation e.1 e.2 with
    | none => simp
    | some o => simp [hpk, (observation_pk hobs).1]

theorem ofEntity_entityObservations (pk pk' : String) :
    ofEntity pk (entityObservations st pk' : Multiset Observation) =
      if pk' = pk then (entityObservations st pk : Multiset Observation) else 0 := by
  rw [ofEntity]
  split_ifs with heq
  · rw [← heq, Multiset.filter_eq_self]
    intro o ho
    exact pk_of_entityObservations ho
  · rw [Multiset.filter_eq_nil]
    intro o ho hpk
    exact heq ((pk_of_entityObservations ho).symm.trans hpk)

theorem added_cons (touched : TouchedEntity) (dirty : List TouchedEntity) (tenantId : String) :
    added st (touched :: dirty) tenantId = added st [touched] tenantId ++ added st dirty tenantId := by
  unfold added
  rw [← List.flatMap_append, ← List.filter_append, List.singleton_append]

theorem added_singleton (touched : TouchedEntity) (tenantId : String) :
    added st [touched] tenantId =
      if isPlain touched = true ∧ touched.1 = tenantId then
        entityObservations st (eavtPk touched.1 touched.2.2)
      else [] := by
  by_cases h : isPlain touched = true ∧ touched.1 = tenantId <;> simp [added, h]

theorem allFinite_added (dirty : List TouchedEntity) (tenantId : String) :
    AllFinite (added st dirty tenantId : Multiset Observation) := by
  intro o ho
  obtain ⟨touched, -, ho⟩ := List.mem_flatMap.mp ho
  exact allFinite_filterMap _ o ho

/-- A flush adds an entity as often as it is dirty. -/
theorem ofEntity_added (dirty : List TouchedEntity) (tenantId pk : String) :
    ofEntity pk (added st dirty tenantId : Multiset Observation) =
      timesDirty dirty tenantId pk • (entityObservations st pk : Multiset Observation) := by
  induction dirty with
  | nil => rfl
  | cons touched dirty ih =>
    rw [added_cons, ← Multiset.coe_add, ofEntity, Multiset.filter_add, ← ofEntity, ← ofEntity, ih,
      added_singleton]
    by_cases htenant : isPlain touched = true ∧ touched.1 = tenantId
    · rw [if_pos htenant, ofEntity_entityObservations]
      by_cases hpk : eavtPk touched.1 touched.2.2 = pk
      · have htimes : timesDirty (touched :: dirty) tenantId pk =
            1 + timesDirty dirty tenantId pk := by
          unfold timesDirty
          rw [List.filter_cons_of_pos (by simp [htenant, ← hpk]), List.length_cons, add_comm]
        rw [if_pos hpk, htimes, add_nsmul, one_nsmul]
      · have htimes : timesDirty (touched :: dirty) tenantId pk = timesDirty dirty tenantId pk := by
          unfold timesDirty
          rw [List.filter_cons_of_neg (by simp [hpk])]
        rw [if_neg hpk, htimes, zero_add]
    · have htimes : timesDirty (touched :: dirty) tenantId pk = timesDirty dirty tenantId pk := by
        unfold timesDirty
        rw [List.filter_cons_of_neg]
        intro hall
        simp only [Bool.and_eq_true, decide_eq_true_eq] at hall
        exact htenant hall.1
      rw [if_neg htenant, htimes]
      simp [ofEntity]

end Observed

/-! ### One flush -/

section Flush
variable [F64Text] {st : MbfPartitionStore} {cache : SynopsesCache}
  {counted : String → Multiset Observation}

/-- Each tenant's cache holds the synopses of what was counted. Before the store knows an
object, nothing is counted without a cache. -/
def Follows (st : MbfPartitionStore) (cache : SynopsesCache)
    (counted : String → Multiset Observation) : Prop :=
  ∀ tenantId, match cache.lookup tenantId with
    | none => st.lastS3Etag = none → counted tenantId = 0
    | some synopses => MapExact synopses (counted tenantId)

theorem Follows.flushEntity (h : Follows st cache counted) (hfinite : ∀ t, AllFinite (counted t))
    (touched : TouchedEntity) :
    Follows st (flushEntity st cache touched) fun t => counted t + added st [touched] t := by
  intro tenantId
  dsimp only
  have hold := h tenantId
  rw [added_singleton]
  unfold Synopsis.flushEntity
  by_cases hplain : isPlain touched = true
  · have htouched := h touched.1
    have hobs : AllFinite (entityObservations st (eavtPk touched.1 touched.2.2) :
        Multiset Observation) := allFinite_filterMap _
    have hmerge {synopses : Synopses} (hexact : MapExact synopses (counted touched.1)) :
        MapExact ((synopsesOf (entityObservations st (eavtPk touched.1 touched.2.2))).entries.foldl
          mergeSynopsis synopses)
          (counted touched.1 + entityObservations st (eavtPk touched.1 touched.2.2)) := by
      refine hexact.merge (mapExact_synopsesOf hobs) ?_
      intro o ho
      cases Multiset.mem_add.mp ho with
      | inl hin => exact hfinite _ o hin
      | inr hin => exact hobs o hin
    simp only [hplain, Bool.not_true, Bool.false_eq_true, if_false, true_and]
    by_cases htenant : touched.1 = tenantId
    · subst htenant
      rw [if_pos rfl]
      cases hlookup : cache.lookup touched.1 with
      | some synopses =>
        rw [hlookup] at htouched
        simp only [OrdMap.contains, hlookup, Option.isSome_some, Bool.not_true, Bool.false_eq_true,
          and_false, if_false, OrdMap.lookup_insert_self]
        exact hmerge htouched
      | none =>
        rw [hlookup] at htouched
        by_cases hetag : st.lastS3Etag = none
        · simp only [OrdMap.contains, hlookup, hetag, Option.isSome_none, Bool.not_false, and_self,
            if_true, OrdMap.lookup_insert_self]
          exact hmerge ((htouched hetag).symm ▸ MapExact.empty)
        · simp only [hetag, false_and, if_false, hlookup]
          exact fun hnone => hnone.elim
    · rw [if_neg htenant, Multiset.coe_nil, add_zero]
      have hne : tenantId ≠ touched.1 := Ne.symm htenant
      split_ifs with hopen
      · rw [OrdMap.lookup_insert_self]
        dsimp only
        rw [OrdMap.lookup_insert_of_ne _ _ hne, OrdMap.lookup_insert_of_ne _ _ hne]
        exact hold
      · cases hlookup : cache.lookup touched.1 with
        | some synopses =>
          dsimp only
          rw [OrdMap.lookup_insert_of_ne _ _ hne]
          exact hold
        | none => exact hold
  · simp only [hplain, Bool.not_false, if_true, Bool.false_eq_true, false_and, if_false,
      Multiset.coe_nil, add_zero]
    exact hold

/-- The entities of a flush, one after the other. -/
theorem Follows.foldl (dirty : List TouchedEntity) :
    ∀ {cache : SynopsesCache} {counted : String → Multiset Observation}, Follows st cache counted →
      (∀ t, AllFinite (counted t)) →
      Follows st (dirty.foldl (Synopsis.flushEntity st) cache) fun t => counted t + added st dirty t := by
  induction dirty with
  | nil =>
    intro cache counted h _ tenantId
    have hold := h tenantId
    simpa [added] using hold
  | cons touched dirty ih =>
    intro cache counted h hfinite tenantId
    have hrest := ih (h.flushEntity hfinite touched) (by
      intro t o ho
      cases Multiset.mem_add.mp ho with
      | inl hin => exact hfinite t o hin
      | inr hin => exact allFinite_added _ _ o hin) tenantId
    dsimp only at hrest ⊢
    rw [added_cons, ← Multiset.coe_add, ← add_assoc]
    exact hrest

theorem lookup_flushEntity_of_ne {touched : TouchedEntity} {tenantId : String}
    (hne : isPlain touched = true → touched.1 ≠ tenantId) :
    (flushEntity st cache touched).lookup tenantId = cache.lookup tenantId := by
  unfold flushEntity
  by_cases hplain : isPlain touched = true
  · have htenant : tenantId ≠ touched.1 := (hne hplain).symm
    simp only [hplain, Bool.not_true, Bool.false_eq_true, if_false]
    split_ifs with hopen
    · rw [OrdMap.lookup_insert_self]
      dsimp only
      rw [OrdMap.lookup_insert_of_ne _ _ htenant, OrdMap.lookup_insert_of_ne _ _ htenant]
    · cases cache.lookup touched.1 with
      | some synopses => exact OrdMap.lookup_insert_of_ne _ _ htenant
      | none => rfl
  · simp [hplain]

omit [F64Text] in
theorem mem_touchedTenants {dirty : List TouchedEntity} {tenantId : String} :
    tenantId ∈ touchedTenants dirty ↔
      ∃ touched ∈ dirty, isPlain touched = true ∧ touched.1 = tenantId := by
  simp only [touchedTenants, List.mem_dedup, List.mem_map, List.mem_filter]
  constructor
  · rintro ⟨touched, ⟨hmem, hplain⟩, htenant⟩
    exact ⟨touched, hmem, hplain, htenant⟩
  · rintro ⟨touched, hmem, hplain, htenant⟩
    exact ⟨touched, ⟨hmem, hplain⟩, htenant⟩

/-- The cache of a tenant that a flush does not touch. -/
theorem lookup_foldl_flushEntity {dirty : List TouchedEntity} {tenantId : String} :
    ∀ {cache : SynopsesCache}, tenantId ∉ touchedTenants dirty →
      (dirty.foldl (flushEntity st) cache).lookup tenantId = cache.lookup tenantId := by
  induction dirty with
  | nil =>
    intro cache _
    rfl
  | cons touched dirty ih =>
    intro cache hnot
    rw [mem_touchedTenants] at hnot
    rw [List.foldl_cons, ih, lookup_flushEntity_of_ne]
    · intro hplain htenant
      exact hnot ⟨touched, List.mem_cons_self, hplain, htenant⟩
    · rw [mem_touchedTenants]
      rintro ⟨other, hmem, hother⟩
      exact hnot ⟨other, List.mem_cons_of_mem _ hmem, hother⟩

theorem buildTenantSynopses_congr {cache cache' : SynopsesCache} {tenantId : String}
    (h : cache.lookup tenantId = cache'.lookup tenantId) :
    (buildTenantSynopses st cache tenantId).2 = (buildTenantSynopses st cache' tenantId).2 ∧
      (buildTenantSynopses st cache tenantId).1.lookup tenantId =
        (buildTenantSynopses st cache' tenantId).1.lookup tenantId := by
  unfold buildTenantSynopses
  rw [h]
  split
  · exact ⟨rfl, h⟩
  · dsimp only
    split_ifs
    · exact ⟨rfl, h⟩
    · simp

theorem lookup_buildTenantSynopses_of_ne {tenantId other : String} (hne : other ≠ tenantId) :
    (buildTenantSynopses st cache tenantId).1.lookup other = cache.lookup other := by
  unfold buildTenantSynopses
  split
  · rfl
  · dsimp only
    split_ifs
    · rfl
    · exact OrdMap.lookup_insert_of_ne _ _ hne

/-- The tenants of a flush, one after the other: none minds the others. -/
theorem lookup_foldl_build (tenants : List String) :
    ∀ (cache : SynopsesCache) (written : OrdMap String Synopses), tenants.Nodup → ∀ tenantId,
      let out := tenants.foldl
        (fun acc t => ((buildTenantSynopses st acc.1 t).1,
          acc.2.insert t (buildTenantSynopses st acc.1 t).2)) (cache, written)
      out.1.lookup tenantId =
          (if tenantId ∈ tenants then (buildTenantSynopses st cache tenantId).1.lookup tenantId
          else cache.lookup tenantId) ∧
        out.2.lookup tenantId =
          (if tenantId ∈ tenants then some (buildTenantSynopses st cache tenantId).2
          else written.lookup tenantId) := by
  induction tenants with
  | nil =>
    intro cache written _ tenantId
    simp
  | cons t tenants ih =>
    intro cache written hnodup tenantId
    rw [List.nodup_cons] at hnodup
    have hrest := ih (buildTenantSynopses st cache t).1
      (written.insert t (buildTenantSynopses st cache t).2) hnodup.2 tenantId
    rw [List.foldl_cons]
    by_cases heq : tenantId = t
    · subst heq
      rw [if_neg hnodup.1, if_neg hnodup.1, OrdMap.lookup_insert_self] at hrest
      rw [if_pos List.mem_cons_self, if_pos List.mem_cons_self]
      exact hrest
    · have hkept : (buildTenantSynopses st cache t).1.lookup tenantId = cache.lookup tenantId :=
        lookup_buildTenantSynopses_of_ne heq
      obtain ⟨hsnd, hfst⟩ := @buildTenantSynopses_congr _ st _ _ _ hkept
      rw [hsnd, hfst, hkept, OrdMap.lookup_insert_of_ne _ _ heq] at hrest
      simp only [List.mem_cons, heq, false_or]
      exact hrest

theorem flushSynopses_lookup (dirty : List TouchedEntity) (tenantId : String) :
    (flushSynopses st cache dirty).1.lookup tenantId =
        (if tenantId ∈ touchedTenants dirty then
          (buildTenantSynopses st (dirty.foldl (flushEntity st) cache) tenantId).1.lookup tenantId
        else cache.lookup tenantId) ∧
      (flushSynopses st cache dirty).2.lookup tenantId =
        (if tenantId ∈ touchedTenants dirty then
          some (buildTenantSynopses st (dirty.foldl (flushEntity st) cache) tenantId).2
        else none) := by
  have hbuild := @lookup_foldl_build _ st (touchedTenants dirty)
    (dirty.foldl (flushEntity st) cache) ∅ (List.nodup_dedup _) tenantId
  rw [OrdMap.lookup_empty] at hbuild
  refine ⟨hbuild.1.trans ?_, hbuild.2⟩
  split_ifs with hmem
  · rfl
  · exact lookup_foldl_flushEntity hmem

/-- A tenant's cache where it has any, and what it writes then. -/
theorem build_of_usesCache {dirty : List TouchedEntity} {tenantId : String}
    (huses : usesCache st cache dirty tenantId = true) :
    ∃ synopses, (dirty.foldl (flushEntity st) cache).lookup tenantId = some synopses ∧
      buildTenantSynopses st (dirty.foldl (flushEntity st) cache) tenantId =
        (dirty.foldl (flushEntity st) cache, synopses) := by
  unfold usesCache at huses
  cases hlookup : (dirty.foldl (flushEntity st) cache).lookup tenantId with
  | none => simp [hlookup] at huses
  | some synopses =>
    rw [hlookup, Option.any_some] at huses
    refine ⟨synopses, rfl, ?_⟩
    unfold buildTenantSynopses
    rw [hlookup, Option.filter_some, if_pos huses]

/-- Where it has none, the scan. -/
theorem build_of_not_usesCache {dirty : List TouchedEntity} {tenantId : String}
    (huses : usesCache st cache dirty tenantId = false) :
    buildTenantSynopses st (dirty.foldl (flushEntity st) cache) tenantId =
      (if (synopsesOf (tenantObservations st tenantId)).isEmpty then
        dirty.foldl (flushEntity st) cache
      else (dirty.foldl (flushEntity st) cache).insert tenantId
        (synopsesOf (tenantObservations st tenantId)),
        synopsesOf (tenantObservations st tenantId)) := by
  have hfilter : ((dirty.foldl (flushEntity st) cache).lookup tenantId).filter
      (fun synopses => !synopses.isEmpty) = none := by
    unfold usesCache at huses
    cases hlookup : (dirty.foldl (flushEntity st) cache).lookup tenantId with
    | none => rfl
    | some synopses =>
      rw [hlookup, Option.any_some] at huses
      rw [Option.filter_some, if_neg (by simp [huses])]
  unfold buildTenantSynopses
  rw [hfilter]
  dsimp only
  split_ifs with hempty
  · rw [OrdMap.isEmpty_iff.mp hempty]
  · rfl

end Flush

/-! ### Runs whose flushes count each entity once -/

section Runs
variable [F64Text] {w w' : World}

/-- The caches are those of what was counted. -/
structure Inv (w : World) : Prop where
  finite : ∀ tenantId, AllFinite (w.counted tenantId)
  exact : ∀ tenantId, match w.cache.lookup tenantId with
    | none => w.counted tenantId = 0
    | some synopses => MapExact synopses (w.counted tenantId)

omit [F64Text] in
theorem Inv.follows (h : Inv w) : Follows w.store w.cache w.counted := by
  intro tenantId
  have hexact := h.exact tenantId
  cases hlookup : w.cache.lookup tenantId with
  | none =>
    rw [hlookup] at hexact
    exact fun _ => hexact
  | some synopses =>
    rw [hlookup] at hexact
    exact hexact

omit [F64Text] in
theorem MapExact.eq_nil {observations : List Observation}
    (h : MapExact ∅ (observations : Multiset Observation)) : observations = [] := by
  apply List.eq_nil_iff_forall_not_mem.mpr
  intro o ho
  have hnone : attrValues (observations : Multiset Observation) o.attrId = 0 := h o.attrId
  have hval : o.value ∈ attrValues (observations : Multiset Observation) o.attrId :=
    Multiset.mem_map_of_mem _ (Multiset.mem_filter.mpr ⟨ho, rfl⟩)
  exact Multiset.notMem_zero _ (hnone ▸ hval)

theorem Inv.serialize (h : Inv w) (dirty : List TouchedEntity) :
    Inv { store := w.store.serializeFlushArtifacts.1
          cache := (flushSynopses w.store w.cache dirty).1
          counted := countedAfter w dirty
          written := some (w.store.serializeFlushArtifacts.1,
            (flushSynopses w.store w.cache dirty).2) } := by
  have hscan (tenantId : String) : AllFinite (tenantObservations w.store tenantId :
      Multiset Observation) := allFinite_filterMap _
  refine ⟨?_, ?_⟩
  · intro tenantId
    dsimp only [countedAfter]
    split_ifs with hmem huses
    · intro o ho
      cases Multiset.mem_add.mp ho with
      | inl hin => exact h.finite tenantId o hin
      | inr hin => exact allFinite_added _ _ o hin
    · exact hscan tenantId
    · exact h.finite tenantId
  · intro tenantId
    have hfollows := h.follows.foldl dirty h.finite tenantId
    dsimp only [countedAfter]
    rw [(flushSynopses_lookup dirty tenantId).1]
    by_cases hmem : tenantId ∈ touchedTenants dirty
    · rw [if_pos hmem, if_pos hmem]
      cases huses : usesCache w.store w.cache dirty tenantId with
      | true =>
        obtain ⟨synopses, hlookup, hbuild⟩ := build_of_usesCache huses
        rw [hlookup] at hfollows
        rw [hbuild, hlookup, if_pos rfl]
        exact hfollows
      | false =>
        rw [build_of_not_usesCache huses, if_neg Bool.false_ne_true]
        dsimp only
        split_ifs with hempty
        · have hexact := mapExact_synopsesOf (hscan tenantId)
          rw [OrdMap.isEmpty_iff.mp hempty] at hexact
          rw [hexact.eq_nil]
          cases hlookup : (dirty.foldl (flushEntity w.store) w.cache).lookup tenantId with
          | none => rfl
          | some synopses =>
            rw [usesCache, hlookup, Option.any_some, Bool.not_eq_false'] at huses
            rw [OrdMap.isEmpty_iff.mp huses]
            exact MapExact.empty
        · rw [OrdMap.lookup_insert_self]
          exact mapExact_synopsesOf (hscan tenantId)
    · rw [if_neg hmem, if_neg hmem]
      exact h.exact tenantId

theorem Inv.step {a : Action} (h : Inv w) (hstep : step w a = some w') : Inv w' := by
  cases a with
  | write op nowMs =>
    simp only [Synopsis.step] at hstep
    cases hop : op.commit w.store nowMs with
    | answered result =>
      rw [hop] at hstep
      cases hstep
      exact h
    | changed st touched reply =>
      rw [hop] at hstep
      cases hstep
      exact ⟨h.finite, h.exact⟩
  | sync nowMs answer =>
    simp only [Synopsis.step] at hstep
    cases answer with
    | notFound =>
      dsimp only at hstep
      split_ifs at hstep with hknown
      · cases hstep
        exact ⟨fun _ o ho => absurd ho (Multiset.notMem_zero o), fun _ => rfl⟩
      · cases hstep
        exact ⟨h.finite, h.exact⟩
    | notModified =>
      cases hstep
      exact ⟨h.finite, h.exact⟩
    | modified payload =>
      cases hstep
      exact ⟨h.finite, h.exact⟩
  | serialize dirty =>
    simp only [Synopsis.step] at hstep
    split_ifs at hstep with hdirty
    cases hstep
    exact h.serialize dirty
  | record etag nowMs =>
    cases hstep
    exact ⟨h.finite, h.exact⟩

/-- Entity by entity, what the cache counts is what the tenant holds. -/
theorem counted_eq {dirty : List TouchedEntity} {tenantId : String}
    (honce : ∀ pk ∈ entitiesOf w dirty tenantId, EntityCountedOnce w dirty tenantId pk) :
    w.counted tenantId + added w.store dirty tenantId = tenantObservations w.store tenantId := by
  apply Multiset.ext.mpr
  intro o
  by_cases hpk : o.pk ∈ entitiesOf w dirty tenantId
  · have hentity : ofEntity o.pk (w.counted tenantId + added w.store dirty tenantId) =
        ofEntity o.pk (tenantObservations w.store tenantId : Multiset Observation) := by
      rw [ofEntity, Multiset.filter_add, ← ofEntity, ← ofEntity, ofEntity_added]
      cases honce o.pk hpk with
      | inl hnew =>
        obtain ⟨htimes, hfresh, hplain⟩ := hnew
        have htenant : Text.startsWith o.pk ("T#" ++ tenantId ++ "#E#") = true := by
          obtain ⟨touched, htouched⟩ := List.exists_mem_of_length_pos (htimes ▸ Nat.one_pos)
          have hall := (List.mem_filter.mp htouched).2
          simp only [Bool.and_eq_true, decide_eq_true_eq] at hall
          rw [← hall.2, ← hall.1.2]
          exact startsWith_eavtPk _ _
        rw [htimes, hfresh, one_nsmul, zero_add, ofEntity_tenantObservations htenant hplain]
      | inr hold =>
        obtain ⟨hnothing, hcounted⟩ := hold
        have hzero : timesDirty dirty tenantId o.pk •
            (entityObservations w.store o.pk : Multiset Observation) = 0 := by
          cases hnothing with
          | inl htimes => rw [htimes, zero_nsmul]
          | inr hnone => rw [hnone, Multiset.coe_nil, nsmul_zero]
        rw [hzero, add_zero, hcounted]
    have hcount (observed : Multiset Observation) :
        Multiset.count o (ofEntity o.pk observed) = Multiset.count o observed :=
      Multiset.count_filter_of_pos rfl
    rw [← hcount, hentity, hcount]
  · -- an entity that neither side has met
    simp only [entitiesOf, Finset.mem_union, List.mem_toFinset, Multiset.mem_toFinset, not_or] at hpk
    obtain ⟨⟨hheld, hdirty⟩, hcounted⟩ := hpk
    rw [Multiset.count_eq_zero.mpr, Multiset.count_eq_zero.mpr]
    · intro ho
      exact hheld (List.mem_map_of_mem ho)
    · intro ho
      cases Multiset.mem_add.mp ho with
      | inl hin => exact hcounted (Multiset.mem_map_of_mem _ hin)
      | inr hin =>
        obtain ⟨touched, htouched, ho⟩ := List.mem_flatMap.mp hin
        rw [pk_of_entityObservations ho] at hdirty
        exact hdirty (List.mem_map_of_mem (List.mem_filter.mp htouched).1)

omit [F64Text] in
/-- The synopses of a tenant's observations are their statistics, where the sums fit. -/
theorem MapExact.exactFor {synopses : Synopses} {observations : List Observation}
    (h : MapExact synopses observations) (hfit : SumsFit observations) (attrId : ℕ) :
    ExactFor (valuesOf observations attrId) (synopses.lookup attrId) := by
  have hattr := h attrId
  rw [attrValues_coe] at hattr
  cases hlookup : synopses.lookup attrId with
  | none =>
    rw [hlookup] at hattr
    exact Multiset.coe_eq_zero _ |>.mp hattr
  | some syn =>
    rw [hlookup] at hattr
    obtain ⟨o, ho, -⟩ := List.mem_map.mp (Multiset.mem_coe.mp hattr.minVal.1)
    obtain ⟨ho, hattrId⟩ := List.mem_filter.mp ho
    have hbounds := hfit o ho
    rw [of_decide_eq_true hattrId] at hbounds
    refine ⟨hattr.validCount, ?_, hattr.minVal, hattr.maxVal⟩
    rw [hattr.sum, Multiset.map_coe, Multiset.sum_coe, wrapI128_of_bounds hbounds.1 hbounds.2]

theorem countsOnce_serialize (h : Inv w) {dirty : List TouchedEntity}
    (honce : EachOnce w (.serialize dirty)) (hstep : step w (.serialize dirty) = some w') :
    CountsOnce w' := by
  simp only [step] at hstep
  split_ifs at hstep with hdirty
  cases hstep
  intro st written hwritten tenantId synopses hsynopses
  cases hwritten
  rw [(flushSynopses_lookup dirty tenantId).2] at hsynopses
  split_ifs at hsynopses with hmem
  cases hsynopses
  obtain ⟨hfit, heach⟩ := honce tenantId hmem
  -- neither the entities nor their transience change while they are serialised
  have hsame : tenantObservations w.store.serializeFlushArtifacts.1 tenantId =
      tenantObservations w.store tenantId := rfl
  rw [hsame]
  refine MapExact.exactFor ?_ hfit
  cases huses : usesCache w.store w.cache dirty tenantId with
  | true =>
    have hfollows := h.follows.foldl dirty h.finite tenantId
    obtain ⟨merged, hlookup, hbuild⟩ := build_of_usesCache huses
    rw [hlookup] at hfollows
    dsimp only at hfollows
    rw [counted_eq (heach huses)] at hfollows
    rw [hbuild]
    exact hfollows
  | false =>
    rw [build_of_not_usesCache huses]
    exact mapExact_synopsesOf (allFinite_filterMap _)

/-- Where each flush finds each entity of a tenant that it takes from the cache either new to it
or as it was counted, what it writes for the tenant is what the tenant holds. -/
theorem synopses_count_once (st : MbfPartitionStore) (hrun : Run step EachOnce { store := st } w) :
    CountsOnce w := by
  have hinv : Inv w ∧ CountsOnce w := by
    apply @Run.invariant World Action step EachOnce (fun w => Inv w ∧ CountsOnce w) _ _ _ hrun
    · refine ⟨⟨?_, fun _ => rfl⟩, ?_⟩
      · intro _ o ho
        exact absurd ho (Multiset.notMem_zero o)
      · intro _ _ hwritten
        cases hwritten
    · intro s a t hs honce hstep
      refine ⟨hs.1.step hstep, ?_⟩
      cases a with
      | serialize dirty => exact countsOnce_serialize hs.1 honce hstep
      | write op nowMs =>
        simp only [step] at hstep
        cases hop : op.commit s.store nowMs with
        | answered result =>
          rw [hop] at hstep
          cases hstep
          exact hs.2
        | changed st' touched reply =>
          rw [hop] at hstep
          cases hstep
          exact hs.2
      | sync nowMs answer =>
        simp only [step] at hstep
        cases answer with
        | notFound =>
          dsimp only at hstep
          split_ifs at hstep with hknown <;> cases hstep <;> exact hs.2
        | notModified =>
          cases hstep
          exact hs.2
        | modified payload =>
          cases hstep
          exact hs.2
      | record etag nowMs =>
        cases hstep
        exact hs.2
  exact hinv.2

end Runs

/-! ### A gauge -/

/-- A reading of the gauge, and the entry of the log that it comes with. -/
def readingPuts (gauge : String) (tx : Byte) (value : ℤ) : List TransactWriteItem :=
  [⟨some
    { tableName := "eav"
      item := (((∅ : Item).insert "PK" (.s (eavtPk "acme" gauge))).insert "SK"
        (.b [0, 8, 0, 0, 0, 0, 0, 0, 0, tx, 1])).insert "v" (.n (bitsDisplay (F64.ofInt value)))
      conditionExpression := none
      expressionAttributeValues := ∅ }⟩,
    ⟨some
    { tableName := "eav"
      item := ((((∅ : Item).insert "PK" (.s "T#acme#TX")).insert "SK" (.b [tx])).insert "entity_type"
        (.s "gauge")).insert "entity_id" (.s gauge)
      conditionExpression := none
      expressionAttributeValues := ∅ }⟩]

/-- The reading is written and flushed. -/
def readAndFlush (gauge : String) (tx : Byte) (value : ℤ) (etag : String) : List Action :=
  [.write (.transactWrite (readingPuts gauge tx value)) 0, .serialize [("acme", "gauge", gauge)],
    .record etag 0]

/-- How many readings the last flush wrote for the gauges, and how many they have. -/
def gaugeCounts [F64Text] (w : World) : Option (ℕ × ℕ) := do
  let (st, written) ← w.written
  let syn ← (← written.lookup "acme").lookup 8
  return (syn.validCount, (valuesOf (tenantObservations st "acme") 8).length)

/-- Two gauges, each read and flushed once, are counted once. -/
theorem two_gauges_count_once : ∃ w : World,
    (@CountsOnce bitsText w) ∧ @gaugeCounts bitsText w = some (2, 2) := by
  have hexec : (exec (@step bitsText) (@EachOnce bitsText) { store := {} }
      (readAndFlush "g1" 1 5 "a" ++ readAndFlush "g2" 2 7 "b")).any
        (fun w => decide (@gaugeCounts bitsText w = some (2, 2))) = true := by
    decide +kernel
  obtain ⟨w, hrun, hw⟩ := exists_run_of_exec hexec
  exact ⟨w, @synopses_count_once bitsText w {} hrun, of_decide_eq_true hw⟩

/-- A gauge that is read again is flushed again, and its first reading is counted twice. -/
theorem second_reading_counts_the_first_again : ∃ w : World,
    Run (@step bitsText) (fun _ _ => True) { store := {} } w ∧ ¬ @CountsOnce bitsText w := by
  have hexec : (exec (@step bitsText) (fun _ _ => True) { store := {} }
      (readAndFlush "g1" 1 5 "a" ++ readAndFlush "g1" 2 7 "b")).any
        (fun w => decide (@gaugeCounts bitsText w = some (3, 2))) = true := by
    decide +kernel
  obtain ⟨w, hrun, hw⟩ := exists_run_of_exec hexec
  refine ⟨w, hrun, ?_⟩
  intro honce
  have hcounts := of_decide_eq_true hw
  simp only [gaugeCounts, Option.bind_eq_bind, Option.bind_eq_some_iff, Option.pure_def,
    Option.some.injEq, Prod.mk.injEq] at hcounts
  obtain ⟨⟨st, written⟩, hwritten, synopses, hsynopses, syn, hsyn, hvalid, hlength⟩ := hcounts
  have hexact := @honce st written hwritten "acme" synopses hsynopses 8
  rw [hsyn] at hexact
  have hcount := hexact.1
  rw [hvalid, hlength] at hcount
  exact absurd hcount (by decide)

end MetriEngine.Synopsis

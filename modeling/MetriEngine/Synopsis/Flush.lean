import MetriEngine.Eav.Datom
import MetriEngine.Storage.Client
import MetriEngine.Synopsis.Hyper

/-!
# The synopses of a tenant at a flush

A flush writes, for each tenant it touches, one synopsis for each numeric attribute. It takes
them from a cache that the entities of every flush are merged into, or from a scan of the
tenant's items where the cache has nothing. An entity that is flushed twice is merged twice.
-/
namespace MetriEngine.Synopsis
open Foundation Storage Eav

/-! ### Observations -/

/-- A finite number that an entity asserts for a numeric attribute. -/
structure Observation where
  pk : String
  attrId : ℕ
  value : F64
deriving DecidableEq

section Scan
variable [F64Text]

/-- The observation in an item: of an assertion, beyond the seven attributes of the system. -/
def observation (key : PrimaryKey) (item : Item) : Option Observation :=
  match key.sk with
  | [a, b, _, _, _, _, _, _, _, _, asserted] =>
    let attrId := a.val * 256 + b.val
    if asserted = 0 ∨ attrId ≤ 7 then none
    else
      ((((item.lookup "v").bind avNumber).bind F64Text.parse).filter F64.isFinite).map fun val =>
        ⟨key.pk, attrId, val⟩
  | _ => none

/-- The observations of one entity: its keys lie together in the tree. -/
def entityObservations (st : MbfPartitionStore) (pk : String) : List Observation :=
  (st.items.entries.filter fun e => e.1.pk = pk).filterMap fun e => observation e.1 e.2

/-- The observations of a tenant, but for its transient entities. -/
def tenantObservations (st : MbfPartitionStore) (tenantId : String) : List Observation :=
  (st.items.entries.filter fun e =>
      Text.startsWith e.1.pk ("T#" ++ tenantId ++ "#E#") && e.1.pk ∉ st.transientEntities).filterMap
    fun e => observation e.1 e.2

end Scan

/-- The values of one attribute. -/
def valuesOf (observations : List Observation) (attrId : ℕ) : List F64 :=
  (observations.filter fun o => o.attrId = attrId).map Observation.value

/-- The synopses of the attributes that are observed. -/
def synopsesOf (observations : List Observation) : OrdMap ℕ MbfHyperSynopsis512 :=
  (∅ : OrdMap ℕ MbfHyperSynopsis512).insertList
    (observations.map fun o => (o.attrId, .fromObservations (valuesOf observations o.attrId)))

/-! ### The flush -/

abbrev Synopses := OrdMap ℕ MbfHyperSynopsis512
abbrev SynopsesCache := OrdMap String Synopses

def mergeSynopsis (cache : Synopses) (e : ℕ × MbfHyperSynopsis512) : Synopses :=
  match cache.lookup e.1 with
  | some existing => cache.insert e.1 (existing.merge e.2)
  | none => cache.insert e.1 e.2

/-- The entities that a flush writes no files for. -/
def isPlain (touched : TouchedEntity) : Bool :=
  !(touched.2.1 = "outbox_event" || touched.2.1 = "audit_log" || touched.2.1 = "domain_fault")

section Flush
variable [F64Text]

/-- The synopses of one entity go into the cache of its tenant, where there is one. A store
that was never written to the shared object opens one. -/
def flushEntity (st : MbfPartitionStore) (cache : SynopsesCache) (touched : TouchedEntity) :
    SynopsesCache :=
  if !isPlain touched then cache
  else
    let cache := if st.lastS3Etag = none ∧ !cache.contains touched.1 then cache.insert touched.1 ∅
      else cache
    match cache.lookup touched.1 with
    | some synopses =>
      cache.insert touched.1
        ((synopsesOf (entityObservations st (eavtPk touched.1 touched.2.2))).entries.foldl
          mergeSynopsis synopses)
    | none => cache

/-- `build_tenant_synopses`: the cache if it has any, else what the items say. -/
def buildTenantSynopses (st : MbfPartitionStore) (cache : SynopsesCache) (tenantId : String) :
    SynopsesCache × Synopses :=
  match (cache.lookup tenantId).filter fun synopses => !synopses.isEmpty with
  | some synopses => (cache, synopses)
  | none =>
    let synopses := synopsesOf (tenantObservations st tenantId)
    if synopses.isEmpty then (cache, ∅) else (cache.insert tenantId synopses, synopses)

/-- The tenants that a flush writes synopses for. -/
def touchedTenants (dirty : List TouchedEntity) : List String :=
  ((dirty.filter isPlain).map Prod.fst).dedup

/-- The part of `serialize_flush_artifacts` that the synopses have: the cache it leaves and
what it writes for each tenant. -/
def flushSynopses (st : MbfPartitionStore) (cache : SynopsesCache) (dirty : List TouchedEntity) :
    SynopsesCache × OrdMap String Synopses :=
  (touchedTenants dirty).foldl
    (fun acc tenantId =>
      let (cache, synopses) := buildTenantSynopses st acc.1 tenantId
      (cache, acc.2.insert tenantId synopses))
    (dirty.foldl (flushEntity st) cache, ∅)

end Flush

/-! ### Synopses of observations -/

/-- The values of one attribute, in no order. -/
def attrValues (observed : Multiset Observation) (attrId : ℕ) : Multiset F64 :=
  (observed.filter fun o => o.attrId = attrId).map Observation.value

theorem attrValues_add (xs ys : Multiset Observation) (attrId : ℕ) :
    attrValues (xs + ys) attrId = attrValues xs attrId + attrValues ys attrId := by
  rw [attrValues, Multiset.filter_add, Multiset.map_add]
  rfl

theorem attrValues_coe (observations : List Observation) (attrId : ℕ) :
    attrValues (observations : Multiset Observation) attrId = valuesOf observations attrId := by
  rw [attrValues, Multiset.filter_coe, Multiset.map_coe]
  rfl

/-- Only numbers that are finite are observed. -/
def AllFinite (observed : Multiset Observation) : Prop := ∀ o ∈ observed, o.value.isFinite = true

theorem AllFinite.attrValues {observed : Multiset Observation} (h : AllFinite observed)
    (attrId : ℕ) : ∀ v ∈ attrValues observed attrId, v.isFinite = true := by
  intro v hv
  obtain ⟨o, ho, rfl⟩ := Multiset.mem_map.mp hv
  exact h o (Multiset.mem_filter.mp ho).1

/-- The synopses of what was observed: one for each attribute with values, and no other. -/
def MapExact (synopses : Synopses) (observed : Multiset Observation) : Prop :=
  ∀ attrId, match synopses.lookup attrId with
    | none => attrValues observed attrId = 0
    | some syn => Summarises syn (attrValues observed attrId)

theorem MapExact.empty : MapExact ∅ 0 := fun _ => rfl

theorem lookup_synopsesOf (observations : List Observation) (attrId : ℕ) :
    (synopsesOf observations).lookup attrId =
      if valuesOf observations attrId = [] then none
      else some (.fromObservations (valuesOf observations attrId)) := by
  have hkeys : (observations.map fun o => (o.attrId, MbfHyperSynopsis512.fromObservations
      (valuesOf observations o.attrId))).map Prod.fst = observations.map Observation.attrId := by
    rw [List.map_map]
    rfl
  split_ifs with hnone
  · refine ((∅ : Synopses).lookup_insertList_eq_none).mpr ⟨rfl, ?_⟩
    rw [hkeys]
    intro hmem
    obtain ⟨o, ho, rfl⟩ := List.mem_map.mp hmem
    have hval : o.value ∈ valuesOf observations o.attrId :=
      List.mem_map_of_mem (List.mem_filter.mpr ⟨ho, by simp⟩)
    exact List.not_mem_nil (hnone ▸ hval)
  · cases hlookup : (synopsesOf observations).lookup attrId with
    | none =>
      have hnot := ((∅ : Synopses).lookup_insertList_eq_none.mp hlookup).2
      rw [hkeys] at hnot
      obtain ⟨v, hv⟩ := List.exists_mem_of_ne_nil _ hnone
      obtain ⟨o, ho, -⟩ := List.mem_map.mp hv
      obtain ⟨ho, hattr⟩ := List.mem_filter.mp ho
      exact absurd (of_decide_eq_true hattr ▸ List.mem_map_of_mem ho) hnot
    | some syn =>
      cases OrdMap.mem_of_lookup_insertList hlookup with
      | inl hmem =>
        obtain ⟨o, -, heq⟩ := List.mem_map.mp hmem
        cases heq
        rfl
      | inr hold => exact absurd hold (by simp)

/-- One scan of observations gives their synopses. -/
theorem mapExact_synopsesOf {observations : List Observation}
    (hfinite : AllFinite (observations : Multiset Observation)) :
    MapExact (synopsesOf observations) observations := by
  intro attrId
  have hvalues := hfinite.attrValues attrId
  rw [lookup_synopsesOf, attrValues_coe]
  rw [attrValues_coe] at hvalues
  split_ifs with hnone
  · rw [hnone]
    rfl
  · exact summarises_fromObservations hnone hvalues

theorem lookup_foldl_mergeSynopsis (entries : List (ℕ × MbfHyperSynopsis512)) :
    ∀ cache : Synopses, (entries.map Prod.fst).Nodup → ∀ attrId,
      (entries.foldl mergeSynopsis cache).lookup attrId =
        Option.merge MbfHyperSynopsis512.merge (cache.lookup attrId)
          ((entries.find? fun e => e.1 = attrId).map Prod.snd) := by
  induction entries with
  | nil =>
    intro cache _ attrId
    simp
  | cons e entries ih =>
    intro cache hnodup attrId
    rw [List.map_cons, List.nodup_cons] at hnodup
    rw [List.foldl_cons, ih _ hnodup.2]
    by_cases heq : e.1 = attrId
    · have hrest : (entries.find? fun e' => e'.1 = attrId) = none := by
        rw [List.find?_eq_none]
        intro e' he' hattr
        exact hnodup.1 (heq.trans (of_decide_eq_true hattr).symm ▸ List.mem_map_of_mem he')
      rw [hrest, List.find?_cons_of_pos (by simpa using heq), ← heq, mergeSynopsis]
      cases cache.lookup e.1 <;> simp
    · rw [List.find?_cons_of_neg (by simpa using heq), mergeSynopsis]
      cases cache.lookup e.1 <;> simp [Ne.symm heq]

/-- Merging the synopses of what is observed anew. -/
theorem MapExact.merge {cache synopses : Synopses} {xs ys : Multiset Observation}
    (hx : MapExact cache xs) (hy : MapExact synopses ys) (hfinite : AllFinite (xs + ys)) :
    MapExact (synopses.entries.foldl mergeSynopsis cache) (xs + ys) := by
  intro attrId
  have hcache := hx attrId
  have hnew := hy attrId
  have hvalues := hfinite.attrValues attrId
  have hlookup := lookup_foldl_mergeSynopsis synopses.entries cache synopses.keys_nodup attrId
  rw [← OrdMap.lookup] at hlookup
  rw [hlookup, attrValues_add]
  rw [attrValues_add] at hvalues
  cases hold : cache.lookup attrId with
  | none =>
    rw [hold] at hcache
    cases hadd : synopses.lookup attrId with
    | none =>
      rw [hadd] at hnew
      dsimp only at hcache hnew
      rw [Option.merge_none_left, hcache, hnew]
      rfl
    | some syn =>
      rw [hadd] at hnew
      dsimp only at hcache hnew
      rw [Option.merge_none_left, hcache, zero_add]
      exact hnew
  | some syn =>
    rw [hold] at hcache
    cases hadd : synopses.lookup attrId with
    | none =>
      rw [hadd] at hnew
      dsimp only at hcache hnew
      rw [Option.merge_none_right, hnew, add_zero]
      exact hcache
    | some other =>
      rw [hadd] at hnew
      exact hcache.merge hnew hvalues

end MetriEngine.Synopsis

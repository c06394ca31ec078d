import MetriEngine.Eav.ReadCache

/-!
# Reading what was written

The calls on the entities of one tenant, cut at the places where others can come in
between: a transaction commits and later invalidates, a `pull` looks into the cache,
later reads the storage and later inserts what it read, and so does the warm-up. A
reader that was overtaken inserts a state from before a transaction that has returned,
and every later `pull` answers from it.
-/
namespace MetriEngine.Eav
open Foundation Storage

/-! ### Lists that grow -/

theorem mem_drop_of_prefix {α : Type} {l l' : List α} (h : l <+: l') {m n : ℕ} (hmn : m ≤ n) {a : α}
    (ha : a ∈ l.drop n) : a ∈ l'.drop m := by
  obtain ⟨later, rfl⟩ := h
  have hn : a ∈ (l ++ later).drop n := by
    rw [List.drop_append]
    exact List.mem_append_left _ ha
  rw [show n = m + (n - m) by omega, ← List.drop_drop] at hn
  exact List.mem_of_mem_drop hn

theorem getElem?_of_extends {α : Type} {l l' : List α} (h : l <+: l') {n : ℕ} {a : α}
    (ha : l[n]? = some a) : l'[n]? = some a := by
  obtain ⟨later, rfl⟩ := h
  obtain ⟨hn, rfl⟩ := List.getElem?_eq_some_iff.mp ha
  rw [List.getElem?_append_left hn, List.getElem?_eq_getElem hn]

/-! ### Calls -/

/-- How far a call has come. A version counts the commits before it; `due` is the
version that the last transaction on the entity to return had committed when the
`pull` started. -/
inductive CacheCall
  | committed (pks : List String) (version : ℕ)
  | invalidated
  | looked (entityId : String) (attrs : Option (List String)) (due : ℕ)
  | fetched (entityId : String) (attrs : Option (List String)) (due version : ℕ) (map : EntityMap)
  | answered (entityId : String) (attrs : Option (List String)) (due : ℕ) (answer : EntityMap)
  | warming (version : ℕ) (states : OrdMap String EntityMap)
  | warmed
deriving DecidableEq

inductive CacheAction
  | commit (written : List String) (batch : List TransactWriteItem)
  | invalidate (c : ℕ)
  | pull (entityId : String) (attrs : Option (List String))
  | read (c : ℕ)
  | insert (c : ℕ) (keys : List String)
  | warm (targets : List String)
  | insertStates (c : ℕ) (keys : String → List String)
  | evict (entityId : String)
  | tick (elapsed : ℕ)

/-- Storage, cache, clock and calls; with the stores after each commit, the first one
included, and by partition key the version that the transactions to return have reached. -/
structure CacheWorld where
  store : MbfPartitionStore
  cache : EavCache
  now : ℕ
  calls : List CacheCall
  stores : List MbfPartitionStore
  returned : String → ℕ

namespace CacheWorld

def start (st : MbfPartitionStore) (now : ℕ) : CacheWorld := ⟨st, ∅, now, [], [st], fun _ => 0⟩

section System
variable [F64Text] (registry : CodeRegistry) (tenantId : String)

def step (w : CacheWorld) : CacheAction → Option CacheWorld
  | .commit written batch =>
    match w.store.transactWrite batch with
    | .error _ => some w
    | .ok (st, _) => some { w with
        store := st
        stores := w.stores ++ [st]
        calls := w.calls ++ [.committed (written.map (eavtPk tenantId)) w.stores.length] }
  | .invalidate c =>
    match w.calls[c]? with
    | some (.committed pks version) => some { w with
        cache := w.cache.remove pks
        calls := w.calls.set c .invalidated
        returned := fun pk => if pk ∈ pks then max (w.returned pk) version else w.returned pk }
    | _ => none
  | .pull entityId attrs =>
    match w.cache.answer w.now (eavtPk tenantId entityId) attrs with
    | some answer => some { w with
        calls := w.calls ++ [.answered entityId attrs (w.returned (eavtPk tenantId entityId)) answer] }
    | none => some { w with
        calls := w.calls ++ [.looked entityId attrs (w.returned (eavtPk tenantId entityId))] }
  | .read c =>
    match w.calls[c]? with
    | some (.looked entityId attrs due) =>
      match readEntity registry w.store tenantId entityId with
      | some map => some { w with
          calls := w.calls.set c (.fetched entityId attrs due (w.stores.length - 1) map) }
      -- an empty partition is not cached
      | none => some { w with calls := w.calls.set c (.answered entityId attrs due ∅) }
    | _ => none
  | .insert c keys =>
    match w.calls[c]? with
    | some (.fetched entityId attrs due _ map) => some { w with
        cache := w.cache.insertEntry keys (eavtPk tenantId entityId) ⟨true, map, w.now⟩
        calls := w.calls.set c (.answered entityId attrs due (map.filterKeys (asksFor attrs))) }
    | _ => none
  | .warm targets => some { w with
      calls := w.calls ++ [.warming (w.stores.length - 1) (warmStates w.store tenantId targets)] }
  | .insertStates c keys =>
    match w.calls[c]? with
    | some (.warming _ states) => some { w with
        cache := states.entries.foldl
          (fun cache e => cache.extendEntry w.now (keys e.1) e.1 e.2) w.cache
        calls := w.calls.set c .warmed }
    | _ => none
  | .evict entityId => some { w with cache := w.cache.erase (eavtPk tenantId entityId) }
  | .tick elapsed => some { w with now := w.now + elapsed }

/-! ### What an answer has to show -/

/-- A read of the store, of its partition or of its attribute index, shows the value. -/
def ShownIn (st : MbfPartitionStore) (entityId name : String) (value : Option DatomValue) : Prop :=
  (pull registry st tenantId entityId none).lookup name = value ∨
    value ≠ none ∧ warmValue st tenantId entityId name = value

/-- A store from a version on shows the value. -/
def ShownSince (w : CacheWorld) (due : ℕ) (entityId name : String) (value : Option DatomValue) :
    Prop :=
  ∃ st ∈ w.stores.drop due, ShownIn registry tenantId st entityId name value

/-- Under every name that is asked for, the answer shows a state that includes the
transactions on the entity that had returned when the `pull` started. -/
def Includes (w : CacheWorld) (entityId : String) (attrs : Option (List String)) (due : ℕ)
    (answer : EntityMap) : Prop :=
  ∀ name, asksFor attrs name = true →
    w.ShownSince registry tenantId due entityId name (answer.lookup name)

/-! ### Which steps are safe -/

/-- What a reader is about to insert: the entities, and the version it read. -/
def reading : CacheCall → Option (List String × ℕ)
  | .fetched entityId _ _ version _ => some ([eavtPk tenantId entityId], version)
  | .warming version states => some (states.entries.map Prod.fst, version)
  | _ => none

/-- No transaction on the entities of the call has returned since the call read. -/
def NotOvertaken (w : CacheWorld) (c : ℕ) : Prop :=
  ∀ r ∈ (w.calls[c]?).bind (reading tenantId), ∀ pk ∈ r.1, w.returned pk ≤ r.2

/-- If the cache answers from a partial entry, the entry has every attribute of the
entity that is asked for. -/
def PartialSuffices (w : CacheWorld) (entityId : String) (attrs : Option (List String)) : Prop :=
  ∀ entry ∈ w.cache.lookup (eavtPk tenantId entityId), entry.isSufficient w.now attrs = true →
    entry.isComplete = false →
      ∀ e ∈ (pull registry w.store tenantId entityId attrs).entries,
        entry.map.contains e.1 = true

def Undisturbed (w : CacheWorld) : CacheAction → Prop
  | .insert c _ => w.NotOvertaken tenantId c
  | .insertStates c _ => w.NotOvertaken tenantId c
  | .pull entityId attrs => w.PartialSuffices registry tenantId entityId attrs
  | _ => True

/-! ### The invariant -/

/-- What the stage of a call says of the stores. -/
def Sound (w : CacheWorld) : CacheCall → Prop
  | .committed _ version => version < w.stores.length
  | .invalidated => True
  | .looked entityId _ due => due ≤ w.returned (eavtPk tenantId entityId)
  | .fetched entityId _ due version map => due ≤ version ∧ ∃ st, w.stores[version]? = some st ∧
      readEntity registry st tenantId entityId = some map
  | .answered entityId attrs due answer => w.Includes registry tenantId entityId attrs due answer
  | .warming version states => ∃ st targets, w.stores[version]? = some st ∧
      states = warmStates st tenantId targets
  | .warmed => True

structure Inv (w : CacheWorld) : Prop where
  current : w.stores.getLast? = some w.store
  returned_lt : ∀ pk, w.returned pk < w.stores.length
  sound : ∀ call ∈ w.calls, w.Sound registry tenantId call
  cached : ∀ entityId entry, w.cache.lookup (eavtPk tenantId entityId) = some entry →
    ∀ name, entry.isComplete = true ∨ entry.map.contains name = true →
      w.ShownSince registry tenantId (w.returned (eavtPk tenantId entityId)) entityId name
        (entry.map.lookup name)

/-! ### Growth -/

/-- Stores are added, and more transactions return. -/
structure Grows (w w' : CacheWorld) : Prop where
  stores : w.stores <+: w'.stores
  returned : ∀ pk, w.returned pk ≤ w'.returned pk

section Keeps
variable {registry tenantId} {w w' : CacheWorld}

theorem ShownSince.mono {due due' : ℕ} {entityId name : String} {value : Option DatomValue}
    (h : w.ShownSince registry tenantId due entityId name value) (hstores : w.stores <+: w'.stores)
    (hdue : due' ≤ due) : w'.ShownSince registry tenantId due' entityId name value := by
  obtain ⟨st, hst, hshown⟩ := h
  exact ⟨st, mem_drop_of_prefix hstores hdue hst, hshown⟩

theorem Sound.mono {call : CacheCall} (hgrow : Grows w w')
    (h : w.Sound registry tenantId call) : w'.Sound registry tenantId call := by
  cases call with
  | committed pks version => exact h.trans_le hgrow.stores.length_le
  | invalidated => trivial
  | looked entityId attrs due => exact h.trans (hgrow.returned _)
  | fetched entityId attrs due version map =>
    obtain ⟨hdue, st, hst, hread⟩ := h
    exact ⟨hdue, st, getElem?_of_extends hgrow.stores hst, hread⟩
  | answered entityId attrs due answer =>
    intro name hasks
    exact (h name hasks).mono hgrow.stores le_rfl
  | warming version states =>
    obtain ⟨st, targets, hst, hstates⟩ := h
    exact ⟨st, targets, getElem?_of_extends hgrow.stores hst, hstates⟩
  | warmed => trivial

/-- A store from version `version` on that shows a value shows it since any version before. -/
theorem shownSince_of_getElem? {version due : ℕ} {st : MbfPartitionStore} {entityId name : String}
    {value : Option DatomValue} (hst : w.stores[version]? = some st) (hdue : due ≤ version)
    (hshown : ShownIn registry tenantId st entityId name value) :
    w.ShownSince registry tenantId due entityId name value := by
  refine ⟨st, ?_, hshown⟩
  apply mem_drop_of_prefix (List.prefix_refl _) hdue
  obtain ⟨hlt, rfl⟩ := List.getElem?_eq_some_iff.mp hst
  rw [List.drop_eq_getElem_cons hlt]
  exact List.mem_cons_self

/-- A new call, and a call that moves on, leave the others as they were. -/
theorem sound_append {call : CacheCall} (h : ∀ call ∈ w.calls, w.Sound registry tenantId call)
    (hgrow : Grows w w') (hcalls : w'.calls = w.calls ++ [call])
    (hnew : w'.Sound registry tenantId call) :
    ∀ call ∈ w'.calls, w'.Sound registry tenantId call := by
  intro call' hmem
  rw [hcalls, List.mem_append, List.mem_singleton] at hmem
  rcases hmem with hmem | rfl
  · exact (h call' hmem).mono hgrow
  · exact hnew

theorem sound_set {call : CacheCall} {c : ℕ} (h : ∀ call ∈ w.calls, w.Sound registry tenantId call)
    (hgrow : Grows w w') (hcalls : w'.calls = w.calls.set c call)
    (hnew : w'.Sound registry tenantId call) :
    ∀ call ∈ w'.calls, w'.Sound registry tenantId call := by
  intro call' hmem
  rw [hcalls] at hmem
  rcases List.mem_or_eq_of_mem_set hmem with hmem | rfl
  · exact (h call' hmem).mono hgrow
  · exact hnew

/-! ### One lemma for each place where the world changes -/

namespace Inv

theorem start (st : MbfPartitionStore) (now : ℕ) :
    Inv registry tenantId (CacheWorld.start st now) where
  current := rfl
  returned_lt _ := Nat.zero_lt_one
  sound := by simp [CacheWorld.start]
  cached := by simp [CacheWorld.start]

variable (h : Inv registry tenantId w)
include h

theorem current_getElem? : w.stores[w.stores.length - 1]? = some w.store := by
  rw [← List.getLast?_eq_getElem?]
  exact h.current

/-- The current store shows what it shows since every version that has returned. -/
theorem shownNow {entityId name : String} {value : Option DatomValue} (pk : String)
    (hshown : ShownIn registry tenantId w.store entityId name value) :
    w.ShownSince registry tenantId (w.returned pk) entityId name value := by
  apply shownSince_of_getElem? h.current_getElem? _ hshown
  have := h.returned_lt pk
  omega

theorem commit (written : List String) (st : MbfPartitionStore) :
    Inv registry tenantId { w with
      store := st
      stores := w.stores ++ [st]
      calls := w.calls ++ [.committed (written.map (eavtPk tenantId)) w.stores.length] } where
  current := by simp
  returned_lt pk := by
    have := h.returned_lt pk
    simp only [List.length_append, List.length_singleton]
    omega
  sound := by
    have hnew : w.stores.length < (w.stores ++ [st]).length := by simp
    exact sound_append h.sound ⟨List.prefix_append _ _, fun _ => le_rfl⟩ rfl hnew
  cached := by
    intro entityId entry hentry name hname
    exact (h.cached entityId entry hentry name hname).mono (List.prefix_append _ _) le_rfl

theorem invalidate {c version : ℕ} {pks : List String}
    (hcall : w.calls[c]? = some (.committed pks version)) :
    Inv registry tenantId { w with
      cache := w.cache.remove pks
      calls := w.calls.set c .invalidated
      returned := fun pk => if pk ∈ pks then max (w.returned pk) version else w.returned pk } where
  current := h.current
  returned_lt pk := by
    have hversion : version < w.stores.length := h.sound _ (List.mem_of_getElem? hcall)
    have := h.returned_lt pk
    dsimp only
    split_ifs
    · exact max_lt this hversion
    · exact this
  sound := by
    have hreturned : ∀ pk, w.returned pk ≤
        if pk ∈ pks then max (w.returned pk) version else w.returned pk := by
      intro pk
      split_ifs
      · exact le_max_left _ _
      · exact le_rfl
    exact sound_set h.sound ⟨List.prefix_refl _, hreturned⟩ rfl trivial
  cached := by
    intro entityId entry hentry name hname
    obtain ⟨hold, hnot⟩ := EavCache.lookup_remove hentry
    dsimp only
    rw [if_neg hnot]
    exact h.cached entityId entry hold name hname

/-- A call that starts or moves on without touching the cache. -/
theorem append {call : CacheCall} (hnew : w.Sound registry tenantId call) :
    Inv registry tenantId { w with calls := w.calls ++ [call] } where
  current := h.current
  returned_lt := h.returned_lt
  sound := sound_append h.sound ⟨List.prefix_refl _, fun _ => le_rfl⟩ rfl hnew
  cached := h.cached

theorem set {call : CacheCall} {c : ℕ} (hnew : w.Sound registry tenantId call) :
    Inv registry tenantId { w with calls := w.calls.set c call } where
  current := h.current
  returned_lt := h.returned_lt
  sound := sound_set h.sound ⟨List.prefix_refl _, fun _ => le_rfl⟩ rfl hnew
  cached := h.cached

/-- A cache whose entries are as good. -/
theorem recache {cache : EavCache} (hcached : ∀ entityId entry,
    cache.lookup (eavtPk tenantId entityId) = some entry →
      ∀ name, entry.isComplete = true ∨ entry.map.contains name = true →
        w.ShownSince registry tenantId (w.returned (eavtPk tenantId entityId)) entityId name
          (entry.map.lookup name)) :
    Inv registry tenantId { w with cache := cache } where
  current := h.current
  returned_lt := h.returned_lt
  sound := h.sound
  cached := hcached

/-- A reader that was not overtaken inserts what a store since the last return shows. -/
theorem insertEntry {c due version : ℕ} {entityId : String} {attrs : Option (List String)}
    {map : EntityMap} {keys : List String}
    (hcall : w.calls[c]? = some (.fetched entityId attrs due version map))
    (hfresh : w.NotOvertaken tenantId c) :
    Inv registry tenantId { w with
      cache := w.cache.insertEntry keys (eavtPk tenantId entityId) ⟨true, map, w.now⟩ } := by
  obtain ⟨_, st, hst, hread⟩ := h.sound _ (List.mem_of_getElem? hcall)
  have hversion : w.returned (eavtPk tenantId entityId) ≤ version := by
    apply hfresh ([eavtPk tenantId entityId], version) _ _ List.mem_cons_self
    rw [hcall]
    rfl
  apply h.recache
  intro entityId' entry hentry name hname
  rcases EavCache.lookup_insertEntry hentry with ⟨hpk, rfl⟩ | ⟨_, hold⟩
  · obtain rfl := eavtPk_inj.mp hpk
    apply shownSince_of_getElem? hst hversion
    apply Or.inl
    rw [pull, hread, Option.getD_some, OrdMap.lookup_filterKeys]
    rfl
  · exact h.cached entityId' entry hold name hname

/-- So does a warm-up, for one entity. -/
theorem extendEntry (now : ℕ) (keys : List String) {version : ℕ} {pk : String}
    {finalMap : EntityMap} {st : MbfPartitionStore} {targets : List String} (hst : w.stores[version]? = some st)
    (hversion : w.returned pk ≤ version)
    (hstates : (warmStates st tenantId targets).lookup pk = some finalMap) :
    Inv registry tenantId { w with cache := w.cache.extendEntry now keys pk finalMap } := by
  apply h.recache
  intro entityId entry hentry name hname
  rcases EavCache.lookup_extendEntry hentry with ⟨_, hold⟩ | ⟨rfl, hextended⟩
  · exact h.cached entityId entry hold name hname
  · have hwarm : ∀ value, finalMap.lookup name = some value →
        w.ShownSince registry tenantId (w.returned (eavtPk tenantId entityId)) entityId name
          (some value) := by
      intro value hvalue
      have hread := warmStates_value st tenantId entityId name targets
      rw [hstates, Option.bind_some, hvalue] at hread
      apply shownSince_of_getElem? hst hversion
      apply Or.inr
      split_ifs at hread
      exact ⟨Option.some_ne_none _, hread.symm⟩
    rcases hextended with ⟨old, hold, hcomplete, hmap⟩ | ⟨hpart, hmap⟩
    · rw [hmap name]
      cases hvalue : finalMap.lookup name with
      | some value => exact hwarm value hvalue
      | none =>
        rw [Option.none_or]
        apply h.cached entityId old hold name
        rw [← hcomplete]
        apply hname.imp_right
        intro hcontains
        rwa [OrdMap.contains, hmap name, hvalue, Option.none_or] at hcontains
    · rcases hname with hcomplete | hcontains
      · exact absurd hcomplete (by simp [hpart])
      · obtain ⟨value, hvalue⟩ := OrdMap.contains_iff.mp hcontains
        rw [hvalue]
        exact hwarm value ((hmap name).symm.trans hvalue)

/-- And for all that it collected, entity after entity. -/
theorem extendEntries {version : ℕ} {keys : String → List String} {st : MbfPartitionStore}
    {targets : List String} (hst : w.stores[version]? = some st)
    (l : List (String × EntityMap))
    (hl : ∀ e ∈ l, w.returned e.1 ≤ version ∧
      (warmStates st tenantId targets).lookup e.1 = some e.2) :
    Inv registry tenantId { w with
      cache := l.foldl (fun cache e => cache.extendEntry w.now (keys e.1) e.1 e.2) w.cache } := by
  induction l generalizing w with
  | nil => exact h
  | cons e rest ih =>
    obtain ⟨hversion, hlookup⟩ := hl e List.mem_cons_self
    have hone := h.extendEntry w.now (keys e.1) hst hversion hlookup
    exact ih hone hst fun e' he' => hl e' (List.mem_cons_of_mem _ he')

/-- An answer from the cache includes what had returned when the `pull` started. -/
theorem answer {entityId : String} {attrs : Option (List String)} {answer : EntityMap}
    (hanswer : w.cache.answer w.now (eavtPk tenantId entityId) attrs = some answer)
    (hsuffices : w.PartialSuffices registry tenantId entityId attrs) :
    w.Includes registry tenantId entityId attrs (w.returned (eavtPk tenantId entityId)) answer := by
  intro name hasks
  obtain ⟨entry, hentry, hif⟩ := Option.bind_eq_some_iff.mp hanswer
  split_ifs at hif with hsufficient
  cases hif
  rw [OrdMap.lookup_filterKeys, if_pos hasks]
  by_cases hheld : entry.isComplete = true ∨ entry.map.contains name = true
  · exact h.cached entityId entry hentry name hheld
  · -- a partial entry without the attribute: the entity does not have it either
    rw [not_or, Bool.not_eq_true, Bool.not_eq_true] at hheld
    have hnone : entry.map.lookup name = none := by
      have := hheld.2
      rwa [OrdMap.contains, Option.isSome_eq_false_iff, Option.isNone_iff_eq_none] at this
    rw [hnone]
    apply h.shownNow
    apply Or.inl
    by_contra hsome
    obtain ⟨value, hvalue⟩ := Option.ne_none_iff_exists'.mp hsome
    have hpull : (pull registry w.store tenantId entityId attrs).lookup name = some value := by
      rw [pull, OrdMap.lookup_filterKeys] at hvalue ⊢
      rw [if_pos hasks]
      exact hvalue
    have hmem := hsuffices entry hentry hsufficient hheld.1 _ (OrdMap.lookup_eq_some.mp hpull)
    rw [hheld.2] at hmem
    exact absurd hmem (by simp)

/-- Every undisturbed step keeps the invariant. -/
theorem step {action : CacheAction} (hundisturbed : w.Undisturbed registry tenantId action)
    (hstep : w.step registry tenantId action = some w') : Inv registry tenantId w' := by
  cases action with
  | commit written batch =>
    simp only [CacheWorld.step] at hstep
    cases hwrite : w.store.transactWrite batch with
    | error e =>
      rw [hwrite] at hstep
      cases hstep
      exact h
    | ok r =>
      rw [hwrite] at hstep
      cases hstep
      exact h.commit written r.1
  | invalidate c =>
    simp only [CacheWorld.step] at hstep
    split at hstep
    · cases hstep
      exact h.invalidate ‹_›
    · cases hstep
  | pull entityId attrs =>
    simp only [CacheWorld.step] at hstep
    cases hanswer : w.cache.answer w.now (eavtPk tenantId entityId) attrs with
    | some answer =>
      rw [hanswer] at hstep
      cases hstep
      exact h.append (h.answer hanswer hundisturbed)
    | none =>
      rw [hanswer] at hstep
      cases hstep
      exact h.append (le_refl (w.returned (eavtPk tenantId entityId)))
  | read c =>
    simp only [CacheWorld.step] at hstep
    split at hstep
    · rename_i entityId attrs due hcall
      have hdue : due ≤ w.returned (eavtPk tenantId entityId) :=
        h.sound _ (List.mem_of_getElem? hcall)
      have hlt := h.returned_lt (eavtPk tenantId entityId)
      cases hread : readEntity registry w.store tenantId entityId with
      | some map =>
        rw [hread] at hstep
        cases hstep
        have hfetched : w.Sound registry tenantId
            (.fetched entityId attrs due (w.stores.length - 1) map) :=
          ⟨by omega, w.store, h.current_getElem?, hread⟩
        exact h.set hfetched
      | none =>
        rw [hread] at hstep
        cases hstep
        have hanswered : w.Sound registry tenantId (.answered entityId attrs due ∅) := by
          intro name _
          apply (h.shownNow (eavtPk tenantId entityId) _).mono (List.prefix_refl _) hdue
          apply Or.inl
          rw [pull, hread, OrdMap.lookup_filterKeys]
          rfl
        exact h.set hanswered
    · cases hstep
  | insert c keys =>
    simp only [CacheWorld.step] at hstep
    split at hstep
    · rename_i entityId attrs due version map hcall
      cases hstep
      obtain ⟨hdue, st, hst, hread⟩ := h.sound _ (List.mem_of_getElem? hcall)
      have hanswered : w.Sound registry tenantId
          (.answered entityId attrs due (map.filterKeys (asksFor attrs))) := by
        intro name hasks
        apply shownSince_of_getElem? hst hdue
        apply Or.inl
        rw [OrdMap.lookup_filterKeys, if_pos hasks, pull, hread, OrdMap.lookup_filterKeys]
        rfl
      exact (h.insertEntry hcall hundisturbed).set hanswered
    · cases hstep
  | warm targets =>
    cases hstep
    have hwarming : w.Sound registry tenantId
        (.warming (w.stores.length - 1) (warmStates w.store tenantId targets)) :=
      ⟨w.store, targets, h.current_getElem?, rfl⟩
    exact h.append hwarming
  | insertStates c keys =>
    simp only [CacheWorld.step] at hstep
    split at hstep
    · rename_i version states hcall
      cases hstep
      obtain ⟨st, targets, hst, rfl⟩ := h.sound _ (List.mem_of_getElem? hcall)
      have hentries : ∀ e ∈ (warmStates st tenantId targets).entries,
          w.returned e.1 ≤ version ∧
            (warmStates st tenantId targets).lookup e.1 = some e.2 := by
        intro e he
        refine ⟨?_, OrdMap.lookup_eq_some.mpr he⟩
        have hreading : ((warmStates st tenantId targets).entries.map Prod.fst, version) ∈
            (w.calls[c]?).bind (reading tenantId) := by
          rw [hcall]
          rfl
        exact hundisturbed _ hreading e.1 (List.mem_map_of_mem he)
      exact (h.extendEntries hst _ hentries).set trivial
    · cases hstep
  | evict entityId =>
    cases hstep
    apply h.recache
    intro entityId' entry hentry name hname
    rw [OrdMap.lookup_erase] at hentry
    split_ifs at hentry
    exact h.cached entityId' entry hentry name hname
  | tick elapsed =>
    cases hstep
    exact ⟨h.current, h.returned_lt, h.sound, h.cached⟩

end Inv
end Keeps

/-! ### Every answer includes what had returned -/

/-- In a run in which no reader inserts after it was overtaken, and no partial entry
answers for an attribute it lacks, every `pull` includes the transactions on its entity
that had returned when it started. -/
theorem pull_reads_returned_writes (registry : CodeRegistry) (tenantId : String)
    (st : MbfPartitionStore) (now : ℕ) {w : CacheWorld}
    (hrun : Run (step registry tenantId) (Undisturbed registry tenantId)
      (CacheWorld.start st now) w)
    {entityId : String} {attrs : Option (List String)} {due : ℕ} {answer : EntityMap}
    (hcall : .answered entityId attrs due answer ∈ w.calls) :
    w.Includes registry tenantId entityId attrs due answer := by
  have hinv : Inv registry tenantId w :=
    hrun.invariant (fun _ _ _ h hg hs => h.step hg hs) (Inv.start st now)
  exact hinv.sound _ hcall

/-! ### A reader that is overtaken -/

instance (st : MbfPartitionStore) (entityId name : String) (value : Option DatomValue) :
    Decidable (ShownIn registry tenantId st entityId name value) :=
  inferInstanceAs (Decidable (_ ∨ _))

instance (w : CacheWorld) (due : ℕ) (entityId name : String) (value : Option DatomValue) :
    Decidable (w.ShownSince registry tenantId due entityId name value) :=
  inferInstanceAs (Decidable (∃ st ∈ w.stores.drop due, _))

instance decidableUndisturbed (w : CacheWorld) (action : CacheAction) :
    Decidable (w.Undisturbed registry tenantId action) := by
  cases action <;> unfold Undisturbed <;> try unfold NotOvertaken PartialSuffices
  all_goals infer_instance

end System

/-- The write of a title. -/
def titleBatch (title : String) (txId : U64) : List TransactWriteItem :=
  @buildWriteItems bitsText "metri"
    [⟨"t", "e", "title", hashAttrName "title", .str title, txId, true⟩]

/-- Two writes that return, and a `pull` that reads each of them. -/
theorem timely_pull_reads_returned_writes :
    ∃ w, Run (@step bitsText noteRegistry "t") (@Undisturbed bitsText noteRegistry "t")
        (CacheWorld.start {} 0) w ∧
      .answered "e" none 2 ((∅ : EntityMap).insert "title" (.str "b")) ∈ w.calls ∧
      @Includes bitsText noteRegistry "t" w "e" none 2
        ((∅ : EntityMap).insert "title" (.str "b")) := by
  have hexec : (@exec _ _ (@step bitsText noteRegistry "t") (@Undisturbed bitsText noteRegistry "t")
      (@decidableUndisturbed bitsText noteRegistry "t") (CacheWorld.start {} 0)
      [.commit ["e"] (titleBatch "a" 1), .invalidate 0, .pull "e" none, .read 1, .insert 1 [],
        .commit ["e"] (titleBatch "b" 2), .invalidate 2, .pull "e" none, .read 3,
        .insert 3 []]).any
      (fun w => decide
        (.answered "e" none 2 ((∅ : EntityMap).insert "title" (.str "b")) ∈ w.calls)) = true := by
    decide +kernel
  obtain ⟨w, hrun, hw⟩ := exists_run_of_exec hexec
  have hcall := of_decide_eq_true hw
  exact ⟨w, hrun, hcall, @pull_reads_returned_writes bitsText noteRegistry "t" {} 0 w hrun _ _ _ _
    hcall⟩

/-- A `pull` reads the storage, a write commits, invalidates and returns, the `pull`
inserts what it read, and the next `pull` answers with the title from before the write. -/
theorem overtaken_pull_hides_a_returned_write :
    ∃ w, Run (@step bitsText noteRegistry "t") (fun _ _ => True) (CacheWorld.start {} 0) w ∧
      .answered "e" none 2 ((∅ : EntityMap).insert "title" (.str "a")) ∈ w.calls ∧
      ¬ @Includes bitsText noteRegistry "t" w "e" none 2
        ((∅ : EntityMap).insert "title" (.str "a")) := by
  have hexec : (exec (@step bitsText noteRegistry "t") (fun _ _ => True) (CacheWorld.start {} 0)
      [.commit ["e"] (titleBatch "a" 1), .invalidate 0, .pull "e" none, .read 1,
        .commit ["e"] (titleBatch "b" 2), .invalidate 2, .insert 1 [], .pull "e" none]).any
      (fun w => decide
        (.answered "e" none 2 ((∅ : EntityMap).insert "title" (.str "a")) ∈ w.calls ∧
          ¬ @ShownSince bitsText noteRegistry "t" w 2 "e" "title" (some (.str "a")))) = true := by
    decide +kernel
  obtain ⟨w, hrun, hw⟩ := exists_run_of_exec hexec
  obtain ⟨hcall, hnot⟩ := of_decide_eq_true hw
  refine ⟨w, hrun, hcall, ?_⟩
  intro hincludes
  apply hnot
  have htitle := hincludes "title" rfl
  rwa [OrdMap.lookup_insert_self] at htitle

end CacheWorld
end MetriEngine.Eav

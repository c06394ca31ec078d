import MetriEngine.Eav.DatomStore
import MetriEngine.Storage.Atomicity

/-!
# Successive transactions

Calls of the writer one after the other, with increasing transaction ids, on one store.
The store keeps the log of all of them: what a transaction wrote stays as it is, and the
store after an earlier transaction is the part of the log up to it.
-/
namespace MetriEngine.Eav
open Foundation Storage

/-! ### Registered names -/

/-- The table of ids knows the reserved ids and the names of every model, and an id is
the hash of its name unless it is reserved. -/
structure CodeRegistry.Sound (registry : CodeRegistry) : Prop where
  entity : ∀ entityType model, registry.byEntity.lookup entityType = some model →
    model.entity = entityType
  system : ∀ e ∈ systemAttrs, registry.byAttrId.lookup e.1 ≠ none
  names : ∀ entityType model, registry.byEntity.lookup entityType = some model →
    ∀ name ∈ CodeRegistry.attrNames model, registry.byAttrId.lookup (hashAttrName name) ≠ none
  named : ∀ attrId name, registry.byAttrId.lookup attrId = some name →
    attrId = hashAttrName name ∨ (attrId, name) ∈ systemAttrs

namespace CodeRegistry

theorem initial_sound : initial.Sound where
  entity := by simp [initial]
  system := by decide
  names := by simp [initial]
  named := by
    intro attrId name h
    apply Or.inr
    by_contra hnot
    have hnodup : (systemAttrs.map Prod.fst).Nodup := by decide
    have hne : initial.byAttrId.lookup attrId ≠ none := by
      rw [h]
      exact Option.some_ne_none _
    rw [initial, ne_eq, OrdMap.lookup_insertList_eq_none] at hne
    have hmem : attrId ∈ systemAttrs.map Prod.fst := by
      by_contra hnotMem
      exact hne ⟨rfl, hnotMem⟩
    obtain ⟨⟨attrId, name'⟩, he, rfl⟩ := List.mem_map.mp hmem
    rw [initial, OrdMap.lookup_insertList_of_mem _ hnodup he] at h
    cases h
    exact hnot he

theorem Sound.register {registry registry' : CodeRegistry} {model : EntityModel}
    (h : registry.Sound) (hregister : registry.register model = .ok registry') :
    registry'.Sound := by
  unfold CodeRegistry.register at hregister
  split_ifs at hregister with hfresh
  cases hregister
  have hkeep : ∀ attrId, registry.byAttrId.lookup attrId ≠ none →
      (registry.byAttrId.insertList
        ((attrNames model).map fun name => (hashAttrName name, name))).lookup attrId ≠ none := by
    intro attrId hattr hnone
    exact hattr (OrdMap.lookup_insertList_eq_none _ |>.mp hnone).1
  have hlookup : ∀ entityType model', (registry.byEntity.insert model.entity model).lookup entityType =
      some model' → entityType = model.entity ∧ model' = model ∨
        registry.byEntity.lookup entityType = some model' := by
    intro entityType model' hmodel
    rw [OrdMap.lookup_insert] at hmodel
    split_ifs at hmodel with hentity
    · cases hmodel
      exact Or.inl ⟨hentity, rfl⟩
    · exact Or.inr hmodel
  constructor
  · intro entityType model' hmodel
    rcases hlookup entityType model' hmodel with ⟨rfl, rfl⟩ | hold
    · rfl
    · exact h.entity entityType model' hold
  · intro e he
    exact hkeep e.1 (h.system e he)
  · intro entityType model' hmodel name hname
    rcases hlookup entityType model' hmodel with ⟨rfl, rfl⟩ | hold
    · intro hnone
      apply (OrdMap.lookup_insertList_eq_none _ |>.mp hnone).2
      rw [List.map_map]
      exact List.mem_map_of_mem hname
    · exact hkeep _ (h.names entityType model' hold name hname)
  · intro attrId name hname
    dsimp only at hname
    rw [OrdMap.lookup_insertList_or] at hname
    rcases Option.or_eq_some_iff.mp hname with hnew | ⟨_, hold⟩
    · apply Or.inl
      have hmem : ∀ (l : List String) (m : OrdMap U16 String),
          (∀ n, m.lookup attrId = some n → attrId = hashAttrName n) →
          (m.insertList (l.map fun name => (hashAttrName name, name))).lookup attrId = some name →
            attrId = hashAttrName name := by
        intro l
        induction l with
        | nil =>
          intro m hm hl
          exact hm name hl
        | cons n rest ih =>
          intro m hm hl
          apply ih (m.insert (hashAttrName n) n) _ hl
          intro n' hn'
          rw [OrdMap.lookup_insert] at hn'
          split_ifs at hn' with heq
          · cases hn'
            exact heq
          · exact hm n' hn'
      exact hmem (attrNames model) ∅ (by simp) hnew
    · exact h.named attrId name hold

/-- A registry that was built is sound. -/
theorem build_sound {models : List EntityModel} {registry : CodeRegistry}
    (h : build models = .ok registry) : registry.Sound := by
  have hfold : ∀ (l : List EntityModel) (start : CodeRegistry), start.Sound →
      l.foldlM register start = .ok registry → registry.Sound := by
    intro l
    induction l with
    | nil =>
      intro start hstart hl
      cases hl
      exact hstart
    | cons model rest ih =>
      intro start hstart hl
      rw [List.foldlM_cons] at hl
      cases hregister : start.register model with
      | error e =>
        rw [hregister] at hl
        cases hl
      | ok next =>
        rw [hregister] at hl
        exact ih next (hstart.register hregister) hl
  exact hfold models initial initial_sound h

end CodeRegistry

/-! ### A call keeps the store a store of datoms -/

section Step
variable {registry : CodeRegistry} {st st' : MbfPartitionStore} {call : TransactCall}

theorem registered_of_planned (hsound : registry.Sound) {t : PlanTarget} {active : ActiveAttrs}
    (hactive : ∀ name attrId value, active.lookup name = some (attrId, value) →
      registry.getAttrName attrId ≠ none)
    {d : Datom} (h : Planned registry t active d) : registry.getAttrName d.attrId ≠ none := by
  have hmodel {desc : AttributeDescriptor}
      (hdesc : desc ∈ (registry.getAttributes t.entityType).getD []) :
      ∃ model, registry.byEntity.lookup t.entityType = some model ∧ desc ∈ model.attributes := by
    unfold CodeRegistry.getAttributes CodeRegistry.getModel at hdesc
    cases hm : registry.byEntity.lookup t.entityType with
    | none => simp [hm] at hdesc
    | some model =>
      rw [hm] at hdesc
      exact ⟨model, rfl, hdesc⟩
  cases h with
  | system he value op => exact hsound.system _ he
  | asserted hdesc name value =>
    obtain ⟨model, hm, hmem⟩ := hmodel hdesc
    exact hsound.names _ model hm _ (List.mem_append_left _ (List.mem_map_of_mem hmem))
  | retracted held hheld name => exact hactive held _ _ hheld
  | mirror hdesc hmirror owner op =>
    obtain ⟨model, hm, hmem⟩ := hmodel hdesc
    apply hsound.names _ model hm
    apply List.mem_append_right
    rw [if_pos (List.any_eq_true.mpr ⟨_, hmem, hmirror⟩), hsound.entity _ model hm]
    exact List.mem_singleton_self _

theorem mem_batchItems_keyed {batch : List TransactWriteItem} {e : PrimaryKey × Item}
    (h : e ∈ batchItems batch) : extractPkSk e.2 = some e.1 := by
  obtain ⟨p, hp, hpe⟩ := List.mem_filterMap.mp (batchItems_eq batch ▸ h)
  obtain ⟨key, hkey, rfl⟩ := Option.map_eq_some_iff.mp hpe
  obtain ⟨put, _, rfl⟩ := List.mem_map.mp hp
  exact hkey

theorem DatomStore.readActive_registered [F64Text] (h : DatomStore registry st.items) {name : String}
    {attrId : U16} {value : DatomValue}
    (hread : (readActive registry st call).lookup name = some (attrId, value)) :
    registry.getAttrName attrId ≠ none := by
  unfold readActive at hread
  split_ifs at hread
  · cases hread
  · obtain ⟨_, _, _, _, _, _, _, hregistered⟩ := h.active_origin hread
    exact hregistered

/-- An item after a call is one of its batch, or was there. -/
theorem lookup_transact [F64Text] [Derived] [KeyHash] {table : String} {result : TransactResult}
    {plan : TransactPlan} (h : transact registry table st call = .ok (st', result))
    (hplan : planTransact registry table call (readActive registry st call) = .ok plan)
    {key : PrimaryKey} {item : Item} (hitem : st'.items.lookup key = some item) :
    (key, item) ∈ batchItems plan.batch ∨ st.items.lookup key = some item := by
  obtain ⟨plan', hplan', hvalid, _, hitems⟩ := transact_ok h
  obtain rfl : plan' = plan := Except.ok.inj (hplan'.symm.trans hplan)
  by_cases hmem : key ∈ (batchItems plan'.batch).map Prod.fst
  · obtain ⟨⟨key, item'⟩, he, rfl⟩ := List.mem_map.mp hmem
    rw [hitems, OrdMap.lookup_insertList_of_mem _ hvalid.keys_nodup he] at hitem
    cases hitem
    exact Or.inl he
  · rw [hitems, OrdMap.lookup_insertList_of_notMem _ hmem] at hitem
    exact Or.inr hitem

/-- A call that succeeds leaves a store of datoms. -/
theorem DatomStore.transact [F64Text] [Derived] [KeyHash] {table : String}
    {result : TransactResult} (hsound : registry.Sound) (h : DatomStore registry st.items)
    (hcall : Eav.transact registry table st call = .ok (st', result)) :
    DatomStore registry st'.items := by
  obtain ⟨plan, hplan, _, _, _⟩ := transact_ok hcall
  have hcases : ∀ key item, st'.items.lookup key = some item →
      (key, item) ∈ batchItems plan.batch ∨ st.items.lookup key = some item :=
    fun key item hlookup => lookup_transact hcall hplan hlookup
  constructor
  · intro key item hlookup
    rcases hcases key item hlookup with hnew | hold
    · exact mem_batchItems_keyed hnew
    · exact h.keyed key item hold
  · intro key item hlookup hlength
    rcases hcases key item hlookup with hnew | hold
    · obtain ⟨d, hd, he⟩ := (mem_batchItems_planTransact hplan hlength).mp hnew
      cases he
      refine ⟨d, rfl, rfl, ?_⟩
      rcases plans_planTransact hplan hd with hplanned | hplanned
      · exact registered_of_planned hsound
          (fun name attrId value hread => h.readActive_registered hread) hplanned
      · exact registered_of_planned hsound (by simp) hplanned
    · exact h.datoms key item hold hlength

end Step

/-! ### Runs -/

/-- The store, the last transaction id, and the store after each commit. -/
structure EavHistory where
  store : MbfPartitionStore
  lastTx : Option U64
  commits : List (U64 × MbfPartitionStore)

namespace EavHistory

def start : EavHistory := ⟨{}, none, []⟩

/-- The calls come with increasing transaction ids. -/
def Successive (w : EavHistory) (call : TransactCall) : Prop := ∀ txId ∈ w.lastTx, txId < call.txId

instance (w : EavHistory) (call : TransactCall) : Decidable (w.Successive call) :=
  match h : w.lastTx with
  | none => isTrue (by simp [Successive, h])
  | some txId => decidable_of_iff (txId < call.txId) (by simp [Successive, h])

/-- A call that fails changes nothing. -/
def step [F64Text] [Derived] [KeyHash] (registry : CodeRegistry) (table : String) (w : EavHistory) (call : TransactCall) : Option EavHistory :=
  match transact registry table w.store call with
  | .error _ => some { w with lastTx := some call.txId }
  | .ok (st, _) => some ⟨st, some call.txId, w.commits ++ [(call.txId, st)]⟩

/-- The store right after the last transaction up to `asOfTx`. -/
def storeAsOf (w : EavHistory) (asOfTx : U64) : MbfPartitionStore :=
  ((w.commits.filter fun c => c.1 ≤ asOfTx).getLast?.map Prod.snd).getD {}

section Run
variable [F64Text] (registry : CodeRegistry)

/-- The log of a run: what the store holds of a transaction it holds since its commit. -/
structure Inv (w : EavHistory) : Prop where
  datoms : DatomStore registry w.store.items
  commitStores : ∀ c ∈ w.commits, DatomStore registry c.2.items
  committed : ∀ key item attrId txId op, w.store.items.lookup key = some item →
    key.sk = buildEavtSk attrId txId op → ∃ st, (txId, st) ∈ w.commits
  kept : ∀ c ∈ w.commits, ∀ key attrId txId op, key.sk = buildEavtSk attrId txId op →
    c.2.items.lookup key = if txId ≤ c.1 then w.store.items.lookup key else none
  ascending : w.commits.Pairwise fun c c' => c.1 < c'.1
  bounded : ∀ c ∈ w.commits, ∃ txId ∈ w.lastTx, c.1 ≤ txId

variable {registry} {w w' : EavHistory}

theorem Inv.start : Inv registry EavHistory.start := by
  constructor <;> simp [EavHistory.start, DatomStore.empty]

/-- The last transaction id bounds every commit. -/
theorem Inv.lt_of_successive (h : Inv registry w) {call : TransactCall} (hnext : w.Successive call)
    {c : U64 × MbfPartitionStore} (hc : c ∈ w.commits) : c.1 < call.txId := by
  obtain ⟨txId, htx, hle⟩ := h.bounded c hc
  exact hle.trans_lt (hnext txId htx)

/-- Before a call the log knows nothing of its transaction, nor of any after it. -/
theorem Inv.fresh (h : Inv registry w) {call : TransactCall} (hnext : w.Successive call)
    (key : PrimaryKey) (attrId : U16) (txId : U64) (op : Bool)
    (hkey : key.sk = buildEavtSk attrId txId op) (hle : call.txId ≤ txId) :
    w.store.items.lookup key = none := by
  by_contra hsome
  obtain ⟨item, hitem⟩ := Option.ne_none_iff_exists'.mp hsome
  obtain ⟨st', hmem⟩ := h.committed key item attrId txId op hitem hkey
  exact absurd (h.lt_of_successive hnext hmem) (not_lt.mpr hle)

theorem Inv.step [Derived] [KeyHash] {table : String} (hsound : registry.Sound) (h : Inv registry w)
    {call : TransactCall}
    (hnext : w.Successive call) (hstep : w.step registry table call = some w') :
    Inv registry w' := by
  unfold EavHistory.step at hstep
  cases hcall : transact registry table w.store call with
  | error e =>
    rw [hcall] at hstep
    cases hstep
    refine ⟨h.datoms, h.commitStores, h.committed, h.kept, h.ascending, ?_⟩
    intro c hc
    exact ⟨call.txId, rfl, (h.lt_of_successive hnext hc).le⟩
  | ok r =>
    obtain ⟨st, result⟩ := r
    rw [hcall] at hstep
    cases hstep
    have hdatoms := h.datoms.transact hsound hcall
    have hold : ∀ {key attrId txId op}, key.sk = buildEavtSk attrId txId op → txId ≠ call.txId →
        st.items.lookup key = w.store.items.lookup key :=
      fun hkey hne => transact_lookup_of_ne hcall hkey hne
    constructor
    · exact hdatoms
    · intro c hc
      rcases List.mem_append.mp hc with hc | hc
      · exact h.commitStores c hc
      · obtain rfl := List.mem_singleton.mp hc
        exact hdatoms
    · intro key item attrId txId op hitem hkey
      by_cases htx : txId = call.txId
      · exact ⟨st, List.mem_append_right _ (by rw [htx]; exact List.mem_singleton_self _)⟩
      · have hitem' : w.store.items.lookup key = some item := (hold hkey htx).symm.trans hitem
        obtain ⟨st', hmem⟩ := h.committed key item attrId txId op hitem' hkey
        exact ⟨st', List.mem_append_left _ hmem⟩
    · intro c hc key attrId txId op hkey
      rcases List.mem_append.mp hc with hc | hc
      · rw [h.kept c hc key attrId txId op hkey]
        split_ifs with hle
        · exact (hold hkey (hle.trans_lt (h.lt_of_successive hnext hc)).ne).symm
        · rfl
      · obtain rfl := List.mem_singleton.mp hc
        split_ifs with hle
        · rfl
        · have hlt := not_le.mp hle
          exact (hold hkey hlt.ne').trans (h.fresh hnext _ _ _ _ hkey hlt.le)
    · apply List.pairwise_append.mpr ⟨h.ascending, List.pairwise_singleton _ _, _⟩
      intro c hc c' hc'
      obtain rfl := List.mem_singleton.mp hc'
      exact h.lt_of_successive hnext hc
    · intro c hc
      rcases List.mem_append.mp hc with hc | hc
      · exact ⟨call.txId, rfl, (h.lt_of_successive hnext hc).le⟩
      · obtain rfl := List.mem_singleton.mp hc
        exact ⟨call.txId, rfl, le_rfl⟩

theorem inv_of_run [Derived] [KeyHash] {table : String} (hsound : registry.Sound)
    (hrun : Foundation.Run (EavHistory.step registry table) Successive EavHistory.start w) :
    Inv registry w :=
  hrun.invariant (fun _ _ _ h hg hs => h.step hsound hg hs) Inv.start

/-- The store as of a transaction holds the log up to it. -/
theorem Inv.lookup_storeAsOf (h : Inv registry w) (asOfTx : U64) {key : PrimaryKey} {attrId : U16}
    {txId : U64} {op : Bool} (hkey : key.sk = buildEavtSk attrId txId op) :
    (w.storeAsOf asOfTx).items.lookup key =
      if txId ≤ asOfTx then w.store.items.lookup key else none := by
  unfold storeAsOf
  have hnone : (∀ c ∈ w.commits, c.1 ≤ asOfTx → c.1 ≠ txId) → txId ≤ asOfTx →
      w.store.items.lookup key = none := by
    intro hno hle
    by_contra hsome
    obtain ⟨item, hitem⟩ := Option.ne_none_iff_exists'.mp hsome
    obtain ⟨st, hmem⟩ := h.committed key item attrId txId op hitem hkey
    exact hno _ hmem hle rfl
  cases hlast : (w.commits.filter fun c => c.1 ≤ asOfTx).getLast? with
  | none =>
    rw [Option.map_none, Option.getD_none]
    have hnil := List.getLast?_eq_none_iff.mp hlast
    split_ifs with hle
    · apply (hnone _ hle).symm
      intro c hc hcle
      exact absurd (by simpa using hcle) (List.filter_eq_nil_iff.mp hnil c hc)
    · rfl
  | some c =>
    rw [Option.map_some, Option.getD_some]
    obtain ⟨earlier, hsplit⟩ := List.getLast?_eq_some_iff.mp hlast
    have hmem : c ∈ w.commits.filter fun c => c.1 ≤ asOfTx := by
      rw [hsplit]
      exact List.mem_append_right _ (List.mem_singleton_self c)
    obtain ⟨hc, hcle⟩ := List.mem_filter.mp hmem
    have hcle : c.1 ≤ asOfTx := by simpa using hcle
    rw [h.kept c hc key attrId txId op hkey]
    by_cases hle : txId ≤ c.1
    · rw [if_pos hle, if_pos (hle.trans hcle)]
    · rw [if_neg hle]
      split_ifs with hasOf
      · -- between the last commit and the bound there is none
        apply (hnone _ hasOf).symm
        rintro c' hc' hcle' rfl
        have hmem' : c' ∈ earlier ++ [c] := by
          rw [← hsplit]
          exact List.mem_filter.mpr ⟨hc', by simpa using hcle'⟩
        have hsorted : (earlier ++ [c]).Pairwise fun c c' => c.1 < c'.1 := by
          rw [← hsplit]
          exact h.ascending.filter _
        rcases List.mem_append.mp hmem' with hearlier | hsingle
        · exact hle ((List.pairwise_append.mp hsorted).2.2 c' hearlier c
            (List.mem_singleton_self c)).le
        · obtain rfl := List.mem_singleton.mp hsingle
          exact hle le_rfl
      · rfl

theorem Inv.datoms_storeAsOf (h : Inv registry w) (asOfTx : U64) :
    DatomStore registry (w.storeAsOf asOfTx).items := by
  unfold storeAsOf
  cases hlast : (w.commits.filter fun c => c.1 ≤ asOfTx).getLast? with
  | none => exact DatomStore.empty
  | some c =>
    have hmem := List.mem_of_getLast? hlast
    exact h.commitStores c (List.mem_filter.mp hmem).1

end Run
end EavHistory
end MetriEngine.Eav

import MetriEngine.Eav.EntityIds
import MetriEngine.Eav.IndexHistory

/-!
# Queries of the value index

A query goes over the rows of an attribute whose keys lie in a part of the index, and names the
entities whose latest row among these is an assertion. On a closed index the latest row in the
part is an assertion exactly where the current value of the entity has its key there.
-/
namespace MetriEngine.Eav
open Foundation Storage

/-! ### The queries -/

/-- `normalize_avet_attr_name`: a system attribute and a mirror keep their names, any other loses
what is before its last slash. -/
def normalizeAvetAttrName (attrName : String) : String :=
  if Text.startsWith attrName "meta/" || Text.startsWith attrName "entity/" ||
      Text.startsWith attrName "tenant/" || Text.startsWith attrName "_refs/" then attrName
  else bareName attrName

section Queries
variable (st : MbfPartitionStore)

def executeAvetRangeForTenant (tenant attrName : String) (lower upper : AvetBound) : List String :=
  match avetSkRangeBounds lower upper with
  | none => []
  | some (skMin, skMax) =>
    if skMax < skMin then []
    else
      let pk := avetPk tenant (normalizeAvetAttrName attrName)
      let attrValues := (((∅ : Item).insert ":pk" (.s pk)).insert ":sk_min" (.b skMin)).insert
        ":sk_max" (.b skMax)
      dedupLatestAssertedInRange (st.query (some "GSI-AVET")
        "#pk = :pk AND #sk BETWEEN :sk_min AND :sk_max" attrValues true none)

variable [F64Text]

def executeAvetSingleForTenant (tenant attrName : String) (value : DatomValue) : List String :=
  let pk := avetPk tenant (normalizeAvetAttrName attrName)
  let attrValues := ((∅ : Item).insert ":pk" (.s pk)).insert ":sk_prefix" (.b (avetSkPrefix value))
  dedupLatestAssertedByValue (st.query (some "GSI-AVET")
    "#pk = :pk AND begins_with(#sk, :sk_prefix)" attrValues true none) value.queryText

/-- The same text or integer under the other tag that it may have been written with. -/
def DatomValue.alternative : DatomValue → Option DatomValue
  | .str s => some (.uuid s)
  | .uuid s => some (.str s)
  | .long n => some (.instant n)
  | .instant n => some (.long n)
  | _ => none

def restrictToEntityType (tenant : String) (ids : List String) (entityType : Option String) :
    List String :=
  match entityType.filter fun t => t ≠ "" with
  | none => ids
  | some expected =>
    if ids = [] then ids
    else
      let ofType := executeAvetSingleForTenant st tenant "entity/type" (.str expected)
      ids.filter fun id => id ∈ ofType

def executeAvetSingleWithTypeTolerance (tenant attrName : String) (value : DatomValue)
    (entityType : Option String) : List String :=
  let ids := executeAvetSingleForTenant st tenant attrName value
  let tolerant := match ids, value.alternative with
    | [], some alt => executeAvetSingleForTenant st tenant attrName alt
    | ids, _ => ids
  restrictToEntityType st tenant tolerant entityType

/-- A query of the master tenant that finds nothing goes on to the tenants that its scan lists,
until one has an answer. -/
def executeAvetSingle (masterTenantId : String) (tenants : List String)
    (tenant attrName : String) (value : DatomValue) (entityType : Option String) : List String :=
  let ids := executeAvetSingleWithTypeTolerance st tenant attrName value entityType
  if ids = [] ∧ tenant = masterTenantId then
    let answers := (tenants.filter fun t => t ≠ masterTenantId).map fun t =>
      executeAvetSingleWithTypeTolerance st t attrName value entityType
    (answers.find? fun found => found ≠ []).getD []
  else ids

end Queries

/-! ### Partitions of tenants -/

/-- What comes before the first separator, and what comes after it. -/
theorem append_sep_inj {α : Type*} [DecidableEq α] {sep : α} {l l' m m' : List α} (hl : sep ∉ l)
    (hl' : sep ∉ l') : l ++ sep :: m = l' ++ sep :: m' ↔ l = l' ∧ m = m' := by
  constructor
  · intro h
    have hsplit := congrArg (splitOnSep sep) h
    rw [splitOnSep_append hl, splitOnSep_append hl'] at hsplit
    obtain rfl := (List.cons.inj hsplit).1
    exact ⟨rfl, (List.cons.inj (List.append_cancel_left h)).2⟩
  · rintro ⟨rfl, rfl⟩
    rfl

theorem eavtPk_inj_of_plain {tenantId tenantId' entityId entityId' : String}
    (ht : '#' ∉ tenantId.toList) (ht' : '#' ∉ tenantId'.toList) :
    eavtPk tenantId entityId = eavtPk tenantId' entityId' ↔
      tenantId = tenantId' ∧ entityId = entityId' := by
  have hlist (t e : String) : (eavtPk t e).toList =
      ['T', '#'] ++ (t.toList ++ '#' :: (['E', '#'] ++ e.toList)) := by
    simp [eavtPk]
  rw [← String.toList_inj, hlist, hlist, List.append_cancel_left_eq, append_sep_inj ht ht',
    List.append_cancel_left_eq, String.toList_inj, String.toList_inj]

theorem avetPk_inj_of_plain {tenantId tenantId' name name' : String}
    (ht : '#' ∉ tenantId.toList) (ht' : '#' ∉ tenantId'.toList) :
    avetPk tenantId name = avetPk tenantId' name' ↔ tenantId = tenantId' ∧ name = name' := by
  have hlist (t n : String) : (avetPk t n).toList =
      ['T', '#'] ++ (t.toList ++ '#' :: (['A', 'V', '#'] ++ n.toList)) := by
    simp [avetPk]
  rw [← String.toList_inj, hlist, hlist, List.append_cancel_left_eq, append_sep_inj ht ht',
    List.append_cancel_left_eq, String.toList_inj, String.toList_inj]

/-! ### The latest of some datoms -/

theorem notBefore_iff {p v : U64 × Bool} :
    notBefore p v = true ↔ v.1 < p.1 ∨ v.1 = p.1 ∧ v.2 ≤ p.2 := by
  obtain ⟨t, o⟩ := p
  obtain ⟨u, q⟩ := v
  cases o <;> cases q <;> simp [notBefore]

theorem notBefore_refl (v : U64 × Bool) : notBefore v v = true :=
  notBefore_iff.mpr (Or.inr ⟨rfl, le_rfl⟩)

theorem notBefore_trans {p v u : U64 × Bool} (h : notBefore p v = true) (h' : notBefore v u = true) :
    notBefore p u = true := by
  rw [notBefore_iff] at h h' ⊢
  rcases h with hlt | ⟨heq, hle⟩
  · rcases h' with hlt' | ⟨heq', _⟩
    · exact Or.inl (hlt'.trans hlt)
    · exact Or.inl (heq' ▸ hlt)
  · rcases h' with hlt' | ⟨heq', hle'⟩
    · exact Or.inl (heq ▸ hlt')
    · exact Or.inr ⟨heq'.trans heq, hle'.trans hle⟩

theorem notBefore_of_not {p v : U64 × Bool} (h : notBefore p v = false) : notBefore v p = true := by
  have hnot : ¬ (v.1 < p.1 ∨ v.1 = p.1 ∧ v.2 ≤ p.2) := by
    rw [← notBefore_iff, h]
    exact Bool.false_ne_true
  rw [not_or, not_lt, not_and] at hnot
  rw [notBefore_iff]
  rcases hnot.1.lt_or_eq with hlt | heq
  · exact Or.inl hlt
  · exact Or.inr ⟨heq, (not_le.mp (hnot.2 heq.symm)).le⟩

theorem latestDatom_concat (own : List Datom) (d : Datom) :
    latestDatom (own ++ [d]) = (keepLatest Datom.version (latestDatom own) d).or (latestDatom own) := by
  rw [latestDatom, List.foldl_append]
  rfl

theorem latestDatom_ne_none {own : List Datom} (h : own ≠ []) : latestDatom own ≠ none := by
  induction own using List.reverseRecOn with
  | nil => exact absurd rfl h
  | append_singleton own u ih =>
    rw [latestDatom_concat]
    cases hlatest : latestDatom own with
    | none => exact Option.some_ne_none u
    | some b => cases hkeep : keepLatest Datom.version (some b) u <;> simp

/-- The latest of some datoms is one of them, and none of them is later. -/
theorem latestDatom_spec {own : List Datom} {d : Datom} (h : latestDatom own = some d) :
    d ∈ own ∧ ∀ u ∈ own, notBefore d.version u.version = true := by
  induction own using List.reverseRecOn generalizing d with
  | nil => cases h
  | append_singleton own u ih =>
    rw [latestDatom_concat] at h
    cases hlatest : latestDatom own with
    | none =>
      rw [hlatest] at h
      cases h
      refine ⟨List.mem_append_right _ (List.mem_singleton_self u), fun v hv => ?_⟩
      rcases List.mem_append.mp hv with hv | hv
      · cases own with
        | nil => cases hv
        | cons a rest =>
          exfalso
          exact latestDatom_ne_none (List.cons_ne_nil a rest) hlatest
      · rw [List.mem_singleton.mp hv]
        exact notBefore_refl _
    | some b =>
      obtain ⟨hb, hall⟩ := ih hlatest
      rw [hlatest, keepLatest] at h
      cases hnot : notBefore b.version u.version with
      | true =>
        rw [hnot] at h
        cases h
        refine ⟨List.mem_append_left _ hb, fun v hv => ?_⟩
        rcases List.mem_append.mp hv with hv | hv
        · exact hall v hv
        · rw [List.mem_singleton.mp hv]
          exact hnot
      | false =>
        rw [hnot] at h
        cases h
        refine ⟨List.mem_append_right _ (List.mem_singleton_self u), fun v hv => ?_⟩
        rcases List.mem_append.mp hv with hv | hv
        · exact notBefore_trans (notBefore_of_not hnot) (hall v hv)
        · rw [List.mem_singleton.mp hv]
          exact notBefore_refl _

/-! ### What a query finds -/

/-- A list of images is the image of a list. -/
theorem exists_map_eq {α β : Type*} {f : α → β} {P : α → Prop} {l : List β}
    (h : ∀ b ∈ l, ∃ a, f a = b ∧ P a) : ∃ as : List α, as.map f = l ∧ ∀ a ∈ as, P a := by
  induction l with
  | nil => exact ⟨[], rfl, by simp⟩
  | cons b rest ih =>
    obtain ⟨a, rfl, ha⟩ := h b List.mem_cons_self
    obtain ⟨as, rfl, has⟩ := ih fun b hb => h b (List.mem_cons_of_mem _ hb)
    exact ⟨a :: as, rfl, List.forall_mem_cons.mpr ⟨ha, has⟩⟩

section Rows
variable [F64Text]

/-- A datom as a revision of its cell. -/
def Datom.revision (d : Datom) : Revision U64 Item := ⟨d.txId, d.op, eavtItem d⟩

/-- The latest of the datoms of a log tells what is current in it. -/
theorem latest_any_iff {log : List (Revision U64 Item)} (hlog : Revision.Ascending log)
    {own : List Datom} (hown : ∀ r, r ∈ log ↔ ∃ d ∈ own, r = d.revision) (f : Item → Bool) :
    ((latestDatom own).any fun d => d.op && f (eavtItem d)) = true ↔
      ∃ c, Revision.current log = some c ∧ f c.val = true := by
  cases hlatest : latestDatom own with
  | none =>
    have hempty : log = [] := by
      apply List.eq_nil_iff_forall_not_mem.mpr
      intro r hr
      obtain ⟨d, hd, _⟩ := (hown r).mp hr
      exact latestDatom_ne_none (List.ne_nil_of_mem hd) hlatest
    simp [hempty]
  | some d =>
    obtain ⟨hd, hall⟩ := latestDatom_spec hlatest
    have hmem : d.revision ∈ log := (hown _).mpr ⟨d, hd, rfl⟩
    have hlast : log.getLast? = some d.revision := by
      obtain ⟨l, hl⟩ := Option.isSome_iff_exists.mp
        (List.getLast?_isSome.mpr (List.ne_nil_of_mem hmem))
      obtain ⟨hlmem, hbefore⟩ := hlog.getLast?_iff.mp hl
      obtain ⟨u, hu, rfl⟩ := (hown l).mp hlmem
      rcases hbefore d.revision hmem with heq | hlt
      · rw [hl, heq]
      · exfalso
        rcases notBefore_iff.mp (hall u hu) with hstamp | ⟨hstamp, hop⟩
        · rcases hlt with hlt | ⟨heq, _⟩
          · exact lt_asymm hstamp hlt
          · exact absurd heq hstamp.ne'
        · rcases hlt with hlt | ⟨_, hlt⟩
          · exact absurd hstamp hlt.ne'
          · exact absurd hlt (not_lt.mpr hop)
    rw [Option.any_some, Revision.current, hlast, Option.filter_some, Bool.and_eq_true]
    constructor
    · rintro ⟨hop, hf⟩
      exact ⟨d.revision, if_pos hop, hf⟩
    · rintro ⟨c, hc, hf⟩
      split_ifs at hc with hop
      cases hc
      exact ⟨hop, hf⟩

/-- Whether an item lies in the part of the index that a query goes over. -/
def inPart (part : String) (cond : KeyCondition) (item : Item) : Bool :=
  (valueKey item).any fun key => decide (key.1 = part ∧ cond.Matches key.2)

omit [F64Text] in
theorem inPart_iff {part : String} {cond : KeyCondition} {item : Item} :
    inPart part cond item = true ↔ ∃ sort, valueKey item = some (part, sort) ∧ cond.Matches sort := by
  rw [inPart]
  cases valueKey item with
  | none => simp
  | some key =>
    obtain ⟨p, sort⟩ := key
    simp

namespace EavHistory
variable {registry : CodeRegistry} {attrId : U16} {name : String} {type : ValueType}
  {w : EavHistory} {tenantId keyCondition : String} {values : Item} {cond : KeyCondition}

/-- An item of the index under the attribute is a datom of its cell. -/
theorem Indexed.datom_of_inPart (h : w.Indexed registry attrId name type)
    (ht : '#' ∉ tenantId.toList) {key : PrimaryKey} {item : Item}
    (hitem : w.store.items.lookup key = some item)
    (hpart : inPart (avetPk tenantId name) cond item = true) :
    ∃ d : Datom, eavtItem d = item ∧ key = d.key ∧ d.tenantId = tenantId ∧ d.attrId = attrId ∧
      '#' ∉ d.entityId.toList := by
  obtain ⟨sort, hown, _⟩ := inPart_iff.mp hpart
  obtain ⟨d, rfl, rfl, hentered⟩ := h.entered key item hitem
    (h.strays key item hitem (by rw [hown]; exact Option.some_ne_none _))
  rw [valueKey_eavtItem, DatomValue.keyOf] at hown
  split_ifs at hown
  obtain ⟨htenant, hname⟩ := (avetPk_inj_of_plain hentered.tenant ht).mp
    (Prod.mk.inj (Option.some.inj hown)).1
  have hid := hentered.named.mp hname
  exact ⟨d, rfl, rfl, htenant, hid, hentered.entity hid⟩

/-- The rows of a query are the revisions of the cells that lie in its part of the index. -/
theorem Indexed.rows (h : w.Indexed registry attrId name type) (ht : '#' ∉ tenantId.toList)
    (hcond : Expresses (scanBounds keyCondition values) (avetPk tenantId name) cond) :
    ∃ datoms : List Datom,
      w.store.query (some "GSI-AVET") keyCondition values true none = datoms.map eavtItem ∧
      (∀ d ∈ datoms, entityOfPk d.eavtPk = some d.entityId) ∧
      ∀ entityId r, r ∈ (cell w.store.items (eavtPk tenantId entityId) attrId).filter
          (fun r => inPart (avetPk tenantId name) cond r.val) ↔
        ∃ d ∈ datoms.filter (·.entityId = entityId), r = d.revision := by
  obtain ⟨hits, hperm, _, hmatched⟩ := matchedItems_exact .avet h.exact hcond
  have hmem (item : Item) : item ∈ hits.map Hit.item ↔ ∃ key,
      w.store.items.lookup key = some item ∧ inPart (avetPk tenantId name) cond item = true := by
    simp only [List.mem_map, hperm.mem_iff, mem_fullScan, inPart_iff]
    constructor
    · rintro ⟨hit, ⟨hitem, hown, hmatch⟩, rfl⟩
      exact ⟨hit.key, hitem, hit.sort, hown, hmatch⟩
    · rintro ⟨key, hitem, sort, hown, hmatch⟩
      exact ⟨⟨sort, key, item⟩, ⟨hitem, hown, hmatch⟩, rfl⟩
  obtain ⟨datoms, hdatoms, hall⟩ := exists_map_eq (f := eavtItem) (l := hits.map Hit.item)
    (P := fun d : Datom => w.store.items.lookup d.key = some (eavtItem d) ∧ d.tenantId = tenantId ∧
      d.attrId = attrId ∧ '#' ∉ d.entityId.toList) (by
    intro item hitem
    obtain ⟨key, hlookup, hpart⟩ := (hmem item).mp hitem
    obtain ⟨d, rfl, rfl, htenant, hid, hentity⟩ := h.datom_of_inPart ht hlookup hpart
    exact ⟨d, rfl, hlookup, htenant, hid, hentity⟩)
  refine ⟨datoms, by rw [hdatoms, MbfPartitionStore.query]; exact hmatched, ?_, ?_⟩
  · intro d hd
    obtain ⟨_, htenant, _, hentity⟩ := hall d hd
    rw [Datom.eavtPk, htenant]
    exact entityOfPk_eavtPk ht hentity
  · intro entityId r
    rw [List.mem_filter, h.log.datoms.mem_cell]
    constructor
    · rintro ⟨⟨u, hu, rfl, hpk, hid⟩, hpart⟩
      have hrow : eavtItem u ∈ datoms.map eavtItem := by
        rw [hdatoms, hmem]
        exact ⟨u.key, hu, hpart⟩
      obtain ⟨d, hd, hitem⟩ := List.mem_map.mp hrow
      obtain ⟨_, htenant, _, _⟩ := hall d hd
      -- the item tells its key, and the key the transaction
      have hkey : d.key = u.key := by
        have hkeys := extractPkSk_eavtItem d
        rw [hitem, extractPkSk_eavtItem] at hkeys
        exact (Option.some.inj hkeys).symm
      obtain ⟨hpk', hsk⟩ : d.eavtPk = u.eavtPk ∧ d.eavtSk = u.eavtSk := PrimaryKey.mk.inj hkey
      obtain ⟨_, htx, hop⟩ := buildEavtSk_inj.mp hsk
      refine ⟨d, List.mem_filter.mpr ⟨hd, ?_⟩, ?_⟩
      · rw [hpk, Datom.eavtPk, htenant, eavtPk_inj] at hpk'
        exact decide_eq_true hpk'
      · rw [Datom.revision, hitem, htx, hop]
    · rintro ⟨d, hd, rfl⟩
      obtain ⟨hd, hentity⟩ := List.mem_filter.mp hd
      obtain ⟨hlookup, htenant, hid, _⟩ := hall d hd
      have hrow : eavtItem d ∈ hits.map Hit.item := by
        rw [← hdatoms]
        exact List.mem_map_of_mem hd
      obtain ⟨_, _, hpart⟩ := (hmem _).mp hrow
      refine ⟨⟨d, hlookup, rfl, ?_, hid⟩, hpart⟩
      rw [Datom.eavtPk, htenant, of_decide_eq_true hentity]

/-- An entity is found where its current value has its key in the part, and passes. -/
theorem Indexed.latest_iff (h : w.Indexed registry attrId name type) {datoms : List Datom}
    {entityId : String} (hrows : ∀ r, r ∈ (cell w.store.items (eavtPk tenantId entityId) attrId).filter
        (fun r => inPart (avetPk tenantId name) cond r.val) ↔
      ∃ d ∈ datoms.filter (·.entityId = entityId), r = d.revision) (f : Item → Bool) :
    ((latestDatom (datoms.filter (·.entityId = entityId))).any fun d => d.op && f (eavtItem d)) = true ↔
      ∃ c, Revision.current (cell w.store.items (eavtPk tenantId entityId) attrId) = some c ∧
        inPart (avetPk tenantId name) cond c.val = true ∧ f c.val = true := by
  have hascending := (h.log.datoms.cell_ascending (eavtPk tenantId entityId) attrId).filter
    fun r => inPart (avetPk tenantId name) cond r.val
  have hcurrent := (h.closed (eavtPk tenantId entityId)).currentWhere
    (p := inPart (avetPk tenantId name) cond) fun u v huv => by rw [inPart, inPart, huv]
  rw [latest_any_iff hascending hrows]
  rw [Revision.currentWhere] at hcurrent
  rw [hcurrent]
  constructor
  · rintro ⟨c, hc, hf⟩
    obtain ⟨hc, hpart⟩ := Option.filter_eq_some_iff.mp hc
    exact ⟨c, hc, hpart, hf⟩
  · rintro ⟨c, hc, hpart, hf⟩
    exact ⟨c, Option.filter_eq_some_iff.mpr ⟨hc, hpart⟩, hf⟩

/-- A query by value names the entities whose current value lies in its part and has the text. -/
theorem Indexed.byValue (h : w.Indexed registry attrId name type) (ht : '#' ∉ tenantId.toList)
    (hcond : Expresses (scanBounds keyCondition values) (avetPk tenantId name) cond)
    (expectedV : String) :
    (dedupLatestAssertedByValue (w.store.query (some "GSI-AVET") keyCondition values true none)
        expectedV).Nodup ∧
      ∀ entityId, entityId ∈ dedupLatestAssertedByValue
          (w.store.query (some "GSI-AVET") keyCondition values true none) expectedV ↔
        ∃ c, Revision.current (cell w.store.items (eavtPk tenantId entityId) attrId) = some c ∧
          inPart (avetPk tenantId name) cond c.val = true ∧
            valueMatches expectedV (c.val.lookup "v") = true := by
  obtain ⟨datoms, hquery, htold, hrows⟩ := h.rows ht hcond
  obtain ⟨hnodup, hmem⟩ := (NamesEntities.of_told htold).byValue expectedV
  rw [hquery]
  refine ⟨hnodup, fun entityId => ?_⟩
  rw [hmem, ← h.latest_iff (hrows entityId) fun item => valueMatches expectedV (item.lookup "v")]
  simp only [hasValue, eavtItem_v]

/-- A query by range names the entities whose current value lies in its part. -/
theorem Indexed.inRange (h : w.Indexed registry attrId name type) (ht : '#' ∉ tenantId.toList)
    (hcond : Expresses (scanBounds keyCondition values) (avetPk tenantId name) cond) :
    (dedupLatestAssertedInRange
        (w.store.query (some "GSI-AVET") keyCondition values true none)).Nodup ∧
      ∀ entityId, entityId ∈ dedupLatestAssertedInRange
          (w.store.query (some "GSI-AVET") keyCondition values true none) ↔
        ∃ c, Revision.current (cell w.store.items (eavtPk tenantId entityId) attrId) = some c ∧
          inPart (avetPk tenantId name) cond c.val = true := by
  obtain ⟨datoms, hquery, htold, hrows⟩ := h.rows ht hcond
  obtain ⟨hnodup, hmem⟩ := (NamesEntities.of_told htold).inRange
  rw [hquery]
  refine ⟨hnodup, fun entityId => ?_⟩
  have hlatest := h.latest_iff (hrows entityId) fun _ => true
  simp only [Bool.and_true, and_true] at hlatest
  rw [hmem, ← hlatest]
  rfl

end EavHistory
end Rows
end MetriEngine.Eav

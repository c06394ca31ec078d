import MetriEngine.Eav.Names
import MetriEngine.Foundation.Revisions

/-!
# The log of one attribute of one entity

The entries of a partition under one attribute id are a log of revisions, in the order of
their transactions. Its last revision is what the readers show and what the writer takes
for active; a transaction appends what it retracts and then what it asserts.
-/
namespace MetriEngine.Eav
open Foundation Storage

/-! ### Cells -/

/-- An entry of a partition under an attribute id, as a revision. -/
def cellEntry (pk : String) (attrId : U16) (key : PrimaryKey) (item : Item) :
    Option (Revision U64 Item) :=
  if key.pk = pk then
    (decodeEavtSk key.sk).bind fun k => if k.1 = attrId then some ⟨k.2.1, k.2.2, item⟩ else none
  else none

/-- The revisions of an attribute of an entity. -/
def cell (items : OrdMap PrimaryKey Item) (pk : String) (attrId : U16) : List (Revision U64 Item) :=
  (items.collect (cellEntry pk attrId)).entries.map Prod.snd

theorem cellEntry_eq_some {pk : String} {attrId : U16} {key : PrimaryKey} {item : Item}
    {r : Revision U64 Item} : cellEntry pk attrId key item = some r ↔
      key.pk = pk ∧ decodeEavtSk key.sk = some (attrId, r.stamp, r.op) ∧ r.val = item := by
  obtain ⟨stamp, op, val⟩ := r
  unfold cellEntry
  constructor
  · intro h
    split_ifs at h with hpk
    obtain ⟨k, hkey, hk⟩ := Option.bind_eq_some_iff.mp h
    split_ifs at hk with hid
    cases hk
    exact ⟨hpk, by rw [hkey, ← hid], rfl⟩
  · rintro ⟨hpk, hkey, rfl⟩
    rw [if_pos hpk, hkey, Option.bind_some, if_pos rfl]

theorem mem_cell {items : OrdMap PrimaryKey Item} {pk : String} {attrId : U16}
    {r : Revision U64 Item} : r ∈ cell items pk attrId ↔
      ∃ key, items.lookup key = some r.val ∧ key.pk = pk ∧
        decodeEavtSk key.sk = some (attrId, r.stamp, r.op) := by
  rw [cell, List.mem_map]
  constructor
  · rintro ⟨⟨key, r⟩, hentry, rfl⟩
    have hlookup := OrdMap.lookup_eq_some.mpr hentry
    rw [OrdMap.lookup_collect] at hlookup
    obtain ⟨item, hitem, hr⟩ := Option.bind_eq_some_iff.mp hlookup
    obtain ⟨hpk, hkey, rfl⟩ := cellEntry_eq_some.mp hr
    exact ⟨key, hitem, hpk, hkey⟩
  · rintro ⟨key, hitem, hpk, hkey⟩
    refine ⟨(key, r), ?_, rfl⟩
    apply OrdMap.lookup_eq_some.mp
    rw [OrdMap.lookup_collect, hitem, Option.bind_some]
    exact cellEntry_eq_some.mpr ⟨hpk, hkey, rfl⟩

/-! ### Cells of a store of datoms -/

section Store
variable [F64Text] {registry : CodeRegistry} {items items' : OrdMap PrimaryKey Item}

theorem DatomStore.sk_of_decode (h : DatomStore registry items) {key : PrimaryKey} {item : Item}
    {attrId : U16} {txId : U64} {op : Bool} (hitem : items.lookup key = some item)
    (hkey : decodeEavtSk key.sk = some (attrId, txId, op)) : key.sk = buildEavtSk attrId txId op := by
  obtain ⟨d, rfl, _⟩ := h.datoms key item hitem (length_of_decodeEavtSk hkey)
  rw [Datom.key, Datom.eavtSk, decodeEavtSk_buildEavtSk] at hkey
  cases hkey
  rfl

/-- A revision of a cell is a datom. -/
theorem DatomStore.mem_cell (h : DatomStore registry items) {pk : String} {attrId : U16}
    {r : Revision U64 Item} : r ∈ cell items pk attrId ↔
      ∃ d : Datom, items.lookup d.key = some (eavtItem d) ∧ r = ⟨d.txId, d.op, eavtItem d⟩ ∧
        d.eavtPk = pk ∧ d.attrId = attrId := by
  rw [Eav.mem_cell]
  constructor
  · rintro ⟨key, hitem, hpk, hkey⟩
    obtain ⟨d, rfl, hval, _⟩ := h.datoms key r.val hitem (length_of_decodeEavtSk hkey)
    rw [Datom.key, Datom.eavtSk, decodeEavtSk_buildEavtSk] at hkey
    obtain ⟨stamp, op, val⟩ := r
    cases hkey
    obtain rfl : val = eavtItem d := hval
    exact ⟨d, hitem, rfl, hpk, rfl⟩
  · rintro ⟨d, hitem, rfl, hpk, rfl⟩
    exact ⟨d.key, hitem, hpk, by rw [Datom.key, Datom.eavtSk, decodeEavtSk_buildEavtSk]⟩

/-- Revisions come in the order of their transactions. -/
theorem DatomStore.cell_ascending (h : DatomStore registry items) (pk : String) (attrId : U16) :
    Revision.Ascending (cell items pk attrId) := by
  rw [Revision.Ascending, cell, List.pairwise_map]
  apply List.Pairwise.imp_of_mem _ (items.collect (cellEntry pk attrId)).sorted
  rintro ⟨key, r⟩ ⟨key', r'⟩ he he' hlt
  have hdatom {key : PrimaryKey} {r : Revision U64 Item}
      (he : (key, r) ∈ (items.collect (cellEntry pk attrId)).entries) :
      key = ⟨pk, buildEavtSk attrId r.stamp r.op⟩ := by
    have hlookup := OrdMap.lookup_eq_some.mpr he
    rw [OrdMap.lookup_collect] at hlookup
    obtain ⟨item, hitem, hr⟩ := Option.bind_eq_some_iff.mp hlookup
    obtain ⟨hpk, hkey, _⟩ := cellEntry_eq_some.mp hr
    rw [← hpk, ← h.sk_of_decode hitem hkey]
  have hlt : key < key' := hlt
  rw [hdatom he, hdatom he'] at hlt
  rcases PrimaryKey.lt_iff.mp hlt with hpk | ⟨_, hsk⟩
  · exact absurd hpk (lt_irrefl _)
  · rcases buildEavtSk_lt_iff.mp hsk with hid | ⟨_, hstamp | ⟨hstamp, hop⟩⟩
    · exact absurd hid (lt_irrefl _)
    · exact Or.inl hstamp
    · exact Or.inr ⟨hstamp, hop⟩

/-- A transaction appends to a cell what it retracts and what it asserts. -/
theorem DatomStore.cell_append (h : DatomStore registry items) (h' : DatomStore registry items')
    {tx : U64} (hkeep : ∀ key attrId txId op, key.sk = buildEavtSk attrId txId op → txId ≠ tx →
      items'.lookup key = items.lookup key)
    (hfresh : ∀ key attrId txId op, key.sk = buildEavtSk attrId txId op → tx ≤ txId →
      items.lookup key = none) (pk : String) (attrId : U16) :
    cell items' pk attrId = cell items pk attrId ++
      Revision.revise tx (items'.lookup ⟨pk, buildEavtSk attrId tx false⟩)
        (items'.lookup ⟨pk, buildEavtSk attrId tx true⟩) := by
  let added := items'.collect fun key item =>
    (cellEntry pk attrId key item).filter fun r => decide (r.stamp = tx)
  have hentry {items : OrdMap PrimaryKey Item} (hstore : DatomStore registry items)
      {key : PrimaryKey} {r : Revision U64 Item}
      (hr : (items.lookup key).bind (cellEntry pk attrId key) = some r) :
      key = ⟨pk, buildEavtSk attrId r.stamp r.op⟩ := by
    obtain ⟨item, hitem, hr⟩ := Option.bind_eq_some_iff.mp hr
    obtain ⟨hpk, hkey, _⟩ := cellEntry_eq_some.mp hr
    rw [← hpk, ← hstore.sk_of_decode hitem hkey]
  have hadded (key : PrimaryKey) : added.lookup key =
      ((items'.lookup key).bind (cellEntry pk attrId key)).filter fun r => decide (r.stamp = tx) := by
    rw [OrdMap.lookup_collect]
    cases items'.lookup key <;> rfl
  have hsplit : (items'.collect (cellEntry pk attrId)).entries =
      (items.collect (cellEntry pk attrId)).entries ++ added.entries := by
    apply OrdMap.entries_eq_append
    · rintro ⟨key, r⟩ he ⟨key', r'⟩ he'
      have hr := OrdMap.lookup_eq_some.mpr he
      rw [OrdMap.lookup_collect] at hr
      have hr' := OrdMap.lookup_eq_some.mpr he'
      rw [hadded] at hr'
      obtain ⟨hr', hstamp⟩ := Option.filter_eq_some_iff.mp hr'
      have hstamp : r'.stamp = tx := of_decide_eq_true hstamp
      obtain rfl := hentry h hr
      obtain rfl := hentry h' hr'
      have hlt : r.stamp < tx := by
        by_contra hle
        rw [hfresh _ _ _ _ rfl (not_lt.mp hle)] at hr
        cases hr
      apply PrimaryKey.lt_iff.mpr
      apply Or.inr
      refine ⟨rfl, buildEavtSk_lt_iff.mpr (Or.inr ⟨rfl, Or.inl ?_⟩)⟩
      rw [hstamp]
      exact hlt
    · intro key
      rw [OrdMap.lookup_collect, OrdMap.lookup_collect, hadded]
      cases hr' : (items'.lookup key).bind (cellEntry pk attrId key) with
      | none =>
        cases hr : (items.lookup key).bind (cellEntry pk attrId key) with
        | none => rfl
        | some r =>
          exfalso
          obtain rfl := hentry h hr
          by_cases hstamp : r.stamp = tx
          · rw [hfresh _ _ _ _ rfl hstamp.ge] at hr
            cases hr
          · rw [hkeep _ _ _ _ rfl hstamp, hr] at hr'
            cases hr'
      | some r' =>
        obtain rfl := hentry h' hr'
        by_cases hstamp : r'.stamp = tx
        · rw [hfresh _ _ _ _ rfl hstamp.ge]
          simp [Option.filter_some, hstamp]
        · rw [← hkeep _ _ _ _ rfl hstamp, hr']
          simp
  have hlt : (⟨pk, buildEavtSk attrId tx false⟩ : PrimaryKey) < ⟨pk, buildEavtSk attrId tx true⟩ := by
    apply PrimaryKey.lt_iff.mpr
    apply Or.inr
    exact ⟨rfl, buildEavtSk_lt_iff.mpr (Or.inr ⟨rfl, Or.inr ⟨rfl, by decide⟩⟩)⟩
  have hpair := OrdMap.entries_of_pair hlt (m := added) fun key hkey => by
    obtain ⟨r, hr⟩ := Option.ne_none_iff_exists'.mp hkey
    rw [hadded] at hr
    obtain ⟨hr, hstamp⟩ := Option.filter_eq_some_iff.mp hr
    have hstamp : r.stamp = tx := of_decide_eq_true hstamp
    have hkey := hentry h' hr
    rw [hstamp] at hkey
    cases hop : r.op with
    | false => exact Or.inl (by rw [hkey, hop])
    | true => exact Or.inr (by rw [hkey, hop])
  have hlookup (op : Bool) : added.lookup ⟨pk, buildEavtSk attrId tx op⟩ =
      (items'.lookup ⟨pk, buildEavtSk attrId tx op⟩).map fun item => ⟨tx, op, item⟩ := by
    rw [hadded]
    cases items'.lookup ⟨pk, buildEavtSk attrId tx op⟩ with
    | none => rfl
    | some item => simp [cellEntry, Option.filter_some]
  rw [cell, hsplit, List.map_append, hpair, hlookup, hlookup, cell, Revision.revise]
  congr 1
  cases items'.lookup ⟨pk, buildEavtSk attrId tx false⟩ <;>
    cases items'.lookup ⟨pk, buildEavtSk attrId tx true⟩ <;> rfl

end Store

/-! ### What readers make of a cell -/

/-- The text of every double is a number, that of a NaN too. -/
class F64Text.Total [F64Text] : Prop where
  parse_display_ne_none : ∀ d : F64, F64Text.parse (F64Text.display d) ≠ none

theorem bitsText_total : @F64Text.Total bitsText := by
  refine @F64Text.Total.mk bitsText ?_
  intro d
  have hparse : @F64Text.parse bitsText (@F64Text.display bitsText d) = some d := bitsParse_bitsDisplay d
  rw [hparse]
  exact Option.some_ne_none d

section Readers
variable {α : Type}

/-- A fold of readings in the order of their transactions ends with the current one. -/
theorem latestOf_map {log : List (Revision U64 Item)} (hlog : Revision.Ascending log)
    {f : Revision U64 Item → Change α} (hstamp : ∀ r, (f r).txId = r.stamp)
    (hop : ∀ r, (f r).op = r.op) (hval : ∀ r ∈ log, (f r).val ≠ none) :
    latestOf (log.map f) =
      (Revision.current log).bind fun r => (f r).val.map fun v => (r.stamp, v) := by
  induction log using List.reverseRecOn with
  | nil => rfl
  | append_singleton log r ih =>
    have hprefix : Revision.Ascending log := (List.pairwise_append.mp hlog).1
    have hih := ih hprefix fun r hr => hval r (List.mem_append_left _ hr)
    obtain ⟨v, hv⟩ := Option.ne_none_iff_exists'.mp
      (hval r (List.mem_append_right _ (List.mem_singleton_self r)))
    rw [latestOf] at hih
    rw [latestOf, List.map_append, List.foldl_append, hih, Revision.current_concat]
    rw [List.map_singleton, List.foldl_cons, List.foldl_nil, Change.over, supersede, hstamp, hop, hv]
    have hnewer : ((Revision.current log).bind fun r => (f r).val.map fun v => (r.stamp, v)).all
        (fun prev => decide (prev.1 < r.stamp)) = true := by
      cases hcurrent : Revision.current log with
      | none => rfl
      | some c =>
        have hlt := hlog.current_lt hcurrent
        cases hc : (f c).val <;> simp [hc, hlt]
    rw [if_pos hnewer]
    by_cases hr : r.op = true
    · simp [hr, hv]
    · simp [hr]

variable [F64Text]

theorem extractNumber_ne_none {text : String}
    (h : Signed.parse 128 text ≠ none ∨ F64Text.parse text ≠ none) : extractNumber text ≠ none := by
  unfold extractNumber
  cases h64 : Signed.parse 64 text with
  | some n => simp
  | none =>
    cases h128 : Signed.parse 128 text with
    | some n => simp [plain_of_parse h128]
    | none =>
      have hparse := h.resolve_left fun hne => hne h128
      simpa using hparse

/-- Every value reads back as one. -/
theorem DatomValue.shown_ne_none [F64Text.Total] (v : DatomValue) : v.shown ≠ none := by
  have hinteger {text : String} {z : ℤ} (hz : parseSigned text.toList = some z)
      (hfits : -2 ^ (128 - 1) ≤ z ∧ z < 2 ^ (128 - 1)) : extractNumber text ≠ none := by
    apply extractNumber_ne_none
    apply Or.inl
    intro hnone
    exact (Signed.parse_eq_none_iff hz).mp hnone hfits
  cases v with
  | long n =>
    have hn := n.property
    exact hinteger (parseSigned_toString n.val) (by norm_num at hn ⊢; omega)
  | instant n =>
    have hn := n.property
    exact hinteger (parseSigned_toString n.val) (by norm_num at hn ⊢; omega)
  | bigInt n => exact hinteger (parseSigned_toString n.val) n.property
  | ref r =>
    have hr := r.isLt
    exact hinteger (parseSigned_toString (r.val : ℤ)) (by norm_num at hr ⊢; omega)
  | double d =>
    exact extractNumber_ne_none (Or.inr (F64Text.Total.parse_display_ne_none d))
  | _ => exact Option.some_ne_none _

variable {registry : CodeRegistry} {items : OrdMap PrimaryKey Item}

/-- What is taken under a name is what is read of the cell of its id. -/
theorem DatomStore.valueBy_cell (h : DatomStore registry items) (hnames : registry.OneName)
    {attrId : U16} {name : String} (hname : registry.getAttrName attrId = some name)
    {take : U16 × U64 × Bool → Item → Change α}
    (htake : ∀ k item, (take k item).name = registry.shownName k.1 ∧ (take k item).txId = k.2.1 ∧
      (take k item).op = k.2.2)
    (hval : ∀ (k : U16 × U64 × Bool) (d : Datom), (take k (eavtItem d)).val ≠ none) (pk : String) :
    valueBy (takenAt take pk name) items = (Revision.current (cell items pk attrId)).bind fun r =>
      (take (attrId, r.stamp, r.op) r.val).val := by
  have hcollect : items.collect (takenAt take pk name) = (items.collect (cellEntry pk attrId)).mapValues
      fun r => take (attrId, r.stamp, r.op) r.val := by
    apply OrdMap.ext
    intro key
    rw [OrdMap.lookup_mapValues, OrdMap.lookup_collect, OrdMap.lookup_collect]
    cases hitem : items.lookup key with
    | none => rfl
    | some item =>
      rw [Option.bind_some, Option.bind_some, takenAt, cellEntry]
      split_ifs with hpk
      · cases hkey : decodeEavtSk key.sk with
        | none => rfl
        | some k =>
          obtain ⟨d, rfl, rfl, hregistered⟩ := h.datoms key item hitem (length_of_decodeEavtSk hkey)
          rw [Datom.key, Datom.eavtSk, decodeEavtSk_buildEavtSk] at hkey
          cases hkey
          have hiff := hnames.shownName_eq_iff hname hregistered
          rw [Option.bind_some, Option.bind_some, (htake _ _).1]
          by_cases hid : d.attrId = attrId
          · rw [if_pos (hiff.mpr hid), if_pos hid, ← hid]
            rfl
          · rw [if_neg (fun heq => hid (hiff.mp heq)), if_neg hid]
            rfl
      · rfl
  have hlog : (items.collect (takenAt take pk name)).entries.map Prod.snd =
      (cell items pk attrId).map fun r => take (attrId, r.stamp, r.op) r.val := by
    rw [hcollect, cell, OrdMap.mapValues, List.map_map, List.map_map]
    rfl
  have hvals : ∀ r ∈ cell items pk attrId, (take (attrId, r.stamp, r.op) r.val).val ≠ none := by
    intro r hr
    obtain ⟨d, _, rfl, _⟩ := h.mem_cell.mp hr
    exact hval _ d
  rw [valueBy, hlog, latestOf_map (h.cell_ascending pk attrId) (fun r => (htake _ _).2.1)
    (fun r => (htake _ _).2.2) hvals]
  cases Revision.current (cell items pk attrId) with
  | none => rfl
  | some r => simp

/-- The value that a cell shows. -/
def shownOf (items : OrdMap PrimaryKey Item) (pk : String) (attrId : U16) : Option DatomValue :=
  (Revision.current (cell items pk attrId)).bind fun r => extractDatomValue r.val

variable [F64Text.Total] {st : MbfPartitionStore} {tenantId entityId : String}
  {attrs : Option (List String)}

/-- `pull` shows what the cell of the name shows. -/
theorem DatomStore.pull_lookup_cell (h : DatomStore registry st.items) (hnames : registry.OneName)
    {attrId : U16} {name : String} (hname : registry.getAttrName attrId = some name) :
    (pull registry st tenantId entityId attrs).lookup name =
      if asksFor attrs name then shownOf st.items (eavtPk tenantId entityId) attrId else none := by
  rw [h.pull_lookup, h.valueBy_cell hnames hname]
  · rfl
  · exact fun k item => ⟨rfl, rfl, rfl⟩
  · intro k d
    rw [shownTake, extractDatomValue_eavtItem]
    exact d.value.shown_ne_none

/-- The writer finds the same value active, with its id. -/
theorem DatomStore.active_lookup_cell (h : DatomStore registry st.items)
    (hnames : registry.OneName) {attrId : U16} {name : String}
    (hname : registry.getAttrName attrId = some name) :
    (getActiveAttributes registry st tenantId entityId).lookup name =
      (shownOf st.items (eavtPk tenantId entityId) attrId).map fun v => (attrId, v) := by
  rw [h.active_lookup, h.valueBy_cell hnames hname]
  · rw [shownOf]
    cases hcurrent : Revision.current (cell st.items (eavtPk tenantId entityId) attrId) with
    | none => rfl
    | some r =>
      obtain ⟨hlast, _⟩ := Option.filter_eq_some_iff.mp hcurrent
      obtain ⟨d, _, rfl, _⟩ := h.mem_cell.mp (List.mem_of_getLast? hlast)
      obtain ⟨v, hv⟩ := Option.ne_none_iff_exists'.mp d.value.shown_ne_none
      simp [activeTake, extractDatomValue_eavtItem, hv]
  · exact fun k item => ⟨hnames.activeName_eq _, rfl, rfl⟩
  · intro k d
    exact Option.some_ne_none _

/-- The writer finds active what a pull shows. -/
theorem DatomStore.active_lookup_snd (h : DatomStore registry st.items)
    (hnames : registry.OneName) (tenantId entityId name : String) :
    ((getActiveAttributes registry st tenantId entityId).lookup name).map Prod.snd =
      (pull registry st tenantId entityId none).lookup name := by
  by_cases hname : ∃ attrId, registry.getAttrName attrId = some name
  · obtain ⟨attrId, hname⟩ := hname
    rw [h.active_lookup_cell hnames hname, h.pull_lookup_cell hnames hname]
    simp [asksFor]
  · have hactive : (getActiveAttributes registry st tenantId entityId).lookup name = none := by
      by_contra hsome
      obtain ⟨⟨attrId, v⟩, hv⟩ := Option.ne_none_iff_exists'.mp hsome
      obtain ⟨d, _, _, _, hactive, _, _, hregistered⟩ := h.active_origin hv
      obtain ⟨other, hother⟩ := Option.ne_none_iff_exists'.mp hregistered
      rw [hnames.activeName_eq, CodeRegistry.shownName_of hother] at hactive
      exact hname ⟨attrId, by rw [hother, hactive]⟩
    have hpull : (pull registry st tenantId entityId none).lookup name = none := by
      by_contra hsome
      exact hname (h.pull_registered hsome)
    rw [hactive, hpull, Option.map_none]

/-- A pull shows nothing exactly where the writer finds nothing active. -/
theorem DatomStore.active_isEmpty_iff (h : DatomStore registry st.items)
    (hnames : registry.OneName) (tenantId entityId : String) :
    (getActiveAttributes registry st tenantId entityId).isEmpty = true ↔
      pull registry st tenantId entityId none = ∅ := by
  have hlookup := h.active_lookup_snd hnames tenantId entityId
  rw [OrdMap.isEmpty_iff]
  constructor
  · intro hempty
    apply OrdMap.ext
    intro name
    rw [← hlookup, hempty, OrdMap.lookup_empty, OrdMap.lookup_empty, Option.map_none]
  · intro hempty
    apply OrdMap.ext
    intro name
    rw [OrdMap.lookup_empty, ← Option.map_eq_none_iff, hlookup, hempty, OrdMap.lookup_empty]

end Readers

/-! ### What a call writes to a cell -/

/-- The datom of a list for an attribute of an entity, by its operation. -/
def written (datoms : List Datom) (pk : String) (attrId : U16) (op : Bool) : Option Datom :=
  datoms.find? fun d => d.eavtPk = pk ∧ d.attrId = attrId ∧ d.op = op

section Calls
variable [F64Text]

/-- What a cell shows after a call. -/
theorem shownOf_append {items items' : OrdMap PrimaryKey Item} {pk : String} {attrId : U16}
    {txId : U64} {retracted asserted : Option Datom}
    (h : cell items' pk attrId = cell items pk attrId ++
      Revision.revise txId (retracted.map eavtItem) (asserted.map eavtItem)) :
    shownOf items' pk attrId = asserted.elim
      (if retracted.isSome then none else shownOf items pk attrId) fun d => d.value.shown := by
  rw [shownOf, h, Revision.current_append_revise]
  cases asserted with
  | some d => simp
  | none => cases retracted <;> simp [shownOf]

variable [Derived] [KeyHash] {registry : CodeRegistry} {table : String}
  {st st' : MbfPartitionStore} {call : TransactCall} {result : TransactResult} {plan : TransactPlan}

/-- What a batch puts under a log key of its transaction is what its plan writes there. -/
theorem lookup_written (hplan : planTransact registry table call (readActive registry st call) =
      .ok plan) (hvalid : BatchValid st.items plan.batch)
    (hfresh : ∀ key attrId txId op, key.sk = buildEavtSk attrId txId op → call.txId ≤ txId →
      st.items.lookup key = none) (pk : String) (attrId : U16) (op : Bool) :
    (st.items.insertList (batchItems plan.batch)).lookup ⟨pk, buildEavtSk attrId call.txId op⟩ =
      (written plan.datoms pk attrId op).map eavtItem := by
  have hkey {d : Datom} (hd : d ∈ plan.datoms) :
      d.key = ⟨pk, buildEavtSk attrId call.txId op⟩ ↔ d.eavtPk = pk ∧ d.attrId = attrId ∧ d.op = op := by
    have htx := (plans_planTransact hplan hd).txId
    rw [Datom.key, Datom.eavtSk, htx, PrimaryKey.mk.injEq, buildEavtSk_inj]
    simp
  cases hwritten : written plan.datoms pk attrId op with
  | some d =>
    have hd := List.mem_of_find?_eq_some hwritten
    have hat := (hkey hd).mpr (by simpa using List.find?_some hwritten)
    apply OrdMap.lookup_insertList_of_mem _ hvalid.keys_nodup
    rw [mem_batchItems_planTransact hplan (by simp), ← hat]
    exact ⟨d, hd, rfl⟩
  | none =>
    have hnone := List.find?_eq_none.mp hwritten
    rw [OrdMap.lookup_insertList_of_notMem, hfresh _ _ _ _ rfl le_rfl]
    · rfl
    · intro hmem
      obtain ⟨e, he, hek⟩ := List.mem_map.mp hmem
      obtain ⟨d, hd, rfl⟩ := (mem_batchItems_planTransact hplan (by rw [hek]; simp)).mp he
      have hat := (hkey hd).mp hek
      exact hnone d hd (by simpa using hat)

/-- A call appends to a cell what its plan writes there. -/
theorem DatomStore.cell_transact (hsound : registry.Sound) (h : DatomStore registry st.items)
    (hcall : Eav.transact registry table st call = .ok (st', result))
    (hfresh : ∀ key attrId txId op, key.sk = buildEavtSk attrId txId op → call.txId ≤ txId →
      st.items.lookup key = none) :
    ∃ plan, planTransact registry table call (readActive registry st call) = .ok plan ∧
      BatchValid st.items plan.batch ∧ plan.result = result ∧
      ∀ pk attrId, cell st'.items pk attrId = cell st.items pk attrId ++
        Revision.revise call.txId ((written plan.datoms pk attrId false).map eavtItem)
          ((written plan.datoms pk attrId true).map eavtItem) := by
  obtain ⟨plan, hplan, hvalid, hresult, hitems⟩ := transact_ok hcall
  refine ⟨plan, hplan, hvalid, hresult, ?_⟩
  intro pk attrId
  have hkeep : ∀ key attrId txId op, key.sk = buildEavtSk attrId txId op → txId ≠ call.txId →
      st'.items.lookup key = st.items.lookup key :=
    fun key attrId txId op hkey hne => transact_lookup_of_ne hcall hkey hne
  rw [h.cell_append (h.transact hsound hcall) hkeep hfresh, hitems,
    lookup_written hplan hvalid hfresh, lookup_written hplan hvalid hfresh]

end Calls
end MetriEngine.Eav

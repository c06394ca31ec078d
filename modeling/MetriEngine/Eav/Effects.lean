import MetriEngine.Eav.Cells

/-!
# What a call asserts and retracts

Under the name of a plain attribute a call writes to its entity what the payload says, and
under a system name what the enricher adds. Both are functions of the call alone, the
value that a retraction names apart, which is the active one.
-/
namespace MetriEngine.Eav
open Foundation Storage

/-! ### Payloads -/

/-- Where names are distinct, a search by name finds any entry. -/
theorem find?_of_nodup {α : Type} {l : List (String × α)} (hl : (l.map Prod.fst).Nodup)
    {name : String} {value : α} (h : (name, value) ∈ l) :
    l.find? (fun e => e.1 = name) = some (name, value) := by
  cases hfind : l.find? fun e => e.1 = name with
  | none =>
    have hnone := List.find?_eq_none.mp hfind _ h
    simp at hnone
  | some e =>
    have hname : e.1 = name := by simpa using List.find?_some hfind
    exact congrArg some (List.inj_on_of_nodup_map hl (List.mem_of_find?_eq_some hfind) h hname)

theorem AttrMap.get_eq_some {attrs : AttrMap} {name : String} {value : DatomValue} :
    attrs.get name = some value ↔ (name, value) ∈ attrs.entries := by
  unfold AttrMap.get
  constructor
  · intro h
    obtain ⟨e, hfind, rfl⟩ := Option.map_eq_some_iff.mp h
    have hname : e.1 = name := by simpa using List.find?_some hfind
    rw [← hname]
    exact List.mem_of_find?_eq_some hfind
  · intro h
    rw [find?_of_nodup attrs.nodup h]
    rfl

/-! ### Calls -/

namespace TransactCall
variable (call : TransactCall)

/-- The partition of the entity. -/
def pk : String := eavtPk call.payload.tenantId call.entityId

/-- The partition of the outbox row. -/
def rowPk : String := eavtPk call.payload.tenantId call.mutationUlid

def target : PlanTarget :=
  ⟨call.payload.tenantId, call.payload.entityType, call.entityId, call.txId⟩

def actorText : String := Text.trim call.actorName

/-- The system attributes that a create or an update asserts. -/
def systemValues : List (String × DatomValue) :=
  [("entity/ulid", .str call.entityId), ("entity/type", .str call.payload.entityType),
    ("tenant/id", .str call.payload.tenantId)] ++
    (if call.payload.op = .create then [("meta/created_at", .instant call.nowMs)] else []) ++
    [("meta/updated_at", .instant call.nowMs)] ++
    if call.actorText = "" then []
    else (if call.payload.op = .create then [("meta/created_by", .str call.actorText)] else []) ++
      [("meta/updated_by", .str call.actorText)]

/-- The value that the call gives its entity under a name. -/
def asserts (name : String) : Option DatomValue :=
  if call.payload.op = .delete then none
  else ((call.systemValues.find? fun e => e.1 = name).map Prod.snd).or
    ((call.payload.attrs.get name).filter fun v => v ≠ .null)

/-- Whether an update takes back the active value of a system attribute. -/
def retractsSystem (name : String) : DatomValue → Bool
  | .str old => (name = "entity/type" ∧ old ≠ call.payload.entityType) ∨
      (name = "tenant/id" ∧ old ≠ call.payload.tenantId) ∨
        (name = "meta/updated_by" ∧ call.actorText ≠ "")
  | .instant _ => name = "meta/updated_at"
  | _ => false

/-- Whether the call takes back the active value under a name. -/
def retracts (name : String) (old : DatomValue) : Bool :=
  match call.payload.op with
  | .create => false
  | .update => (call.payload.attrs.get name).isSome || call.retractsSystem name old
  | .delete => true

end TransactCall

/-! ### The system attributes of a plan -/

section Enrich
variable {call : TransactCall} {active : ActiveAttrs} {d : Datom}

/-- The datoms that the enricher adds to the plan of a call. -/
abbrev TransactCall.enriched (call : TransactCall) (active : ActiveAttrs) : List Datom :=
  enrichDatoms call.target (call.payload.op = .create) active call.nowMs call.actorName

theorem mem_retractText_iff {t : PlanTarget} {isCreate : Bool} {name text : String} {attrId : U16} :
    d ∈ retractText t isCreate active name attrId text ↔
      isCreate = false ∧ ∃ held old, active.lookup name = some (held, .str old) ∧ old ≠ text ∧
        d = t.retract name attrId (.str old) := by
  unfold retractText
  constructor
  · intro h
    split at h
    · rename_i held old hlookup
      split_ifs at h with hold
      · exact ⟨hold.1, held, old, hlookup, hold.2, List.mem_singleton.mp h⟩
      · cases h
    · cases h
  · rintro ⟨hcreate, held, old, hlookup, hne, rfl⟩
    simp [hlookup, hcreate, hne]

theorem mem_retractInstant_iff {t : PlanTarget} {isCreate : Bool} {name : String} {attrId : U16} :
    d ∈ retractInstant t isCreate active name attrId ↔
      isCreate = false ∧ ∃ held old, active.lookup name = some (held, .instant old) ∧
        d = t.retract name attrId (.instant old) := by
  unfold retractInstant
  constructor
  · intro h
    split at h
    · rename_i held old hlookup
      split_ifs at h with hcreate
      · exact ⟨hcreate, held, old, hlookup, List.mem_singleton.mp h⟩
      · cases h
    · cases h
  · rintro ⟨hcreate, held, old, hlookup, rfl⟩
    simp [hlookup, hcreate]

/-- What the enricher asserts, in its order. -/
theorem enriched_asserted : ((call.enriched active).filter Datom.op).map (fun d => (d.attrName, d.value)) =
    call.systemValues := by
  have htext {name text : String} {attrId : U16} {isCreate : Bool} :
      (retractText call.target isCreate active name attrId text).filter Datom.op = [] := by
    apply List.filter_eq_nil_iff.mpr
    intro d hd
    obtain ⟨_, _, _, _, _, rfl⟩ := mem_retractText_iff.mp hd
    exact Bool.false_ne_true
  have hinstant {name : String} {attrId : U16} {isCreate : Bool} :
      (retractInstant call.target isCreate active name attrId).filter Datom.op = [] := by
    apply List.filter_eq_nil_iff.mpr
    intro d hd
    obtain ⟨_, _, _, _, rfl⟩ := mem_retractInstant_iff.mp hd
    exact Bool.false_ne_true
  have hassert (name : String) (attrId : U16) (value : DatomValue) :
      [call.target.assert name attrId value].filter Datom.op =
        [call.target.assert name attrId value] := rfl
  have hactor : ((actorDatoms call.target (call.payload.op = .create) active call.actorText).filter
      Datom.op).map (fun d => (d.attrName, d.value)) =
        if call.actorText = "" then []
        else (if call.payload.op = .create then [("meta/created_by", .str call.actorText)] else []) ++
          [("meta/updated_by", .str call.actorText)] := by
    unfold actorDatoms
    by_cases hempty : call.actorText = ""
    · rw [if_pos hempty, if_pos hempty]
      rfl
    · rw [if_neg hempty, if_neg hempty, List.filter_append, List.map_append, hassert]
      by_cases hcreate : call.payload.op = .create
      · rw [if_pos hcreate, if_pos (decide_eq_true hcreate)]
        rfl
      · rw [if_neg hcreate, if_neg (by simpa using hcreate)]
        split <;> rfl
  simp only [TransactCall.enriched, enrichDatoms, List.filter_append, List.map_append, htext,
    hinstant, hassert, List.append_nil]
  rw [show Text.trim call.actorName = call.actorText from rfl, hactor]
  by_cases hcreate : call.payload.op = .create
  · simp [TransactCall.systemValues, hcreate, TransactCall.target, PlanTarget.assert, Datom.assert]
  · simp [TransactCall.systemValues, hcreate, TransactCall.target, PlanTarget.assert, Datom.assert]

/-- What the enricher retracts. -/
theorem enriched_retracted {name : String} {old : DatomValue} :
    (∃ d ∈ call.enriched active, d.op = false ∧ d.attrName = name ∧ d.value = old) ↔
      call.payload.op ≠ .create ∧ (∃ held, active.lookup name = some (held, old)) ∧
        call.retractsSystem name old = true := by
  simp only [TransactCall.enriched, enrichDatoms, List.mem_append, List.mem_singleton]
  constructor
  · rintro ⟨d, hd, hop, rfl, rfl⟩
    rcases hd with (((((((rfl | hd) | rfl) | hd) | rfl) | hd) | hd) | rfl) | hd
    · cases hop
    · obtain ⟨hcreate, held, old, hlookup, hne, rfl⟩ := mem_retractText_iff.mp hd
      exact ⟨of_decide_eq_false hcreate, ⟨held, hlookup⟩, by
        simp [TransactCall.retractsSystem, PlanTarget.retract, Datom.retract]; exact hne⟩
    · cases hop
    · obtain ⟨hcreate, held, old, hlookup, hne, rfl⟩ := mem_retractText_iff.mp hd
      exact ⟨of_decide_eq_false hcreate, ⟨held, hlookup⟩, by
        simp [TransactCall.retractsSystem, PlanTarget.retract, Datom.retract]; exact hne⟩
    · cases hop
    · split_ifs at hd
      · obtain rfl := List.mem_singleton.mp hd
        cases hop
      · cases hd
    · obtain ⟨hcreate, held, old, hlookup, rfl⟩ := mem_retractInstant_iff.mp hd
      exact ⟨of_decide_eq_false hcreate, ⟨held, hlookup⟩, by
        simp [TransactCall.retractsSystem, PlanTarget.retract, Datom.retract]⟩
    · cases hop
    · unfold actorDatoms at hd
      split_ifs at hd with hempty hcreate
      · cases hd
      · simp at hd
        rcases hd with rfl | rfl <;> cases hop
      · rcases List.mem_append.mp hd with hd | hd
        · split at hd
          · rename_i held oldActor hlookup
            obtain rfl := List.mem_singleton.mp hd
            exact ⟨by simpa using hcreate, ⟨held, hlookup⟩, by
              simp [TransactCall.retractsSystem, PlanTarget.retract, Datom.retract]; exact hempty⟩
          · cases hd
        · obtain rfl := List.mem_singleton.mp hd
          cases hop
  · rintro ⟨hcreate, ⟨held, hlookup⟩, hretracts⟩
    cases old with
    | str old =>
      simp only [TransactCall.retractsSystem, Bool.decide_or, Bool.or_eq_true, decide_eq_true_eq]
        at hretracts
      rcases hretracts with ⟨rfl, hne⟩ | ⟨rfl, hne⟩ | ⟨rfl, hne⟩
      · exact ⟨_, Or.inl (Or.inl (Or.inl (Or.inl (Or.inl (Or.inl (Or.inl (Or.inr
          (mem_retractText_iff.mpr ⟨decide_eq_false hcreate, held, old, hlookup, hne, rfl⟩)))))))),
          rfl, rfl, rfl⟩
      · exact ⟨_, Or.inl (Or.inl (Or.inl (Or.inl (Or.inl (Or.inr
          (mem_retractText_iff.mpr ⟨decide_eq_false hcreate, held, old, hlookup, hne, rfl⟩)))))),
          rfl, rfl, rfl⟩
      · refine ⟨call.target.retract "meta/updated_by" 6 (.str old), Or.inr ?_, rfl, rfl, rfl⟩
        have hactor : Text.trim call.actorName ≠ "" := hne
        unfold actorDatoms
        rw [if_neg hactor, if_neg (by simpa using hcreate), hlookup]
        exact List.mem_append_left _ (List.mem_singleton_self _)
    | instant old =>
      have hname : name = "meta/updated_at" := by
        simpa [TransactCall.retractsSystem] using hretracts
      subst hname
      exact ⟨_, Or.inl (Or.inl (Or.inr
        (mem_retractInstant_iff.mpr ⟨decide_eq_false hcreate, held, old, hlookup, rfl⟩))),
        rfl, rfl, rfl⟩
    | _ => cases hretracts

theorem systemValues_system {e : String × DatomValue} (h : e ∈ call.systemValues) :
    ∃ attrId, (attrId, e.1) ∈ systemAttrs := by
  rw [← @enriched_asserted call ∅] at h
  obtain ⟨d, hd, rfl⟩ := List.mem_map.mp h
  exact ⟨d.attrId, (enrichDatoms_system (List.mem_filter.mp hd).1).1⟩

theorem systemValues_nodup : (call.systemValues.map Prod.fst).Nodup := by
  unfold TransactCall.systemValues
  by_cases hcreate : call.payload.op = .create <;> by_cases hactor : call.actorText = "" <;>
    simp [hcreate, hactor]

end Enrich

/-! ### The plan under one name -/

/-- A traversal that succeeds has a result for every member. -/
theorem exists_of_mapM_ok {α β ε : Type} {f : α → Except ε β} {l : List α} {r : List β}
    (h : l.mapM f = .ok r) {a : α} (ha : a ∈ l) : ∃ b ∈ r, f a = .ok b := by
  induction l generalizing r with
  | nil => cases ha
  | cons a' rest ih =>
    rw [List.mapM_cons] at h
    cases hf : f a' with
    | error e =>
      rw [hf] at h
      cases h
    | ok b =>
      rw [hf] at h
      cases hrest : rest.mapM f with
      | error e =>
        rw [hrest] at h
        cases h
      | ok r' =>
        rw [hrest] at h
        cases h
        rcases List.mem_cons.mp ha with rfl | ha
        · exact ⟨b, List.mem_cons_self, hf⟩
        · obtain ⟨b', hb', hf'⟩ := ih hrest ha
          exact ⟨b', List.mem_cons_of_mem _ hb', hf'⟩

section Plan
variable {registry : CodeRegistry} {call : TransactCall} {active : ActiveAttrs}

theorem attrDatoms_ok {t : PlanTarget} {isCreate : Bool} {e : String × DatomValue}
    {datoms : List Datom} (h : attrDatoms registry t isCreate active e = .ok datoms) :
    (∃ desc, registry.getAttribute t.entityType e.1 = some desc) ∧
      datoms = retractActive t isCreate e.1 (active.lookup e.1) ++
        if e.2 = .null then [] else [t.assert e.1 (hashAttrName e.1) e.2] := by
  unfold attrDatoms at h
  split at h
  · cases h
  · rename_i desc hdesc
    cases h
    rw [CodeRegistry.getAttribute_name hdesc]
    exact ⟨⟨desc, hdesc⟩, rfl⟩

/-- The active attributes bear the names of their ids. -/
def Named (registry : CodeRegistry) (active : ActiveAttrs) : Prop :=
  ∀ name attrId value, active.lookup name = some (attrId, value) →
    registry.getAttrName attrId = some name

theorem mem_retractActive_iff {t : PlanTarget} {isCreate : Bool} {name : String} {d : Datom} :
    d ∈ retractActive t isCreate name (active.lookup name) ↔ isCreate = false ∧
      ∃ attrId value, active.lookup name = some (attrId, value) ∧ d = t.retract name attrId value := by
  constructor
  · intro h
    obtain ⟨attrId, value, hheld, hcreate, rfl⟩ := mem_retractActive h
    exact ⟨hcreate, attrId, value, hheld, rfl⟩
  · rintro ⟨hcreate, attrId, value, hheld, rfl⟩
    simp [retractActive, hheld, hcreate]

variable {attrId : U16} {name : String}

/-- No vector and no mirror is written under a plain name. -/
theorem vectorDatoms_plain [Derived] (hnames : registry.OneName) (hactive : Named registry active)
    (hname : registry.getAttrName attrId = some name) (hplain : registry.Plain name)
    {t : PlanTarget} {attrs : AttrMap} {isCreate : Bool} {desc : AttributeDescriptor} (hdesc : desc ∈ (registry.getAttributes t.entityType).getD [])
    {d : Datom} (h : d ∈ vectorDatoms t attrs isCreate active desc) : d.attrId ≠ attrId := by
  unfold vectorDatoms at h
  dsimp only at h
  split_ifs at h with hnot hparts
  · cases h
  · rw [not_or, not_or, not_not] at hnot
    obtain ⟨hname', hbare⟩ := (hplain _ desc hdesc).2 hnot.1 hnot.2.1
    have hdiffers {other : String} (hother : registry.getAttrName d.attrId = some other)
        (hne : other ≠ name) : d.attrId ≠ attrId := by
      rintro rfl
      exact hne (Option.some.inj (hother.symm.trans hname))
    rcases List.mem_append.mp h with h | h
    · obtain ⟨held, value, hheld, _, rfl⟩ := mem_retractActive h
      rcases Option.or_eq_some_iff.mp hheld with hheld | ⟨_, hheld⟩
      · exact hdiffers (hactive _ _ _ hheld) hbare
      · exact hdiffers (hactive _ _ _ hheld) hname'
    · obtain rfl := List.mem_singleton.mp h
      exact hdiffers (hnames.own_attribute hdesc) hname'
  · cases h

theorem planMirrorDatoms_plain (hnames : registry.OneName) (hsound : registry.Sound)
    (hname : registry.getAttrName attrId = some name) (hplain : registry.Plain name)
    {t : PlanTarget} {attrs : AttrMap} {isDelete : Bool} {d : Datom}
    (h : d ∈ planMirrorDatoms t attrs active isDelete registry) : d.attrId ≠ attrId := by
  obtain ⟨desc, hdesc, hmirror, owner, op, rfl⟩ := mem_planMirrorDatoms h
  rintro rfl
  have hown := hnames.own_mirror hsound hdesc hmirror
  rw [hname] at hown
  exact (hplain _ desc hdesc).1 hmirror (Option.some.inj hown).symm

/-- A delete retracts what is active. -/
theorem mem_deletePlan_iff (hnames : registry.OneName) (hsound : registry.Sound)
    (hactive : Named registry active) (hname : registry.getAttrName attrId = some name)
    (hplain : registry.Plain name) {attrs : AttrMap} {t : PlanTarget} {d : Datom} :
    d ∈ buildDeleteDatoms registry t attrs active ∧ d.attrId = attrId ↔
      ∃ v, active.lookup name = some (attrId, v) ∧ d = t.retract name attrId v := by
  constructor
  · rintro ⟨hd, rfl⟩
    rcases List.mem_append.mp hd with hd | hd
    · obtain ⟨⟨held, heldId, v⟩, he, rfl⟩ := List.mem_map.mp hd
      have hheld := OrdMap.lookup_eq_some.mpr he
      have hsame : held = name := Option.some.inj ((hactive _ _ _ hheld).symm.trans hname)
      subst hsame
      exact ⟨v, hheld, rfl⟩
    · exact absurd rfl (planMirrorDatoms_plain hnames hsound hname hplain hd)
  · rintro ⟨v, hheld, rfl⟩
    exact ⟨List.mem_append_left _ (List.mem_map.mpr
      ⟨(name, attrId, v), OrdMap.lookup_eq_some.mp hheld, rfl⟩), rfl⟩

/-- An attribute of the payload is planned as `attrDatoms` says, under its own hash. -/
theorem mem_written_of_get (hnames : registry.OneName) {parts : List (List Datom)}
    (hparts : call.payload.attrs.entries.mapM (attrDatoms registry call.target
      (call.payload.op = .create) active) = .ok parts) {v : DatomValue}
    (hv : call.payload.attrs.get name = some v) :
    registry.getAttrName (hashAttrName name) = some name ∧
      ∀ d ∈ retractActive call.target (call.payload.op = .create) name (active.lookup name) ++
        (if v = .null then [] else [call.target.assert name (hashAttrName name) v]),
          d ∈ parts.flatten := by
  obtain ⟨part, hmem, he⟩ := exists_of_mapM_ok hparts (AttrMap.get_eq_some.mp hv)
  obtain ⟨⟨desc, hdesc⟩, rfl⟩ := attrDatoms_ok he
  have hregistered := hnames.own_attribute (mem_attributes_of_getAttribute (t := call.target) hdesc)
  rw [CodeRegistry.getAttribute_name hdesc] at hregistered
  exact ⟨hregistered, fun d hd => List.mem_flatten.mpr ⟨_, hmem, hd⟩⟩

theorem update_of_ne (hcreate : call.payload.op ≠ .create) (hdelete : call.payload.op ≠ .delete) :
    call.payload.op = .update := by
  cases hop : call.payload.op with
  | create => exact absurd hop hcreate
  | update => rfl
  | delete => exact absurd hop hdelete

/-- A datom of the payload's attributes: its value, or the active one. -/
theorem written_sound (hnames : registry.OneName) (hactive : Named registry active)
    {parts : List (List Datom)} (hparts : call.payload.attrs.entries.mapM (attrDatoms registry
      call.target (call.payload.op = .create) active) = .ok parts)
    (hdelete : call.payload.op ≠ .delete) {d : Datom}
    (hname : registry.getAttrName d.attrId = some name) (hd : d ∈ parts.flatten) :
    (∃ v, call.asserts name = some v ∧ d = call.target.assert name d.attrId v) ∨
      ∃ v, active.lookup name = some (d.attrId, v) ∧ call.retracts name v = true ∧
        d = call.target.retract name d.attrId v := by
  obtain ⟨part, hmem, hd⟩ := List.mem_flatten.mp hd
  obtain ⟨⟨other, v⟩, he, hpart⟩ := mem_of_mapM_ok hparts hmem
  obtain ⟨⟨desc, hdesc⟩, rfl⟩ := attrDatoms_ok hpart
  have hregistered := hnames.own_attribute (mem_attributes_of_getAttribute (t := call.target) hdesc)
  rw [CodeRegistry.getAttribute_name hdesc] at hregistered
  have hget := AttrMap.get_eq_some.mpr he
  rcases List.mem_append.mp hd with hd | hd
  · obtain ⟨hcreate, heldId, old, hheld, rfl⟩ := mem_retractActive_iff.mp hd
    have hsame : other = name := Option.some.inj ((hactive _ _ _ hheld).symm.trans hname)
    subst hsame
    have hop := update_of_ne (of_decide_eq_false hcreate) hdelete
    exact Or.inr ⟨old, hheld, by simp [TransactCall.retracts, hop, hget], rfl⟩
  · split_ifs at hd with hnull
    · cases hd
    · obtain rfl := List.mem_singleton.mp hd
      have hsame : other = name := Option.some.inj (hregistered.symm.trans hname)
      subst hsame
      have hfind : call.systemValues.find? (fun e => e.1 = other) = none := by
        apply List.find?_eq_none.mpr
        intro e hmem hother
        obtain ⟨sysId, hsys⟩ := systemValues_system hmem
        exact (hnames.not_system hregistered _ hsys).1 (by simpa using hother)
      refine Or.inl ⟨v, ?_, rfl⟩
      rw [TransactCall.asserts, if_neg hdelete, hfind, hget]
      simp [Option.filter_some, hnull]

/-- A datom of the enricher: a system value, or the active one. -/
theorem enriched_sound (hnames : registry.OneName) (hactive : Named registry active)
    (hdelete : call.payload.op ≠ .delete) {d : Datom}
    (hname : registry.getAttrName d.attrId = some name) (hd : d ∈ call.enriched active) :
    (∃ v, call.asserts name = some v ∧ d = call.target.assert name d.attrId v) ∨
      ∃ v, active.lookup name = some (d.attrId, v) ∧ call.retracts name v = true ∧
        d = call.target.retract name d.attrId v := by
  obtain ⟨hsys, hdatom⟩ := enrichDatoms_system hd
  have hsame : d.attrName = name := Option.some.inj ((hnames.system _ hsys).symm.trans hname)
  cases hop : d.op with
  | true =>
    refine Or.inl ⟨d.value, ?_, by rw [hdatom, hop, hsame]; rfl⟩
    have hmem : (name, d.value) ∈ call.systemValues := by
      rw [← @enriched_asserted call active, ← hsame]
      exact List.mem_map.mpr ⟨d, List.mem_filter.mpr ⟨hd, hop⟩, rfl⟩
    rw [TransactCall.asserts, if_neg hdelete, find?_of_nodup systemValues_nodup hmem]
    rfl
  | false =>
    obtain ⟨hcreate, ⟨held, hheld⟩, hretracts⟩ := enriched_retracted.mp ⟨d, hd, hop, hsame, rfl⟩
    have hheldId : held = d.attrId := hnames.unique _ _ _ (hactive _ _ _ hheld) hname
    subst hheldId
    refine Or.inr ⟨d.value, hheld, ?_, by rw [hdatom, hop, hsame]; rfl⟩
    simp [TransactCall.retracts, update_of_ne hcreate hdelete, hretracts]

/-- What a call asserts is in the plan of its entity. -/
theorem asserts_planned (hnames : registry.OneName) {parts : List (List Datom)}
    (hparts : call.payload.attrs.entries.mapM (attrDatoms registry call.target
      (call.payload.op = .create) active) = .ok parts)
    (hname : registry.getAttrName attrId = some name) {v : DatomValue}
    (h : call.asserts name = some v) :
    call.target.assert name attrId v ∈ parts.flatten ∨
      call.target.assert name attrId v ∈ call.enriched active := by
  unfold TransactCall.asserts at h
  split_ifs at h
  rcases Option.or_eq_some_iff.mp h with hsys | ⟨_, hpayload⟩
  · apply Or.inr
    obtain ⟨⟨other, v'⟩, hfind, rfl⟩ := Option.map_eq_some_iff.mp hsys
    have hsame : other = name := by simpa using List.find?_some hfind
    subst hsame
    have hmem := List.mem_of_find?_eq_some hfind
    rw [← @enriched_asserted call active] at hmem
    obtain ⟨d, hd, heq⟩ := List.mem_map.mp hmem
    obtain ⟨hd, hop⟩ := List.mem_filter.mp hd
    obtain ⟨hreserved, hdatom⟩ := enrichDatoms_system hd
    obtain ⟨rfl, rfl⟩ := Prod.mk.inj heq
    obtain rfl : d.attrId = attrId := hnames.unique _ _ _ (hnames.system _ hreserved) hname
    rw [hop] at hdatom
    have hassert : d = call.target.assert d.attrName d.attrId d.value := hdatom
    rw [← hassert]
    exact hd
  · apply Or.inl
    obtain ⟨hget, hnull⟩ := Option.filter_eq_some_iff.mp hpayload
    obtain ⟨hregistered, hplanned⟩ := mem_written_of_get hnames hparts hget
    obtain rfl : hashAttrName name = attrId := hnames.unique _ _ _ hregistered hname
    apply hplanned
    apply List.mem_append_right
    rw [if_neg (of_decide_eq_true hnull)]
    exact List.mem_singleton_self _

/-- What a create or an update retracts is in the plan of its entity. -/
theorem retracts_planned (hnames : registry.OneName) {parts : List (List Datom)}
    (hparts : call.payload.attrs.entries.mapM (attrDatoms registry call.target
      (call.payload.op = .create) active) = .ok parts) (hdelete : call.payload.op ≠ .delete)
    (hname : registry.getAttrName attrId = some name) {v : DatomValue}
    (hheld : active.lookup name = some (attrId, v)) (h : call.retracts name v = true) :
    call.target.retract name attrId v ∈ parts.flatten ∨
      call.target.retract name attrId v ∈ call.enriched active := by
  cases hop : call.payload.op with
  | create => simp [TransactCall.retracts, hop] at h
  | delete => exact absurd hop hdelete
  | update =>
    have hcreate : call.payload.op ≠ .create := by simp [hop]
    simp only [TransactCall.retracts, hop, Bool.or_eq_true, Option.isSome_iff_exists] at h
    rcases h with ⟨u, hget⟩ | hsys
    · apply Or.inl
      apply (mem_written_of_get hnames hparts hget).2
      apply List.mem_append_left
      exact mem_retractActive_iff.mpr ⟨decide_eq_false hcreate, attrId, v, hheld, rfl⟩
    · apply Or.inr
      obtain ⟨d, hd, hretract, rfl, rfl⟩ := enriched_retracted.mpr ⟨hcreate, ⟨attrId, hheld⟩, hsys⟩
      obtain ⟨hreserved, hdatom⟩ := enrichDatoms_system hd
      obtain rfl : d.attrId = attrId := hnames.unique _ _ _ (hnames.system _ hreserved) hname
      rw [hretract] at hdatom
      have hdatom : d = call.target.retract d.attrName d.attrId d.value := hdatom
      rw [← hdatom]
      exact hd

/-- What a call plans for its entity under a plain name. -/
theorem mem_plan_iff [Derived] (hnames : registry.OneName) (hsound : registry.Sound)
    (hactive : Named registry active) (hname : registry.getAttrName attrId = some name)
    (hplain : registry.Plain name) {datoms : List Datom}
    (hplan : planPayloadDatoms registry call.payload call.entityId call.txId active call.nowMs
      call.actorName = .ok datoms) {d : Datom} :
    d ∈ datoms ∧ d.attrId = attrId ↔
      (∃ v, call.asserts name = some v ∧ d = call.target.assert name attrId v) ∨
        ∃ v, active.lookup name = some (attrId, v) ∧ call.retracts name v = true ∧
          d = call.target.retract name attrId v := by
  obtain ⟨_, ⟨hdelete, rfl⟩ | ⟨hdelete, hentity⟩⟩ := planPayloadDatoms_ok hplan
  · have hnone : call.asserts name = none := by rw [TransactCall.asserts, if_pos hdelete]
    have hall (v : DatomValue) : call.retracts name v = true := by
      rw [TransactCall.retracts, hdelete]
    rw [mem_deletePlan_iff hnames hsound hactive hname hplain]
    simp [hnone, hall, TransactCall.target]
  · obtain ⟨parts, hparts, rfl⟩ := planEntityDatoms_ok hentity
    simp only [List.mem_append]
    constructor
    · rintro ⟨((hd | hd) | hd) | hd, rfl⟩
      · exact written_sound hnames hactive hparts hdelete hname hd
      · obtain ⟨desc, hdesc, hd⟩ := List.mem_flatMap.mp hd
        exact absurd rfl (vectorDatoms_plain hnames hactive hname hplain hdesc hd)
      · exact enriched_sound hnames hactive hdelete hname hd
      · exact absurd rfl (planMirrorDatoms_plain hnames hsound hname hplain hd)
    · rintro (⟨v, hasserts, rfl⟩ | ⟨v, hheld, hretracts, rfl⟩)
      · rcases asserts_planned hnames hparts hname hasserts with hmem | hmem
        · exact ⟨Or.inl (Or.inl (Or.inl hmem)), rfl⟩
        · exact ⟨Or.inl (Or.inr hmem), rfl⟩
      · rcases retracts_planned hnames hparts hdelete hname hheld hretracts with hmem | hmem
        · exact ⟨Or.inl (Or.inl (Or.inl hmem)), rfl⟩
        · exact ⟨Or.inl (Or.inr hmem), rfl⟩

end Plan

/-! ### What a call writes to the cells of its entity -/

theorem exists_slot_dedupInto {unique : List Datom} {d : Datom} {slot : String × U16 × U64 × Bool}
    (h : (∃ u ∈ unique, u.slot = slot) ∨ d.slot = slot) :
    ∃ u ∈ dedupInto unique d, u.slot = slot := by
  unfold dedupInto
  split_ifs with hany
  · rcases h with ⟨u, hu, rfl⟩ | rfl
    · refine ⟨if u.slot = d.slot then d else u, List.mem_map_of_mem hu, ?_⟩
      split_ifs with hslot
      · exact hslot.symm
      · rfl
    · obtain ⟨u, hu, hslot⟩ := List.any_eq_true.mp hany
      exact ⟨d, List.mem_map.mpr ⟨u, hu, if_pos (of_decide_eq_true hslot)⟩, rfl⟩
  · rcases h with ⟨u, hu, rfl⟩ | rfl
    · exact ⟨u, List.mem_append_left _ hu, rfl⟩
    · exact ⟨d, List.mem_append_right _ (List.mem_singleton_self d), rfl⟩

/-- The storage keys of a list survive its deduplication. -/
theorem exists_slot_dedupDatomsPorSk {datoms : List Datom} {d : Datom} (h : d ∈ datoms) :
    ∃ u ∈ dedupDatomsPorSk datoms, u.slot = d.slot := by
  have hfold : ∀ (l unique : List Datom), (∃ u ∈ unique, u.slot = d.slot) ∨
      (∃ u ∈ l, u.slot = d.slot) → ∃ u ∈ l.foldl dedupInto unique, u.slot = d.slot := by
    intro l
    induction l with
    | nil =>
      rintro unique (h | ⟨u, hu, _⟩)
      · exact h
      · cases hu
    | cons d' rest ih =>
      rintro unique (h | ⟨u, hu, hslot⟩)
      · exact ih _ (Or.inl (exists_slot_dedupInto (Or.inl h)))
      · rcases List.mem_cons.mp hu with rfl | hu
        · exact ih _ (Or.inl (exists_slot_dedupInto (Or.inr hslot)))
        · exact ih _ (Or.inr ⟨u, hu, hslot⟩)
  exact hfold datoms [] (Or.inr ⟨d, h, rfl⟩)

/-- Where a list plans one datom at most for a cell and an operation, that one is written. -/
theorem written_dedup {datoms : List Datom} {tenantId pk : String} {attrId : U16} {op : Bool}
    {planned : Option Datom} (htenant : ∀ d ∈ datoms, d.tenantId = tenantId)
    (h : ∀ d, d ∈ datoms ∧ d.eavtPk = pk ∧ d.attrId = attrId ∧ d.op = op ↔ planned = some d) :
    written (dedupDatomsPorSk datoms) pk attrId op = planned := by
  cases hwritten : written (dedupDatomsPorSk datoms) pk attrId op with
  | some d =>
    have hmem := mem_dedupDatomsPorSk (List.mem_of_find?_eq_some hwritten)
    exact ((h d).mp ⟨hmem, by simpa using List.find?_some hwritten⟩).symm
  | none =>
    cases hplanned : planned with
    | none => rfl
    | some d =>
      obtain ⟨hmem, rfl, rfl, rfl⟩ := (h d).mpr hplanned
      obtain ⟨u, hu, hslot⟩ := exists_slot_dedupDatomsPorSk hmem
      obtain ⟨hentity, hid, _, hop⟩ : u.entityId = d.entityId ∧ u.attrId = d.attrId ∧
          u.txId = d.txId ∧ u.op = d.op := by simpa [Datom.slot] using hslot
      have hpk : u.eavtPk = d.eavtPk := by
        rw [Datom.eavtPk, Datom.eavtPk, htenant u (mem_dedupDatomsPorSk hu), htenant d hmem, hentity]
      have hnone := List.find?_eq_none.mp hwritten u hu
      simp [hpk, hid, hop] at hnone

section Written
variable {registry : CodeRegistry} {call : TransactCall}

/-- The datoms of a plan, before those of one key are made one. -/
theorem plannedDatoms_ok [Derived] {active : ActiveAttrs} {planned : List Datom} {n : ℕ}
    (h : plannedDatoms registry call active = .ok (planned, n)) :
    ∃ datoms row, planPayloadDatoms registry call.payload call.entityId call.txId active call.nowMs
        call.actorName = .ok datoms ∧ outboxRow registry call = .ok row ∧
      planned = datoms ++ row.getD [] := by
  unfold plannedDatoms at h
  cases hentity : planPayloadDatoms registry call.payload call.entityId call.txId active call.nowMs
      call.actorName with
  | error e =>
    rw [hentity] at h
    cases h
  | ok datoms =>
    rw [hentity] at h
    cases hrow : outboxRow registry call with
    | error e =>
      rw [hrow] at h
      cases h
    | ok row =>
      rw [hrow] at h
      cases h
      exact ⟨datoms, row, rfl, rfl, rfl⟩

/-- The datoms of the outbox row carry their own names, in the partition of the row. -/
theorem mem_outboxRow [Derived] {row : List Datom} (h : outboxRow registry call = .ok (some row))
    {d : Datom} (hd : d ∈ row) : d.eavtPk = call.rowPk ∧
      ((d.attrId, d.attrName) ∈ systemAttrs ∨ ∃ desc ∈ (registry.getAttributes "outbox_event").getD [],
        d.attrName = desc.name ∧ d.attrId = hashAttrName desc.name) := by
  unfold outboxRow at h
  split_ifs at h
  · cases h
  · rcases mem_generateOutboxDatoms h hd with ⟨desc, hdesc, value, rfl⟩ | henrich
    · exact ⟨rfl, Or.inr ⟨desc, hdesc, rfl, rfl⟩⟩
    · obtain ⟨hsystem, hdatom⟩ := enrichDatoms_system henrich
      refine ⟨?_, Or.inl hsystem⟩
      rw [hdatom]
      rfl

variable [F64Text] {st : MbfPartitionStore}

theorem DatomStore.readActive_named (h : DatomStore registry st.items) (hnames : registry.OneName) :
    Named registry (readActive registry st call) := by
  intro name attrId value hlookup
  unfold readActive at hlookup
  split_ifs at hlookup
  · cases hlookup
  · obtain ⟨d, _, _, _, hname, _, _, hregistered⟩ := h.active_origin hlookup
    obtain ⟨other, hother⟩ := Option.ne_none_iff_exists'.mp hregistered
    rw [hnames.activeName_eq, CodeRegistry.shownName_of hother] at hname
    rw [hother, hname]

/-- What a call finds active is what the cell shows; a create looks for nothing. -/
theorem DatomStore.readActive_lookup [F64Text.Total] (h : DatomStore registry st.items)
    (hnames : registry.OneName) {attrId : U16} {name : String}
    (hname : registry.getAttrName attrId = some name) :
    (readActive registry st call).lookup name = if call.payload.op = .create then none
      else (shownOf st.items call.pk attrId).map fun v => (attrId, v) := by
  unfold readActive
  split_ifs
  · rfl
  · exact h.active_lookup_cell hnames hname

variable [Derived] [KeyHash] {table : String} {plan : TransactPlan}

/-- A call writes to a cell of its entity what it asserts, and retracts the active value. -/
theorem DatomStore.written_pk [F64Text.Total] (h : DatomStore registry st.items)
    (hnames : registry.OneName) (hsound : registry.Sound)
    (hplan : planTransact registry table call (readActive registry st call) = .ok plan)
    (hrow : call.rowPk ≠ call.pk) {attrId : U16} {name : String}
    (hname : registry.getAttrName attrId = some name) (hplain : registry.Plain name) (op : Bool) :
    written plan.datoms call.pk attrId op =
      if op then (call.asserts name).map (call.target.assert name attrId)
      else ((shownOf st.items call.pk attrId).filter (call.retracts name)).map
        (call.target.retract name attrId) := by
  obtain ⟨_, planned, _, _, hplanned, hdatoms, _, _⟩ := planTransact_ok hplan
  have htenant : ∀ d ∈ planned, d.tenantId = call.payload.tenantId := by
    intro d hd
    rcases plans_plannedDatoms hplanned hd with hentity | hrow
    · exact hentity.tenantId
    · exact hrow.tenantId
  obtain ⟨datoms, row, hentity, houtbox, rfl⟩ := plannedDatoms_ok hplanned
  rw [hdatoms]
  apply written_dedup htenant
  intro d
  have hmem : d ∈ datoms ++ row.getD [] ∧ d.eavtPk = call.pk ∧ d.attrId = attrId ∧ d.op = op ↔
      (d ∈ datoms ∧ d.attrId = attrId) ∧ d.eavtPk = call.pk ∧ d.op = op := by
    rw [List.mem_append]
    constructor
    · rintro ⟨hd | hd, hpk, hid, hop⟩
      · exact ⟨⟨hd, hid⟩, hpk, hop⟩
      · cases row with
        | none => cases hd
        | some row => exact absurd ((mem_outboxRow houtbox hd).1.symm.trans hpk) hrow
    · rintro ⟨⟨hd, hid⟩, hpk, hop⟩
      exact ⟨Or.inl hd, hpk, hid, hop⟩
  rw [hmem, mem_plan_iff hnames hsound (h.readActive_named hnames) hname hplain hentity,
    h.readActive_lookup hnames hname]
  cases op with
  | true =>
    simp only [if_true, Option.map_eq_some_iff]
    constructor
    · rintro ⟨⟨v, hasserts, rfl⟩ | ⟨v, _, _, rfl⟩, _, hop⟩
      · exact ⟨v, hasserts, rfl⟩
      · cases hop
    · rintro ⟨v, hasserts, rfl⟩
      exact ⟨Or.inl ⟨v, hasserts, rfl⟩, rfl, rfl⟩
  | false =>
    simp only [Bool.false_eq_true, if_false, Option.map_eq_some_iff, Option.filter_eq_some_iff]
    constructor
    · rintro ⟨⟨v, _, rfl⟩ | ⟨v, hheld, hretracts, rfl⟩, _, hop⟩
      · cases hop
      · split_ifs at hheld
        obtain ⟨u, hu, heq⟩ := Option.map_eq_some_iff.mp hheld
        cases heq
        exact ⟨v, ⟨hu, hretracts⟩, rfl⟩
    · rintro ⟨v, ⟨hshown, hretracts⟩, rfl⟩
      refine ⟨Or.inr ⟨v, ?_, hretracts, rfl⟩, rfl, rfl⟩
      have hcreate : call.payload.op ≠ .create := by
        intro hcreate
        simp [TransactCall.retracts, hcreate] at hretracts
      rw [if_neg hcreate, hshown]
      rfl

end Written
end MetriEngine.Eav

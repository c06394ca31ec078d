import MetriEngine.Eav.AvetQueries

/-!
# What a query of the value index answers

After a run that keeps the index under an attribute, a query for a value names the entities that a
pull shows with it, and a query for a range those that a pull shows with a value in it.
-/
namespace MetriEngine.Eav
open Foundation Storage

/-! ### Values and their texts -/

/-- The types of the index that payload values come with. -/
def avetTypes : List ValueType := [.boolean, .long, .double, .string, .uuid, .instant]

theorem F64.isNaN_of_finite {d : F64} (h : d.exponent < 2047) : d.isNaN = false := by
  rw [exponent] at h
  rw [isNaN, decide_eq_false_iff_not]
  omega

section Values
variable [F64Text]

/-- The text that a query looks for is the stored one. -/
theorem DatomValue.Legible.queryText_double {d : F64} (h : (DatomValue.double d).Legible) :
    (DatomValue.double d).queryText = F64Text.display d := by
  rw [queryText]
  split_ifs with hintegral
  · exact (h.2.2 hintegral).symm
  · rfl

/-- Two doubles of one text are one. -/
theorem F64.eq_of_display {d e : F64} (hd : d.isNaN = false) (he : e.isNaN = false)
    (h : F64Text.display d = F64Text.display e) : d = e := by
  have hparse := F64Text.parse_display d hd
  rw [h, F64Text.parse_display e he] at hparse
  exact (Option.some.inj hparse).symm

/-- A legible double is shown as the integer it is, else as itself. -/
theorem DatomValue.Legible.shown_double {d : F64} (h : (DatomValue.double d).Legible) :
    (DatomValue.double d).shown =
      some (if d.isIntegral then .long ⟨d.toI64, d.toI64_bounds⟩ else .double d) := by
  cases hintegral : d.isIntegral with
  | true =>
    have htext : F64Text.display d =
        Signed.text (⟨d.toI64, d.toI64_bounds⟩ : Signed 64) :=
      h.2.2 hintegral
    rw [shown, stored, htext]
    exact extractNumber_of_integer (Signed.parse_text _)
  | false =>
    have hnone : Signed.parse 128 (F64Text.display d) = none := by
      by_contra hsome
      obtain ⟨n, hn⟩ := Option.ne_none_iff_exists'.mp hsome
      exact (plain_of_parse hn).1 (F64Text.display_point d h.1 hintegral)
    exact (Eav.shown_double (F64.isNaN_of_finite h.1)).mpr hnone

/-- The stored text of a value matches a query exactly for that value. -/
theorem valueMatches_iff {c v : DatomValue} (htype : v.valueType ∈ avetTypes)
    (hsame : c.valueType = v.valueType) (hc : c.Legible) (hv : v.Legible) :
    valueMatches v.queryText (some c.stored) = true ↔ c = v := by
  have htext {n m : Signed 64} : n.text = m.text ↔ n = m := by
    constructor
    · intro h
      have hparse := Signed.parse_text n
      rw [h, Signed.parse_text] at hparse
      exact (Option.some.inj hparse).symm
    · rintro rfl
      rfl
  cases v with
  | bool b =>
    cases c with
    | bool a =>
      cases a <;> cases b <;> simp [DatomValue.stored, DatomValue.queryText, valueMatches]
    | _ => cases hsame
  | long m =>
    cases c with
    | long n =>
      rw [DatomValue.stored, DatomValue.queryText, valueMatches, decide_eq_true_eq, htext,
        DatomValue.long.injEq]
    | _ => cases hsame
  | instant m =>
    cases c with
    | instant n =>
      rw [DatomValue.stored, DatomValue.queryText, valueMatches, decide_eq_true_eq, htext,
        DatomValue.instant.injEq]
    | _ => cases hsame
  | double e =>
    cases c with
    | double d =>
      rw [DatomValue.stored, hv.queryText_double, valueMatches, decide_eq_true_eq,
        DatomValue.double.injEq]
      constructor
      · exact F64.eq_of_display (F64.isNaN_of_finite hc.1) (F64.isNaN_of_finite hv.1)
      · rintro rfl
        rfl
    | _ => cases hsame
  | str t =>
    cases c with
    | str s =>
      rw [DatomValue.stored, DatomValue.queryText, valueMatches, decide_eq_true_eq,
        DatomValue.str.injEq]
    | _ => cases hsame
  | uuid t =>
    cases c with
    | uuid s =>
      rw [DatomValue.stored, DatomValue.queryText, valueMatches, decide_eq_true_eq,
        DatomValue.uuid.injEq]
    | _ => cases hsame
  | _ => exact absurd htype (by simp [avetTypes, DatomValue.valueType])

/-- Two values of one type that are shown alike are one. -/
theorem shown_iff {c v : DatomValue} (htype : v.valueType ∈ avetTypes)
    (hsame : c.valueType = v.valueType) (hc : c.Legible) (hv : v.Legible) :
    c.shown = v.shown ↔ c = v := by
  refine ⟨fun h => ?_, fun h => by rw [h]⟩
  have hnumber {n m : Signed 64} (hshown : extractNumber n.text = extractNumber m.text) : n = m := by
    rw [extractNumber_of_integer (Signed.parse_text n),
      extractNumber_of_integer (Signed.parse_text m)] at hshown
    cases hshown
    rfl
  cases v with
  | bool b =>
    cases c with
    | bool a =>
      cases h
      rfl
    | _ => cases hsame
  | long m =>
    cases c with
    | long n => rw [hnumber h]
    | _ => cases hsame
  | instant m =>
    cases c with
    | instant n => rw [hnumber h]
    | _ => cases hsame
  | double e =>
    cases c with
    | double d =>
      rw [hc.shown_double, hv.shown_double, Option.some.injEq] at h
      cases hd : d.isIntegral with
      | true =>
        cases he : e.isIntegral with
        | true =>
          rw [hd, he] at h
          have hint : d.toI64 = e.toI64 := by simpa using h
          have hdisplay : F64Text.display d = F64Text.display e := by
            rw [hc.2.2 hd, hv.2.2 he, hint]
          rw [F64.eq_of_display (F64.isNaN_of_finite hc.1) (F64.isNaN_of_finite hv.1) hdisplay]
        | false =>
          rw [hd, he] at h
          cases h
      | false =>
        cases he : e.isIntegral with
        | true =>
          rw [hd, he] at h
          cases h
        | false =>
          rw [hd, he] at h
          exact h
    | _ => cases hsame
  | str t =>
    cases c with
    | str s =>
      cases h
      rfl
    | _ => cases hsame
  | uuid t =>
    cases c with
    | uuid s =>
      cases h
      rfl
    | _ => cases hsame
  | _ => exact absurd htype (by simp [avetTypes, DatomValue.valueType])

end Values

/-! ### The two conditions -/

theorem expresses_prefix (part : String) (skPrefix : List Byte) :
    Expresses (scanBounds "#pk = :pk AND begins_with(#sk, :sk_prefix)"
      (((∅ : Item).insert ":pk" (.s part)).insert ":sk_prefix" (.b skPrefix))) part
      (.beginsWith skPrefix) := by
  have hlte : (Text.contains "#pk = :pk AND begins_with(#sk, :sk_prefix)" "<=" ||
      Text.contains "#pk = :pk AND begins_with(#sk, :sk_prefix)" "BETWEEN") = false := by decide
  have hprefix : Text.contains "#pk = :pk AND begins_with(#sk, :sk_prefix)" "begins_with" = true := by
    decide
  refine ⟨?_, hlte, hprefix, ?_, ?_⟩ <;> simp [scanBounds, avString, avBytes]

theorem expresses_range (part : String) (skMin skMax : List Byte) :
    Expresses (scanBounds "#pk = :pk AND #sk BETWEEN :sk_min AND :sk_max"
      ((((∅ : Item).insert ":pk" (.s part)).insert ":sk_min" (.b skMin)).insert
        ":sk_max" (.b skMax))) part (.between skMin skMax) := by
  have hlte : (Text.contains "#pk = :pk AND #sk BETWEEN :sk_min AND :sk_max" "<=" ||
      Text.contains "#pk = :pk AND #sk BETWEEN :sk_min AND :sk_max" "BETWEEN") = true := by decide
  have hprefix : Text.contains "#pk = :pk AND #sk BETWEEN :sk_min AND :sk_max" "begins_with" =
      false := by decide
  refine ⟨?_, hlte, hprefix, ?_, ?_⟩ <;> simp [scanBounds, avString, avBytes]

/-! ### What is current -/

theorem isAvetIndexable_of_mem {type : ValueType} (h : type ∈ avetTypes) :
    type.isAvetIndexable = true := by
  revert h
  cases type <;> simp [avetTypes, ValueType.isAvetIndexable]

namespace EavHistory
variable [F64Text] {registry : CodeRegistry} {attrId : U16} {name attrName : String}
  {type : ValueType} {w : EavHistory} {tenantId entityId : String}

/-- The value is the entity's current one: the last entry of the log says so, under the key of
the value. -/
structure Holds (w : EavHistory) (attrId : U16) (name : String) (type : ValueType)
    (tenantId entityId : String) (value : DatomValue) (c : Revision U64 Item) : Prop where
  current : Revision.current (cell w.store.items (eavtPk tenantId entityId) attrId) = some c
  typed : value.valueType = type
  legible : value.Legible
  stored : c.val.lookup "v" = some value.stored
  key : valueKey c.val = some (avetPk tenantId name, buildAvetSk value entityId)

theorem Indexed.holds (h : w.Indexed registry attrId name type) (ht : '#' ∉ tenantId.toList)
    (htype : type ∈ avetTypes) {c : Revision U64 Item}
    (hc : Revision.current (cell w.store.items (eavtPk tenantId entityId) attrId) = some c) :
    ∃ value, w.Holds attrId name type tenantId entityId value c := by
  obtain ⟨hlast, hop⟩ := Option.filter_eq_some_iff.mp hc
  obtain ⟨u, hitem, rfl, hpk, hid⟩ := h.log.datoms.mem_cell.mp (List.mem_of_getLast? hlast)
  obtain ⟨d, hkey, heq, hentered⟩ := h.entered u.key (eavtItem u) hitem (buildEavtSk_length _ _ _)
  obtain ⟨hpk', hsk⟩ : u.eavtPk = d.eavtPk ∧ u.eavtSk = d.eavtSk := PrimaryKey.mk.inj hkey
  obtain ⟨hid', _, hop'⟩ := buildEavtSk_inj.mp hsk
  have hdId : d.attrId = attrId := hid'.symm.trans hid
  obtain ⟨hdtype, hlegible⟩ := hentered.typed hdId (hop'.symm.trans hop)
  obtain ⟨htenant, hentity⟩ := (eavtPk_inj_of_plain hentered.tenant ht).mp (hpk'.symm.trans hpk)
  refine ⟨d.value, hc, hdtype, hlegible, ?_, ?_⟩
  · rw [heq, eavtItem_v]
  · rw [heq, valueKey_eavtItem, DatomValue.keyOf, if_pos (isAvetIndexable_of_mem (hdtype ▸ htype)),
      htenant, hentered.named.mpr hdId, hentity]

/-- A pull shows the value that the entity holds. -/
theorem Indexed.pull_eq_some_iff [F64Text.Total] (h : w.Indexed registry attrId name type)
    (ht : '#' ∉ tenantId.toList) (htype : type ∈ avetTypes) (hnames : registry.OneName)
    (hname : registry.getAttrName attrId = some name) {v : DatomValue} :
    (pull registry w.store tenantId entityId none).lookup name = some v ↔
      ∃ value c, w.Holds attrId name type tenantId entityId value c ∧ value.shown = some v := by
  have hread {value : DatomValue} {c : Revision U64 Item}
      (hvalue : w.Holds attrId name type tenantId entityId value c) :
      extractDatomValue c.val = value.shown := by
    rw [extractDatomValue, hvalue.stored]
    rfl
  have hasked : asksFor none name = true := rfl
  rw [h.log.datoms.pull_lookup_cell hnames hname, if_pos hasked, shownOf]
  constructor
  · intro hpull
    obtain ⟨c, hc, hcv⟩ := Option.bind_eq_some_iff.mp hpull
    obtain ⟨value, hvalue⟩ := h.holds ht htype hc
    exact ⟨value, c, hvalue, (hread hvalue).symm.trans hcv⟩
  · rintro ⟨value, c, hvalue, hshown⟩
    rw [hvalue.current, Option.bind_some, hread hvalue, hshown]

/-! ### A value -/

/-- The entities found for a value are those that hold one with its key and its text. -/
theorem Indexed.single (h : w.Indexed registry attrId name type) (ht : '#' ∉ tenantId.toList)
    (hcanonical : normalizeAvetAttrName attrName = name) (htype : type ∈ avetTypes)
    (v : DatomValue) :
    (executeAvetSingleForTenant w.store tenantId attrName v).Nodup ∧
      ∀ entityId, entityId ∈ executeAvetSingleForTenant w.store tenantId attrName v ↔
        ∃ value c, w.Holds attrId name type tenantId entityId value c ∧
          avetSkPrefix v <+: buildAvetSk value entityId ∧
            valueMatches v.queryText (some value.stored) = true := by
  obtain ⟨hnodup, hmem⟩ := h.byValue ht ( expresses_prefix (avetPk tenantId name) (avetSkPrefix v))
    v.queryText
  rw [executeAvetSingleForTenant, hcanonical]
  refine ⟨hnodup, fun entityId => ?_⟩
  rw [hmem]
  constructor
  · rintro ⟨c, hc, hpart, hmatch⟩
    obtain ⟨value, hvalue⟩ := h.holds ht htype hc
    obtain ⟨sort, hsort, hprefix⟩ := inPart_iff.mp hpart
    rw [hvalue.key] at hsort
    cases hsort
    rw [hvalue.stored] at hmatch
    exact ⟨value, c, hvalue, hprefix, hmatch⟩
  · rintro ⟨value, c, hvalue, hprefix, hmatch⟩
    refine ⟨c, hvalue.current, inPart_iff.mpr ⟨_, hvalue.key, hprefix⟩, ?_⟩
    rw [hvalue.stored]
    exact hmatch

/-- Under the tag of another type nothing is found. -/
theorem Indexed.alternative (h : w.Indexed registry attrId name type) (ht : '#' ∉ tenantId.toList)
    (hcanonical : normalizeAvetAttrName attrName = name) (htype : type ∈ avetTypes) {v alt : DatomValue}
    (hv : v.valueType = type) (halt : v.alternative = some alt) :
    executeAvetSingleForTenant w.store tenantId attrName alt = [] := by
  apply List.eq_nil_iff_forall_not_mem.mpr
  intro entityId hmem
  obtain ⟨value, c, hvalue, hprefix, _⟩ := ((h.single ht hcanonical htype alt).2 entityId).mp hmem
  -- the first byte of a key is the tag of its type
  have htag : avetTag alt = avetTag value := by
    obtain ⟨rest, hrest⟩ := hprefix
    exact (List.cons.inj hrest).1
  have hsame := hvalue.typed.trans hv.symm
  cases v <;> cases halt <;> cases value <;> cases hsame <;> cases htag

/-- The query for a value answers with the entities that are shown with it, each once. -/
theorem Indexed.single_exact [F64Text.Total] (h : w.Indexed registry attrId name type)
    (ht : '#' ∉ tenantId.toList) (hcanonical : normalizeAvetAttrName attrName = name)
    (htype : type ∈ avetTypes) (hnames : registry.OneName)
    (hname : registry.getAttrName attrId = some name) {v : DatomValue} (hv : v.valueType = type)
    (hlegible : v.Legible) :
    (executeAvetSingleForTenant w.store tenantId attrName v).Nodup ∧
      ∀ entityId, entityId ∈ executeAvetSingleForTenant w.store tenantId attrName v ↔
        (pull registry w.store tenantId entityId none).lookup name = v.shown := by
  obtain ⟨hnodup, hmem⟩ := h.single ht hcanonical htype v
  refine ⟨hnodup, fun entityId => ?_⟩
  obtain ⟨shown, hshown⟩ := Option.ne_none_iff_exists'.mp v.shown_ne_none
  rw [hmem, hshown, h.pull_eq_some_iff ht htype hnames hname, ← hshown]
  constructor
  · rintro ⟨value, c, hvalue, _, hmatch⟩
    obtain rfl := (valueMatches_iff (hv ▸ htype) (hvalue.typed.trans hv.symm) hvalue.legible
      hlegible).mp hmatch
    exact ⟨value, c, hvalue, rfl⟩
  · rintro ⟨value, c, hvalue, heq⟩
    have hsame := hvalue.typed.trans hv.symm
    obtain rfl := (shown_iff (hv ▸ htype) hsame hvalue.legible hlegible).mp heq
    refine ⟨value, c, hvalue, ?_, ?_⟩
    · have hsuffix : (utf8 "").take 26 = [] := rfl
      rw [avetSkPrefix, buildAvetSk, hsuffix, List.append_nil]
      exact List.prefix_append _ _
    · exact (valueMatches_iff (hv ▸ htype) rfl hlegible hlegible).mpr rfl

end EavHistory

/-! ### Tasks with a due date and a count -/

def taskModel : EntityModel where
  entity := "task"
  attributes := [{ name := "due", attrType := .epoch }, { name := "count", attrType := .number }]

def taskRegistry : CodeRegistry where
  byEntity := (∅ : OrdMap String EntityModel).insert "task" taskModel
  byAttrId := (((∅ : OrdMap U16 String).insertList systemAttrs).insert (hashAttrName "due")
    "due").insert (hashAttrName "count") "count"

theorem CodeRegistry.build_task : build [taskModel] = .ok taskRegistry := by
  have h : (build [taskModel]).toOption = some taskRegistry := by
    decide +kernel
  cases hbuild : build [taskModel] with
  | error e =>
    rw [hbuild] at h
    cases h
  | ok registry =>
    rw [hbuild] at h
    exact congrArg Except.ok (Option.some.inj h)

theorem taskRegistry_plain (name : String) : taskRegistry.Plain name := by
  intro entityType desc hdesc
  have hmodel : ∀ d ∈ taskModel.attributes, d.historyMirror = false ∧ d.autoGenerateFrom = [] := by
    decide
  have hmem : desc ∈ taskModel.attributes := by
    unfold CodeRegistry.getAttributes CodeRegistry.getModel taskRegistry at hdesc
    dsimp only at hdesc
    rw [OrdMap.lookup_insert] at hdesc
    split_ifs at hdesc
    · exact hdesc
    · simp at hdesc
  obtain ⟨hmirror, hauto⟩ := hmodel desc hmem
  simp [hmirror, hauto]

theorem taskModel_noCollision : NoCollision [taskModel] := by
  decide +kernel

/-- A call that writes an attribute of a task. -/
def taskCall (op : TransactOp) (name : String) (value : DatomValue) (txId : U64) : TransactCall :=
  { noteCall op "e" "" txId with
    payload := {
      tenantId := "t"
      entityId := some "e"
      entityType := "task"
      attrs := ⟨[(name, value)], by simp⟩
      op := op
      suppressEvents := true } }

def hundred : Signed 64 := ⟨100, by norm_num⟩

def twoHundred : Signed 64 := ⟨200, by norm_num⟩

abbrev taskStep : EavHistory → TransactCall → Option EavHistory :=
  @EavHistory.step bitsText plainDerived plainHash taskRegistry "metri"

abbrev keepsCount : EavHistory → TransactCall → Prop :=
  @EavHistory.KeepsIndex bitsText plainDerived taskRegistry (hashAttrName "count") "count" .long

/-- A task whose count changes. -/
theorem exists_counted_task : ∃ w, Run taskStep keepsCount EavHistory.start w ∧
    w.commits.map Prod.fst = [1, 2] := by
  have hexec : (exec taskStep keepsCount EavHistory.start
      [taskCall .create "count" (.long hundred) 1,
        taskCall .update "count" (.long twoHundred) 2]).any
      (fun w => decide (w.commits.map Prod.fst = [1, 2])) = true := by
    decide +kernel
  obtain ⟨w, hrun, hw⟩ := exists_run_of_exec hexec
  exact ⟨w, hrun, of_decide_eq_true hw⟩

/-- A task that is moved from one date to another is found under both. -/
theorem exists_moved_task : ∃ w, Run taskStep EavHistory.Successive EavHistory.start w ∧
    (@pull bitsText taskRegistry w.store "t" "e" none).lookup "due" = some (.long twoHundred) ∧
    @executeAvetSingle w.store bitsText "master" [] "t" "due" (.instant hundred) none = ["e"] ∧
    executeAvetRangeForTenant w.store "t" "due" .unbounded (.inclusive (.instant hundred)) = ["e"] := by
  have hexec : (exec taskStep EavHistory.Successive EavHistory.start
      [taskCall .create "due" (.instant hundred) 1,
        taskCall .update "due" (.instant twoHundred) 2]).any
      (fun w => decide ((@pull bitsText taskRegistry w.store "t" "e" none).lookup "due" =
          some (.long twoHundred) ∧
        @executeAvetSingle w.store bitsText "master" [] "t" "due" (.instant hundred) none = ["e"] ∧
        executeAvetRangeForTenant w.store "t" "due" .unbounded
          (.inclusive (.instant hundred)) = ["e"])) = true := by
    decide +kernel
  obtain ⟨w, hrun, hw⟩ := exists_run_of_exec hexec
  exact ⟨w, hrun, of_decide_eq_true hw⟩

/-! ### Queries for a value -/

section Single
variable [F64Text] [F64Text.Total] [Derived] [KeyHash] {registry : CodeRegistry} {table : String}
  {attrId : U16} {name attrName : String} {type : ValueType} {w : EavHistory}
  {tenantId masterTenantId : String} {v : DatomValue}

/-- In every state that calls reach which keep the index under an attribute, a query of a tenant
for one of its values answers with the entities that a pull shows with that value, each once. -/
theorem executeAvetSingle_exact {models : List EntityModel}
    (hbuild : CodeRegistry.build models = .ok registry) (hcollide : NoCollision models)
    (hname : registry.getAttrName attrId = some name) (hplain : registry.Plain name)
    (hcanonical : normalizeAvetAttrName attrName = name) (htype : type ∈ avetTypes)
    (hrun : Run (EavHistory.step registry table) (EavHistory.KeepsIndex registry attrId name type)
      EavHistory.start w) (ht : '#' ∉ tenantId.toList) (hmaster : tenantId ≠ masterTenantId)
    (tenants : List String) (hv : v.valueType = type) (hlegible : v.Legible) :
    (executeAvetSingle w.store masterTenantId tenants tenantId attrName v none).Nodup ∧
      ∀ entityId, entityId ∈ executeAvetSingle w.store masterTenantId tenants tenantId attrName v none ↔
        (pull registry w.store tenantId entityId none).lookup name = v.shown := by
  have hone := CodeRegistry.build_oneName hbuild hcollide
  have hindexed := EavHistory.indexed_of_run (CodeRegistry.build_sound hbuild) hone hname hplain hrun
  have hids : executeAvetSingle w.store masterTenantId tenants tenantId attrName v none =
      executeAvetSingleForTenant w.store tenantId attrName v := by
    rw [executeAvetSingle, if_neg (fun h => hmaster h.2), executeAvetSingleWithTypeTolerance]
    cases hfound : executeAvetSingleForTenant w.store tenantId attrName v with
    | cons entityId rest => rfl
    | nil =>
      cases halt : v.alternative with
      | none => rfl
      | some alt => exact hindexed.alternative ht hcanonical htype hv halt
  rw [hids]
  exact hindexed.single_exact ht hcanonical htype hone hname hv hlegible

end Single

/-- A task is found under the last of its counts. -/
theorem counted_task_is_found :
    ∃ w, Run taskStep keepsCount EavHistory.start w ∧ w.commits.map Prod.fst = [1, 2] ∧
      (@executeAvetSingle w.store bitsText "master" [] "t" "count" (.long twoHundred) none).Nodup ∧
      ∀ entityId, entityId ∈
          @executeAvetSingle w.store bitsText "master" [] "t" "count" (.long twoHundred) none ↔
        (@pull bitsText taskRegistry w.store "t" entityId none).lookup "count" =
          @DatomValue.shown bitsText (.long twoHundred) := by
  obtain ⟨w, hrun, hcommits⟩ := exists_counted_task
  exact ⟨w, hrun, hcommits, @executeAvetSingle_exact bitsText bitsText_total plainDerived plainHash
    taskRegistry "metri" (hashAttrName "count") "count" "count" .long w "t" "master"
    (.long twoHundred) [taskModel] CodeRegistry.build_task taskModel_noCollision (by decide)
    (taskRegistry_plain "count") (by decide) (by decide) hrun (by decide) (by decide) [] rfl trivial⟩

/-- A task that was moved is found under the date that it was moved from. -/
theorem moved_task_is_still_found :
    ∃ w, Run taskStep EavHistory.Successive EavHistory.start w ∧
      ¬ ∀ entityId, entityId ∈
          @executeAvetSingle w.store bitsText "master" [] "t" "due" (.instant hundred) none ↔
        (@pull bitsText taskRegistry w.store "t" entityId none).lookup "due" =
          @DatomValue.shown bitsText (.instant hundred) := by
  obtain ⟨w, hrun, hpull, hids, _⟩ := exists_moved_task
  refine ⟨w, hrun, fun h => ?_⟩
  have hshown := (h "e").mp (by rw [hids]; exact List.mem_singleton_self _)
  have hinstant : @DatomValue.shown bitsText (.instant hundred) = some (.long hundred) :=
    @extractNumber_of_integer bitsText _ _ (Signed.parse_text hundred)
  rw [hpull, hinstant] at hshown
  exact absurd hshown (by decide)

/-! ### A range -/

/-- The types of the values that ranges are asked for. -/
def rangeTypes : List ValueType := [.long, .double, .instant]

theorem mem_avetTypes_of_range {type : ValueType} (h : type ∈ rangeTypes) : type ∈ avetTypes := by
  revert h
  cases type <;> simp [avetTypes, rangeTypes]

theorem F64.not_misordered {x y : F64} (hx : ¬ x.IsNegZero) (hy : ¬ y.IsNegZero) :
    ¬ x.Misordered y := by
  rintro (⟨h, _⟩ | ⟨_, h, _⟩)
  · exact hx h
  · exact hy h

section Ranged
variable [F64Text]

/-- A bound of the type whose value is legible. -/
def AvetBound.Fits (b : AvetBound) (type : ValueType) : Prop :=
  ∀ v ∈ b.value, v.valueType = type ∧ v.Legible

theorem AvetBound.Fits.isDouble {b : AvetBound} (h : b.Fits .double) :
    b.IsDouble ∧ ∀ d, DatomValue.double d ∈ b.value → ¬ d.IsNegZero := by
  constructor
  · intro v hv
    obtain ⟨htype, hlegible⟩ := h v hv
    cases v with
    | double d => exact ⟨d, rfl, F64.isNaN_of_finite hlegible.1⟩
    | _ => cases htype
  · intro d hd
    exact (h _ hd).2.2.1

/-- The key of a value lies between the keys of the bounds exactly where the value lies between
the bounds. -/
theorem ranged_iff {x : DatomValue} (htype : x.valueType ∈ rangeTypes) (hx : x.Legible)
    {lower upper : AvetBound} (hlower : lower.Fits x.valueType) (hupper : upper.Fits x.valueType)
    {entityId : String} (he : entityId ≠ "") :
    (avetSkMin x.valueType.tag lower ≤ buildAvetSk x entityId ∧
        buildAvetSk x entityId ≤ avetSkMax x.valueType.tag upper) ↔
      lower.AtLeast x ∧ upper.AtMost x := by
  have hfixed {w r : ℕ} (hrank : fixedRank x = some (w, r)) (hnot : x ≠ .bool false) :
      (avetSkMin x.valueType.tag lower ≤ buildAvetSk x entityId ∧
        buildAvetSk x entityId ≤ avetSkMax x.valueType.tag upper) ↔
      lower.AtLeast x ∧ upper.AtMost x := by
    rw [skMin_le_iff hrank (fun v hv => (hlower v hv).1) entityId,
      le_skMax_iff hrank (fun v hv => (hupper v hv).1) he]
    have hlow : ¬ (lower = .unbounded ∧ SortsLow x entityId) := fun h => hnot h.2.1
    rw [and_iff_left hlow]
  cases x with
  | long n => exact hfixed rfl (by simp)
  | instant n => exact hfixed rfl (by simp)
  | double d =>
    have hnan := F64.isNaN_of_finite hx.1
    obtain ⟨hlowDouble, hlowZero⟩ := AvetBound.Fits.isDouble hlower
    obtain ⟨hupDouble, hupZero⟩ := AvetBound.Fits.isDouble hupper
    have hlow : ¬ lower.MisjudgesLow d := by
      cases lower with
      | unbounded => exact not_false
      | inclusive v =>
        obtain ⟨e, rfl, _⟩ := hlowDouble v rfl
        exact F64.not_misordered hx.2.1 (hlowZero e rfl)
      | exclusive v =>
        obtain ⟨e, rfl, _⟩ := hlowDouble v rfl
        exact F64.not_misordered (hlowZero e rfl) hx.2.1
    have hup : ¬ upper.MisjudgesHigh d entityId := by
      cases upper with
      | unbounded => exact not_false
      | inclusive v =>
        obtain ⟨e, rfl, _⟩ := hupDouble v rfl
        exact F64.not_misordered (hupZero e rfl) hx.2.1
      | exclusive v =>
        obtain ⟨e, rfl, _⟩ := hupDouble v rfl
        rintro (hmis | ⟨_, hempty⟩)
        · exact F64.not_misordered hx.2.1 (hupZero e rfl) hmis
        · exact he hempty
    rw [(skMin_le_double_iff hnan hlowDouble entityId).mpr hlow,
      (double_le_skMax_iff hnan hupDouble entityId).mpr hup]
  | _ => exact absurd htype (by simp [rangeTypes, DatomValue.valueType])

variable {registry : CodeRegistry} {attrId : U16} {name attrName : String} {type : ValueType}
  {w : EavHistory} {tenantId : String} {lower upper : AvetBound}

/-- The entities found for a range are those that hold a value in it. -/
theorem EavHistory.Indexed.range (h : w.Indexed registry attrId name type)
    (ht : '#' ∉ tenantId.toList) (hcanonical : normalizeAvetAttrName attrName = name)
    (htype : type ∈ rangeTypes) (hlower : lower.Fits type) (hupper : upper.Fits type)
    (hbound : ¬ (lower = .unbounded ∧ upper = .unbounded)) :
    (executeAvetRangeForTenant w.store tenantId attrName lower upper).Nodup ∧
      ∀ entityId, entityId ≠ "" →
        (entityId ∈ executeAvetRangeForTenant w.store tenantId attrName lower upper ↔
          ∃ value c, w.Holds attrId name type tenantId entityId value c ∧ lower.AtLeast value ∧
            upper.AtMost value) := by
  have hindexed := mem_avetTypes_of_range htype
  have hbounds := exists_avetSkRangeBounds (fun v hv => (hlower v hv).1)
    (fun v hv => (hupper v hv).1) (isAvetIndexable_of_mem hindexed) hbound
  have hranged {entityId : String} (he : entityId ≠ "") {value : DatomValue} {c : Revision U64 Item}
      (hvalue : w.Holds attrId name type tenantId entityId value c) :
      (avetSkMin type.tag lower ≤ buildAvetSk value entityId ∧
        buildAvetSk value entityId ≤ avetSkMax type.tag upper) ↔
      lower.AtLeast value ∧ upper.AtMost value := by
    obtain rfl := hvalue.typed
    exact ranged_iff htype hvalue.legible hlower hupper he
  rw [executeAvetRangeForTenant, hbounds]
  dsimp only
  by_cases hcrossed : avetSkMax type.tag upper < avetSkMin type.tag lower
  · rw [if_pos hcrossed]
    refine ⟨List.nodup_nil, fun entityId he => ?_⟩
    constructor
    · intro hmem
      cases hmem
    · rintro ⟨value, c, hvalue, hin⟩
      obtain ⟨hmin, hmax⟩ := (hranged he hvalue).mpr hin
      exact absurd (hmin.trans hmax) (not_le.mpr hcrossed)
  · rw [if_neg hcrossed, hcanonical]
    obtain ⟨hnodup, hmem⟩ := h.inRange ht (expresses_range (avetPk tenantId name)
      (avetSkMin type.tag lower) (avetSkMax type.tag upper))
    refine ⟨hnodup, fun entityId he => ?_⟩
    rw [hmem]
    constructor
    · rintro ⟨c, hc, hpart⟩
      obtain ⟨value, hvalue⟩ := h.holds ht hindexed hc
      obtain ⟨sort, hsort, hmatch⟩ := inPart_iff.mp hpart
      rw [hvalue.key] at hsort
      cases hsort
      exact ⟨value, c, hvalue, (hranged he hvalue).mp hmatch⟩
    · rintro ⟨value, c, hvalue, hin⟩
      exact ⟨c, hvalue.current, inPart_iff.mpr ⟨_, hvalue.key, (hranged he hvalue).mpr hin⟩⟩

variable [F64Text.Total] [Derived] [KeyHash] {table : String}

/-- In every state that calls reach which keep the index under an attribute of dates or numbers, a
query for a range of its values answers with the entities that a pull shows with a value in the
range, each once. -/
theorem executeAvetRangeForTenant_exact {models : List EntityModel}
    (hbuild : CodeRegistry.build models = .ok registry) (hcollide : NoCollision models)
    (hname : registry.getAttrName attrId = some name) (hplain : registry.Plain name)
    (hcanonical : normalizeAvetAttrName attrName = name) (htype : type ∈ rangeTypes)
    (hrun : Run (EavHistory.step registry table) (EavHistory.KeepsIndex registry attrId name type)
      EavHistory.start w) (ht : '#' ∉ tenantId.toList) (hlower : lower.Fits type)
    (hupper : upper.Fits type) (hbound : ¬ (lower = .unbounded ∧ upper = .unbounded)) :
    (executeAvetRangeForTenant w.store tenantId attrName lower upper).Nodup ∧
      ∀ entityId, entityId ≠ "" →
        (entityId ∈ executeAvetRangeForTenant w.store tenantId attrName lower upper ↔
          ∃ value, value.valueType = type ∧ value.Legible ∧
            (pull registry w.store tenantId entityId none).lookup name = value.shown ∧
              lower.AtLeast value ∧ upper.AtMost value) := by
  have hone := CodeRegistry.build_oneName hbuild hcollide
  have hindexed := EavHistory.indexed_of_run (CodeRegistry.build_sound hbuild) hone hname hplain hrun
  have havet := mem_avetTypes_of_range htype
  obtain ⟨hnodup, hmem⟩ := hindexed.range ht hcanonical htype hlower hupper hbound
  refine ⟨hnodup, fun entityId he => ?_⟩
  rw [hmem entityId he]
  constructor
  · rintro ⟨value, c, hvalue, hin⟩
    obtain ⟨shown, hshown⟩ := Option.ne_none_iff_exists'.mp value.shown_ne_none
    refine ⟨value, hvalue.typed, hvalue.legible, ?_, hin⟩
    rw [hshown, hindexed.pull_eq_some_iff ht havet hone hname]
    exact ⟨value, c, hvalue, hshown⟩
  · rintro ⟨value, hvalueType, hlegible, hpull, hin⟩
    obtain ⟨shown, hshown⟩ := Option.ne_none_iff_exists'.mp value.shown_ne_none
    rw [hshown, hindexed.pull_eq_some_iff ht havet hone hname] at hpull
    obtain ⟨held, c, hheld, hsame⟩ := hpull
    have htypes : held.valueType = value.valueType := hheld.typed.trans hvalueType.symm
    obtain rfl := (shown_iff (hvalueType ▸ havet) htypes hheld.legible hlegible).mp
      (hsame.trans hshown.symm)
    exact ⟨held, c, hheld, hin⟩

end Ranged

/-- A task is found between the bounds that its last count meets. -/
theorem counted_task_is_in_range :
    ∃ w, Run taskStep keepsCount EavHistory.start w ∧ w.commits.map Prod.fst = [1, 2] ∧
      (executeAvetRangeForTenant w.store "t" "count" (.exclusive (.long hundred)) .unbounded).Nodup ∧
      ∀ entityId, entityId ≠ "" →
        (entityId ∈ executeAvetRangeForTenant w.store "t" "count" (.exclusive (.long hundred))
            .unbounded ↔
          ∃ value : DatomValue, value.valueType = .long ∧ @DatomValue.Legible bitsText value ∧
            (@pull bitsText taskRegistry w.store "t" entityId none).lookup "count" =
              @DatomValue.shown bitsText value ∧
            (AvetBound.exclusive (.long hundred)).AtLeast value ∧ AvetBound.unbounded.AtMost value) := by
  obtain ⟨w, hrun, hcommits⟩ := exists_counted_task
  refine ⟨w, hrun, hcommits, @executeAvetRangeForTenant_exact bitsText taskRegistry
    (hashAttrName "count") "count" "count" .long w "t" (.exclusive (.long hundred)) .unbounded
    bitsText_total plainDerived plainHash "metri" [taskModel] CodeRegistry.build_task
    taskModel_noCollision (by decide) (taskRegistry_plain "count") (by decide) (by decide) hrun
    (by decide) ?_ ?_ (by simp)⟩
  · intro v hv
    cases hv
    exact ⟨rfl, trivial⟩
  · intro v hv
    cases hv

/-- A task that was moved out of a range is still found in it. -/
theorem moved_task_stays_in_range :
    ∃ w, Run taskStep EavHistory.Successive EavHistory.start w ∧
      "e" ∈ executeAvetRangeForTenant w.store "t" "due" .unbounded (.inclusive (.instant hundred)) ∧
      ¬ ∃ value : DatomValue, value.valueType = .instant ∧
        (@pull bitsText taskRegistry w.store "t" "e" none).lookup "due" =
          @DatomValue.shown bitsText value ∧
        (AvetBound.inclusive (.instant hundred)).AtMost value := by
  obtain ⟨w, hrun, hpull, _, hids⟩ := exists_moved_task
  refine ⟨w, hrun, by rw [hids]; exact List.mem_singleton_self _, ?_⟩
  rintro ⟨value, htype, hshown, hmost⟩
  cases value with
  | instant n =>
    have hinstant : @DatomValue.shown bitsText (.instant n) = some (.long n) :=
      @extractNumber_of_integer bitsText _ _ (Signed.parse_text n)
    rw [hpull, hinstant] at hshown
    obtain rfl : twoHundred = n := by simpa using hshown
    have hbelow : hundred.val < twoHundred.val := by decide
    exact hmost hbelow
  | _ => cases htype

end MetriEngine.Eav

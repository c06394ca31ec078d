import MetriEngine.Codice.Payload
import MetriEngine.Eav.Records

/-!
# The delta of an update

An update returns the attributes that it changed, for the guards that ask whether it changed
anything. It compares the values of the payload with the values as they are read back, and storage
does not keep every type: a time is read back as a number, an array as a text.
-/
namespace MetriEngine.Eav
open Foundation Storage

/-! ### Equal values -/

/-- Equal doubles have the same bits, unless they are zeros. -/
theorem F64.eq_or_zero {a b : F64} (h : a.eq b = true) : a = b ∨ a.magnitude = 0 := by
  rw [F64.eq, Bool.and_eq_true, decide_eq_true_eq] at h
  have hplace := h.2
  have hbits (d : F64) : d.bits.toNat = d.magnitude + if d.bits.msb then 2 ^ 63 else 0 := by
    have hlt := d.bits.isLt
    rw [BitVec.msb_eq_decide, F64.magnitude]
    by_cases hhigh : 2 ^ 63 ≤ d.bits.toNat
    · simp only [show 2 ^ (64 - 1) ≤ d.bits.toNat from hhigh, decide_true, if_true]
      omega
    · simp only [show ¬ 2 ^ (64 - 1) ≤ d.bits.toNat from hhigh, decide_false, Bool.false_eq_true,
        if_false]
      omega
  rw [or_iff_not_imp_right]
  intro hzero
  apply F64.ext
  apply BitVec.eq_of_toNat_eq
  rw [hbits a, hbits b]
  rw [F64.place, F64.place] at hplace
  split_ifs at hplace ⊢ <;> omega

namespace DatomValue

/-- `==` on datom values. -/
def same : DatomValue → DatomValue → Bool
  | .double a, .double b => a.eq b
  | .geo lat lon, .geo lat' lon' => lat.eq lat' && lon.eq lon'
  | a, b => decide (a = b)

theorem same_self {v : DatomValue} (hnan : v.hasNaN = false) : v.same v = true := by
  cases v with
  | double d =>
    have hd : d.isNaN = false := hnan
    simp [same, F64.eq, hd]
  | geo lat lon =>
    obtain ⟨hlat, hlon⟩ := Bool.or_eq_false_iff.mp hnan
    simp [same, F64.eq, hlat, hlon]
  | _ => simp [same]

end DatomValue

/-- `==` on values that may be absent. -/
def sameValue : Option DatomValue → Option DatomValue → Bool
  | none, none => true
  | some a, some b => a.same b
  | _, _ => false

/-! ### The delta -/

section Delta
variable [Codecs]

structure DeltaEntry where
  before : Option JsonValue
  after : Option JsonValue
deriving DecidableEq

abbrev Delta := List (String × DeltaEntry)

/-- What an attribute of the payload puts into the delta. -/
def deltaEntry (active : ActiveAttrs) (entry : String × DatomValue) : Option (String × DeltaEntry) :=
  let oldVal := (active.lookup entry.1).map Prod.snd
  let sinCambio := oldVal.isNone && decide (entry.2 = .null)
  if !sinCambio && !sameValue oldVal (some entry.2) then
    some (entry.1, ⟨oldVal.map datomValueToJson, some (datomValueToJson entry.2)⟩)
  else none

def computeTransactDelta (active : ActiveAttrs) (attrs : AttrMap) : Option Delta :=
  let delta := attrs.entries.filterMap (deltaEntry active)
  if delta.isEmpty then none else some delta

/-- The attributes that a delta names. -/
def deltaNames (delta : Option Delta) : List String := (delta.getD []).map Prod.fst

theorem deltaNames_eq_nil_iff {active : ActiveAttrs} {attrs : AttrMap} :
    deltaNames (computeTransactDelta active attrs) = [] ↔ computeTransactDelta active attrs = none := by
  rw [computeTransactDelta, deltaNames]
  cases attrs.entries.filterMap (deltaEntry active) <;> simp

theorem mem_deltaNames {active : ActiveAttrs} {attrs : AttrMap} {name : String} :
    name ∈ deltaNames (computeTransactDelta active attrs) ↔
      ∃ v, attrs.get name = some v ∧ ¬ (active.lookup name = none ∧ v = .null) ∧
        sameValue ((active.lookup name).map Prod.snd) (some v) = false := by
  have hnames : deltaNames (computeTransactDelta active attrs) =
      (attrs.entries.filterMap (deltaEntry active)).map Prod.fst := by
    rw [computeTransactDelta, deltaNames]
    cases h : attrs.entries.filterMap (deltaEntry active) <;> rfl
  rw [hnames, List.mem_map]
  constructor
  · rintro ⟨e, he, rfl⟩
    obtain ⟨entry, hentry, hdelta⟩ := List.mem_filterMap.mp he
    rw [deltaEntry] at hdelta
    split_ifs at hdelta with hchange
    cases hdelta
    refine ⟨entry.2, AttrMap.get_eq_some.mpr hentry, ?_, ?_⟩
    · rintro ⟨hnone, hnull⟩
      simp [hnone, hnull] at hchange
    · simpa using (Bool.and_eq_true_iff.mp hchange).2
  · rintro ⟨v, hget, hnoop, hdiffers⟩
    have hchange : (!(((active.lookup name).map Prod.snd).isNone && decide (v = .null)) &&
        !sameValue ((active.lookup name).map Prod.snd) (some v)) = true := by
      rw [hdiffers]
      cases hold : active.lookup name with
      | none =>
        have hnull : v ≠ .null := fun h => hnoop ⟨hold, h⟩
        simp [hnull]
      | some old => simp
    let entry : String × DeltaEntry :=
      (name, ⟨((active.lookup name).map Prod.snd).map datomValueToJson, some (datomValueToJson v)⟩)
    have hentry : deltaEntry active (name, v) = some entry := by
      rw [deltaEntry]
      exact if_pos hchange
    exact ⟨entry, List.mem_filterMap.mpr ⟨(name, v), AttrMap.get_eq_some.mp hget, hentry⟩, rfl⟩

/-- The delta that a call returns with its result. -/
def transactDelta [F64Text] (registry : CodeRegistry) (st : MbfPartitionStore)
    (call : TransactCall) : Option Delta :=
  if call.payload.op = .update then
    computeTransactDelta (readActive registry st call) call.payload.attrs
  else none

end Delta

/-! ### Values that are read back -/

theorem parse_nat_ne_none {n : ℕ} (h : n < 2 ^ 64) : Signed.parse 128 (toString n) ≠ none := by
  have hz : parseSigned (toString n).toList = some (n : ℤ) := parseSigned_toString (n : ℤ)
  rw [Ne, Signed.parse_eq_none_iff hz, not_not]
  norm_num at h ⊢
  omega

section Texts
variable [F64Text]

/-- The text of a NaN is read as a NaN, if as a number at all, and that of a zero is an integer. -/
class F64Text.Plain : Prop where
  nan : ∀ d e : F64, d.isNaN = true → F64Text.parse (F64Text.display d) = some e → e.isNaN = true
  zero : ∀ d : F64, d.magnitude = 0 → Signed.parse 128 (F64Text.display d) ≠ none

/-- A number text is read as a double only if it is no integer. -/
theorem extractNumber_eq_double {text : String} {d : F64}
    (h : extractNumber text = some (.double d)) :
    Signed.parse 128 text = none ∧ F64Text.parse text = some d := by
  cases hparse : Signed.parse 128 text with
  | some n => exact absurd h (extractNumber_ne_double hparse (plain_of_parse hparse) d)
  | none =>
    rw [extractNumber_of_none hparse] at h
    obtain ⟨e, he, heq⟩ := Option.map_eq_some_iff.mp h
    cases heq
    exact ⟨rfl, he⟩

/-- What a number text is read as. -/
theorem extractNumber_kind {text : String} {v : DatomValue} (h : extractNumber text = some v) :
    (∃ n, v = .long n) ∨ (∃ n, v = .bigInt n) ∨ ∃ d, v = .double d := by
  rw [extractNumber] at h
  have hdouble (hmap : (F64Text.parse text).map DatomValue.double = some v) :
      ∃ d, v = .double d := by
    obtain ⟨d, -, rfl⟩ := Option.map_eq_some_iff.mp hmap
    exact ⟨d, rfl⟩
  cases h64 : Signed.parse 64 text with
  | some n =>
    rw [h64] at h
    cases h
    exact Or.inl ⟨n, rfl⟩
  | none =>
    rw [h64] at h
    simp only at h
    split_ifs at h
    · cases h128 : Signed.parse 128 text with
      | some n =>
        rw [h128] at h
        cases h
        exact Or.inr (Or.inl ⟨n, rfl⟩)
      | none =>
        rw [h128] at h
        exact Or.inr (Or.inr (hdouble h))
    · exact Or.inr (Or.inr (hdouble h))

/-- A double that was read back has a text that is no integer. -/
theorem shown_eq_double [F64Text.Plain] {u : DatomValue} {d : F64}
    (h : u.shown = some (.double d)) (hd : d.isNaN = false) :
    Signed.parse 128 (F64Text.display d) = none := by
  have hinteger {text : String} {n : Signed 128} (hn : Signed.parse 128 text = some n) :
      extractNumber text ≠ some (.double d) := by
    intro hdouble
    rw [(extractNumber_eq_double hdouble).1] at hn
    cases hn
  cases u with
  | double e =>
    obtain ⟨hnone, hparse⟩ := extractNumber_eq_double h
    cases he : e.isNaN with
    | true =>
      have hnan := F64Text.Plain.nan e d he hparse
      rw [hd] at hnan
      cases hnan
    | false =>
      rw [F64Text.parse_display e he, Option.some.injEq] at hparse
      rw [← hparse]
      exact hnone
  | long n =>
    have hlong : extractNumber n.text = some (.long n) :=
      extractNumber_of_integer (Signed.parse_text n)
    cases hlong.symm.trans h
  | instant n =>
    have hlong : extractNumber n.text = some (.long n) :=
      extractNumber_of_integer (Signed.parse_text n)
    cases hlong.symm.trans h
  | bigInt n => exact absurd h (hinteger (Signed.parse_text n))
  | ref r =>
    obtain ⟨n, hn⟩ := Option.ne_none_iff_exists'.mp (parse_nat_ne_none r.isLt)
    exact absurd h (hinteger hn)
  | _ => cases h

/-- A number text is read as a number. -/
theorem extractNumber_valueType {text : String} {v : DatomValue} (h : extractNumber text = some v) :
    v.valueType ∈ [ValueType.long, .bigInt, .double] := by
  rcases extractNumber_kind h with ⟨n, rfl⟩ | ⟨n, rfl⟩ | ⟨d, rfl⟩ <;>
    simp [DatomValue.valueType]

/-- The types that storage never gives back. -/
theorem shown_valueType {u x : DatomValue} (h : u.shown = some x) :
    x.valueType ∉ [ValueType.uuid, .reference, .array, .instant, .geo] := by
  have hnumber {text : String} (htext : extractNumber text = some x) :
      x.valueType ∉ [ValueType.uuid, .reference, .array, .instant, .geo] := by
    have hkind := extractNumber_valueType htext
    intro hother
    revert hkind hother
    cases x.valueType <;> decide
  cases u with
  | long n => exact hnumber h
  | instant n => exact hnumber h
  | bigInt n => exact hnumber h
  | double d => exact hnumber h
  | ref r => exact hnumber h
  | _ =>
    cases h
    simp [DatomValue.valueType]

/-- What equals a value that was read back is that value. -/
theorem eq_of_same [F64Text.Plain] {u x v : DatomValue} (hshown : u.shown = some x)
    (hsame : x.same v = true) : x = v := by
  have hback := shown_valueType hshown
  cases x with
  | double e =>
    cases v with
    | double d =>
      have heq : e.eq d = true := hsame
      have he : e.isNaN = false := by
        rw [F64.eq, Bool.and_eq_true, Bool.and_eq_true] at heq
        simpa using heq.1.1
      rcases F64.eq_or_zero heq with rfl | hzero
      · rfl
      · exact absurd (shown_eq_double hshown he) (F64Text.Plain.zero e hzero)
    | _ => cases hsame
  | geo lat lon => exact absurd (by simp [DatomValue.valueType]) hback
  | _ => exact of_decide_eq_true hsame

/-- Of the values of a payload, what was read back is read back once more. -/
theorem survives_of_shown [F64Text.Plain] {u v : DatomValue} (hshown : u.shown = some v)
    (hnan : v.hasNaN = false) (htyped : v.valueType ∈ Codice.typedValues) : v.SurvivesStorage := by
  have hback := shown_valueType hshown
  cases v with
  | double d => exact shown_eq_double hshown hnan
  | bigInt n => exact absurd htyped (by simp [DatomValue.valueType, Codice.typedValues])
  | instant n => exact absurd (by simp [DatomValue.valueType]) hback
  | uuid s => exact absurd (by simp [DatomValue.valueType]) hback
  | array items => exact absurd (by simp [DatomValue.valueType]) hback
  | ref r => exact absurd (by simp [DatomValue.valueType]) hback
  | geo lat lon => exact absurd (by simp [DatomValue.valueType]) hback
  | _ => trivial

/-- A value that was read back differs from another by `==` just where it is another. -/
theorem sameValue_eq_false_iff [F64Text.Plain] {before : Option DatomValue}
    (hbefore : ∀ x ∈ before, ∃ u : DatomValue, u.shown = some x) {v : DatomValue}
    (hnan : v.hasNaN = false) : sameValue before (some v) = false ↔ before ≠ some v := by
  cases before with
  | none => simp [sameValue]
  | some x =>
    obtain ⟨u, hu⟩ := hbefore x rfl
    rw [sameValue, ← Bool.not_eq_true, Ne, Option.some.injEq, not_iff_not]
    constructor
    · exact eq_of_same hu
    · rintro rfl
      exact DatomValue.same_self hnan

end Texts

/-! ### Deltas that tell what changed -/

/-- A value that a payload can carry: a null, or what an attribute type makes of a JSON value. -/
def Typed [Codice.Formats] (v : DatomValue) : Prop :=
  v = .null ∨ v.hasNaN = false ∧ ∃ val attrType, Codice.mapToDatomValue val attrType = .ok v

/-- Where the delta tells what the update makes of an attribute: a value of the payload is given back as
it was written, or changes what is read all the same; what the engine writes is there already. -/
def DeltaTells [F64Text] (before : Option DatomValue) (call : TransactCall) (name : String) : Prop :=
  match call.systemValue name, call.payload.attrs.get name with
  | some v, _ => before = v.shown
  | none, none => True
  | none, some .null => before ≠ some .null
  | none, some v => v.SurvivesStorage ∨ before ≠ v.shown

section Reads
variable [F64Text] {registry : CodeRegistry}

/-- What a pull shows was stored. -/
theorem DatomStore.pull_shown {st : MbfPartitionStore} (h : DatomStore registry st.items)
    {tenantId entityId name : String} {x : DatomValue}
    (hpull : (pull registry st tenantId entityId none).lookup name = some x) :
    ∃ u : DatomValue, u.shown = some x := by
  rw [h.pull_lookup] at hpull
  split_ifs at hpull
  obtain ⟨d, _, _, _, _, _, hval⟩ := h.valueBy_origin _ hpull
  rw [shownTake, extractDatomValue_eavtItem] at hval
  exact ⟨d.value, hval⟩

/-- A value that differs from what is read changes it, unless storage gives it back as what is read. -/
theorem differs_iff_changes_iff [F64Text.Plain] [Codice.Formats] {before : Option DatomValue}
    (hbefore : ∀ x ∈ before, ∃ u : DatomValue, u.shown = some x) {v : DatomValue} (hnull : v ≠ .null)
    (hv : Typed v) : (sameValue before (some v) = false ↔ before ≠ v.shown) ↔
      v.SurvivesStorage ∨ before ≠ v.shown := by
  obtain hv | ⟨hnan, val, attrType, hval⟩ := hv
  · exact absurd hv hnull
  rw [sameValue_eq_false_iff hbefore hnan]
  by_cases hsurvives : v.SurvivesStorage
  · rw [(shown_eq_self_iff v hnan).mpr hsurvives]
    simp [hsurvives]
  · have hdiffers : before ≠ some v := by
      intro hsame
      obtain ⟨u, hu⟩ := hbefore v hsame
      exact hsurvives (survives_of_shown hu hnan (Codice.mapToDatomValue_valueType hval))
    simp [hsurvives, hdiffers]

end Reads

section Stored
variable [F64Text] [F64Text.Total] [F64Text.Plain] [Derived] [KeyHash] [Codecs] [Codice.Formats]
  {registry : CodeRegistry} {table : String}

end Stored
/-! ### A timer -/

theorem bitsText_plain : @F64Text.Plain bitsText := by
  refine @F64Text.Plain.mk bitsText ?_ ?_
  · intro d e hd hparse
    have hsame : bitsParse (bitsDisplay d) = some e := hparse
    rw [bitsParse_bitsDisplay, Option.some.injEq] at hsame
    rw [← hsame]
    exact hd
  · intro d hd
    have hmantissa : d.mantissa = 0 := by
      simp [F64.exponent, F64.mantissa, hd]
    have hintegral : d.isIntegral = true := by
      rw [F64.isIntegral, hmantissa, Nat.zero_mod, F64.exponent, hd]
      decide
    have htext : @F64Text.display bitsText d = toString d.bits.toNat := by
      change bitsDisplay d = _
      rw [bitsDisplay, if_neg]
      simp [hintegral]
    rw [htext]
    exact parse_nat_ne_none d.bits.isLt

def timerModel : EntityModel where
  entity := "timer"
  attributes := [{ name := "due_at", attrType := .epoch }]

def timerRegistry : CodeRegistry where
  byEntity := (∅ : OrdMap String EntityModel).insert "timer" timerModel
  byAttrId := ((∅ : OrdMap U16 String).insertList systemAttrs).insert (hashAttrName "due_at") "due_at"

/-- A call that writes the time of a timer. -/
def timerCall (op : TransactOp) (due : Signed 64) (txId : U64) : TransactCall :=
  let call := noteCall op "e" "a" txId
  { call with payload := { call.payload with
      entityType := "timer"
      attrs := ⟨[("due_at", .instant due)], List.nodup_singleton _⟩ } }

end MetriEngine.Eav

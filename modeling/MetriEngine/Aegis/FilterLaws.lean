import MetriEngine.Aegis.Filter

/-!
# The laws of the filter operators

A request gives a filter one value of one kind; on its way it becomes a record with a slot for
each kind, the others at their defaults. Every operator looks at the slots in its own order,
and a slot at its default looks like a value that was asked for: zero, `false`, or the empty
text for what is no text.
-/
namespace MetriEngine.Aegis
open Foundation Storage Eav

/-! ### Values of a request -/

/-- The scalar kinds of a filter value. -/
inductive ScalarKind
  | string (s : String)
  | number (d : F64)
  | bool (b : Bool)
  | timestamp (t : Signed 64)
  | unset
deriving DecidableEq

inductive FilterKind
  | scalar (kind : ScalarKind)
  | list (values : List String)
  | range (values : List ScalarKind)
deriving DecidableEq

def ScalarKind.toValue : ScalarKind → ScalarValue
  | .string s => { stringVal := some s }
  | .number d => { numberVal := d }
  | .bool b => { boolVal := b }
  | .timestamp t => { timestampVal := t }
  | .unset => {}

/-- `translate_filter_value` -/
def translateFilterValue : FilterKind → FilterValue
  | .scalar kind => { toScalarValue := kind.toValue }
  | .list values => { listVal := some values }
  | .range values => { rangeValues := some (values.map ScalarKind.toValue) }

/-- The texts among which `IN` looks: a list, or the parts of a text between its commas. -/
def FilterKind.elements : FilterKind → List String
  | .list values => values
  | .scalar (.string s) => (Text.split s ',').map Text.trim
  | _ => []

/-- A value is what the filter was given, in its type. A time is a number. -/
def Carries : Option JsonValue → FilterKind → Prop
  | some (.string s), .scalar (.string t) => s = t
  | some (.number n), .scalar (.number d) => n.asF64.eq d = true
  | some (.number n), .scalar (.timestamp t) => n.asF64.eq (F64.ofInt t.val) = true
  | some (.bool b), .scalar (.bool c) => b = c
  | _, _ => False

/-- What a slot at its default is equal to. -/
def LooksUnset : Option JsonValue → Prop
  | some (.number n) => n.asF64.eq ⟨0⟩ = true
  | some (.bool b) => b = false
  | _ => False

/-- The kind of value that fills the slot which is read for a row's value. -/
def FilterKind.Fills : FilterKind → Option JsonValue → Prop
  | .scalar (.number _), some (.number _) => True
  | .scalar (.timestamp _), some (.number _) => True
  | .scalar (.bool _), some (.bool _) => True
  | _, _ => False

def IsText (v : Option JsonValue) : Prop := ∃ s, v = some (.string s)

def IsNumber (v : Option JsonValue) : Prop := ∃ n, v = some (.number n)

/-- A text that is not empty and lies between the texts of two bounds. -/
def TextBetween (v : Option JsonValue) (a b : ScalarKind) : Prop :=
  textOf v ≠ "" ∧ ¬ textOf v < a.toValue.stringVal.getD "" ∧ ¬ b.toValue.stringVal.getD "" < textOf v

/-! ### Equality -/

theorem asNumber_timestamp (n : F64) (t : Signed 64) :
    n.eq (ScalarKind.timestamp t).toValue.asNumber = n.eq (F64.ofInt t.val) := by
  unfold ScalarKind.toValue ScalarValue.asNumber
  dsimp only
  split_ifs with ht
  · rfl
  · have hzero : t.val = 0 := not_not.mp ht
    rw [hzero]
    rfl

/-- `EQ` is true of what the filter was given, and of a row that looks like a slot which
nothing fills. -/
theorem evalEq_iff (v : Option JsonValue) (k : FilterKind) :
    evalEq v (some (translateFilterValue k)) = true ↔
      Carries v k ∨ ¬ k.Fills v ∧ LooksUnset v := by
  cases v with
  | none => simp [evalEq, Carries, LooksUnset]
  | some v =>
    cases v with
    | string s =>
      cases k with
      | scalar kind => cases kind <;> simp [evalEq, Carries, LooksUnset, translateFilterValue,
          ScalarKind.toValue, eq_comm]
      | _ => simp [evalEq, Carries, LooksUnset, translateFilterValue]
    | number n =>
      cases k with
      | scalar kind =>
        cases kind with
        | timestamp t =>
          have htime := asNumber_timestamp n.asF64 t
          simp only [evalEq, translateFilterValue, Carries, FilterKind.Fills, not_true,
            false_and, or_false]
          rw [htime]
        | number d => simp [evalEq, translateFilterValue, Carries, FilterKind.Fills,
            ScalarKind.toValue, ScalarValue.asNumber]
        | _ => simp [evalEq, translateFilterValue, Carries, FilterKind.Fills, LooksUnset,
            ScalarKind.toValue, ScalarValue.asNumber]
      | _ => simp [evalEq, translateFilterValue, Carries, FilterKind.Fills, LooksUnset,
          ScalarValue.asNumber]
    | bool b =>
      cases k with
      | scalar kind => cases kind <;> simp [evalEq, Carries, LooksUnset, translateFilterValue,
          ScalarKind.toValue, FilterKind.Fills]
      | _ => simp [evalEq, Carries, LooksUnset, translateFilterValue, FilterKind.Fills]
    | _ => simp [evalEq, Carries, LooksUnset]

theorem evalEq_string_iff (v : Option JsonValue) (s : String) :
    evalEq v (some (translateFilterValue (.scalar (.string s)))) = true ↔
      v = some (.string s) ∨ LooksUnset v := by
  rw [evalEq_iff]
  cases v with
  | none => simp [Carries, LooksUnset]
  | some v => cases v <;> simp [Carries, LooksUnset, FilterKind.Fills]

/-! ### Membership -/

theorem memberOf_iff (v : Option JsonValue) (k : FilterKind) :
    (memberOf v (some (translateFilterValue k))).getD false = true ↔ textOf v ∈ k.elements := by
  cases k with
  | scalar kind =>
    cases kind with
    | string s => simp [memberOf, translateFilterValue, ScalarKind.toValue, FilterKind.elements]
    | _ => simp [memberOf, translateFilterValue, ScalarKind.toValue, FilterKind.elements]
  | list values => simp [memberOf, translateFilterValue, FilterKind.elements]
  | range values => simp [memberOf, translateFilterValue, FilterKind.elements]

theorem textOf_of_not_text {v : Option JsonValue} (h : ¬ IsText v) : textOf v = "" := by
  cases v with
  | none => rfl
  | some v =>
    cases v with
    | string s => exact absurd ⟨s, rfl⟩ h
    | _ => rfl

/-- Membership is equality with an element for a text; for anything else it asks for the empty
text, and equality for a row that looks unset. -/
theorem isIn_iff_exists_eq (v : Option JsonValue) (k : FilterKind) :
    ((memberOf v (some (translateFilterValue k))).getD false = true ↔
      ∃ s ∈ k.elements, evalEq v (some (translateFilterValue (.scalar (.string s)))) = true) ↔
    (¬ IsText v → ("" ∈ k.elements ↔ k.elements ≠ [] ∧ LooksUnset v)) := by
  rw [memberOf_iff]
  simp only [evalEq_string_iff]
  by_cases htext : IsText v
  · obtain ⟨s, rfl⟩ := htext
    have hnot : ¬ LooksUnset (some (.string s)) := id
    have htrue : IsText (some (.string s)) := ⟨s, rfl⟩
    simp only [hnot, or_false, htrue, not_true, false_imp_iff, iff_true, textOf,
      Option.bind_some, JsonValue.asStr, Option.getD_some, Option.some.injEq, JsonValue.string.injEq]
    constructor
    · intro h
      exact ⟨s, h, rfl⟩
    · rintro ⟨t, ht, rfl⟩
      exact ht
  · have hne : ∀ s, v ≠ some (.string s) := fun s h => htext ⟨s, h⟩
    rw [textOf_of_not_text htext]
    simp only [hne, false_or, htext, not_false_iff, true_imp_iff, exists_and_right]
    have hnil : k.elements ≠ [] ↔ ∃ s, s ∈ k.elements :=
      ⟨List.exists_mem_of_ne_nil _, fun ⟨_, hs⟩ => List.ne_nil_of_mem hs⟩
    rw [hnil]

/-! ### Ranges -/

theorem le_negInfinity_iff (d : F64) : d.le negInfinity = true ↔ d = negInfinity := by
  constructor
  · intro h
    simp only [F64.le, Bool.and_eq_true, Bool.not_eq_true', decide_eq_true_eq] at h
    obtain ⟨⟨hnan, _⟩, hplace⟩ := h
    have hinf : negInfinity.place = -0x7FF0000000000000 := by decide
    have hsize : d.magnitude ≤ 0x7FF0000000000000 := by simpa [F64.isNaN] using hnan
    rw [hinf] at hplace
    unfold F64.place at hplace
    split_ifs at hplace with hsign
    · have hlow : d.bits.toNat % 2 ^ 63 = 0x7FF0000000000000 := by
        change d.magnitude = _
        omega
      have hhigh : 2 ^ 63 ≤ d.bits.toNat := by
        simpa [BitVec.msb_eq_decide] using hsign
      have hlt := d.bits.isLt
      apply F64.ext
      apply BitVec.eq_of_toNat_eq
      change d.bits.toNat = 0xFFF0000000000000
      omega
    · omega
  · rintro rfl
    decide

theorem infinity_le_iff (d : F64) : infinity.le d = true ↔ d = infinity := by
  constructor
  · intro h
    simp only [F64.le, Bool.and_eq_true, Bool.not_eq_true', decide_eq_true_eq] at h
    obtain ⟨⟨_, hnan⟩, hplace⟩ := h
    have hinf : infinity.place = 0x7FF0000000000000 := by decide
    have hsize : d.magnitude ≤ 0x7FF0000000000000 := by simpa [F64.isNaN] using hnan
    rw [hinf] at hplace
    unfold F64.place at hplace
    split_ifs at hplace with hsign
    · omega
    · have hlow : d.bits.toNat % 2 ^ 63 = 0x7FF0000000000000 := by
        change d.magnitude = _
        omega
      have hhigh : d.bits.toNat < 2 ^ 63 := by
        simpa [BitVec.msb_eq_decide] using hsign
      apply F64.ext
      apply BitVec.eq_of_toNat_eq
      change d.bits.toNat = 0x7FF0000000000000
      omega
  · rintro rfl
    decide

/-- The bounds that `GTE` and `LTE` let a value pass which is no number. -/
def Unbounded (a b : ScalarKind) : Prop :=
  a.toValue.asNumber = negInfinity ∧ b.toValue.asNumber = infinity

theorem asF64_of_not_number {v : Option JsonValue} (h : ¬ IsNumber v) :
    v.bind JsonValue.asF64 = none := by
  cases v with
  | none => rfl
  | some v =>
    cases v with
    | number n => exact absurd ⟨n, rfl⟩ h
    | _ => rfl

/-- A range is its two bounds for a number; for anything else it compares texts, and the
bounds compare with infinity. -/
theorem between_iff_bounds (v : Option JsonValue) (a b : ScalarKind) (rest : List ScalarKind) :
    (evalBetween v (some (translateFilterValue (.range (a :: b :: rest)))) = true ↔
      evalOrder (fun a b => b.le a) negInfinity v (some (translateFilterValue (.scalar a))) = true ∧
      evalOrder F64.le infinity v (some (translateFilterValue (.scalar b))) = true) ↔
    (¬ IsNumber v → (TextBetween v a b ↔ Unbounded a b)) := by
  by_cases hnumber : IsNumber v
  · have htrue := hnumber
    obtain ⟨n, rfl⟩ := hnumber
    simp only [htrue, not_true, false_imp_iff, iff_true]
    simp [evalBetween, evalOrder, translateFilterValue, JsonValue.asF64]
  · have hnone := asF64_of_not_number hnumber
    have hbetween : evalBetween v (some (translateFilterValue (.range (a :: b :: rest)))) = true ↔
        TextBetween v a b := by
      simp [evalBetween, translateFilterValue, hnone, TextBetween, and_assoc]
    have hgte : evalOrder (fun a b => b.le a) negInfinity v
        (some (translateFilterValue (.scalar a))) = true ↔ a.toValue.asNumber = negInfinity := by
      rw [← le_negInfinity_iff]
      simp [evalOrder, hnone, translateFilterValue]
    have hlte : evalOrder F64.le infinity v (some (translateFilterValue (.scalar b))) = true ↔
        b.toValue.asNumber = infinity := by
      rw [← infinity_le_iff]
      simp [evalOrder, hnone, translateFilterValue]
    rw [hbetween, hgte, hlte]
    simp only [hnumber, not_false_iff, true_imp_iff, Unbounded]

/-! ### The laws -/

section Laws
variable [TextSearch]

/-- A filter of one field as a request states it. -/
def passes (row : JsonMap) (field : Option String) (op : FilterOperator) (k : FilterKind) : Bool :=
  evalFilterNode row (.leaf ⟨field, some (translateFilterValue k), op⟩)

/-- The laws that the operators of one field have on a row, for a value and for two bounds. -/
structure OperatorLaws (row : JsonMap) (field : Option String) (k : FilterKind)
    (a b : ScalarKind) : Prop where
  neq : passes row field .neq k = !passes row field .eq k
  notIn : passes row field .notIn k = !passes row field .isIn k
  isIn : passes row field .isIn k = true ↔
    ∃ s ∈ k.elements, passes row field .eq (.scalar (.string s)) = true
  between : passes row field .between (.range [a, b]) = true ↔
    passes row field .gte (.scalar a) = true ∧ passes row field .lte (.scalar b) = true
  eq : passes row field .eq k = true → Carries (rowVal row (field.getD "")) k

/-- Where no default is taken for a value: a row that looks unset meets a filter of its type;
the empty text is among the elements for a row without a text exactly when that row looks
unset; and what is no number lies between two texts exactly when the bounds are infinite. -/
structure ReadsNoDefault (v : Option JsonValue) (k : FilterKind) (a b : ScalarKind) : Prop where
  filled : LooksUnset v → k.Fills v
  listed : ¬ IsText v → ("" ∈ k.elements ↔ k.elements ≠ [] ∧ LooksUnset v)
  ranged : ¬ IsNumber v → (TextBetween v a b ↔ Unbounded a b)

omit [TextSearch] in
theorem eq_carries_iff (v : Option JsonValue) (k : FilterKind) :
    (evalEq v (some (translateFilterValue k)) = true → Carries v k) ↔
      (LooksUnset v → k.Fills v) := by
  rw [evalEq_iff]
  constructor
  · intro h hunset
    by_contra hfills
    have hcarries := h (Or.inr ⟨hfills, hunset⟩)
    cases v with
    | none => exact hunset
    | some v =>
      cases v with
      | number n => cases k with
        | scalar kind => cases kind <;> simp_all [Carries, FilterKind.Fills]
        | _ => exact hcarries
      | bool b => cases k with
        | scalar kind => cases kind <;> simp_all [Carries, FilterKind.Fills]
        | _ => exact hcarries
      | _ => exact hunset
  · rintro h (hcarries | ⟨hfills, hunset⟩)
    · exact hcarries
    · exact absurd (h hunset) hfills

/-- The operators have their laws on a row exactly where none of them reads a default. -/
theorem operatorLaws_iff (row : JsonMap) (field : Option String) (k : FilterKind)
    (a b : ScalarKind) :
    OperatorLaws row field k a b ↔ ReadsNoDefault (rowVal row (field.getD "")) k a b := by
  let v := rowVal row (field.getD "")
  have hisIn := isIn_iff_exists_eq v k
  have hbetween := between_iff_bounds v a b []
  have heq := eq_carries_iff v k
  constructor
  · intro h
    exact ⟨heq.mp h.eq, hisIn.mp h.isIn, hbetween.mp h.between⟩
  · intro h
    exact ⟨rfl, rfl, hisIn.mpr h.listed, hbetween.mpr h.ranged, heq.mpr h.filled⟩

end Laws

/-! ### A row of nothing -/

def zeroRow : JsonMap := (∅ : JsonMap).insert "pieces" (.number (.ofSigned ⟨0, Signed.zero_bounds⟩))

/-- A row of zero pieces passes a filter for the text `abc`. -/
theorem zero_equals_a_text : ¬ ∀ [TextSearch] (row : JsonMap) (field : Option String)
    (k : FilterKind) (a b : ScalarKind), OperatorLaws row field k a b := by
  intro h
  exact @OperatorLaws.eq plainSearch _ _ _ _ _
    (@h plainSearch zeroRow (some "pieces") (.scalar (.string "abc")) .unset .unset) (by decide)

end MetriEngine.Aegis

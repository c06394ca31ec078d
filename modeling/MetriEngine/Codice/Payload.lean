import MetriEngine.Codice.Sequence
import MetriEngine.Eav.Json

/-!
# Payloads

What becomes of the payload of a request before it is written. Texts are read as the
numbers that the model wants, generated codes and the values of birth are added, and each
attribute is checked and turned into the datom value of its type.
-/
namespace MetriEngine.Codice
open Foundation Storage Eav

/-- The crates that the checks go through: regular expressions (no answer where the pattern
is none), Base64 in any of its alphabets, and the text of a JSON value. -/
class Formats where
  regexIsMatch : (pattern text : String) → Option Bool
  base64Decode : String → Option (List Byte)
  jsonText : JsonValue → String

/-- No patterns, no blobs and no texts. -/
@[reducible] def plainFormats : Formats := ⟨fun _ _ => none, fun _ => none, fun _ => ""⟩

/-! ### Coercion -/

/-- Whether a text is the word in capitals or small letters; no letter outside of ASCII has
one of `true` or `false` for its small letter. -/
def spells (s word : String) : Bool := decide (s.toList.map Char.toLower = word.toList)

/-- The value that a text stands for, where the attribute wants a number or a truth value. -/
def coerceValue [F64Text] (val : JsonValue) (attrType : AttrType) : Option JsonValue :=
  match attrType, val with
  | .epoch, .string s | .number, .string s | .decimal, .string s =>
    match Signed.parse 64 s with
    | some n => some (.number (.ofSigned n))
    | none => (F64Text.parse s).bind fun f => (JsonNumber.ofF64 f).map .number
  | .boolean, .string s =>
    if spells s "true" then some (.bool true)
    else if spells s "false" then some (.bool false)
    else none
  | _, _ => none

theorem coerceValue_not_null [F64Text] {val coerced : JsonValue} {attrType : AttrType}
    (h : coerceValue val attrType = some coerced) : val ≠ .null ∧ coerced ≠ .null := by
  have hnumber {s : String}
      (hs : (match Signed.parse 64 s with
        | some n => some (JsonValue.number (.ofSigned n))
        | none => (F64Text.parse s).bind fun f => (JsonNumber.ofF64 f).map .number) = some coerced) :
      coerced ≠ .null := by
    split at hs
    · cases hs
      exact JsonValue.noConfusion
    · obtain ⟨f, _, hf⟩ := Option.bind_eq_some_iff.mp hs
      obtain ⟨n, _, rfl⟩ := Option.map_eq_some_iff.mp hf
      exact JsonValue.noConfusion
  unfold coerceValue at h
  split at h
  · exact ⟨JsonValue.noConfusion, hnumber h⟩
  · exact ⟨JsonValue.noConfusion, hnumber h⟩
  · exact ⟨JsonValue.noConfusion, hnumber h⟩
  · split_ifs at h <;> cases h <;> exact ⟨JsonValue.noConfusion, JsonValue.noConfusion⟩
  · cases h

def coerceAttr [F64Text] (out : JsonMap) (attr : AttributeDescriptor) : JsonMap :=
  match (out.lookup attr.name).bind fun val => coerceValue val attr.attrType with
  | some coerced => out.insert attr.name coerced
  | none => out

def coercePayload [F64Text] (model : EntityModel) (record : JsonMap) : JsonMap :=
  model.attributes.foldl coerceAttr record

/-- Coercion keeps what is absent absent, and nulls null. -/
theorem lookup_coercePayload [F64Text] (model : EntityModel) (record : JsonMap) (name : String) :
    ((coercePayload model record).lookup name).map JsonValue.isNull =
      (record.lookup name).map JsonValue.isNull := by
  have hstep (out : JsonMap) (attr : AttributeDescriptor) :
      ((coerceAttr out attr).lookup name).map JsonValue.isNull = (out.lookup name).map JsonValue.isNull := by
    have hnull {val : JsonValue} (h : val ≠ .null) : val.isNull = false := by
      cases val <;> first | rfl | exact absurd rfl h
    unfold coerceAttr
    split
    · rename_i coerced hcoerced
      obtain ⟨val, hval, hcoerce⟩ := Option.bind_eq_some_iff.mp hcoerced
      obtain ⟨hval', hcoerced'⟩ := coerceValue_not_null hcoerce
      rw [OrdMap.lookup_insert]
      split_ifs with hname
      · rw [hname, hval, Option.map_some, Option.map_some, hnull hval', hnull hcoerced']
      · rfl
    · rfl
  unfold coercePayload
  induction model.attributes generalizing record with
  | nil => rfl
  | cons attr rest ih => rw [List.foldl_cons, ih, hstep]

/-! ### Generated codes -/

inductive AutoGenStrategy
  | stochasticBase36 (codePrefix : String) (length : ℕ)
  | sequential (config : SeqAttrConfig)
deriving DecidableEq

/-- The number that an attribute of the scope gets, where the model says nothing else. -/
def fallbackStrategy (attr : AttributeDescriptor) : Option AutoGenStrategy :=
  if attr.isSequenceScopeVia then some (.sequential ⟨attr.name, "", 4, .exact⟩) else none

def autoGenStrategy (attr : AttributeDescriptor) : Option AutoGenStrategy :=
  match attr.autoGenerate with
  | some autoGen =>
    if autoGen.strategy = "stochastic_base36" then
      some (.stochasticBase36 (autoGen.codePrefix.getD "") (autoGen.length.getD 7))
    else ((SeqAttrConfig.fromAutoGenerate attr.name autoGen).map .sequential).or (fallbackStrategy attr)
  | none => fallbackStrategy attr

def autoGenerateAttrs (model : EntityModel) : List (String × AutoGenStrategy) :=
  model.attributes.filterMap fun attr => (autoGenStrategy attr).map fun strategy => (attr.name, strategy)

def findScopeField (model : EntityModel) : Option String :=
  (model.attributes.find? fun a => a.isSequenceScope || a.isSequenceScopeVia).map AttributeDescriptor.name

def alphabet : List Char := "0123456789ABCDEFGHIJKLMNOPQRSTUVWXYZ".toList

/-- `base36::generate`, from the indices that are drawn. -/
def base36Generate (codePrefix : String) (length : ℕ) (drawn : ℕ → Fin 36) : String :=
  codePrefix ++ String.ofList ((List.range length).map fun i => alphabet.getD (drawn i).val '0')

/-- One attribute of `inject`: a payload that has it keeps it. -/
def injectAttr (st : MbfPartitionStore) (model : EntityModel) (tenantId : String)
    (scope : Option ScopeContext) (drawn : ℕ → Fin 36) (nowMs : ℤ) (enriched : JsonMap)
    (attr : String × AutoGenStrategy) : MbfPartitionStore × JsonMap :=
  if enriched.contains attr.1 then (st, enriched)
  else
    match attr.2 with
    | .stochasticBase36 codePrefix length =>
      (st, enriched.insert attr.1 (.string (base36Generate codePrefix length drawn)))
    | .sequential config =>
      let scopeTag := ((findScopeField model).bind enriched.lookup).bind JsonValue.asStr
      let (st', _, code) := sequentialValue st config tenantId scopeTag scope nowMs
      (st', enriched.insert attr.1 (.string code))

/-- What the channel reads of the location of a payload; none where it names no location. -/
def resolveScopeContext (attrsOf : String → ActiveAttrs) (model : EntityModel) (payload : JsonMap) :
    Option ScopeContext :=
  (findScopeField model).bind fun scopeField =>
    let named := ((payload.lookup scopeField).bind JsonValue.asStr).getD ""
    let via := (model.attributes.find? AttributeDescriptor.isSequenceScopeVia).map AttributeDescriptor.name
    let asset := ((via.bind payload.lookup).bind JsonValue.asStr).getD ""
    let root :=
      if named ≠ "" ∨ asset = "" then named else (textAttr (attrsOf asset) scopeField).getD ""
    if root = "" then none else some (scopeOf attrsOf root)

/-! ### Values of birth -/

/-- The default of an attribute, where the payload has nothing or a null under its name. -/
def applyDefault (payload : JsonMap) (attr : AttributeDescriptor) : JsonMap :=
  match attr.defaultValue with
  | some default =>
    if (attr.attrType = .enum ∨ attr.attrType = .string) ∧
        (payload.lookup attr.name).all JsonValue.isNull = true then
      payload.insert attr.name (.string default)
    else payload
  | none => payload

def applyDeclaredDefaults (model : EntityModel) (payload : JsonMap) : JsonMap :=
  model.attributes.foldl applyDefault payload

/-! ### Types -/

/-- `f as f32`, the bits of the nearest single, the even one of two that are as near. -/
def toF32Bits (d : F64) : ℕ :=
  let sign := if d.bits.msb then 2 ^ 31 else 0
  let place : ℤ := (max d.exponent 1 : ℕ) - 1075
  -- a single has 24 bits, and no unit below 2 ^ (-149)
  let unit : ℤ := max (d.mantissa.log2 + place - 23) (-149)
  let size :=
    if unit ≤ place then d.mantissa * 2 ^ (place - unit).toNat
    else
      let cut := 2 ^ (unit - place).toNat
      let rest := d.mantissa % cut
      let up := cut < 2 * rest ∨ cut = 2 * rest ∧ (d.mantissa / cut) % 2 = 1
      d.mantissa / cut + if up then 1 else 0
  if d.isNaN then sign + 0x7FC00000
  else if d.mantissa = 0 then sign
  else sign + min ((unit + 149).toNat * 2 ^ 23 + size) 0x7F800000

/-- The three kinds of a single: 1, the smallest, and what is beyond the largest. -/
example : toF32Bits (F64.ofInt 1) = 0x3F800000 ∧ toF32Bits ⟨0x36A0000000000000⟩ = 1 ∧
    toF32Bits (F64.ofInt (-2 ^ 128)) = 0xFF800000 := by decide +kernel

def cod002 (detail : String) : DomainError := ⟨.cod002, detail⟩

/-- The texts of an array of texts. -/
def stringItems (message : String) (items : List JsonValue) : Except DomainError (List String) :=
  items.mapM fun item =>
    match item with
    | .string s => .ok s
    | _ => .error (cod002 message)

def singles (items : List JsonValue) : Except DomainError (List Byte) := do
  let parts ← items.mapM fun item =>
    match item with
    | .number n => .ok ((beBytes 4 (toF32Bits n.asF64)).reverse)
    | _ => .error (cod002 "Vector de Bytes en arreglo solo soporta elementos numéricos")
  return parts.flatten

def mapToDatomValue [Formats] (val : JsonValue) (attrType : AttrType) : Except DomainError DatomValue :=
  match attrType, val with
  | .string, .string s | .enum, .string s => .ok (.str s)
  | .string, _ | .enum, _ => .error (cod002 "Debe ser un texto (string)")
  | .number, .number n =>
    match n.asI64 with
    | some i => .ok (.long i)
    | none => .ok (.long ⟨n.asF64.toI64, F64.toI64_bounds _⟩)
  | .number, _ => .error (cod002 "Debe ser un número entero")
  | .decimal, .number n => .ok (.double n.asF64)
  | .decimal, _ => .error (cod002 "Debe ser un número decimal")
  | .epoch, .number n =>
    match n.asI64 with
    | some i => .ok (.instant i)
    | none => .error (cod002 "Debe ser un número entero (epoch ms)")
  | .epoch, .string s =>
    match Signed.parse 64 s with
    | some i => .ok (.instant i)
    | none => .error (cod002 "Epoch debe ser un entero válido")
  | .epoch, _ => .error (cod002 "Debe ser un número entero (epoch ms)")
  | .boolean, .bool b => .ok (.bool b)
  | .boolean, _ => .error (cod002 "Debe ser un booleano (true/false)")
  | .array, .array items => (stringItems "Array solo soporta elementos string" items).map .array
  | .array, _ => .error (cod002 "Debe ser un arreglo (array)")
  | .reference, .array items =>
    (stringItems "Referencia en array debe ser un string" items).map .array
  | .reference, .string s => .ok (.str s)
  | .reference, _ => .error (cod002 "Referencia debe ser un string o un arreglo de strings")
  | .uuid, .string s => .ok (.uuid s)
  | .uuid, _ => .error (cod002 "Debe ser un UUID válido")
  | .bytes, .string s =>
    match Formats.base64Decode s with
    | some blob => .ok (.bytes blob)
    | none => .error (cod002 "Bytes desde string debe estar codificado en Base64 válido")
  | .bytes, .array items => (singles items).map .bytes
  | .bytes, _ => .error (cod002 "Bytes debe ser una cadena Base64 o un arreglo numérico de floats")
  | .json, val => .ok (.str (Formats.jsonText val))
  | .unknown u, _ => .error (cod002 ("Tipo desconocido en esquema: " ++ u))

/-- The types of value that a payload can hold. -/
def typedValues : List ValueType :=
  [.boolean, .long, .double, .string, .uuid, .array, .bytes, .instant]

theorem mapToDatomValue_valueType [Formats] {val : JsonValue} {attrType : AttrType} {v : DatomValue}
    (h : mapToDatomValue val attrType = .ok v) : v.valueType ∈ typedValues := by
  have hlist {α : Type} {f : α → DatomValue} (hf : ∀ a, (f a).valueType ∈ typedValues)
      {r : Except DomainError α} (hr : r.map f = .ok v) : v.valueType ∈ typedValues := by
    cases r with
    | error e => cases hr
    | ok a =>
      cases hr
      exact hf a
  unfold mapToDatomValue at h
  split at h
  all_goals first
    | exact hlist (fun _ => by simp only [DatomValue.valueType]; decide) h
    | (cases h <;> (simp only [DatomValue.valueType]; decide))
    | (split at h <;> cases h <;> (simp only [DatomValue.valueType]; decide))

/-- No type gives a null. -/
theorem mapToDatomValue_ne_null [Formats] {val : JsonValue} {attrType : AttrType} {v : DatomValue}
    (h : mapToDatomValue val attrType = .ok v) : v ≠ .null := by
  rintro rfl
  exact absurd (mapToDatomValue_valueType h) (by decide)

/-! ### Checks -/

section Checks
variable [Formats]

/-- A closed catalogue of texts. -/
def enumViolations (desc : AttributeDescriptor) (val : JsonValue) : List String :=
  match val with
  | .string s =>
    if desc.attrType = .enum ∧ desc.options ≠ [] ∧ s ∉ desc.options ∧ desc.enumOpen = false then
      ["Campo '" ++ desc.name ++ "': Valor '" ++ s ++ "' no permitido para enum. Opciones válidas: " ++
        ", ".intercalate desc.options]
    else []
  | _ => []

/-- A pattern that is none is not checked. -/
def regexViolations (desc : AttributeDescriptor) (val : JsonValue) : List String :=
  match desc.validationRegex, val with
  | some pattern, .string s =>
    if Formats.regexIsMatch pattern s = some false then
      ["Campo '" ++ desc.name ++ "': Valor '" ++ s ++ "' no cumple con el patrón requerido: " ++ pattern]
    else []
  | _, _ => []

/-- The value of one attribute and what is wrong with it. A null takes the attribute back. -/
def checkAttr (payload : JsonMap) (isCreate : Bool) (desc : AttributeDescriptor) :
    Option DatomValue × List String :=
  match payload.lookup desc.name with
  | some .null =>
    if desc.required then (none, ["Campo requerido '" ++ desc.name ++ "' no puede ser nulo"])
    else (some .null, [])
  | some val =>
    let found := enumViolations desc val ++ regexViolations desc val
    match mapToDatomValue val desc.attrType with
    | .ok v => (some v, found)
    | .error e => (none, found ++ ["Campo '" ++ desc.name ++ "': " ++ e.detail])
  | none =>
    if isCreate = true ∧ desc.required = true ∧ desc.autoGenerateFrom = [] then
      (none, ["Campo requerido '" ++ desc.name ++ "' está ausente"])
    else (none, [])

def validatePayload (model : EntityModel) (payload : JsonMap) (isCreate : Bool) :
    Except DomainError EntityMap :=
  let violations := model.attributes.flatMap fun desc => (checkAttr payload isCreate desc).2
  if violations = [] then
    .ok ((∅ : EntityMap).insertList (model.attributes.filterMap fun desc =>
      (checkAttr payload isCreate desc).1.map fun v => (desc.name, v)))
  else .error ⟨.cod001, "Violaciones de validación: " ++ " | ".intercalate violations⟩

/-- A validated value is a null just where the payload has one. -/
theorem validated_value {model : EntityModel} {payload : JsonMap} {isCreate : Bool} {attrs : EntityMap}
    (h : validatePayload model payload isCreate = .ok attrs) {name : String} {v : DatomValue}
    (hget : attrs.lookup name = some v) :
    ∃ val, payload.lookup name = some val ∧ (v = .null ↔ val.isNull = true) := by
  unfold validatePayload at h
  dsimp only at h
  split_ifs at h
  cases h
  have hmem := OrdMap.mem_of_lookup_insertList hget
  rw [OrdMap.lookup_empty] at hmem
  obtain ⟨desc, _, hdesc⟩ := List.mem_filterMap.mp (hmem.resolve_right (by simp))
  obtain ⟨u, hu, he⟩ := Option.map_eq_some_iff.mp hdesc
  cases he
  unfold checkAttr at hu
  split at hu
  · rename_i hval
    split_ifs at hu
    cases hu
    exact ⟨_, hval, by simp [JsonValue.isNull]⟩
  · rename_i val hnull hval
    dsimp only at hu
    refine ⟨val, hval, ?_⟩
    have hvalue : val.isNull = false := by
      cases val with
      | null => exact absurd rfl hnull
      | _ => rfl
    split at hu
    · rename_i v' hv'
      cases hu
      simp [hvalue, mapToDatomValue_ne_null hv']
    · cases hu
  · split_ifs at hu

def notAnObject (model : EntityModel) : DomainError :=
  ⟨.cod001, "Payload para '" ++ model.entity ++ "' no es un objeto JSON válido"⟩

end Checks
end MetriEngine.Codice

import MetriEngine.Eav.Json

/-!
# Filters over rows

The tree of conditions that a request carries, and its evaluation on a row of JSON: what a
query keeps of the rows that its plan gave.
-/
namespace MetriEngine.Aegis
open Foundation Storage Eav

/-! ### Requests -/

inductive FilterOperator
  | unspecified
  | eq
  | neq
  | gt
  | gte
  | lt
  | lte
  | isIn
  | notIn
  | between
  | like
  | isNull
  | isNotNull
  | isMatch
  | contains
deriving DecidableEq

/-- The scalar members of a filter value. -/
structure ScalarValue where
  stringVal : Option String := none
  numberVal : F64 := ⟨0⟩
  boolVal : Bool := false
  timestampVal : Signed 64 := ⟨0, Signed.zero_bounds⟩
deriving DecidableEq

structure FilterValue extends ScalarValue where
  listVal : Option (List String) := none
  rangeValues : Option (List ScalarValue) := none
deriving DecidableEq

structure FilterCriteria where
  field : Option String
  value : Option FilterValue
  opRef : FilterOperator
deriving DecidableEq

inductive Conjunction
  | unspecified
  | and
  | or
  | not
deriving DecidableEq

/-- A node with criteria is a leaf, whether or not it has a group. -/
inductive FilterNode
  | leaf (criteria : FilterCriteria)
  | group (conjunction : Conjunction) (nodes : List FilterNode)
  | blank

structure HierarchyContext where
  parentField : Option String
  currentNodeId : Option String
deriving DecidableEq

/-! ### Texts -/

/-- What the filters leave to libraries and to the fuzzy search: small letters, regular
expressions (none matches where the pattern is none), and the text of a JSON value. -/
class TextSearch where
  lowercase : String → String
  isRegexMatch : (pattern text : String) → Bool
  fuzzyMatch : (value term : String) → Bool
  printJson : JsonValue → String

/-- Texts in small letters, and no search. -/
@[reducible] def plainSearch : TextSearch := ⟨id, fun _ _ => false, fun _ _ => false, fun _ => ""⟩

def removeAccent (c : Char) : Char :=
  if c ∈ ['á', 'Á'] then 'a'
  else if c ∈ ['é', 'É'] then 'e'
  else if c ∈ ['í', 'Í'] then 'i'
  else if c ∈ ['ó', 'Ó'] then 'o'
  else if c ∈ ['ú', 'Ú', 'ü', 'Ü'] then 'u'
  else if c ∈ ['ñ', 'Ñ'] then 'n'
  else c

def removeAccents (s : String) : String := String.ofList (s.toList.map removeAccent)

/-- `str::replace` of one character. -/
def replaceChar (s : String) (c : Char) (part : String) : String :=
  String.join (s.toList.map fun d => if d = c then part else String.singleton d)

/-! ### Evaluation -/

/-- The value of a column: under its full name, under its bare name, or under the first
name that ends in the bare one. -/
def rowVal (row : JsonMap) (field : String) : Option JsonValue :=
  (row.lookup field).or <| (row.lookup (bareName field)).or <|
    (row.entries.find? fun e => bareName e.1 = bareName field).map Prod.snd

/-- The number of a filter value: its time where it has one. -/
def ScalarValue.asNumber (v : ScalarValue) : F64 :=
  if v.timestampVal.val ≠ 0 then F64.ofInt v.timestampVal.val else v.numberVal

def negInfinity : F64 := ⟨0xFFF0000000000000⟩
def infinity : F64 := ⟨0x7FF0000000000000⟩

def evalEq (v : Option JsonValue) (fv : Option FilterValue) : Bool :=
  match v, fv with
  | some (.string s), some fv => decide (fv.stringVal = some s)
  | some (.number n), some fv => n.asF64.eq fv.asNumber
  | some (.bool b), some fv => b == fv.boolVal
  | _, _ => false

/-- A comparison of numbers; `missing` stands for a value that is none. -/
def evalOrder (compare : F64 → F64 → Bool) (missing : F64) (v : Option JsonValue)
    (fv : Option FilterValue) : Bool :=
  compare ((v.bind JsonValue.asF64).getD missing) ((fv.map fun fv => fv.asNumber).getD (F64.ofNat false 0))

/-- The text of a value, empty where it is none. -/
def textOf (v : Option JsonValue) : String := (v.bind JsonValue.asStr).getD ""

/-- Whether the text of a value is in the list, or among the parts of the text; nothing
without either. -/
def memberOf (v : Option JsonValue) (fv : Option FilterValue) : Option Bool :=
  fv.bind fun fv =>
    match fv.listVal with
    | some values => some (values.any fun item => item = textOf v)
    | none => fv.stringVal.map fun list => (Text.split list ',').any fun item => Text.trim item = textOf v

def evalBetween (v : Option JsonValue) (fv : Option FilterValue) : Bool :=
  match fv.bind FilterValue.rangeValues with
  | some (lo :: hi :: _) =>
    match v.bind JsonValue.asF64 with
    | some n => lo.asNumber.le n && n.le hi.asNumber
    | none =>
      textOf v ≠ "" && !decide (textOf v < lo.stringVal.getD "") && !decide (hi.stringVal.getD "" < textOf v)
  | _ => false

section Evaluation
variable [TextSearch]

/-- The form in which texts are compared where letters and accents do not matter. -/
def foldedText (s : String) : String := removeAccents (TextSearch.lowercase s)

def evalContains (v : Option JsonValue) (fv : Option FilterValue) : Bool :=
  let pattern := foldedText ((fv.bind fun fv => fv.stringVal).getD "")
  if pattern = "" then false
  else
    match v with
    | some (.string s) => Text.contains (foldedText s) pattern
    | some (.array items) => items.any fun item =>
      match item with
      | .string s => Text.contains (foldedText s) pattern
      | other => Text.contains (foldedText (TextSearch.printJson other)) pattern
    | _ => false

def evalLike (v : Option JsonValue) (fv : Option FilterValue) : Bool :=
  let pattern := foldedText ((fv.bind fun fv => fv.stringVal).getD "")
  TextSearch.isRegexMatch ("^" ++ replaceChar (replaceChar pattern '%' ".*") '_' "." ++ "$")
    (foldedText (textOf v))

def evalCriteria (row : JsonMap) (crit : FilterCriteria) : Bool :=
  let v := rowVal row (crit.field.getD "")
  match crit.opRef with
  | .eq => evalEq v crit.value
  | .neq => !evalEq v crit.value
  | .gt => evalOrder (fun a b => b.lt a) negInfinity v crit.value
  | .gte => evalOrder (fun a b => b.le a) negInfinity v crit.value
  | .lt => evalOrder F64.lt infinity v crit.value
  | .lte => evalOrder F64.le infinity v crit.value
  | .isNull => (v.map JsonValue.isNull).getD true
  | .isNotNull => (v.map fun v => !v.isNull).getD false
  | .contains => evalContains v crit.value
  | .like => evalLike v crit.value
  | .isIn => (memberOf v crit.value).getD false
  | .notIn => !(memberOf v crit.value).getD false
  | .between => evalBetween v crit.value
  | .isMatch => TextSearch.fuzzyMatch (textOf v) ((crit.value.bind fun fv => fv.stringVal).getD "")
  | .unspecified => true

mutual

def evalFilterNode (row : JsonMap) : FilterNode → Bool
  | .leaf crit => evalCriteria row crit
  | .group .and nodes => evalAll row nodes
  | .group .or nodes => nodes.isEmpty || evalAny row nodes
  | .group _ _ => true
  | .blank => true

def evalAll (row : JsonMap) : List FilterNode → Bool
  | [] => true
  | node :: rest => evalFilterNode row node && evalAll row rest

def evalAny (row : JsonMap) : List FilterNode → Bool
  | [] => false
  | node :: rest => evalFilterNode row node || evalAny row rest

end

theorem evalAll_iff {row : JsonMap} {nodes : List FilterNode} :
    evalAll row nodes = true ↔ ∀ node ∈ nodes, evalFilterNode row node = true := by
  induction nodes with
  | nil => simp [evalAll]
  | cons node rest ih => simp [evalAll, ih]

/-- The fields that every query resolves by other means. -/
def infrastructureFields : List String := ["tenant/id", "entity/type", "entity/ulid", "id"]

/-- The filters that rows are tried against. -/
def businessFilters (filters : List FilterNode) : List FilterNode :=
  filters.filter fun f =>
    match f with
    | .leaf crit => crit.field.getD "" ∉ infrastructureFields
    | _ => true

/-! ### Rows that pass -/

/-- Whether a row hangs below the node that the hierarchy shows. -/
def passesHierarchy (row : JsonMap) (hierarchy : Option HierarchyContext) (search : Option String) :
    Bool :=
  match hierarchy.bind fun h => h.parentField.map (h, ·) with
  | none => true
  | some (h, pf) =>
    let val := (row.lookup pf).or (row.lookup (bareName pf))
    let nodeId := h.currentNodeId.getD ""
    let hasSearch := search.any fun term => term ≠ ""
    if nodeId = "__none__" ∨ nodeId = "" then
      hasSearch ||
        match val with
        | none => true
        | some v => v.isNull || v.asStr = some "" || v.asStr = some "null"
    else textOf val = nodeId

/-- The texts of the search fields of a row that has them. -/
def searchTexts (row : JsonMap) (ftsFields : List String) : List String :=
  ftsFields.filterMap fun f => ((row.lookup f).or (row.lookup (bareName f))).bind JsonValue.asStr

def passesSearch (registry : CodeRegistry) (row : JsonMap) (search : Option String)
    (entity : String) : Bool :=
  match search.filter fun term => term ≠ "" with
  | none => true
  | some term =>
    let ftsFields := ((registry.getModel entity).map EntityModel.ftsFields).getD []
    if ftsFields ≠ [] then
      let texts := searchTexts row ftsFields
      let combined := " ".intercalate (texts.filter fun s => s ≠ "")
      texts.any (TextSearch.fuzzyMatch · term) ||
        (combined ≠ "" && TextSearch.fuzzyMatch combined term)
    else (row.entries.filterMap fun e => e.2.asStr).any (TextSearch.fuzzyMatch · term)

def rowPassesFilters (registry : CodeRegistry) (filters : List FilterNode)
    (hierarchy : Option HierarchyContext) (search entity : Option String) (row : JsonMap) : Bool :=
  let rowType := textOf (row.lookup "entity/type")
  let targetEntity := entity.getD ""
  if targetEntity ≠ "" ∧ rowType ≠ targetEntity then false
  else
    (businessFilters filters).all (evalFilterNode row) && passesHierarchy row hierarchy search &&
      passesSearch registry row search targetEntity

end Evaluation
end MetriEngine.Aegis

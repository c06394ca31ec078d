import MetriEngine.Janus.Abac

/-!
# Filters as expressions

The filters of a request in JSON are compiled into nested arrays that start with their operators.
An expression says of a row what its filters say where no group has a child that cannot be
compiled, or is a disjunction of nothing, or a negation of more than its first child, and where
every range has two bounds.
-/
namespace MetriEngine.Janus
open Foundation Storage Eav

/-! ### Reading a node -/

/-- A node with criteria is a leaf, whether or not it has a group. -/
inductive FilterTree
  | criteria (json : JsonValue)
  | group (conj : String) (nodes : List FilterTree)
  | blank

theorem sizeOf_of_member {v w : JsonValue} {key : String} (h : member v key = some w) :
    sizeOf w < sizeOf v := by
  rw [member] at h
  cases v with
  | object entries =>
    rcases OrdMap.mem_of_lookup_insertList h with hmem | hmem
    · have hentry := List.sizeOf_lt_of_mem hmem
      rw [Prod.mk.sizeOf_spec] at hentry
      rw [JsonValue.object.sizeOf_spec]
      omega
    · simp at hmem
  | _ => cases h

theorem sizeOf_of_asArray {v w : JsonValue} {items : List JsonValue} (h : asArray v = some items)
    (hw : w ∈ items) : sizeOf w < sizeOf v := by
  cases v with
  | array _ =>
    cases h
    have hitem := List.sizeOf_lt_of_mem hw
    rw [JsonValue.array.sizeOf_spec]
    omega
  | _ => cases h

def conjunctionOf (group : JsonValue) : String :=
  ((member group "conjunction").bind JsonValue.asStr).getD "AND"

theorem sizeOf_lt_of_nodes {node group child : JsonValue} {children : List JsonValue}
    (hgroup : member node "group" = some group)
    (hnodes : (member group "nodes").bind asArray = some children) (hchild : child ∈ children) :
    sizeOf child < sizeOf node := by
  obtain ⟨nodes, hmember, harray⟩ := Option.bind_eq_some_iff.mp hnodes
  calc sizeOf child < sizeOf nodes := sizeOf_of_asArray harray hchild
    _ < sizeOf group := sizeOf_of_member hmember
    _ < sizeOf node := sizeOf_of_member hgroup

def readTree (node : JsonValue) : FilterTree :=
  match member node "criteria" with
  | some criteria => .criteria criteria
  | none =>
    match hgroup : member node "group" with
    | none => .blank
    | some group =>
      match hnodes : (member group "nodes").bind asArray with
      | none => .group (conjunctionOf group) []
      | some children =>
        .group (conjunctionOf group) (children.attach.map fun child =>
          have := sizeOf_lt_of_nodes hgroup hnodes child.property
          readTree child.val)
termination_by sizeOf node

/-! ### Leaves -/

def oltpSystemFieldMap (field : String) : Option String :=
  if field = "created_at" ∨ field = "createdAt" then some "meta/created_at"
  else if field = "updated_at" ∨ field = "updatedAt" then some "meta/updated_at"
  else none

def extractVal (valMap : JsonValue) : Option JsonValue :=
  (member valMap "string_val").or <| (member valMap "number_val").or <|
    (member valMap "bool_val").or <| (member valMap "timestamp_val").or <| member valMap "list_val"

def opRef (criteria : JsonValue) : String :=
  ((member criteria "op_ref").bind JsonValue.asStr).getD "EQ"

def fieldOf (entity : String) (criteria : JsonValue) : String :=
  let fieldName := ((member criteria "field").bind JsonValue.asStr).getD ""
  (oltpSystemFieldMap fieldName).getD (entity ++ "/" ++ fieldName)

def valMapOf (criteria : JsonValue) : JsonValue := (member criteria "value").getD (.object [])

def valueOf (criteria : JsonValue) : JsonValue := (extractVal (valMapOf criteria)).getD .null

def listVals (criteria : JsonValue) : JsonValue :=
  ((member (valMapOf criteria) "list_val").bind (member · "values")).getD (.array [])

def rangeVals (criteria : JsonValue) : JsonValue :=
  ((member (valMapOf criteria) "range_values").bind (member · "values")).getD (.array [])

def boundOf (v : JsonValue) : JsonValue := (extractVal v).getD .null

/-- The expression that every row passes. -/
def noOpNode : JsonValue := .array [.string "=", .string "1", .string "1"]

def buildLeafNode (entity : String) (criteria : JsonValue) : Except DomainError JsonValue :=
  let op := opRef criteria
  let field := fieldOf entity criteria
  let val := valueOf criteria
  match op with
  | "EQ" => .ok (.array [.string "=", .string field, val])
  | "NEQ" => .ok (.array [.string "not=", .string field, val])
  | "GT" => .ok (.array [.string ">", .string field, val])
  | "GTE" => .ok (.array [.string ">=", .string field, val])
  | "LT" => .ok (.array [.string "<", .string field, val])
  | "LTE" => .ok (.array [.string "<=", .string field, val])
  | "IN" => .ok (.array [.string "in", .string field, listVals criteria])
  | "NOT_IN" => .ok (.array [.string "not-in", .string field, listVals criteria])
  | "LIKE" => .ok (.array [.string "like", .string field, val])
  | "CONTAINS" => .ok (.array [.string "contains", .string field, val])
  | "IS_NULL" => .ok (.array [.string "is-null", .string field])
  | "IS_NOT_NULL" => .ok (.array [.string "is-not-null", .string field])
  | "BETWEEN" =>
    match asArray (rangeVals criteria) with
    | some (lo :: hi :: _) =>
      .ok (.array [.string "between", .string field, .array [boundOf lo, boundOf hi]])
    | _ => .ok noOpNode
  | "MATCHES" => .ok (.array [.string "matches", .string field,
      (member (valMapOf criteria) "string_val").getD .null])
  | op => .error ⟨.janus400, s!"Unknown operator: {op}"⟩

def isUnspecified (val : String) : Bool := Text.endsWith val "_UNSPECIFIED"

def checkNotUnspecified (val label : String) : Except DomainError Unit :=
  if isUnspecified val then .error ⟨.janus400, s!"Unspecified enum in {label}"⟩ else .ok ()

def compileCriteria (entity : String) (criteria : JsonValue) : Except DomainError JsonValue := do
  checkNotUnspecified (opRef criteria) "filter operator"
  buildLeafNode entity criteria

/-! ### Groups -/

/-- A negation takes the first of its nodes. -/
def groupNode (conj : String) : List JsonValue → JsonValue
  | [] => noOpNode
  | first :: rest =>
    if conj = "NOT" then .array [.string "not", first]
    else .array (.string (if conj = "OR" then "or" else "and") :: first :: rest)

mutual

def compileNode (entity : String) : FilterTree → Except DomainError JsonValue
  | .criteria c => compileCriteria entity c
  | .group conj nodes => do
    checkNotUnspecified conj "conjunction"
    return groupNode conj (compileNodes entity nodes)
  | .blank => .ok noOpNode

/-- The nodes of a group; those that fail are left out. -/
def compileNodes (entity : String) : List FilterTree → List JsonValue
  | [] => []
  | child :: rest =>
    match compileNode entity child with
    | .ok node => node :: compileNodes entity rest
    | .error _ => compileNodes entity rest

end

def compileFilters (filters : List JsonValue) (entity : String) : Except DomainError (List JsonValue) :=
  filters.mapM fun filter => compileNode entity (readTree filter)

/-! ### What rows pass -/

inductive Comparison
  | eq
  | neq
  | gt
  | gte
  | lt
  | lte
  | isIn
  | notIn
  | like
  | contains
  | isNull
  | isNotNull
  | isMatch
deriving DecidableEq

/-- How a row compares in a column with an operand. -/
abbrev RowTest := Comparison → String → JsonValue → Bool

/-- The comparisons by their names in expressions. -/
def whereOperator : String → Option Comparison
  | "=" => some .eq
  | "not=" => some .neq
  | ">" => some .gt
  | ">=" => some .gte
  | "<" => some .lt
  | "<=" => some .lte
  | "in" => some .isIn
  | "not-in" => some .notIn
  | "like" => some .like
  | "contains" => some .contains
  | "is-null" => some .isNull
  | "is-not-null" => some .isNotNull
  | "matches" => some .isMatch
  | _ => none

/-- The comparisons by their names in criteria. -/
def operatorOf : String → Option Comparison
  | "EQ" => some .eq
  | "NEQ" => some .neq
  | "GT" => some .gt
  | "GTE" => some .gte
  | "LT" => some .lt
  | "LTE" => some .lte
  | "IN" => some .isIn
  | "NOT_IN" => some .notIn
  | "LIKE" => some .like
  | "CONTAINS" => some .contains
  | "IS_NULL" => some .isNull
  | "IS_NOT_NULL" => some .isNotNull
  | "MATCHES" => some .isMatch
  | _ => none

/-- Both bounds of a range hold, and one comparison otherwise. -/
def leafHolds (test : RowTest) (op : String) : List JsonValue → Bool
  | .string field :: operands =>
    if op = "between" then
      match operands with
      | [.array (lo :: hi :: _)] => test .gte field lo && test .lte field hi
      | _ => false
    else if op = "=" ∧ field = "1" then true
    else (whereOperator op).any fun c => test c field (operands.headD .null)
  | _ => false

mutual

/-- An expression is true of a row. -/
def holds (test : RowTest) : JsonValue → Bool
  | .array (.string op :: args) =>
    if op = "and" then holdAll test args
    else if op = "or" then holdAny test args
    else if op = "not" then !holdsFirst test args
    else leafHolds test op args
  | _ => false

def holdAll (test : RowTest) : List JsonValue → Bool
  | [] => true
  | node :: rest => holds test node && holdAll test rest

def holdAny (test : RowTest) : List JsonValue → Bool
  | [] => false
  | node :: rest => holds test node || holdAny test rest

def holdsFirst (test : RowTest) : List JsonValue → Bool
  | [] => true
  | node :: _ => holds test node

end

def operandOf (criteria : JsonValue) : Comparison → JsonValue
  | .isIn => listVals criteria
  | .notIn => listVals criteria
  | .isNull => .null
  | .isNotNull => .null
  | .isMatch => (member (valMapOf criteria) "string_val").getD .null
  | _ => valueOf criteria

/-- A range without two bounds has no row in it. -/
def criteriaPass (test : RowTest) (entity : String) (criteria : JsonValue) : Bool :=
  if opRef criteria = "BETWEEN" then
    match asArray (rangeVals criteria) with
    | some (lo :: hi :: _) =>
      test .gte (fieldOf entity criteria) (boundOf lo) &&
        test .lte (fieldOf entity criteria) (boundOf hi)
    | _ => false
  else
    (operatorOf (opRef criteria)).any fun c =>
      test c (fieldOf entity criteria) (operandOf criteria c)

mutual

/-- A row passes a filter: all children of a conjunction, one of a disjunction, and of a negation
not all. -/
def passes (test : RowTest) (entity : String) : FilterTree → Bool
  | .criteria c => criteriaPass test entity c
  | .group conj nodes =>
    if conj = "OR" then passAny test entity nodes
    else if conj = "NOT" then !passAll test entity nodes
    else passAll test entity nodes
  | .blank => true

def passAll (test : RowTest) (entity : String) : List FilterTree → Bool
  | [] => true
  | node :: rest => passes test entity node && passAll test entity rest

def passAny (test : RowTest) (entity : String) : List FilterTree → Bool
  | [] => false
  | node :: rest => passes test entity node || passAny test entity rest

end

/-! ### What becomes of the children -/

@[induction_eliminator]
theorem FilterTree.inductOn {P : FilterTree → Prop} (criteria : ∀ c, P (.criteria c))
    (group : ∀ conj nodes, (∀ node ∈ nodes, P node) → P (.group conj nodes)) (blank : P .blank) :
    ∀ t, P t
  | .criteria c => criteria c
  | .group conj nodes => group conj nodes fun node _ => inductOn criteria group blank node
  | .blank => blank

/-- A filter lies in another, at any depth. -/
inductive Within : FilterTree → FilterTree → Prop
  | self (t : FilterTree) : Within t t
  | child {n t : FilterTree} {conj : String} {nodes : List FilterTree} (hmem : t ∈ nodes)
      (h : Within n t) : Within n (.group conj nodes)

/-- A filter has no meaning by itself: its operator is unknown or left open. -/
def FilterTree.RejectedAlone : FilterTree → Prop
  | .criteria c => opRef c ≠ "BETWEEN" ∧ operatorOf (opRef c) = none
  | .group conj _ => isUnspecified conj = true
  | .blank => False

theorem fieldOf_ne (entity : String) (criteria : JsonValue) : fieldOf entity criteria ≠ "1" := by
  intro h
  have hslash : '/' ∈ (fieldOf entity criteria).toList := by
    simp only [fieldOf, oltpSystemFieldMap]
    split_ifs <;> simp
  rw [h] at hslash
  exact absurd hslash (by decide)

/-- What the operators with one comparison become. -/
theorem compileCriteria_of_operatorOf {criteria : JsonValue} {c : Comparison} (entity : String)
    (h : operatorOf (opRef criteria) = some c) :
    ∃ op operands,
      compileCriteria entity criteria =
        .ok (.array (.string op :: .string (fieldOf entity criteria) :: operands)) ∧
      whereOperator op = some c ∧ op ∉ ["and", "or", "not", "between"] ∧
      operands.headD .null = operandOf criteria c := by
  unfold operatorOf at h
  split at h <;> rename_i hop <;> cases h <;>
    (simp only [compileCriteria, checkNotUnspecified, buildLeafNode, hop]
     exact ⟨_, _, rfl, rfl, by decide, rfl⟩)

theorem compileCriteria_of_between {criteria : JsonValue} (entity : String)
    (h : opRef criteria = "BETWEEN") :
    compileCriteria entity criteria =
      match asArray (rangeVals criteria) with
      | some (lo :: hi :: _) =>
        .ok (.array [.string "between", .string (fieldOf entity criteria),
          .array [boundOf lo, boundOf hi]])
      | _ => .ok noOpNode := by
  simp only [compileCriteria, checkNotUnspecified, buildLeafNode, h]
  rfl

theorem compileCriteria_of_rejected {criteria : JsonValue} (entity : String)
    (h : FilterTree.RejectedAlone (.criteria criteria)) :
    (compileCriteria entity criteria).toOption = none := by
  obtain ⟨hbetween, hop⟩ := h
  unfold compileCriteria checkNotUnspecified
  split_ifs
  · rfl
  · change (buildLeafNode entity criteria).toOption = none
    generalize hop' : opRef criteria = op at hop hbetween
    unfold buildLeafNode operatorOf at *
    rw [hop']
    dsimp only
    split at hop <;> cases hop
    split <;> first | rfl | contradiction

/-- A leaf is compiled unless it is rejected. -/
theorem compileCriteria_eq_none_iff (entity : String) (criteria : JsonValue) :
    (compileCriteria entity criteria).toOption = none ↔
      FilterTree.RejectedAlone (.criteria criteria) := by
  refine ⟨fun h => ?_, compileCriteria_of_rejected entity⟩
  constructor
  · intro hbetween
    rw [compileCriteria_of_between entity hbetween] at h
    split at h <;> cases h
  · by_contra hop
    obtain ⟨c, hc⟩ := Option.ne_none_iff_exists'.mp hop
    obtain ⟨op, operands, hcompile, _⟩ := compileCriteria_of_operatorOf entity hc
    rw [hcompile] at h
    cases h

/-- A range has two bounds. -/
def RangeComplete (criteria : JsonValue) : Prop :=
  opRef criteria = "BETWEEN" → 2 ≤ ((asArray (rangeVals criteria)).getD []).length

/-- A leaf says what its criteria say where a range has two bounds, and only there. -/
theorem holds_compileCriteria_iff {test : RowTest} {entity : String} {criteria e : JsonValue}
    (h : compileCriteria entity criteria = .ok e) :
    holds test e = criteriaPass test entity criteria ↔ RangeComplete criteria := by
  by_cases hbetween : opRef criteria = "BETWEEN"
  · rw [compileCriteria_of_between entity hbetween] at h
    rw [criteriaPass, if_pos hbetween, RangeComplete]
    split at h
    next lo hi rest hrange =>
      cases h
      simp [holds, leafHolds, hrange]
    next hshort =>
      cases h
      have hlen : ¬ 2 ≤ ((asArray (rangeVals criteria)).getD []).length := by
        intro hlen
        cases hrange : asArray (rangeVals criteria) with
        | none => simp [hrange] at hlen
        | some l =>
          rw [hrange, Option.getD_some] at hlen
          match l, hlen with
          | lo :: hi :: rest, _ => exact hshort lo hi rest hrange
      simp [noOpNode, holds, leafHolds, hbetween, hlen]
  · rw [criteriaPass, if_neg hbetween]
    cases hop : operatorOf (opRef criteria) with
    | none =>
      have hnone := compileCriteria_of_rejected entity ⟨hbetween, hop⟩
      rw [h] at hnone
      cases hnone
    | some c =>
      obtain ⟨op, operands, hcompile, hwhere, hplain, hoperand⟩ :=
        compileCriteria_of_operatorOf entity hop
      rw [h] at hcompile
      cases hcompile
      simp only [List.mem_cons, List.not_mem_nil, or_false, not_or] at hplain
      obtain ⟨hand, hor, hnot, hrange⟩ := hplain
      simp [holds, leafHolds, hand, hor, hnot, hrange, fieldOf_ne, hwhere, ← hoperand,
        RangeComplete, hbetween]

/-! ### Trees -/

theorem compileNode_eq_none_iff (entity : String) (t : FilterTree) :
    (compileNode entity t).toOption = none ↔ t.RejectedAlone := by
  cases t with
  | criteria c => exact compileCriteria_eq_none_iff entity c
  | group conj nodes =>
    rw [compileNode, checkNotUnspecified, FilterTree.RejectedAlone]
    split_ifs with hconj <;> simp [hconj, Except.toOption, bind, Except.bind, pure, Except.pure]
  | blank => simp [compileNode, FilterTree.RejectedAlone, Except.toOption]

theorem exists_compileNode {t : FilterTree} (entity : String) (h : ¬ t.RejectedAlone) :
    ∃ e, compileNode entity t = .ok e := by
  cases hcompile : compileNode entity t with
  | error err => exact absurd ((compileNode_eq_none_iff entity t).mp (by rw [hcompile]; rfl)) h
  | ok e => exact ⟨e, rfl⟩

theorem compileNode_group (entity : String) {conj : String} (nodes : List FilterTree)
    (h : isUnspecified conj = false) :
    compileNode entity (.group conj nodes) = .ok (groupNode conj (compileNodes entity nodes)) := by
  rw [compileNode, checkNotUnspecified, if_neg (Bool.eq_false_iff.mp h)]
  rfl

section Rows
variable (test : RowTest) (entity : String)

/-- The expression of a filter is true of a row where the row passes the filter. -/
def SameRows (t : FilterTree) (e : JsonValue) : Prop := holds test e = passes test entity t

theorem compileNodes_sameRows {nodes : List FilterTree} (hnodes : ∀ n ∈ nodes, ¬ n.RejectedAlone)
    (h : ∀ n ∈ nodes, ∀ e, compileNode entity n = .ok e → SameRows test entity n e) :
    List.Forall₂ (SameRows test entity) nodes (compileNodes entity nodes) := by
  induction nodes with
  | nil => exact .nil
  | cons n rest ih =>
    obtain ⟨e, he⟩ := exists_compileNode entity (hnodes n List.mem_cons_self)
    rw [compileNodes, he]
    exact .cons (h n List.mem_cons_self e he)
      (ih (fun m hm => hnodes m (List.mem_cons_of_mem _ hm)) fun m hm =>
        h m (List.mem_cons_of_mem _ hm))

variable {test entity} {nodes : List FilterTree} {es : List JsonValue}

theorem holdAll_eq (h : List.Forall₂ (SameRows test entity) nodes es) :
    holdAll test es = passAll test entity nodes := by
  induction h with
  | nil => rfl
  | cons hhead htail ih => rw [holdAll, passAll, hhead, ih]

theorem holdAny_eq (h : List.Forall₂ (SameRows test entity) nodes es) :
    holdAny test es = passAny test entity nodes := by
  induction h with
  | nil => rfl
  | cons hhead htail ih => rw [holdAny, passAny, hhead, ih]

end Rows

/-! ### The property -/

section Property
variable (test : RowTest) (entity : String)

/-- A filter with a part that is rejected alone is rejected, and one that is compiled is true of
the row where the row passes it. -/
structure MeaningKept (t : FilterTree) : Prop where
  rejected : ∀ n, Within n t → n.RejectedAlone → (compileNode entity t).toOption = none
  sameRows : ∀ e, compileNode entity t = .ok e → holds test e = passes test entity t

/-- A range has both bounds; a group loses no child, a disjunction has one, and a negation has
one whose truth entails that of the others. -/
def Expressible : FilterTree → Prop
  | .criteria c => RangeComplete c
  | .group conj nodes => isUnspecified conj = false →
      (∀ n ∈ nodes, ¬ n.RejectedAlone) ∧ (conj = "OR" → nodes ≠ []) ∧
      (conj = "NOT" → ∃ first rest, nodes = first :: rest ∧
        (passes test entity first = true → passAll test entity rest = true))
  | .blank => True

variable {test entity}

theorem groupNode_sameRows {conj : String} {nodes : List FilterTree} {es : List JsonValue}
    (h : List.Forall₂ (SameRows test entity) nodes es) :
    SameRows test entity (.group conj nodes) (groupNode conj es) ↔
      (conj = "OR" → nodes ≠ []) ∧
      (conj = "NOT" → ∃ first rest, nodes = first :: rest ∧
        (passes test entity first = true → passAll test entity rest = true)) := by
  have hall := holdAll_eq h
  have hany := holdAny_eq h
  cases h with
  | nil =>
    by_cases hor : conj = "OR"
    · simp [SameRows, groupNode, noOpNode, holds, leafHolds, passes, passAny, hor]
    · by_cases hnot : conj = "NOT" <;>
        simp [SameRows, groupNode, noOpNode, holds, leafHolds, passes, passAll, hor, hnot]
  | @cons first e rest es hfirst htail =>
    by_cases hor : conj = "OR"
    · simp [SameRows, groupNode, holds, passes, hor, hany]
    · by_cases hnot : conj = "NOT"
      · rw [SameRows] at hfirst
        cases hpass : passes test entity first <;>
          simp [SameRows, groupNode, holds, holdsFirst, passes, passAll, hnot, hfirst, hpass]
      · simp [SameRows, groupNode, holds, passes, hor, hnot, hall]

theorem MeaningKept.of_expressible {t : FilterTree}
    (h : ∀ n, Within n t → Expressible test entity n) : MeaningKept test entity t := by
  induction t with
  | criteria c =>
    constructor
    · intro n hn hrejected
      cases hn
      exact (compileNode_eq_none_iff entity _).mpr hrejected
    · intro e he
      rw [compileNode] at he
      exact (holds_compileCriteria_iff he).mpr (h _ (.self _))
  | group conj nodes ih =>
    cases hconj : isUnspecified conj with
    | true =>
      have hnone := (compileNode_eq_none_iff entity (.group conj nodes)).mpr hconj
      refine ⟨fun _ _ _ => hnone, fun e he => ?_⟩
      rw [he] at hnone
      cases hnone
    | false =>
      obtain ⟨hnodes, hshape⟩ := h _ (.self _) hconj
      have hkept (n : FilterTree) (hn : n ∈ nodes) : MeaningKept test entity n :=
        ih n hn fun m hm => h m (.child hn hm)
      constructor
      · intro n hn hrejected
        cases hn with
        | self => exact absurd hrejected (Bool.eq_false_iff.mp hconj)
        | child hmem hn =>
          have hnone := (hkept _ hmem).rejected n hn hrejected
          exact absurd ((compileNode_eq_none_iff entity _).mp hnone) (hnodes _ hmem)
      · intro e he
        rw [compileNode_group entity nodes hconj] at he
        cases he
        exact (groupNode_sameRows (compileNodes_sameRows test entity hnodes fun n hn =>
          (hkept n hn).sameRows)).mpr hshape
  | blank =>
    constructor
    · intro n hn hrejected
      cases hn
      exact hrejected.elim
    · intro e he
      cases he
      rfl

theorem Expressible.of_meaningKept {t : FilterTree}
    (h : ∀ n, Within n t → MeaningKept test entity n) : Expressible test entity t := by
  cases t with
  | criteria c =>
    by_cases hrejected : FilterTree.RejectedAlone (.criteria c)
    · exact fun hbetween => absurd hbetween hrejected.1
    · obtain ⟨e, he⟩ := exists_compileNode entity hrejected
      exact (holds_compileCriteria_iff he).mp ((h _ (.self _)).sameRows e he)
  | group conj nodes =>
    intro hconj
    have hnodes (n : FilterTree) (hn : n ∈ nodes) : ¬ n.RejectedAlone := by
      intro hrejected
      have hnone := (h _ (.self _)).rejected n (.child hn (.self n)) hrejected
      rw [compileNode_group entity nodes hconj] at hnone
      cases hnone
    refine ⟨hnodes, ?_⟩
    apply (groupNode_sameRows (compileNodes_sameRows test entity hnodes fun n hn =>
      (h n (.child hn (.self n))).sameRows)).mp
    exact (h _ (.self _)).sameRows _ (compileNode_group entity nodes hconj)
  | blank => trivial

theorem Within.trans {n t u : FilterTree} (h : Within n t) (h' : Within t u) : Within n u := by
  induction h' with
  | self => exact h
  | child hmem _ ih => exact .child hmem ih

/-- A filter and all of its parts keep their meaning on a row where each of them can be
expressed, and only there. -/
theorem meaningKept_iff (test : RowTest) (entity : String) (node : JsonValue) :
    (∀ t, Within t (readTree node) → MeaningKept test entity t) ↔
      ∀ t, Within t (readTree node) → Expressible test entity t := by
  constructor
  · intro h t ht
    exact .of_meaningKept fun n hn => h n (hn.trans ht)
  · intro h t ht
    exact .of_expressible fun n hn => h n (hn.trans ht)

end Property

/-! ### Two filters of a request -/

def textCriteria (field op value : String) : JsonValue :=
  .object [("criteria", .object [("field", .string field), ("op_ref", .string op),
    ("value", .object [("string_val", .string value)])])]

def groupOf (conj : String) (nodes : List JsonValue) : JsonValue :=
  .object [("group", .object [("conjunction", .string conj), ("nodes", .array nodes)])]

theorem readTree_textCriteria (field op value : String) :
    readTree (textCriteria field op value) = .criteria (.object [("field", .string field),
      ("op_ref", .string op), ("value", .object [("string_val", .string value)])]) := by
  rw [readTree]
  rfl

theorem readTree_groupOf (conj : String) (nodes : List JsonValue) :
    readTree (groupOf conj nodes) = .group conj (nodes.map readTree) := by
  have hcriteria : member (groupOf conj nodes) "criteria" = none := by
    simp [groupOf, member, JsonValue.asObject, OrdMap.insertList]
  have hgroup : member (groupOf conj nodes) "group" =
      some (.object [("conjunction", .string conj), ("nodes", .array nodes)]) := by
    simp [groupOf, member, JsonValue.asObject, OrdMap.insertList]
  have hconj : conjunctionOf (.object [("conjunction", .string conj), ("nodes", .array nodes)]) =
      conj := by
    simp [conjunctionOf, member, JsonValue.asObject, JsonValue.asStr, OrdMap.insertList]
  have hnodes : (member (.object [("conjunction", .string conj), ("nodes", .array nodes)])
      "nodes").bind asArray = some nodes := by
    simp [member, JsonValue.asObject, asArray, OrdMap.insertList]
  rw [readTree]
  split
  · next h =>
    rw [hcriteria] at h
    cases h
  split
  · next h =>
    rw [hgroup] at h
    cases h
  · next h =>
    rw [hgroup] at h
    cases h
    split
    · next h =>
      rw [hnodes] at h
      cases h
    · next h =>
      rw [hnodes] at h
      cases h
      rw [hconj]
      simp

/-- The open notes of everybody, and of a conjunction with an unknown operator. -/
def lostConjunct : JsonValue :=
  groupOf "AND" [textCriteria "status" "EQ" "open", textCriteria "owner" "EQUALS" "u1"]

/-- Not both open and internal. -/
def negatedPair : JsonValue :=
  groupOf "NOT" [textCriteria "status" "EQ" "open", textCriteria "kind" "EQ" "internal"]

/-- The row of an open note, which is public. -/
def openNote : RowTest := fun _ field v =>
  decide (field = "note/status" ∧ v = .string "open" ∨ field = "note/kind" ∧ v = .string "public")

/-- A child that cannot be compiled is left out, and a negation looks at its first child. -/
theorem lost_conjunct_and_negated_pair :
    ¬ MeaningKept openNote "note" (readTree lostConjunct) ∧
      ¬ MeaningKept openNote "note" (readTree negatedPair) := by
  constructor
  · intro h
    have hrejected := h.rejected (readTree (textCriteria "owner" "EQUALS" "u1"))
    rw [lostConjunct, readTree_groupOf] at hrejected
    have hnone := hrejected (.child (by simp) (.self _))
      (by rw [readTree_textCriteria]; exact ⟨by decide, by decide⟩)
    rw [compileNode_group "note" _ (by decide)] at hnone
    cases hnone
  · intro h
    have hsame := h.sameRows
    rw [negatedPair, readTree_groupOf] at hsame
    have hrow := hsame _ (compileNode_group "note" _ (by decide))
    rw [List.map_cons, List.map_cons, List.map_nil, readTree_textCriteria, readTree_textCriteria]
      at hrow
    revert hrow
    decide

end MetriEngine.Janus

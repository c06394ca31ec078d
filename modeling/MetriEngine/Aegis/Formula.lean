import Mathlib.Data.List.TakeWhile
import Mathlib.Data.String.Basic
import Mathlib.Tactic.Linarith

/-!
# Formulas

A formula is cut into tokens, the tokens are put into postfix order by a stack of operators,
and the postfix order is run on a stack of numbers. The numbers, their operations and the
functions are parameters.
-/
namespace MetriEngine.Aegis.Formula

/-! ### Tokens -/

inductive Operator where
  | add | sub | mul | div | mod | power | neg
deriving DecidableEq

namespace Operator

def precedence : Operator → ℕ
  | add | sub => 1
  | mul | div | mod => 2
  | power => 3
  | neg => 4

def isLeftAssociative (op : Operator) : Bool := !(op = neg || op = power)

/-- The top of the stack goes to the output before `op` is put on it. -/
def shouldPop (op top : Operator) : Bool :=
  (op.isLeftAssociative && op.precedence ≤ top.precedence) ||
    (!op.isLeftAssociative && op.precedence < top.precedence)

end Operator

inductive Token (V : Type) where
  | literal (val : V)
  | var (name : String)
  | operator (op : Operator)
  | function (name : String) (arity : ℕ)
  | parenOpen
  | parenClose
  | comma
deriving DecidableEq

inductive FormulaError where
  | unexpectedToken (position : ℕ) (found : String)
  | unbalancedParentheses (position : ℕ)
  | unknownFunction (name : String)
  | arityMismatch (function : String) (expected got : ℕ)
  | emptyFormula
  | mathDomainError (function detail : String)
  | formulaTooLong (length max : ℕ)
  | nestingTooDeep (depth max : ℕ)
  | tooManyTokens (count max : ℕ)
  | functionNestingTooDeep (depth max : ℕ)
deriving DecidableEq

/-- The numbers of the engine: what a text reads as, and the operations. -/
structure Arithmetic (V : Type) where
  parse : String → Option V
  nan : V
  isZero : V → Bool
  neg : V → V
  add : V → V → V
  sub : V → V → V
  mul : V → V → V
  div : V → V → V
  rem : V → V → V
  powf : V → V → V

structure FormulaFunction (V : Type) where
  /-- `none` for a function of any number of arguments. -/
  arity : Option ℕ
  evaluate : List V → Option V

/-- `to_uppercase` of an identifier, which has ASCII letters only. -/
def toUppercase (s : String) : String := String.ofList (s.toList.map Char.toUpper)

/-- The functions under their names in capitals. -/
structure FunctionRegistry (V : Type) where
  functions : String → Option (FormulaFunction V)

namespace FunctionRegistry
variable {V : Type}

def get (registry : FunctionRegistry V) (name : String) : Option (FormulaFunction V) :=
  registry.functions (toUppercase name)

def isRegistered (registry : FunctionRegistry V) (name : String) : Bool := (registry.get name).isSome

end FunctionRegistry

variable {V : Type}

/-! ### Lexer -/

/-- `char::is_whitespace` -/
def isWhitespace (c : Char) : Bool :=
  (0x09 ≤ c.toNat && c.toNat ≤ 0x0D) || (0x2000 ≤ c.toNat && c.toNat ≤ 0x200A) ||
    [0x20, 0x85, 0xA0, 0x1680, 0x2028, 0x2029, 0x202F, 0x205F, 0x3000].contains c.toNat

def isBlank (c : Char) : Bool := c = ' ' || c = '\t' || c = '\n' || c = '\r'

def scanNumber : Bool → List Char → List Char × List Char
  | _, [] => ([], [])
  | hasDot, c :: chars =>
    if c.isDigit then
      let (num, rest) := scanNumber hasDot chars
      (c :: num, rest)
    else if c = '.' && !hasDot then
      let (num, rest) := scanNumber true chars
      (c :: num, rest)
    else ([], c :: chars)

/-- A slash belongs to a name when a letter follows it. -/
def scanIdentifier : List Char → List Char × List Char
  | [] => ([], [])
  | c :: chars =>
    if c.isAlphanum || c = '_' || c = '-' || (c = '/' && chars.head?.any fun d => d.isAlpha || d = '_')
    then
      let (ident, rest) := scanIdentifier chars
      (c :: ident, rest)
    else ([], c :: chars)

/-- A minus is a sign at the front and after an operator, an open parenthesis or a comma. -/
def isUnary : Option (Token V) → Bool
  | none | some (.operator _) | some .parenOpen | some .comma => true
  | _ => false

/-- The token of one character, after another token. -/
def symbol (last : Option (Token V)) : Char → Option (Token V)
  | '+' => some (.operator .add)
  | '-' => some (.operator (if isUnary last then .neg else .sub))
  | '*' => some (.operator .mul)
  | '/' => some (.operator .div)
  | '%' => some (.operator .mod)
  | '^' => some (.operator .power)
  | '(' => some .parenOpen
  | ')' => some .parenClose
  | ',' => some .comma
  | _ => none

theorem scanNumber_length (hasDot : Bool) (chars : List Char) :
    (scanNumber hasDot chars).2.length ≤ chars.length := by
  induction chars generalizing hasDot with
  | nil => exact le_rfl
  | cons c chars ih =>
    have hsame := ih hasDot
    have hdot := ih true
    unfold scanNumber
    rw [List.length_cons]
    split_ifs
    · exact hsame.trans (Nat.le_succ _)
    · exact hdot.trans (Nat.le_succ _)
    · exact le_rfl

theorem scanIdentifier_length (chars : List Char) :
    (scanIdentifier chars).2.length ≤ chars.length := by
  induction chars with
  | nil => exact le_rfl
  | cons c chars ih =>
    unfold scanIdentifier
    rw [List.length_cons]
    split_ifs
    · exact ih.trans (Nat.le_succ _)
    · exact le_rfl

/-- A number takes its first character. -/
theorem scanNumber_shorter {c : Char} (chars : List Char) (h : c.isDigit ∨ c = '.') :
    (scanNumber false (c :: chars)).2.length < (c :: chars).length := by
  have hsame := scanNumber_length false chars
  have hdot := scanNumber_length true chars
  unfold scanNumber
  rw [List.length_cons]
  split_ifs with hdigit hpoint
  · exact Nat.lt_succ_of_le hsame
  · exact Nat.lt_succ_of_le hdot
  · simp_all

theorem scanIdentifier_shorter {c : Char} (chars : List Char) (h : c.isAlpha ∨ c = '_') :
    (scanIdentifier (c :: chars)).2.length < (c :: chars).length := by
  have hrest := scanIdentifier_length chars
  unfold scanIdentifier
  rw [List.length_cons, if_pos]
  · exact Nat.lt_succ_of_le hrest
  · rcases h with h | h <;> simp [Char.isAlphanum, h]

def utf8Length (chars : List Char) : ℕ := (chars.map Char.utf8Size).sum

/-- The tokens before, and those of the characters that are left of a formula of `total` bytes. -/
def lexFrom (A : Arithmetic V) (total : ℕ) (chars : List Char) (tokens : List (Token V)) :
    Except FormulaError (List (Token V)) :=
  match chars with
  | [] => .ok tokens
  | c :: rest =>
    if 512 ≤ tokens.length then .error (.tooManyTokens (tokens.length + 1) 512)
    else if isBlank c then lexFrom A total rest tokens
    else
      match symbol tokens.getLast? c with
      | some token => lexFrom A total rest (tokens ++ [token])
      | none =>
        if hnum : c.isDigit ∨ c = '.' then
          let num := scanNumber false (c :: rest)
          match A.parse (String.ofList num.1) with
          | some val => lexFrom A total num.2 (tokens ++ [.literal val])
          | none =>
            .error (.unexpectedToken (total - utf8Length (c :: rest)) (String.ofList num.1))
        else if hident : c.isAlpha ∨ c = '_' then
          let ident := scanIdentifier (c :: rest)
          let after := ident.2.dropWhile isWhitespace
          let token :=
            if after.head? = some '(' then Token.function (toUppercase (String.ofList ident.1)) 0
            else .var (String.ofList ident.1)
          lexFrom A total after (tokens ++ [token])
        else .error (.unexpectedToken (total - utf8Length (c :: rest)) (String.ofList [c]))
termination_by chars.length
decreasing_by
  · exact Nat.lt_succ_self _
  · exact Nat.lt_succ_self _
  · exact scanNumber_shorter rest hnum
  · exact (List.length_dropWhile_le _ _).trans_lt (scanIdentifier_shorter rest hident)

def tokenize (A : Arithmetic V) (formula : String) : Except FormulaError (List (Token V)) :=
  if formula.toList.all isWhitespace then .error .emptyFormula
  else if 4096 < utf8Length formula.toList then
    .error (.formulaTooLong (utf8Length formula.toList) 4096)
  else lexFrom A (utf8Length formula.toList) formula.toList []

/-! ### Parser -/

structure RpnState (V : Type) where
  output : List (Token V) := []
  /-- The top first, here and below. -/
  opStack : List (Token V) := []
  arityStack : List ℕ := []
  parenDepth : ℕ := 0
  funcDepth : ℕ := 0
deriving DecidableEq

/-- The first argument of a call has begun. -/
def touch : List ℕ → List ℕ
  | 0 :: arities => 1 :: arities
  | arities => arities

def notOpen : Token V → Bool
  | .parenOpen => false
  | _ => true

def popsBefore (op : Operator) : Token V → Bool
  | .operator top => op.shouldPop top
  | _ => false

namespace RpnState
variable (s : RpnState V)

/-- The operators on the top of the stack that satisfy `p` go to the output. -/
def flush (p : Token V → Bool) : RpnState V :=
  { s with
    output := s.output ++ s.opStack.takeWhile p
    opStack := s.opStack.dropWhile p }

def step (registry : FunctionRegistry V) (token : Token V) : Except FormulaError (RpnState V) :=
  match token with
  | .literal _ | .var _ =>
    .ok { s with output := s.output ++ [token], arityStack := touch s.arityStack }
  | .function name _ =>
    if !registry.isRegistered name then .error (.unknownFunction name)
    else if 16 < s.funcDepth + 1 then .error (.functionNestingTooDeep (s.funcDepth + 1) 16)
    else
      .ok { s with
        opStack := token :: s.opStack
        arityStack := 0 :: touch s.arityStack
        funcDepth := s.funcDepth + 1 }
  | .comma =>
    .ok { s.flush notOpen with arityStack := s.arityStack.modifyHead (· + 1) }
  | .operator op =>
    let s := if op = .neg then { s with arityStack := touch s.arityStack } else s
    let s := s.flush (popsBefore op)
    .ok { s with opStack := token :: s.opStack }
  | .parenOpen =>
    if 32 < s.parenDepth + 1 then .error (.nestingTooDeep (s.parenDepth + 1) 32)
    else
      .ok { s with
        opStack := token :: s.opStack
        arityStack := touch s.arityStack
        parenDepth := s.parenDepth + 1 }
  | .parenClose =>
    if s.parenDepth = 0 then .error (.unbalancedParentheses 0)
    else
      let flushed := s.flush notOpen
      match flushed.opStack with
      | [] => .error (.unbalancedParentheses 0)
      | _ :: .function name _ :: opStack =>
        .ok { output := flushed.output ++ [.function name (s.arityStack.headD 0)]
              opStack := opStack
              arityStack := s.arityStack.tail
              parenDepth := s.parenDepth - 1
              funcDepth := s.funcDepth - 1 }
      | _ :: opStack => .ok { flushed with opStack := opStack, parenDepth := s.parenDepth - 1 }

/-- What is left on the stack at the end. -/
def finish : Except FormulaError (List (Token V)) :=
  if s.opStack.all notOpen then .ok (s.output ++ s.opStack)
  else .error (.unbalancedParentheses 0)

/-- The tokens one after the other. -/
def run (registry : FunctionRegistry V) : List (Token V) → RpnState V →
    Except FormulaError (RpnState V)
  | [], s => .ok s
  | token :: tokens, s => do run registry tokens (← s.step registry token)

variable {s} {registry : FunctionRegistry V}

theorem run_cons {token : Token V} {s' : RpnState V} (h : s.step registry token = .ok s')
    (tokens : List (Token V)) : run registry (token :: tokens) s = run registry tokens s' := by
  rw [run, h]
  rfl

theorem run_append {tokens : List (Token V)} {s' : RpnState V} (h : run registry tokens s = .ok s')
    (tokens' : List (Token V)) : run registry (tokens ++ tokens') s = run registry tokens' s' := by
  induction tokens generalizing s with
  | nil =>
    cases h
    rfl
  | cons token tokens ih =>
    rw [run] at h
    rw [List.cons_append, run]
    cases hstep : s.step registry token with
    | error e =>
      rw [hstep] at h
      cases h
    | ok next =>
      rw [hstep] at h
      exact ih h

end RpnState

def toRpn (tokens : List (Token V)) (registry : FunctionRegistry V) :
    Except FormulaError (List (Token V)) := do
  let s ← RpnState.run registry tokens {}
  s.finish

/-! ### Evaluator -/

section Evaluator
variable (A : Arithmetic V) (resolver : String → Option V) (registry : FunctionRegistry V)

def evaluateBinary (op : Operator) (left right : V) : Except FormulaError V :=
  match op with
  | .add => .ok (A.add left right)
  | .sub => .ok (A.sub left right)
  | .mul => .ok (A.mul left right)
  | .div => .ok (if A.isZero right then A.nan else A.div left right)
  | .mod => .ok (if A.isZero right then A.nan else A.rem left right)
  | .power => .ok (A.powf left right)
  | .neg => .error (.mathDomainError "neg" "operador unario en evaluación binaria")

/-- A function that takes so many arguments. -/
def functionOf (name : String) (arity : ℕ) : Except FormulaError (FormulaFunction V) :=
  match registry.get name with
  | none => .error (.unknownFunction name)
  | some f =>
    match f.arity with
    | none => .ok f
    | some expected =>
      if arity ≠ expected then .error (.arityMismatch name expected arity) else .ok f

/-- One token of the postfix order on the stack of numbers, the top first. -/
def evaluateToken (stack : List V) (token : Token V) : Except FormulaError (List V) :=
  match token with
  | .literal val => .ok (val :: stack)
  | .var name => .ok ((resolver name).getD A.nan :: stack)
  | .operator .neg =>
    match stack with
    | operand :: stack => .ok (A.neg operand :: stack)
    | [] => .error .emptyFormula
  | .operator op =>
    match stack with
    | right :: left :: stack => do return (← evaluateBinary A op left right) :: stack
    | _ => .error .emptyFormula
  | .function name arity => do
    let f ← functionOf registry name arity
    if stack.length < arity then .error .emptyFormula
    else .ok ((f.evaluate (stack.take arity).reverse).getD A.nan :: stack.drop arity)
  | _ => .ok stack

def evaluate (rpn : List (Token V)) : Except FormulaError V := do
  match ← rpn.foldlM (evaluateToken A resolver registry) [] with
  | val :: _ => .ok val
  | [] => .error .emptyFormula

end Evaluator

end MetriEngine.Aegis.Formula

import MetriEngine.Foundation.Checked
import MetriEngine.Aegis.Filter
import MetriEngine.Aegis.FormulaGrammar

/-!
# Formulas that the machine can stop

A formula is compiled and run on the values of a row with the standard functions. All of them
are defined on all numbers but one: the clamp of the machine stops when its lower bound is not
below its upper bound, and when a bound is no number.
-/
namespace MetriEngine.Aegis.Formula
open Foundation Storage Eav

/-- The functions of doubles behind the standard functions. -/
structure FloatMath (V : Type) extends Arithmetic V where
  ofF64 : F64 → V
  ofInt : ℤ → V
  abs : V → V
  round : V → V
  ceil : V → V
  floor : V → V
  sqrt : V → V
  ln : V → V
  log10 : V → V
  powi : V → ℤ → V
  /-- `x as i32`, which saturates. -/
  asI32 : V → ℤ
  lt : V → V → Bool
  le : V → V → Bool
  eq : V → V → Bool
  isNan : V → Bool
  max : V → V → V
  min : V → V → V

/-- A function with what becomes of a call: a value, nothing, or a panic. -/
structure StandardFunction (V : Type) where
  name : String
  arity : Option ℕ
  evaluate : List V → Checked FormulaError (Option V)

/-! ### The catalogue -/

section Catalogue
variable {V : Type} (M : FloatMath V)

/-- A function of one argument. -/
def unary (name : String) (f : V → Option V) : StandardFunction V :=
  ⟨name, some 1, fun args => .ok (args.head?.bind f)⟩

/-- A function of two arguments. -/
def binary (name : String) (f : V → V → Option V) : StandardFunction V :=
  ⟨name, some 2, fun args => .ok (args[0]?.bind fun x => args[1]?.bind fun y => f x y)⟩

def absFunction : StandardFunction V := unary "ABS" fun x => some (M.abs x)

def roundFunction : StandardFunction V :=
  ⟨"ROUND", none, fun args => .ok (args.head?.map fun x =>
    let n := M.asI32 (args[1]?.getD (M.ofInt 0))
    let factor := M.powi (M.ofInt 10) n
    M.div (M.round (M.mul x factor)) factor)⟩

def ceilFunction : StandardFunction V := unary "CEIL" fun x => some (M.ceil x)
def floorFunction : StandardFunction V := unary "FLOOR" fun x => some (M.floor x)
def powerFunction : StandardFunction V := binary "POWER" fun base exponent => some (M.powf base exponent)

def sqrtFunction : StandardFunction V :=
  unary "SQRT" fun x => if M.lt x (M.ofInt 0) then none else some (M.sqrt x)

def logFunction : StandardFunction V :=
  unary "LOG" fun x => if M.le x (M.ofInt 0) then none else some (M.ln x)

def log10Function : StandardFunction V :=
  unary "LOG10" fun x => if M.le x (M.ofInt 0) then none else some (M.log10 x)

def modFunction : StandardFunction V :=
  binary "MOD" fun x y => if M.eq y (M.ofInt 0) then none else some (M.rem x y)

def signFunction : StandardFunction V :=
  unary "SIGN" fun x => some
    (if M.isNan x then M.nan
    else if M.lt (M.ofInt 0) x then M.ofInt 1
    else if M.lt x (M.ofInt 0) then M.ofInt (-1)
    else M.ofInt 0)

def nullifFunction : StandardFunction V :=
  binary "NULLIF" fun x y => if M.eq x y then none else some x

def coalesceFunction : StandardFunction V :=
  ⟨"COALESCE", none, fun args => .ok (args.find? fun x => !M.isNan x)⟩

def ifFunction : StandardFunction V :=
  ⟨"IF", some 3, fun args => .ok (args[0]?.bind fun cond => args[1]?.bind fun thenVal =>
    args[2]?.map fun elseVal => if M.eq cond (M.ofInt 0) then elseVal else thenVal)⟩

/-- `reduce` -/
def reduceWith (f : V → V → V) : List V → Option V
  | [] => none
  | x :: rest => some (rest.foldl f x)

def greatestFunction : StandardFunction V :=
  ⟨"GREATEST", none, fun args => .ok (reduceWith M.max args)⟩

def leastFunction : StandardFunction V := ⟨"LEAST", none, fun args => .ok (reduceWith M.min args)⟩

/-- `f64::clamp`, which asserts that the bounds are in order. -/
def clamp (x lo hi : V) : Checked FormulaError V :=
  if M.le lo hi then
    let x := if M.lt x lo then lo else x
    .ok (if M.lt hi x then hi else x)
  else .error .panic

/-- Clamps the first of three arguments; without three there is nothing. -/
def clampArgs : List V → Checked FormulaError (Option V)
  | x :: lo :: hi :: _ => (clamp M x lo hi).map some
  | _ => .ok none

def clampFunction : StandardFunction V := ⟨"CLAMP", some 3, clampArgs M⟩

def standard : List (StandardFunction V) :=
  [absFunction M, roundFunction M, ceilFunction M, floorFunction M, powerFunction M, sqrtFunction M,
    logFunction M, log10Function M, modFunction M, signFunction M, nullifFunction M,
    coalesceFunction M, ifFunction M, greatestFunction M, leastFunction M, clampFunction M]

/-- The function of a name, in letters of any size. -/
def standardGet (name : String) : Option (StandardFunction V) :=
  (standard M).find? fun f => f.name = toUppercase name

/-- What a call gives where it does not panic. -/
def resultOf (r : Checked FormulaError (Option V)) : Option V :=
  match r with
  | .ok v => v
  | .error _ => none

/-- The standard functions without their panic. -/
def standardRegistry : FunctionRegistry V :=
  ⟨fun name => ((standard M).find? fun f => f.name = name).map fun f =>
    ⟨f.arity, fun args => resultOf (f.evaluate args)⟩⟩

theorem get_standardRegistry (name : String) :
    (standardRegistry M).get name =
      (standardGet M name).map fun f => ⟨f.arity, fun args => resultOf (f.evaluate args)⟩ := rfl

/-- Only the clamp panics. -/
theorem evaluate_ok_of_ne_clamp {f : StandardFunction V} (hf : f ∈ standard M)
    (hname : f.name ≠ "CLAMP") (args : List V) : ∃ v, f.evaluate args = .ok v := by
  simp only [standard, List.mem_cons, List.not_mem_nil, or_false] at hf
  rcases hf with rfl | rfl | rfl | rfl | rfl | rfl | rfl | rfl | rfl | rfl | rfl | rfl | rfl | rfl |
    rfl | rfl
  case inr.inr.inr.inr.inr.inr.inr.inr.inr.inr.inr.inr.inr.inr.inr => exact absurd rfl hname
  all_goals exact ⟨_, rfl⟩

theorem find?_clamp : (standard M).find? (fun f => f.name = "CLAMP") = some (clampFunction M) := rfl

end Catalogue

/-! ### Evaluation -/

section Evaluation
variable {V : Type} (M : FloatMath V) (resolver : String → Option V)

def functionChecked (name : String) (arity : ℕ) : Checked FormulaError (StandardFunction V) :=
  match standardGet M name with
  | none => .error (.err (.unknownFunction name))
  | some f =>
    match f.arity with
    | none => .ok f
    | some expected =>
      if arity ≠ expected then .error (.err (.arityMismatch name expected arity)) else .ok f

/-- One token of the postfix order on the stack of numbers, with the panic of a function. -/
def evaluateTokenChecked (stack : List V) (token : Token V) : Checked FormulaError (List V) :=
  match token with
  | .function name arity =>
    (functionChecked M name arity).bind fun f =>
      if stack.length < arity then .error (.err .emptyFormula)
      else (f.evaluate (stack.take arity).reverse).map fun v => v.getD M.nan :: stack.drop arity
  | token => ofExcept (evaluateToken M.toArithmetic resolver (standardRegistry M) stack token)

/-- The token calls the clamp, and the bounds on the stack are not in order. -/
def ReversedClamp (stack : List V) : Token V → Prop
  | .function name arity =>
    toUppercase name = "CLAMP" ∧ arity = 3 ∧ 3 ≤ stack.length ∧
      ∃ hi ∈ stack[0]?, ∃ lo ∈ stack[1]?, M.le lo hi = false
  | _ => False

instance (stack : List V) (token : Token V) : Decidable (ReversedClamp M stack token) :=
  match token with
  | .function _ _ => inferInstanceAs (Decidable (_ ∧ _ ∧ _ ∧ _))
  | .literal _ => inferInstanceAs (Decidable False)
  | .var _ => inferInstanceAs (Decidable False)
  | .operator _ => inferInstanceAs (Decidable False)
  | .parenOpen => inferInstanceAs (Decidable False)
  | .parenClose => inferInstanceAs (Decidable False)
  | .comma => inferInstanceAs (Decidable False)

variable {M} {resolver}

/-- What finds no function finds none without panics either, with the same error. -/
theorem functionChecked_error {name : String} {arity : ℕ} {e : Fault FormulaError}
    (h : functionChecked M name arity = .error e) :
    ∃ e', e = .err e' ∧ functionOf (standardRegistry M) name arity = .error e' := by
  unfold functionChecked at h
  unfold functionOf
  rw [get_standardRegistry]
  cases hget : standardGet M name with
  | none =>
    rw [hget] at h
    cases h
    exact ⟨_, rfl, rfl⟩
  | some f =>
    rw [hget] at h
    dsimp only [Option.map_some] at h ⊢
    cases hf : f.arity with
    | none =>
      rw [hf] at h
      cases h
    | some expected =>
      rw [hf] at h
      dsimp only at h ⊢
      split_ifs at h with harity
      cases h
      exact ⟨_, rfl, if_pos harity⟩

/-- A function that a call finds is one of the catalogue, under its name and arity. -/
theorem functionChecked_ok {name : String} {arity : ℕ} {f : StandardFunction V}
    (h : functionChecked M name arity = .ok f) :
    f ∈ standard M ∧ f.name = toUppercase name ∧ (f.arity = none ∨ f.arity = some arity) ∧
      functionOf (standardRegistry M) name arity =
        .ok ⟨f.arity, fun args => resultOf (f.evaluate args)⟩ := by
  unfold functionChecked at h
  unfold functionOf
  rw [get_standardRegistry]
  cases hget : standardGet M name with
  | none =>
    rw [hget] at h
    cases h
  | some g =>
    have hfind : (standard M).find? (fun f => f.name = toUppercase name) = some g := hget
    have hmem := List.mem_of_find?_eq_some hfind
    have hname : g.name = toUppercase name := by simpa using List.find?_some hfind
    rw [hget] at h
    dsimp only [Option.map_some] at h ⊢
    cases hg : g.arity with
    | none =>
      rw [hg] at h
      cases h
      refine ⟨hmem, hname, Or.inl hg, ?_⟩
      rw [hg]
    | some expected =>
      rw [hg] at h
      dsimp only at h ⊢
      split_ifs at h with harity
      cases h
      refine ⟨hmem, hname, Or.inr (hg.trans (congrArg some (not_not.mp harity).symm)), ?_⟩
      rw [if_neg harity, hg]

theorem clampArgs_stack (stack : List V) (h : 3 ≤ stack.length) :
    ∃ hi lo x, stack[0]? = some hi ∧ stack[1]? = some lo ∧
      clampArgs M (stack.take 3).reverse = (clamp M x lo hi).map some := by
  cases stack with
  | nil => exact absurd h (by simp)
  | cons hi stack =>
    cases stack with
    | nil => exact absurd h (by simp)
    | cons lo stack =>
      cases stack with
      | nil => exact absurd h (by simp)
      | cons x stack => exact ⟨hi, lo, x, rfl, rfl, rfl⟩

theorem clamp_ok {x lo hi : V} (h : M.le lo hi = true) : ∃ v, clamp M x lo hi = .ok v := by
  unfold clamp
  rw [if_pos h]
  exact ⟨_, rfl⟩

theorem clamp_panic {x lo hi : V} (h : M.le lo hi = false) : clamp M x lo hi = .error .panic := by
  unfold clamp
  rw [h]
  rfl

/-- A call panics exactly where it clamps between bounds that are not in order. -/
theorem evaluate_panics_iff {name : String} {arity : ℕ} {f : StandardFunction V} {stack : List V}
    (hf : functionChecked M name arity = .ok f) (hlong : arity ≤ stack.length) :
    (f.evaluate (stack.take arity).reverse = .error .panic ∧
      ReversedClamp M stack (.function name arity)) ∨
    (∃ v, f.evaluate (stack.take arity).reverse = .ok v ∧
      ¬ ReversedClamp M stack (.function name arity)) := by
  obtain ⟨hmem, hname, harity, _⟩ := functionChecked_ok hf
  by_cases hclamp : f.name = "CLAMP"
  · have hfclamp : f = clampFunction M := by
      have hget : standardGet M name = some (clampFunction M) := by
        unfold standardGet
        rw [← hname, hclamp]
        exact find?_clamp M
      unfold functionChecked at hf
      rw [hget] at hf
      dsimp only at hf
      change (if arity ≠ 3 then _ else _) = _ at hf
      split_ifs at hf
      exact (Except.ok.inj hf).symm
    subst hfclamp
    have hthree : arity = 3 := by
      rcases harity with h | h
      · cases h
      · exact (Option.some.inj h).symm
    subst hthree
    obtain ⟨hi, lo, x, hhi, hlo, hargs⟩ := clampArgs_stack (M := M) stack hlong
    change (clampArgs M (stack.take 3).reverse = _ ∧ _) ∨
      ∃ v, clampArgs M (stack.take 3).reverse = _ ∧ _
    rw [hargs]
    cases hle : M.le lo hi with
    | false =>
      left
      rw [clamp_panic hle]
      exact ⟨rfl, hname.symm.trans hclamp, rfl, hlong, hi, hhi, lo, hlo, hle⟩
    | true =>
      right
      obtain ⟨v, hv⟩ := clamp_ok (x := x) hle
      refine ⟨some v, by rw [hv]; rfl, ?_⟩
      rintro ⟨_, _, _, hi', hhi', lo', hlo', hle'⟩
      rw [hhi] at hhi'
      rw [hlo] at hlo'
      cases hhi'
      cases hlo'
      rw [hle] at hle'
      cases hle'
  · right
    obtain ⟨v, hv⟩ := evaluate_ok_of_ne_clamp M hmem hclamp (stack.take arity).reverse
    exact ⟨v, hv, fun h => hclamp (hname.trans h.1)⟩

theorem evaluateTokenChecked_function (stack : List V) (name : String) (arity : ℕ) :
    evaluateTokenChecked M resolver stack (.function name arity) =
      (functionChecked M name arity).bind fun f =>
        if stack.length < arity then .error (.err .emptyFormula)
        else (f.evaluate (stack.take arity).reverse).map fun v =>
          v.getD M.nan :: stack.drop arity := rfl

theorem evaluateToken_function_of_registry (A : Arithmetic V) (registry : FunctionRegistry V) (stack : List V)
    (name : String) (arity : ℕ) :
    evaluateToken A resolver registry stack (.function name arity) =
      (functionOf registry name arity).bind fun f =>
        if stack.length < arity then .error .emptyFormula
        else .ok ((f.evaluate (stack.take arity).reverse).getD A.nan :: stack.drop arity) := rfl

/-- A token does what it does without panics, and panics where it clamps between bounds that
are not in order. -/
theorem evaluateTokenChecked_eq (stack : List V) (token : Token V) :
    evaluateTokenChecked M resolver stack token =
      guardedStep (ReversedClamp M) (evaluateToken M.toArithmetic resolver (standardRegistry M))
        stack token := by
  cases token with
  | function name arity =>
    rw [guardedStep, evaluateTokenChecked_function, evaluateToken_function_of_registry]
    cases hf : functionChecked M name arity with
    | error e =>
      obtain ⟨e', rfl, hof⟩ := functionChecked_error hf
      have hrest : ¬ ReversedClamp M stack (.function name arity) := by
        rintro ⟨hname, rfl, _⟩
        unfold functionChecked standardGet at hf
        rw [hname, find?_clamp] at hf
        cases hf
      rw [if_neg hrest, hof]
      rfl
    | ok f =>
      obtain ⟨_, _, _, hof⟩ := functionChecked_ok hf
      rw [hof]
      simp only [Except.bind]
      by_cases hshort : stack.length < arity
      · have hrest : ¬ ReversedClamp M stack (.function name arity) := by
          rintro ⟨_, rfl, hlong, _⟩
          omega
        rw [if_neg hrest, if_pos hshort, if_pos hshort]
        rfl
      · rw [if_neg hshort, if_neg hshort]
        rcases evaluate_panics_iff hf (not_lt.mp hshort) with ⟨hpanic, hreversed⟩ | ⟨v, hv, hrest⟩
        · rw [hpanic, if_pos hreversed]
          rfl
        · rw [hv, if_neg hrest]
          rfl
  | _ => exact (if_neg id).symm

end Evaluation
/-! ### Parsing -/

section Parsing
variable {V : Type}

/-- `func_depth -= 1` below zero: a parenthesis closes a call, and no call is counted. -/
def DepthUnderflows (s : RpnState V) (token : Token V) : Prop :=
  (match token with | .parenClose => true | _ => false) = true ∧ s.parenDepth ≠ 0 ∧
    ((s.flush notOpen).opStack[1]?).any isFunction = true ∧ s.funcDepth = 0

instance (s : RpnState V) (token : Token V) : Decidable (DepthUnderflows s token) :=
  inferInstanceAs (Decidable (_ ∧ _ ∧ _ ∧ _))

def toRpnChecked (tokens : List (Token V)) (registry : FunctionRegistry V) :
    Checked FormulaError (List (Token V)) :=
  (tokens.foldlM (guardedStep DepthUnderflows fun s token => s.step registry token) {}).bind fun s =>
    Foundation.ofExcept s.finish

theorem run_eq_foldlM (registry : FunctionRegistry V) (tokens : List (Token V)) (s : RpnState V) :
    RpnState.run registry tokens s = tokens.foldlM (fun s token => s.step registry token) s := by
  induction tokens generalizing s with
  | nil => rfl
  | cons token tokens ih =>
    rw [RpnState.run, List.foldlM_cons]
    congr 1
    funext s'
    exact ih s'

/-- The calls on the stack are counted. -/
def CallsCounted (s : RpnState V) : Prop := s.opStack.countP isFunction ≤ s.funcDepth

theorem countP_flush_le (s : RpnState V) (p : Token V → Bool) :
    (s.flush p).opStack.countP isFunction ≤ s.opStack.countP isFunction :=
  (List.dropWhile_sublist p).countP_le

theorem CallsCounted.step {s s' : RpnState V} {token : Token V} {registry : FunctionRegistry V}
    (h : CallsCounted s) (hstep : s.step registry token = .ok s') : CallsCounted s' := by
  have hflush := countP_flush_le s
  unfold CallsCounted at h ⊢
  cases token with
  | literal val =>
    cases hstep
    exact h
  | var name =>
    cases hstep
    exact h
  | function name arity =>
    unfold RpnState.step at hstep
    dsimp only at hstep
    split_ifs at hstep
    cases hstep
    simp only [List.countP_cons, isFunction, if_true]
    omega
  | operator op =>
    cases hstep
    have hpops := hflush (popsBefore op)
    simp only [List.countP_cons, isFunction, Bool.false_eq_true, if_false]
    split_ifs
    · exact hpops.trans h
    · exact hpops.trans h
  | comma =>
    cases hstep
    exact (hflush notOpen).trans h
  | parenOpen =>
    unfold RpnState.step at hstep
    dsimp only at hstep
    split_ifs at hstep
    cases hstep
    simpa [List.countP_cons, isFunction] using h
  | parenClose =>
    have hpops := hflush notOpen
    unfold RpnState.step at hstep
    dsimp only at hstep
    split_ifs at hstep
    cases hstack : (s.flush notOpen).opStack with
    | nil =>
      rw [hstack] at hstep
      cases hstep
    | cons top rest =>
      rw [hstack] at hstep hpops
      cases rest with
      | nil =>
        cases hstep
        exact Nat.zero_le _
      | cons next rest =>
        rw [List.countP_cons, List.countP_cons] at hpops
        cases next with
        | function name arity =>
          cases hstep
          simp only [isFunction, if_true] at hpops
          dsimp only
          omega
        | _ =>
          cases hstep
          simp only [List.countP_cons, isFunction]
          change _ ≤ s.funcDepth
          simp only [isFunction] at hpops
          omega

theorem CallsCounted.not_underflows {s : RpnState V} (h : CallsCounted s) (token : Token V) :
    ¬ DepthUnderflows s token := by
  rintro ⟨_, _, hcall, hzero⟩
  obtain ⟨next, hnext, hfunction⟩ := Option.any_eq_true _ _ |>.mp hcall
  have hmem : next ∈ s.opStack := (List.dropWhile_sublist notOpen).subset (List.mem_of_getElem? hnext)
  have hpos : 0 < s.opStack.countP isFunction := List.countP_pos_iff.mpr ⟨next, hmem, hfunction⟩
  unfold CallsCounted at h
  omega

/-- The count of calls never goes below zero. -/
theorem toRpnChecked_eq (tokens : List (Token V)) (registry : FunctionRegistry V) :
    toRpnChecked tokens registry = Foundation.ofExcept (toRpn tokens registry) := by
  have hcounted : ∀ (before : List (Token V)) (s s' : RpnState V), CallsCounted s →
      before.foldlM (fun s token => s.step registry token) s = .ok s' → CallsCounted s' := by
    intro before
    induction before with
    | nil =>
      intro s s' h hrun
      cases hrun
      exact h
    | cons token before ih =>
      intro s s' h hrun
      rw [List.foldlM_cons] at hrun
      cases hstep : s.step registry token with
      | error e =>
        rw [hstep] at hrun
        cases hrun
      | ok next =>
        rw [hstep] at hrun
        exact ih next s' (h.step hstep) hrun
  have hnever : NeverBad DepthUnderflows (fun s token => RpnState.step s registry token)
      ({} : RpnState V) tokens := by
    intro before token after s' _ hrun
    exact (hcounted before {} s' (Nat.zero_le _) hrun).not_underflows token
  unfold toRpnChecked toRpn
  rw [foldlM_guardedStep_eq hnever, run_eq_foldlM]
  cases tokens.foldlM (fun s token => RpnState.step s registry token) ({} : RpnState V) <;> rfl

end Parsing

/-! ### From a text to a number -/

section Calculation
variable {V : Type} (M : FloatMath V)

/-- The number that a row has for a variable, under its full or its bare name. -/
def resolve (row : JsonMap) (varName : String) : Option V :=
  (((row.lookup varName).or (row.lookup (bareName varName))).bind JsonValue.asF64).map M.ofF64

def popResult : List V → Except FormulaError V
  | val :: _ => .ok val
  | [] => .error .emptyFormula

def evaluateChecked (row : JsonMap) (rpn : List (Token V)) : Checked FormulaError V :=
  (rpn.foldlM (evaluateTokenChecked M (resolve M row)) []).bind fun stack =>
    Foundation.ofExcept (popResult stack)

/-- A formula compiled and evaluated on a row. -/
def calculateChecked (formula : String) (row : JsonMap) : Checked FormulaError V := do
  let tokens ← Foundation.ofExcept (tokenize M.toArithmetic formula)
  let rpn ← toRpnChecked tokens (standardRegistry M)
  evaluateChecked M row rpn

/-- The same where nothing panics. -/
def calculate (formula : String) (row : JsonMap) : Except FormulaError V := do
  let tokens ← tokenize M.toArithmetic formula
  let rpn ← toRpn tokens (standardRegistry M)
  evaluate M.toArithmetic (resolve M row) (standardRegistry M) rpn

/-- The bounds are in order on the stack wherever the evaluation comes to a clamp. -/
def ClampsInOrder (formula : String) (row : JsonMap) : Prop :=
  ∀ tokens rpn, tokenize M.toArithmetic formula = .ok tokens →
    toRpn tokens (standardRegistry M) = .ok rpn →
    NeverBad (ReversedClamp M) (evaluateToken M.toArithmetic (resolve M row) (standardRegistry M)) [] rpn

variable {M}

theorem evaluateChecked_eq (row : JsonMap) (rpn : List (Token V)) :
    evaluateChecked M row rpn =
      (rpn.foldlM (guardedStep (ReversedClamp M)
        (evaluateToken M.toArithmetic (resolve M row) (standardRegistry M))) []).bind fun stack =>
          Foundation.ofExcept (popResult stack) := by
  have hstep : evaluateTokenChecked M (resolve M row) = guardedStep (ReversedClamp M)
      (evaluateToken M.toArithmetic (resolve M row) (standardRegistry M)) := by
    funext stack token
    exact evaluateTokenChecked_eq stack token
  rw [evaluateChecked, hstep]

theorem evaluateChecked_of_neverBad {row : JsonMap} {rpn : List (Token V)}
    (h : NeverBad (ReversedClamp M)
      (evaluateToken M.toArithmetic (resolve M row) (standardRegistry M)) [] rpn) :
    evaluateChecked M row rpn =
      Foundation.ofExcept (evaluate M.toArithmetic (resolve M row) (standardRegistry M) rpn) := by
  rw [evaluateChecked_eq, foldlM_guardedStep_eq h]
  unfold evaluate
  cases rpn.foldlM (evaluateToken M.toArithmetic (resolve M row) (standardRegistry M)) [] with
  | error e => rfl
  | ok stack => cases stack <;> rfl

theorem evaluateChecked_ne_panic_iff {row : JsonMap} {rpn : List (Token V)} :
    evaluateChecked M row rpn ≠ .error .panic ↔ NeverBad (ReversedClamp M)
      (evaluateToken M.toArithmetic (resolve M row) (standardRegistry M)) [] rpn := by
  constructor
  · intro h
    apply foldlM_guardedStep_ne_panic_iff.mp
    intro hpanic
    apply h
    rw [evaluateChecked_eq, hpanic]
    rfl
  · intro h
    rw [evaluateChecked_of_neverBad h]
    exact ofExcept_ne_panic _

/-- A formula never panics on a row exactly where every clamp that its evaluation comes to has
its bounds in order; then it gives the number or the error of the evaluation without panics. -/
theorem formula_safe_iff (M : FloatMath V) (formula : String) (row : JsonMap) :
    (calculateChecked M formula row ≠ .error .panic ↔ ClampsInOrder M formula row) ∧
    (ClampsInOrder M formula row →
      calculateChecked M formula row = Foundation.ofExcept (calculate M formula row)) := by
  unfold calculateChecked calculate ClampsInOrder
  cases htokens : tokenize M.toArithmetic formula with
  | error e =>
    refine ⟨⟨?_, ?_⟩, fun _ => rfl⟩
    · rintro _ tokens rpn htok
      cases htok
    · exact fun _ => ofExcept_ne_panic (.error e)
  | ok tokens =>
    have hparse : (Foundation.ofExcept (.ok tokens : Except FormulaError (List (Token V))) >>= fun tokens =>
        toRpnChecked tokens (standardRegistry M) >>= fun rpn => evaluateChecked M row rpn) =
        Foundation.ofExcept (toRpn tokens (standardRegistry M)) >>= fun rpn =>
          evaluateChecked M row rpn := by
      rw [← toRpnChecked_eq]
      rfl
    rw [hparse]
    cases hrpn : toRpn tokens (standardRegistry M) with
    | error e =>
      refine ⟨⟨?_, ?_⟩, ?_⟩
      · rintro _ tokens' rpn htok hr
        cases htok
        rw [hrpn] at hr
        cases hr
      · exact fun _ => ofExcept_ne_panic (.error e : Except FormulaError V)
      · intro _
        change _ = Foundation.ofExcept ((toRpn tokens (standardRegistry M)).bind _)
        rw [hrpn]
        rfl
    | ok rpn =>
      have hbad : (∀ tokens' rpn', (.ok tokens : Except FormulaError (List (Token V))) = .ok tokens' →
          toRpn tokens' (standardRegistry M) = .ok rpn' → NeverBad (ReversedClamp M)
            (evaluateToken M.toArithmetic (resolve M row) (standardRegistry M)) [] rpn') ↔
          NeverBad (ReversedClamp M)
            (evaluateToken M.toArithmetic (resolve M row) (standardRegistry M)) [] rpn := by
        constructor
        · intro h
          exact h tokens rpn rfl hrpn
        · rintro h tokens' rpn' htok hr
          cases htok
          rw [hrpn] at hr
          cases hr
          exact h
      rw [hbad]
      refine ⟨evaluateChecked_ne_panic_iff, ?_⟩
      intro h
      change evaluateChecked M row rpn = Foundation.ofExcept ((toRpn tokens (standardRegistry M)).bind _)
      rw [hrpn]
      exact evaluateChecked_of_neverBad h

end Calculation

/-! ### Bounds in the wrong order -/

/-- Integers, whose roots, logarithms and powers of ten are not used. -/
def wholeMath : FloatMath ℤ :=
  { integers with
    ofF64 := F64.toI64
    ofInt := id
    abs := fun x => |x|
    round := id
    ceil := id
    floor := id
    sqrt := id
    ln := id
    log10 := id
    powi := fun x n => x ^ n.toNat
    asI32 := id
    lt := fun x y => decide (x < y)
    le := fun x y => decide (x ≤ y)
    eq := fun x y => decide (x = y)
    isNan := fun _ => false
    max := fun x y => if x ≤ y then y else x
    min := fun x y => if x ≤ y then x else y }

theorem reversed_bounds_panic : ¬ ∀ (V : Type) (M : FloatMath V) (formula : String) (row : JsonMap),
    calculateChecked M formula row ≠ .error .panic := by
  intro h
  apply h ℤ wholeMath "CLAMP(1, 5, 2)" ∅
  decide +kernel

end MetriEngine.Aegis.Formula

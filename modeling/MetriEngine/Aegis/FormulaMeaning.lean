import MetriEngine.Aegis.FormulaGrammar

/-!
# The meaning of formulas

An expression tree is printed with the brackets that its operators need, and the formula that
is printed has the value of the tree. The parser leaves the operators that still wait on its
stack: after the tokens of a tree its output and what waits are together the postfix order of
the tree, and what waits binds at least as tightly as the place where the tree stands.
-/
namespace MetriEngine.Aegis.Formula

variable {V : Type}

/-! ### Trees -/

mutual
inductive Expr (V : Type) where
  | literal (val : V)
  | var (name : String)
  | binary (op : Operator) (hop : op ≠ .neg) (l r : Expr V)
  | neg (e : Expr V)
  | call (name : String) (args : Args V)

/-- One argument or more. -/
inductive Args (V : Type) where
  | one (e : Expr V)
  | more (args : Args V) (e : Expr V)
end

/-- How tightly a tree holds together. -/
def Expr.level : Expr V → ℕ
  | .binary op _ _ _ => op.precedence
  | .neg _ => Operator.neg.precedence
  | _ => 5

namespace Operator

/-- The least level of a left operand without brackets, and of a right one. -/
def leftLevel (op : Operator) : ℕ :=
  if op.isLeftAssociative then op.precedence else op.precedence + 1

def rightLevel (op : Operator) : ℕ :=
  if op.isLeftAssociative then op.precedence + 1 else op.precedence

end Operator

/-- Brackets around a tree of too low a level. -/
def bracket (p level : ℕ) (tokens : List (Token V)) : List (Token V) :=
  if level < p then .parenOpen :: tokens ++ [.parenClose] else tokens

mutual
def Expr.tokens : Expr V → List (Token V)
  | .literal val => [.literal val]
  | .var name => [.var name]
  | .binary op _ l r =>
    bracket op.leftLevel l.level l.tokens ++ .operator op :: bracket op.rightLevel r.level r.tokens
  | .neg e => .operator .neg :: bracket 4 e.level e.tokens
  | .call name args => .function name 0 :: .parenOpen :: args.tokens ++ [.parenClose]

def Args.tokens : Args V → List (Token V)
  | .one e => e.tokens
  | .more args e => args.tokens ++ .comma :: e.tokens
end

def Args.count : Args V → ℕ
  | .one _ => 1
  | .more args _ => args.count + 1

mutual
/-- How deep the parentheses of the printed tree are nested. -/
def Expr.parens : Expr V → ℕ
  | .literal _ | .var _ => 0
  | .binary op _ l r =>
    max (l.parens + if l.level < op.leftLevel then 1 else 0)
      (r.parens + if r.level < op.rightLevel then 1 else 0)
  | .neg e => e.parens + if e.level < 4 then 1 else 0
  | .call _ args => args.parens + 1

def Args.parens : Args V → ℕ
  | .one e => e.parens
  | .more args e => max args.parens e.parens
end

mutual
/-- How deep the calls are nested. -/
def Expr.calls : Expr V → ℕ
  | .literal _ | .var _ => 0
  | .binary _ _ l r => max l.calls r.calls
  | .neg e => e.calls
  | .call _ args => args.calls + 1

def Args.calls : Args V → ℕ
  | .one e => e.calls
  | .more args e => max args.calls e.calls
end

mutual
def Expr.Declared (registry : FunctionRegistry V) : Expr V → Prop
  | .literal _ | .var _ => True
  | .binary _ _ l r => l.Declared registry ∧ r.Declared registry
  | .neg e => e.Declared registry
  | .call name args => registry.isRegistered name = true ∧ args.Declared registry

def Args.Declared (registry : FunctionRegistry V) : Args V → Prop
  | .one e => e.Declared registry
  | .more args e => args.Declared registry ∧ e.Declared registry
end

/-! ### Values -/

section Values
variable (A : Arithmetic V) (resolver : String → Option V) (registry : FunctionRegistry V)

mutual
/-- The value of a tree, the operands from left to right. -/
def Expr.value : Expr V → Except FormulaError V
  | .literal val => .ok val
  | .var name => .ok ((resolver name).getD A.nan)
  | .binary op _ l r => do
    let left ← l.value
    let right ← r.value
    evaluateBinary A op left right
  | .neg e => A.neg <$> e.value
  | .call name args => do
    let vals ← args.values
    let f ← functionOf registry name args.count
    return (f.evaluate vals).getD A.nan

def Args.values : Args V → Except FormulaError (List V)
  | .one e => do return [← e.value]
  | .more args e => do
    let vals ← args.values
    return vals ++ [← e.value]
end

end Values

mutual
/-- The postfix order. -/
def Expr.rpn : Expr V → List (Token V)
  | .literal val => [.literal val]
  | .var name => [.var name]
  | .binary op _ l r => l.rpn ++ r.rpn ++ [.operator op]
  | .neg e => e.rpn ++ [.operator .neg]
  | .call name args => args.rpn ++ [.function name args.count]

def Args.rpn : Args V → List (Token V)
  | .one e => e.rpn
  | .more args e => args.rpn ++ e.rpn
end

/-! ### Trees are expressions -/

theorem derives_bracket {p level : ℕ} {tokens : List (Token V)} (h : Derives .expression tokens) :
    Derives .expression (bracket p level tokens) := by
  unfold bracket
  split_ifs
  · exact .paren h
  · exact h

mutual
theorem Expr.derives : ∀ e : Expr V, Derives .expression e.tokens
  | .literal val => .literal val
  | .var name => .var name
  | .binary op hop l r => .binary op hop (derives_bracket l.derives) (derives_bracket r.derives)
  | .neg e => .neg (derives_bracket e.derives)
  | .call name args => .call name 0 args.derives

theorem Args.derives : ∀ args : Args V, Derives .arguments args.tokens
  | .one e => .one e.derives
  | .more args e => .more args.derives e.derives
end

/-! ### Evaluation -/

section Evaluation
variable {A : Arithmetic V} {resolver : String → Option V} {registry : FunctionRegistry V}

theorem Args.length_values (args : Args V) {vals : List V}
    (h : args.values A resolver registry = .ok vals) : vals.length = args.count := by
  cases args with
  | one e =>
    rw [Args.values] at h
    cases hv : e.value A resolver registry with
    | error err =>
      rw [hv] at h
      cases h
    | ok v =>
      rw [hv] at h
      cases h
      rfl
  | more args e =>
    rw [Args.values] at h
    cases hargs : args.values A resolver registry with
    | error err =>
      rw [hargs] at h
      cases h
    | ok before =>
      rw [hargs] at h
      cases hv : e.value A resolver registry with
      | error err =>
        rw [hv] at h
        cases h
      | ok v =>
        rw [hv] at h
        cases h
        rw [List.length_append, args.length_values hargs]
        rfl

/-- Two operands on the stack and the operator. -/
theorem evaluateToken_binary {op : Operator} (hop : op ≠ .neg) (right left : V) (stack : List V) :
    evaluateToken A resolver registry (right :: left :: stack) (.operator op) =
      (evaluateBinary A op left right >>= fun v => .ok (v :: stack)) := by
  cases op <;> first | rfl | exact absurd rfl hop

/-- The arguments on the stack, the last on the top, and the function. -/
theorem evaluateToken_function (name : String) (vals stack : List V) :
    evaluateToken A resolver registry (vals.reverse ++ stack) (.function name vals.length) =
      (functionOf registry name vals.length >>= fun f =>
        .ok ((f.evaluate vals).getD A.nan :: stack)) := by
  unfold evaluateToken
  dsimp only
  cases functionOf registry name vals.length with
  | error err => rfl
  | ok f =>
    have hlong : ¬(vals.reverse ++ stack).length < vals.length := by
      rw [List.length_append, List.length_reverse]
      omega
    change (if (vals.reverse ++ stack).length < vals.length then _ else _) = _
    rw [if_neg hlong, List.take_left' (List.length_reverse), List.drop_left' (List.length_reverse),
      List.reverse_reverse]
    rfl

mutual
/-- The postfix order of a tree puts its value on the stack. -/
theorem Expr.fold_rpn : ∀ (e : Expr V) (stack : List V),
    e.rpn.foldlM (evaluateToken A resolver registry) stack =
      (e.value A resolver registry >>= fun v => .ok (v :: stack))
  | .literal val, stack => rfl
  | .var name, stack => rfl
  | .binary op hop l r, stack => by
    rw [Expr.rpn, List.foldlM_append, List.foldlM_append, l.fold_rpn stack, Expr.value]
    cases l.value A resolver registry with
    | error err => rfl
    | ok left =>
      change (r.rpn.foldlM _ (left :: stack) >>= _) = _
      rw [r.fold_rpn (left :: stack)]
      cases r.value A resolver registry with
      | error err => rfl
      | ok right =>
        change (evaluateToken A resolver registry (right :: left :: stack) (.operator op) >>= _) = _
        rw [evaluateToken_binary hop]
        change _ = (evaluateBinary A op left right >>= _)
        cases evaluateBinary A op left right with
        | error err => rfl
        | ok v => rfl
  | .neg e, stack => by
    rw [Expr.rpn, List.foldlM_append, e.fold_rpn stack, Expr.value]
    cases e.value A resolver registry with
    | error err => rfl
    | ok v => rfl
  | .call name args, stack => by
    rw [Expr.rpn, List.foldlM_append, args.fold_rpn stack, Expr.value]
    cases hvals : args.values A resolver registry with
    | error err => rfl
    | ok vals =>
      rw [← args.length_values hvals]
      change (evaluateToken A resolver registry (vals.reverse ++ stack)
        (.function name vals.length) >>= _) = _
      rw [evaluateToken_function]
      cases functionOf registry name vals.length with
      | error err => rfl
      | ok f => rfl

theorem Args.fold_rpn : ∀ (args : Args V) (stack : List V),
    args.rpn.foldlM (evaluateToken A resolver registry) stack =
      (args.values A resolver registry >>= fun vals => .ok (vals.reverse ++ stack))
  | .one e, stack => by
    rw [Args.rpn, e.fold_rpn stack, Args.values]
    cases e.value A resolver registry with
    | error err => rfl
    | ok v => rfl
  | .more args e, stack => by
    rw [Args.rpn, List.foldlM_append, args.fold_rpn stack, Args.values]
    cases args.values A resolver registry with
    | error err => rfl
    | ok vals =>
      change (e.rpn.foldlM _ (vals.reverse ++ stack)) = _
      rw [e.fold_rpn]
      cases e.value A resolver registry with
      | error err => rfl
      | ok v =>
        change _ = Except.ok ((vals ++ [v]).reverse ++ stack)
        rw [List.reverse_append]
        rfl
end

theorem evaluate_rpn (e : Expr V) :
    evaluate A resolver registry e.rpn = e.value A resolver registry := by
  unfold evaluate
  rw [e.fold_rpn]
  cases e.value A resolver registry with
  | error err => rfl
  | ok v => rfl

end Evaluation

/-! ### Parsing -/

/-- An operator on the top of the stack waits for a tree at this level, and no function does. -/
def Ready (p : ℕ) : List (Token V) → Prop
  | .operator top :: _ =>
    top.precedence < p ∨ top.precedence = p ∧ top.isLeftAssociative = false
  | .function _ _ :: _ => False
  | _ => True

/-- Operators that bind at least as tightly as `p`. -/
def Waiting (p : ℕ) (pending : List (Token V)) : Prop :=
  ∀ t ∈ pending, ∃ op, t = .operator op ∧ p ≤ op.precedence

theorem Waiting.mono {p q : ℕ} {pending : List (Token V)} (h : Waiting q pending) (hpq : p ≤ q) :
    Waiting p pending := by
  intro t ht
  obtain ⟨op, rfl, hop⟩ := h t ht
  exact ⟨op, rfl, hpq.trans hop⟩

/-- The tokens are read from `s`: what is put out and what waits are the postfix order. -/
def Leaves (registry : FunctionRegistry V) (p : ℕ) (tokens rpn : List (Token V)) (s : RpnState V) :
    Prop :=
  ∃ output pending, Waiting p pending ∧ output ++ pending = s.output ++ rpn ∧
    RpnState.run registry tokens s =
      .ok { s with
        output := output
        opStack := pending ++ s.opStack
        arityStack := touch s.arityStack }

theorem touch_touch (arities : List ℕ) : touch (touch arities) = touch arities := by
  cases arities with
  | nil => rfl
  | cons arity arities => cases arity <;> rfl

theorem RpnState.flush_eq {s : RpnState V} {p : Token V → Bool} {pending below : List (Token V)}
    (hstack : s.opStack = pending ++ below) (hpending : ∀ t ∈ pending, p t = true)
    (hbelow : ∀ t ∈ below.head?, p t = false) :
    s.flush p = { s with output := s.output ++ pending, opStack := below } := by
  have htake : below.takeWhile p = [] := by
    cases below with
    | nil => rfl
    | cons t below => rw [List.takeWhile_cons, hbelow t rfl]; rfl
  have hdrop : below.dropWhile p = below := by
    cases below with
    | nil => rfl
    | cons t below => rw [List.dropWhile_cons, hbelow t rfl]; rfl
  unfold RpnState.flush
  rw [hstack, List.takeWhile_append_of_pos hpending, List.dropWhile_append_of_pos hpending, htake,
    hdrop, List.append_nil]

theorem shouldPop_of_leftLevel {op top : Operator} (h : op.leftLevel ≤ top.precedence) :
    op.shouldPop top = true := by
  revert h
  cases op <;> cases top <;> decide

theorem shouldPop_eq_false {op top : Operator} (h : top.precedence < op.precedence ∨
    top.precedence = op.precedence ∧ top.isLeftAssociative = false) : op.shouldPop top = false := by
  revert h
  cases op <;> cases top <;> decide

theorem popsBefore_of_waiting {op : Operator} {pending : List (Token V)}
    (h : Waiting op.leftLevel pending) : ∀ t ∈ pending, popsBefore op t = true := by
  intro t ht
  obtain ⟨top, rfl, htop⟩ := h t ht
  exact shouldPop_of_leftLevel htop

/-- What is ready for a tree at this level stays when an operator of the level comes. -/
theorem popsBefore_of_ready {op : Operator} {p : ℕ} {opStack : List (Token V)}
    (h : Ready p opStack) (hp : p ≤ op.precedence) :
    ∀ t ∈ opStack.head?, popsBefore op t = false := by
  cases opStack with
  | nil => exact fun _ h => nomatch h
  | cons t opStack =>
    rintro _ ⟨⟩
    cases t with
    | operator top =>
      apply shouldPop_eq_false
      rcases h with h | ⟨h, hassoc⟩
      · exact .inl (h.trans_le hp)
      · rcases hp.lt_or_eq with hlt | heq
        · exact .inl (h.trans_lt hlt)
        · exact .inr ⟨h.trans heq, hassoc⟩
    | _ => rfl

/-! What each token does. -/

section Steps
variable {registry : FunctionRegistry V} {s : RpnState V}

theorem step_operator {op : Operator} (hop : op ≠ .neg) {pending below : List (Token V)}
    (hstack : s.opStack = pending ++ below) (hpending : Waiting op.leftLevel pending)
    (hbelow : ∀ t ∈ below.head?, popsBefore op t = false) :
    s.step registry (.operator op) =
      .ok { s with output := s.output ++ pending, opStack := .operator op :: below } := by
  have hflush := RpnState.flush_eq hstack (popsBefore_of_waiting hpending) hbelow
  change Except.ok _ = _
  rw [if_neg hop, hflush]

theorem step_neg :
    s.step registry (.operator .neg) =
      .ok { s with opStack := .operator .neg :: s.opStack, arityStack := touch s.arityStack } := by
  have hnone : ∀ t ∈ s.opStack.head?, popsBefore .neg t = false := by
    intro t _
    cases t with
    | operator top => cases top <;> rfl
    | _ => rfl
  have hflush := RpnState.flush_eq (s := { s with arityStack := touch s.arityStack })
    (List.nil_append _).symm (fun _ h => nomatch h) hnone
  change Except.ok _ = _
  rw [if_pos rfl, hflush, List.append_nil]

theorem step_parenOpen (h : s.parenDepth + 1 ≤ 32) :
    s.step registry .parenOpen =
      .ok { s with
        opStack := .parenOpen :: s.opStack
        arityStack := touch s.arityStack
        parenDepth := s.parenDepth + 1 } := if_neg (by omega)

theorem step_function {name : String} (arity : ℕ) (hregistered : registry.isRegistered name = true)
    (h : s.funcDepth + 1 ≤ 16) :
    s.step registry (.function name arity) =
      .ok { s with
        opStack := .function name arity :: s.opStack
        arityStack := 0 :: touch s.arityStack
        funcDepth := s.funcDepth + 1 } := by
  change (if (!registry.isRegistered name) = true then _ else _) = _
  rw [hregistered, if_neg (by simp), if_neg (by omega)]

theorem notOpen_of_waiting {p : ℕ} {pending : List (Token V)} (h : Waiting p pending) :
    ∀ t ∈ pending, notOpen t = true := by
  intro t ht
  obtain ⟨op, rfl, _⟩ := h t ht
  rfl

theorem step_comma {p : ℕ} {pending below : List (Token V)} {arity : ℕ} {arities : List ℕ}
    (hstack : s.opStack = pending ++ .parenOpen :: below) (hpending : Waiting p pending)
    (harity : s.arityStack = arity :: arities) :
    s.step registry .comma =
      .ok { s with
        output := s.output ++ pending
        opStack := .parenOpen :: below
        arityStack := (arity + 1) :: arities } := by
  have hflush := RpnState.flush_eq hstack (notOpen_of_waiting hpending) (by rintro _ ⟨⟩; rfl)
  change Except.ok _ = _
  rw [hflush, harity]
  rfl

/-- A parenthesis that is no call's. -/
theorem step_parenClose {p : ℕ} {pending below : List (Token V)}
    (hstack : s.opStack = pending ++ .parenOpen :: below) (hpending : Waiting p pending)
    (hdepth : s.parenDepth ≠ 0) (hbelow : ∀ name arity, below.head? ≠ some (.function name arity)) :
    s.step registry .parenClose =
      .ok { s with
        output := s.output ++ pending
        opStack := below
        parenDepth := s.parenDepth - 1 } := by
  have hflush := RpnState.flush_eq hstack (notOpen_of_waiting hpending) (by rintro _ ⟨⟩; rfl)
  change (if s.parenDepth = 0 then _ else _) = _
  rw [if_neg hdepth, hflush]
  dsimp only
  split
  · rename_i hcons
    cases hcons
  · rename_i name arity opStack hcons
    cases hcons
    exact absurd rfl (hbelow name arity)
  · rename_i hcons
    cases hcons
    rfl

theorem step_parenClose_call {p : ℕ} {pending below : List (Token V)} {name : String} {a : ℕ}
    {arity : ℕ} {arities : List ℕ}
    (hstack : s.opStack = pending ++ .parenOpen :: .function name a :: below)
    (hpending : Waiting p pending) (hdepth : s.parenDepth ≠ 0)
    (harity : s.arityStack = arity :: arities) :
    s.step registry .parenClose =
      .ok { output := s.output ++ pending ++ [.function name arity]
            opStack := below
            arityStack := arities
            parenDepth := s.parenDepth - 1
            funcDepth := s.funcDepth - 1 } := by
  have hflush := RpnState.flush_eq hstack (notOpen_of_waiting hpending) (by rintro _ ⟨⟩; rfl)
  change (if s.parenDepth = 0 then _ else _) = _
  rw [if_neg hdepth, hflush, harity]
  rfl

end Steps

/-! What a tree does. -/

section Trees
variable {registry : FunctionRegistry V}

theorem Ready.head_ne_function {p : ℕ} {opStack : List (Token V)} (h : Ready p opStack)
    (name : String) (arity : ℕ) : opStack.head? ≠ some (.function name arity) := by
  cases opStack with
  | nil => exact fun h => nomatch h
  | cons t opStack =>
    rintro ⟨⟩
    exact h

/-- A tree between brackets leaves nothing waiting. -/
theorem leaves_paren {p : ℕ} {tokens rpn : List (Token V)} {s : RpnState V}
    (hready : Ready p s.opStack) (hparens : s.parenDepth + 1 ≤ 32)
    (h : Leaves registry 0 tokens rpn { s with
      opStack := .parenOpen :: s.opStack
      arityStack := touch s.arityStack
      parenDepth := s.parenDepth + 1 }) :
    Leaves registry p (.parenOpen :: tokens ++ [.parenClose]) rpn s := by
  obtain ⟨output, pending, hwaiting, houtput, hrun⟩ := h
  refine ⟨output ++ pending, [], fun _ h => (nomatch h), ?_, ?_⟩
  · rw [List.append_nil, houtput]
  · rw [List.cons_append, RpnState.run_cons (step_parenOpen hparens), RpnState.run_append hrun,
      RpnState.run_cons (step_parenClose rfl hwaiting (Nat.succ_ne_zero _) hready.head_ne_function),
      touch_touch]
    rfl

/-- A tree in its place, with brackets where it needs them. -/
theorem leaves_bracket {p level parens : ℕ} {tokens rpn : List (Token V)} {s : RpnState V}
    (hready : Ready p s.opStack)
    (hparens : s.parenDepth + (parens + if level < p then 1 else 0) ≤ 32)
    (h : ∀ (q : ℕ) (s' : RpnState V), q ≤ level → Ready q s'.opStack →
      s'.parenDepth + parens ≤ 32 → s'.funcDepth = s.funcDepth → Leaves registry q tokens rpn s') :
    Leaves registry p (bracket p level tokens) rpn s := by
  unfold bracket
  by_cases hlow : level < p
  · rw [if_pos hlow] at hparens
    rw [if_pos hlow]
    apply leaves_paren hready (by omega)
    refine h 0 { s with
      opStack := .parenOpen :: s.opStack
      arityStack := touch s.arityStack
      parenDepth := s.parenDepth + 1 } (Nat.zero_le _) trivial ?_ rfl
    change s.parenDepth + 1 + parens ≤ 32
    omega
  · rw [if_neg hlow] at hparens
    rw [if_neg hlow]
    exact h p s (by omega) hready (by omega) rfl

/-- The left operand, the operator and the right operand. -/
theorem leaves_binary {p : ℕ} {op : Operator} (hop : op ≠ .neg) (hp : p ≤ op.precedence)
    {ltokens rtokens lrpn rrpn : List (Token V)} {s : RpnState V} (hready : Ready p s.opStack)
    (hl : Leaves registry op.leftLevel ltokens lrpn s)
    (hr : ∀ s' : RpnState V, Ready op.rightLevel s'.opStack → s'.parenDepth = s.parenDepth →
      s'.funcDepth = s.funcDepth → Leaves registry op.rightLevel rtokens rrpn s') :
    Leaves registry p (ltokens ++ .operator op :: rtokens) (lrpn ++ rrpn ++ [.operator op]) s := by
  obtain ⟨output, pending, hwaiting, houtput, hrun⟩ := hl
  have hright : Ready op.rightLevel (.operator op :: s.opStack) := by
    cases op <;> simp [Ready, Operator.rightLevel, Operator.precedence, Operator.isLeftAssociative]
  obtain ⟨output', pending', hwaiting', houtput', hrun'⟩ := hr
    { s with
      output := output ++ pending
      opStack := .operator op :: s.opStack
      arityStack := touch s.arityStack } hright rfl rfl
  have hle : p ≤ op.rightLevel := by
    unfold Operator.rightLevel
    split_ifs <;> omega
  refine ⟨output', pending' ++ [.operator op], ?_, ?_, ?_⟩
  · intro t ht
    rcases List.mem_append.mp ht with ht | ht
    · exact hwaiting'.mono hle t ht
    · exact ⟨op, List.mem_singleton.mp ht, hp⟩
  · rw [← List.append_assoc, houtput']
    change output ++ pending ++ rrpn ++ [.operator op] = _
    rw [houtput, List.append_assoc s.output, List.append_assoc s.output]
  · rw [RpnState.run_append hrun,
      RpnState.run_cons (step_operator hop rfl hwaiting (popsBefore_of_ready hready hp)), hrun',
      touch_touch, List.append_assoc]
    rfl

theorem leaves_neg {p : ℕ} (hp : p ≤ Operator.neg.precedence) {tokens rpn : List (Token V)}
    {s : RpnState V}
    (h : Leaves registry 4 tokens rpn { s with
      opStack := .operator .neg :: s.opStack
      arityStack := touch s.arityStack }) :
    Leaves registry p (.operator .neg :: tokens) (rpn ++ [.operator .neg]) s := by
  obtain ⟨output, pending, hwaiting, houtput, hrun⟩ := h
  refine ⟨output, pending ++ [.operator .neg], ?_, ?_, ?_⟩
  · intro t ht
    rcases List.mem_append.mp ht with ht | ht
    · exact hwaiting.mono hp t ht
    · exact ⟨.neg, List.mem_singleton.mp ht, hp⟩
  · rw [← List.append_assoc, houtput]
    exact List.append_assoc _ _ _
  · rw [RpnState.run_cons step_neg, hrun, touch_touch, List.append_assoc]
    rfl

/-- The arguments of a call: the top of the counts is how many were read. -/
def LeavesArgs (registry : FunctionRegistry V) (tokens rpn : List (Token V)) (count : ℕ)
    (s : RpnState V) : Prop :=
  ∀ arities, s.arityStack = 1 :: arities → ∃ output pending, Waiting 0 pending ∧
    output ++ pending = s.output ++ rpn ∧
    RpnState.run registry tokens s =
      .ok { s with
        output := output
        opStack := pending ++ s.opStack
        arityStack := count :: arities }

/-- A function, its arguments between brackets, and nothing left waiting. -/
theorem leaves_call {p : ℕ} {name : String} {tokens rpn : List (Token V)} {count : ℕ}
    {s : RpnState V} (hregistered : registry.isRegistered name = true)
    (hparens : s.parenDepth + 1 ≤ 32) (hcalls : s.funcDepth + 1 ≤ 16)
    (h : ∀ s' : RpnState V, s'.opStack.head? = some .parenOpen →
      s'.parenDepth = s.parenDepth + 1 → s'.funcDepth = s.funcDepth + 1 →
      LeavesArgs registry tokens rpn count s') :
    Leaves registry p (.function name 0 :: .parenOpen :: tokens ++ [.parenClose])
      (rpn ++ [.function name count]) s := by
  obtain ⟨output, pending, hwaiting, houtput, hrun⟩ := h
    { s with
      opStack := .parenOpen :: .function name 0 :: s.opStack
      arityStack := 1 :: touch s.arityStack
      parenDepth := s.parenDepth + 1
      funcDepth := s.funcDepth + 1 } rfl rfl rfl (touch s.arityStack) rfl
  refine ⟨output ++ pending ++ [.function name count], [], fun _ h => (nomatch h), ?_, ?_⟩
  · rw [List.append_nil, houtput]
    exact List.append_assoc _ _ _
  · have hopen := @step_parenOpen V registry { s with
      opStack := .function name 0 :: s.opStack
      arityStack := 0 :: touch s.arityStack
      funcDepth := s.funcDepth + 1 } hparens
    rw [List.cons_append, List.cons_append, RpnState.run_cons (step_function 0 hregistered hcalls),
      RpnState.run_cons hopen, touch, RpnState.run_append hrun,
      RpnState.run_cons (step_parenClose_call rfl hwaiting (Nat.succ_ne_zero _) rfl)]
    rfl

theorem Ready.mono {p q : ℕ} {opStack : List (Token V)} (h : Ready p opStack) (hpq : p ≤ q) :
    Ready q opStack := by
  cases opStack with
  | nil => trivial
  | cons t opStack =>
    cases t with
    | operator top =>
      rcases h with h | ⟨h, hassoc⟩
      · exact .inl (h.trans_le hpq)
      · rcases hpq.lt_or_eq with hlt | heq
        · exact .inl (h.trans_lt hlt)
        · exact .inr ⟨h.trans heq, hassoc⟩
    | function name arity => exact h
    | _ => trivial

theorem ready_of_open {p : ℕ} {opStack : List (Token V)} (h : opStack.head? = some .parenOpen) :
    Ready p opStack := by
  cases opStack with
  | nil => cases h
  | cons t opStack =>
    cases h
    trivial

mutual
/-- The induction of the parser, over the tree. -/
theorem Expr.leaves : ∀ (e : Expr V) (p : ℕ) (s : RpnState V), p ≤ e.level → Ready p s.opStack →
    s.parenDepth + e.parens ≤ 32 → s.funcDepth + e.calls ≤ 16 → e.Declared registry →
    Leaves registry p e.tokens e.rpn s
  | .literal val, p, s, hp, hready, hparens, hcalls, hdeclared =>
    ⟨_, [], fun _ h => (nomatch h), List.append_nil _, rfl⟩
  | .var name, p, s, hp, hready, hparens, hcalls, hdeclared =>
    ⟨_, [], fun _ h => (nomatch h), List.append_nil _, rfl⟩
  | .binary op hop l r, p, s, hp, hready, hparens, hcalls, hdeclared => by
    rw [Expr.parens] at hparens
    rw [Expr.calls] at hcalls
    have hle : p ≤ op.leftLevel := by
      change p ≤ op.precedence at hp
      unfold Operator.leftLevel
      split_ifs <;> omega
    have hl : s.parenDepth + (l.parens + if l.level < op.leftLevel then 1 else 0) ≤ 32 :=
      (Nat.add_le_add_left (le_max_left _ _) _).trans hparens
    have hr : s.parenDepth + (r.parens + if r.level < op.rightLevel then 1 else 0) ≤ 32 :=
      (Nat.add_le_add_left (le_max_right _ _) _).trans hparens
    apply leaves_binary hop hp hready
    · apply leaves_bracket (hready.mono hle) hl
      intro q s' hq hready' hparens' hfunc
      exact l.leaves q s' hq hready' hparens' (by omega) hdeclared.1
    · intro s' hready' hparens' hfunc'
      rw [← hparens'] at hr
      apply leaves_bracket hready' hr
      intro q s'' hq hready'' hparens'' hfunc
      exact r.leaves q s'' hq hready'' hparens'' (by omega) hdeclared.2
  | .neg e, p, s, hp, hready, hparens, hcalls, hdeclared => by
    rw [Expr.parens] at hparens
    apply leaves_neg hp
    refine leaves_bracket (Or.inr ⟨rfl, rfl⟩ : Ready 4 (.operator .neg :: s.opStack)) hparens ?_
    intro q s' hq hready' hparens' hfunc
    exact e.leaves q s' hq hready' hparens' (by rw [hfunc]; exact hcalls) hdeclared
  | .call name args, p, s, hp, hready, hparens, hcalls, hdeclared => by
    rw [Expr.parens] at hparens
    rw [Expr.calls] at hcalls
    apply leaves_call hdeclared.1 (by omega) (by omega)
    intro s' hopen hparens' hfunc
    exact args.leaves s' hopen (by omega) (by omega) hdeclared.2

theorem Args.leaves : ∀ (args : Args V) (s : RpnState V), s.opStack.head? = some .parenOpen →
    s.parenDepth + args.parens ≤ 32 → s.funcDepth + args.calls ≤ 16 → args.Declared registry →
    LeavesArgs registry args.tokens args.rpn args.count s
  | .one e, s, hopen, hparens, hcalls, hdeclared => by
    intro arities harity
    obtain ⟨output, pending, hwaiting, houtput, hrun⟩ :=
      e.leaves 0 s (Nat.zero_le _) (ready_of_open hopen) hparens hcalls hdeclared
    refine ⟨output, pending, hwaiting, houtput, ?_⟩
    rw [harity] at hrun
    exact hrun
  | .more args e, s, hopen, hparens, hcalls, hdeclared => by
    intro arities harity
    rw [Args.parens] at hparens
    rw [Args.calls] at hcalls
    obtain ⟨output, pending, hwaiting, houtput, hrun⟩ :=
      args.leaves s hopen (by omega) (by omega) hdeclared.1 arities harity
    obtain ⟨below, hbelow⟩ : ∃ below, s.opStack = .parenOpen :: below := by
      cases hstack : s.opStack with
      | nil =>
        rw [hstack] at hopen
        cases hopen
      | cons t below =>
        rw [hstack] at hopen
        cases hopen
        exact ⟨below, rfl⟩
    obtain ⟨output', pending', hwaiting', houtput', hrun'⟩ := e.leaves 0
      { s with
        output := output ++ pending
        opStack := .parenOpen :: below
        arityStack := (args.count + 1) :: arities } (Nat.zero_le _) trivial
      ((Nat.add_le_add_left (le_max_right _ _) _).trans hparens)
      ((Nat.add_le_add_left (le_max_right _ _) _).trans hcalls) hdeclared.2
    refine ⟨output', pending', hwaiting', ?_, ?_⟩
    · rw [houtput']
      change output ++ pending ++ e.rpn = _
      rw [houtput, List.append_assoc]
      rfl
    · rw [hbelow] at hrun
      rw [Args.tokens, RpnState.run_append hrun, RpnState.run_cons (step_comma rfl hwaiting rfl),
        hrun', hbelow]
      rfl
end

/-- The tokens of a tree within the limits are put into its postfix order. -/
theorem toRpn_tokens {e : Expr V} (hparens : e.parens ≤ 32) (hcalls : e.calls ≤ 16)
    (hdeclared : e.Declared registry) : toRpn e.tokens registry = .ok e.rpn := by
  obtain ⟨output, pending, hwaiting, houtput, hrun⟩ := e.leaves 0 {} (Nat.zero_le _) trivial
    ((Nat.zero_add _).trans_le hparens) ((Nat.zero_add _).trans_le hcalls) hdeclared
  have hall : (pending ++ []).all notOpen = true := by
    rw [List.append_nil, List.all_eq_true]
    exact notOpen_of_waiting hwaiting
  unfold toRpn
  rw [hrun]
  change (if (pending ++ []).all notOpen = true then _ else _) = _
  rw [if_pos hall, List.append_nil]
  exact congrArg Except.ok houtput

end Trees

/-! ### Spelling -/

/-- A character that would carry a name or a number on. -/
def inWord (c : Char) : Bool := c.isAlphanum || c = '_' || c = '-' || c = '/' || c = '.'

/-- Digits with a point at most. -/
structure IsNumeral (word : List Char) : Prop where
  nonempty : word ≠ []
  digits : ∀ c ∈ word, c.isDigit ∨ c = '.'
  point : word.count '.' ≤ 1

/-- What follows the first letter of a name: a slash with a letter behind it among the rest. -/
def IsNameRest : List Char → Prop
  | [] => True
  | c :: word =>
    (c.isAlphanum ∨ c = '_' ∨ c = '-' ∨ c = '/' ∧ ∃ d ∈ word.head?, d.isAlpha ∨ d = '_') ∧
      IsNameRest word

def IsName : List Char → Prop
  | [] => False
  | c :: word => (c.isAlpha ∨ c = '_') ∧ IsNameRest word

def Operator.sign : Operator → Char
  | .add => '+'
  | .sub | .neg => '-'
  | .mul => '*'
  | .div => '/'
  | .mod => '%'
  | .power => '^'

/-- A token as it is written. -/
def Writes (A : Arithmetic V) : Token V → List Char → Prop
  | .literal val, word => IsNumeral word ∧ A.parse (String.ofList word) = some val
  | .var name, word => IsName word ∧ String.ofList word = name
  | .operator op, word => word = [op.sign]
  | .function name arity, word =>
    IsName word ∧ toUppercase (String.ofList word) = name ∧ arity = 0
  | .parenOpen, word => word = ['(']
  | .parenClose, word => word = [')']
  | .comma, word => word = [',']

def isWord : Token V → Bool
  | .literal _ | .var _ | .function _ _ => true
  | _ => false

/-- The tokens written one after the other with any blanks before each; after a name or a
number comes a character that does not carry it on. -/
inductive Spells (A : Arithmetic V) : List (Token V) → List Char → Prop where
  | nil : Spells A [] []
  | cons {token : Token V} {tokens : List (Token V)} {blanks word rest : List Char}
      (hblanks : ∀ c ∈ blanks, isBlank c = true) (hword : Writes A token word)
      (hend : isWord token = true → ∀ c ∈ rest.head?, inWord c = false)
      (hrest : Spells A tokens rest) : Spells A (token :: tokens) (blanks ++ (word ++ rest))

theorem scanIdentifier_name {word rest : List Char} (h : IsNameRest word)
    (hrest : ∀ c ∈ rest.head?, inWord c = false) : scanIdentifier (word ++ rest) = (word, rest) := by
  induction word with
  | nil =>
    cases rest with
    | nil => rfl
    | cons c rest =>
      have hc := hrest c rfl
      simp only [inWord, Bool.or_eq_false_iff, decide_eq_false_iff_not] at hc
      rw [List.nil_append, scanIdentifier, if_neg]
      simp [hc]
  | cons c word ih =>
    obtain ⟨hc, hword⟩ := h
    rw [List.cons_append, scanIdentifier, if_pos, ih hword]
    rcases hc with hc | hc | hc | ⟨hc, d, hd, hletter⟩
    · simp [hc]
    · simp [hc]
    · simp [hc]
    · cases word with
      | nil => cases hd
      | cons d' word =>
        cases hd
        simp [hc, hletter]

theorem scanNumber_numeral {word rest : List Char} {hasDot : Bool}
    (h : ∀ c ∈ word, c.isDigit ∨ c = '.') (hpoint : word.count '.' + hasDot.toNat ≤ 1)
    (hrest : ∀ c ∈ rest.head?, inWord c = false) :
    scanNumber hasDot (word ++ rest) = (word, rest) := by
  induction word generalizing hasDot with
  | nil =>
    cases rest with
    | nil => rfl
    | cons c rest =>
      have hc := hrest c rfl
      simp only [inWord, Bool.or_eq_false_iff, decide_eq_false_iff_not, Char.isAlphanum] at hc
      rw [List.nil_append, scanNumber, if_neg (by simp [hc]), if_neg (by simp [hc])]
  | cons c word ih =>
    have hword := fun d hd => h d (List.mem_cons_of_mem _ hd)
    rw [List.cons_append, scanNumber]
    rcases h c List.mem_cons_self with hc | rfl
    · have hne : c ≠ '.' := by
        rintro rfl
        revert hc
        decide
      rw [List.count_cons_of_ne hne] at hpoint
      rw [if_pos hc, ih hword hpoint]
    · rw [List.count_cons_self] at hpoint
      have hno : hasDot = false := by
        cases hasDot with
        | false => rfl
        | true =>
          change word.count '.' + 1 + 1 ≤ 1 at hpoint
          omega
      rw [if_neg (by decide), hno, if_pos (by decide), ih hword]
      change word.count '.' + 1 ≤ 1
      omega

/-! Characters. -/

/-- A character that a word can begin with. -/
def StartsWord (c : Char) : Prop := (c.isDigit ∨ c = '.') ∨ (c.isAlpha ∨ c = '_')

theorem toNat_of_digit {c : Char} (h : c.isDigit ∨ c = '.') :
    c.toNat = 46 ∨ 48 ≤ c.toNat ∧ c.toNat ≤ 57 := by
  rcases h with h | rfl
  · simp only [Char.isDigit, Bool.and_eq_true, decide_eq_true_eq] at h
    exact .inr h
  · exact .inl rfl

theorem toNat_of_alpha {c : Char} (h : c.isAlpha ∨ c = '_') :
    c.toNat = 95 ∨ 65 ≤ c.toNat ∧ c.toNat ≤ 90 ∨ 97 ≤ c.toNat ∧ c.toNat ≤ 122 := by
  rcases h with h | rfl
  · change (decide (c.val ≥ 65 ∧ c.val ≤ 90) || (c.val ≥ 97 && c.val ≤ 122)) = true at h
    simp only [Bool.or_eq_true, Bool.and_eq_true, decide_eq_true_eq] at h
    exact .inr h
  · exact .inl rfl

theorem not_digit_of_alpha {c : Char} (h : c.isAlpha ∨ c = '_') : ¬(c.isDigit ∨ c = '.') := by
  intro hdigit
  have hnum := toNat_of_digit hdigit
  have hletter := toNat_of_alpha h
  omega

theorem not_whitespace_of_startsWord {c : Char} (h : StartsWord c) : isWhitespace c = false := by
  have hcode : 46 ≤ c.toNat ∧ c.toNat ≤ 122 := by
    rcases h with h | h
    · have hnum := toNat_of_digit h
      omega
    · have hletter := toNat_of_alpha h
      omega
  have hspaces : c.toNat ∉ [0x20, 0x85, 0xA0, 0x1680, 0x2028, 0x2029, 0x202F, 0x205F, 0x3000] := by
    simp only [List.mem_cons, List.not_mem_nil, or_false]
    omega
  simp only [isWhitespace, Bool.or_eq_false_iff, Bool.and_eq_false_iff, decide_eq_false_iff_not,
    List.contains_eq_mem]
  exact ⟨⟨by omega, by omega⟩, hspaces⟩

theorem symbol_eq_none (last : Option (Token V)) {c : Char} (h : StartsWord c) :
    symbol last c = none := by
  have hcode : c.toNat = 46 ∨ 48 ≤ c.toNat ∧ c.toNat ≤ 57 ∨ 65 ≤ c.toNat ∧ c.toNat ≤ 90 ∨
      c.toNat = 95 ∨ 97 ≤ c.toNat ∧ c.toNat ≤ 122 := by
    rcases h with h | h
    · have hnum := toNat_of_digit h
      omega
    · have hletter := toNat_of_alpha h
      omega
  unfold symbol
  split <;> first | rfl | (exfalso; revert hcode; decide)

theorem whitespace_of_blank {c : Char} (h : isBlank c = true) : isWhitespace c = true := by
  simp only [isBlank, Bool.or_eq_true, decide_eq_true_eq] at h
  rcases h with ((rfl | rfl) | rfl) | rfl <;> decide

theorem not_blank {c : Char} (h : isWhitespace c = false) : isBlank c = false := by
  cases hblank : isBlank c with
  | false => rfl
  | true =>
    rw [whitespace_of_blank hblank] at h
    cases h

/-! ### Lexing -/

section Lexing
variable {A : Arithmetic V} {total : ℕ}

theorem Writes.ne_nil {token : Token V} {word : List Char} (h : Writes A token word) : word ≠ [] := by
  cases token with
  | literal val => exact h.1.nonempty
  | var name =>
    rintro rfl
    exact h.1
  | function name arity =>
    rintro rfl
    exact h.1
  | _ =>
    rw [show word = _ from h]
    exact List.cons_ne_nil _ _

theorem IsNumeral.head {c : Char} {word : List Char} (h : IsNumeral (c :: word)) : StartsWord c :=
  .inl (h.digits c List.mem_cons_self)

/-- A word does not begin with a blank. -/
theorem Writes.head_not_whitespace {token : Token V} {c : Char} {word : List Char}
    (h : Writes A token (c :: word)) : isWhitespace c = false := by
  cases token with
  | literal val => exact not_whitespace_of_startsWord h.1.head
  | var name => exact not_whitespace_of_startsWord (.inr h.1.1)
  | function name arity => exact not_whitespace_of_startsWord (.inr h.1.1)
  | operator op =>
    cases h
    cases op <;> decide
  | _ =>
    cases h
    decide

theorem lexFrom_blanks {blanks chars : List Char} (h : ∀ c ∈ blanks, isBlank c = true)
    {tokens : List (Token V)} (hcount : tokens.length < 512) :
    lexFrom A total (blanks ++ chars) tokens = lexFrom A total chars tokens := by
  induction blanks with
  | nil => rfl
  | cons c blanks ih =>
    rw [List.cons_append, lexFrom, if_neg (by omega), if_pos (h c List.mem_cons_self)]
    exact ih fun d hd => h d (List.mem_cons_of_mem _ hd)

theorem lexFrom_symbol {c : Char} {rest : List Char} {tokens : List (Token V)} {token : Token V}
    (hcount : tokens.length < 512) (hblank : isBlank c = false)
    (hsymbol : symbol tokens.getLast? c = some token) :
    lexFrom A total (c :: rest) tokens = lexFrom A total rest (tokens ++ [token]) := by
  rw [lexFrom, if_neg (by omega), hblank, if_neg Bool.false_ne_true, hsymbol]

theorem lexFrom_numeral {word rest : List Char} {tokens : List (Token V)} {val : V}
    (hcount : tokens.length < 512) (hword : IsNumeral word)
    (hval : A.parse (String.ofList word) = some val) (hend : ∀ c ∈ rest.head?, inWord c = false) :
    lexFrom A total (word ++ rest) tokens = lexFrom A total rest (tokens ++ [.literal val]) := by
  cases word with
  | nil => exact absurd rfl hword.nonempty
  | cons c word =>
    have hstart := hword.head
    have hscan : scanNumber false (c :: word ++ rest) = (c :: word, rest) :=
      scanNumber_numeral hword.digits hword.point hend
    rw [List.cons_append] at hscan ⊢
    rw [lexFrom, if_neg (by omega), not_blank (not_whitespace_of_startsWord hstart),
      if_neg Bool.false_ne_true, symbol_eq_none _ hstart]
    dsimp only
    rw [dif_pos (hword.digits c List.mem_cons_self), hscan]
    dsimp only
    rw [hval]

theorem lexFrom_name {word rest : List Char} {tokens : List (Token V)}
    (hcount : tokens.length < 512) (hword : IsName word)
    (hend : ∀ c ∈ rest.head?, inWord c = false) :
    lexFrom A total (word ++ rest) tokens =
      lexFrom A total (rest.dropWhile isWhitespace)
        (tokens ++ [if (rest.dropWhile isWhitespace).head? = some '(' then
            .function (toUppercase (String.ofList word)) 0
          else .var (String.ofList word)]) := by
  cases word with
  | nil => exact absurd hword id
  | cons c word =>
    obtain ⟨hletter, hrest⟩ := hword
    have hstart : StartsWord c := .inr hletter
    have hname : IsNameRest (c :: word) := by
      refine ⟨?_, hrest⟩
      rcases hletter with h | h
      · exact .inl (by simp [Char.isAlphanum, h])
      · exact .inr (.inl h)
    have hscan := scanIdentifier_name hname hend
    rw [List.cons_append] at hscan ⊢
    rw [lexFrom, if_neg (by omega), not_blank (not_whitespace_of_startsWord hstart),
      if_neg Bool.false_ne_true, symbol_eq_none _ hstart]
    dsimp only
    rw [dif_neg (not_digit_of_alpha hletter), dif_pos hletter, hscan]

theorem isUnary_some (t : Token V) : isUnary (some t) = wantsOperand t := by
  cases t <;> rfl

theorem Spells.drop_blanks {tokens : List (Token V)} {chars : List Char} (h : Spells A tokens chars) :
    Spells A tokens (chars.dropWhile isWhitespace) := by
  cases h with
  | nil => exact .nil
  | @cons token tokens blanks word rest hblanks hword hend hrest =>
    rw [List.dropWhile_append_of_pos fun c hc => whitespace_of_blank (hblanks c hc)]
    cases word with
    | nil => exact absurd rfl hword.ne_nil
    | cons c word =>
      rw [List.cons_append, List.dropWhile_cons, hword.head_not_whitespace]
      exact @Spells.cons V A token tokens [] (c :: word) rest (fun _ h => nomatch h) hword hend hrest

/-- Only a parenthesis begins with its sign. -/
theorem Writes.head_eq_open {token : Token V} {c : Char} {word : List Char}
    (h : Writes A token (c :: word)) : c = '(' ↔ isParenOpen token = true := by
  have hword : StartsWord c → c ≠ '(' := by
    rintro hstart rfl
    revert hstart
    unfold StartsWord
    decide
  cases token with
  | literal val => exact ⟨fun hc => absurd hc (hword h.1.head), fun hopen => nomatch hopen⟩
  | var name => exact ⟨fun hc => absurd hc (hword (.inr h.1.1)), fun hopen => nomatch hopen⟩
  | function name arity => exact ⟨fun hc => absurd hc (hword (.inr h.1.1)), fun hopen => nomatch hopen⟩
  | operator op =>
    cases h
    exact iff_of_false (by cases op <;> decide) Bool.false_ne_true
  | parenOpen =>
    cases h
    exact ⟨fun _ => rfl, fun _ => rfl⟩
  | parenClose =>
    cases h
    exact iff_of_false (by decide) Bool.false_ne_true
  | comma =>
    cases h
    exact iff_of_false (by decide) Bool.false_ne_true

theorem Spells.head_eq_open {tokens : List (Token V)} {chars : List Char} (h : Spells A tokens chars) :
    (chars.dropWhile isWhitespace).head? = some '(' ↔ ∃ t ∈ tokens.head?, isParenOpen t = true := by
  cases h with
  | nil => exact ⟨fun h => (nomatch h), fun ⟨_, h, _⟩ => (nomatch h)⟩
  | @cons token tokens blanks word rest hblanks hword hend hrest =>
    rw [List.dropWhile_append_of_pos fun c hc => whitespace_of_blank (hblanks c hc)]
    cases word with
    | nil => exact absurd rfl hword.ne_nil
    | cons c word =>
      rw [List.cons_append, List.dropWhile_cons, hword.head_not_whitespace]
      change some c = some '(' ↔ _
      rw [Option.some_inj, hword.head_eq_open]
      exact ⟨fun h => ⟨token, rfl, h⟩, fun ⟨t, ht, h⟩ => by cases ht; exact h⟩

/-- The tokens of a formula whose neighbours can stand together are read as they were written.
The induction is on the tokens that are left. -/
theorem lexFrom_spells {tokens : List (Token V)} {chars : List Char} (h : Spells A tokens chars)
    {before : List (Token V)} {last : Token V}
    (hlast : isUnary before.getLast? = wantsOperand last)
    (hchain : Chained (last :: tokens ++ [.parenClose]))
    (hcount : before.length + tokens.length ≤ 512) :
    lexFrom A total chars before = .ok (before ++ tokens) := by
  induction tokens generalizing chars before last with
  | nil =>
    cases h
    rw [lexFrom, List.append_nil]
  | cons token tokens ih =>
    obtain ⟨hfollows, hchain⟩ := List.isChain_cons_cons.mp hchain
    rw [List.length_cons] at hcount
    have hnext : isUnary (before ++ [token]).getLast? = wantsOperand token := by
      rw [List.getLast?_concat, isUnary_some]
    have hroom : (before ++ [token]).length + tokens.length ≤ 512 := by
      rw [List.length_append, List.length_singleton]
      omega
    cases h with
    | @cons _ _ blanks word rest hblanks hword hend hrest =>
      have hgo := ih hrest hnext hchain hroom
      have hdrop := ih hrest.drop_blanks hnext hchain hroom
      rw [List.append_assoc] at hgo hdrop
      rw [lexFrom_blanks hblanks (by omega)]
      cases token with
      | literal val =>
        rw [lexFrom_numeral (by omega) hword.1 hword.2 (hend rfl)]
        exact hgo
      | var name =>
        have hopen : (rest.dropWhile isWhitespace).head? ≠ some '(' := by
          rw [ne_eq, hrest.head_eq_open]
          rintro ⟨t, ht, hopen⟩
          cases tokens with
          | nil => cases ht
          | cons t' tokens =>
            cases ht
            have hbehind := (List.isChain_cons_cons.mp hchain).1
            cases t <;> first | exact absurd hopen Bool.false_ne_true | cases hbehind
        rw [lexFrom_name (by omega) hword.1 (hend rfl), if_neg hopen, hword.2]
        exact hdrop
      | function name arity =>
        have hopen : (rest.dropWhile isWhitespace).head? = some '(' := by
          rw [hrest.head_eq_open]
          cases tokens with
          | nil =>
            have hbehind := (List.isChain_cons_cons.mp hchain).1
            cases hbehind
          | cons t tokens => exact ⟨t, rfl, (List.isChain_cons_cons.mp hchain).1⟩
        obtain ⟨hname, hupper, rfl⟩ := hword
        rw [lexFrom_name (by omega) hname (hend rfl), if_pos hopen, hupper]
        exact hdrop
      | operator op =>
        cases hword
        have hsymbol : symbol before.getLast? op.sign = some (.operator op) := by
          cases op with
          | sub =>
            have hno : wantsOperand last = false := by
              cases hwants : wantsOperand last with
              | false => rfl
              | true =>
                rw [follows, if_pos hwants] at hfollows
                cases hfollows
            change some (Token.operator (if isUnary before.getLast? = true then _ else _)) = _
            rw [hlast, hno]
            rfl
          | neg =>
            have hyes : wantsOperand last = true := by
              cases last <;> first | rfl | cases hfollows
            change some (Token.operator (if isUnary before.getLast? = true then _ else _)) = _
            rw [hlast, hyes]
            rfl
          | _ => rfl
        rw [List.singleton_append, lexFrom_symbol (by omega) (by cases op <;> rfl) hsymbol]
        exact hgo
      | _ =>
        cases hword
        rw [List.singleton_append, lexFrom_symbol (by omega) rfl rfl]
        exact hgo

theorem Spells.not_blank {tokens : List (Token V)} {chars : List Char} (h : Spells A tokens chars)
    (hsome : tokens ≠ []) : chars.all isWhitespace = false := by
  cases h with
  | nil => exact absurd rfl hsome
  | @cons token tokens blanks word rest hblanks hword hend hrest =>
    cases word with
    | nil => exact absurd rfl hword.ne_nil
    | cons c word =>
      rw [List.all_eq_false]
      refine ⟨c, by simp, ?_⟩
      rw [hword.head_not_whitespace]
      exact Bool.false_ne_true

theorem tokenize_tokens {e : Expr V} {formula : String} (hspells : Spells A e.tokens formula.toList)
    (hbytes : utf8Length formula.toList ≤ 4096) (htokens : e.tokens.length ≤ 512) :
    tokenize A formula = .ok e.tokens := by
  have hchain := e.derives.alternates
  have hsome : e.tokens ≠ [] := by
    intro hnil
    rw [hnil] at hchain
    cases (List.isChain_cons_cons.mp hchain).1
  unfold tokenize
  rw [hspells.not_blank hsome, if_neg Bool.false_ne_true, if_neg (by omega)]
  exact @lexFrom_spells V A _ _ _ hspells [] .parenOpen rfl hchain ((Nat.zero_add _).trans_le htokens)

end Lexing

/-- A formula that spells the printed tree, within the limits of length, of tokens and of
nesting, has the value of the tree: the same number, or the same error. -/
theorem formula_value (A : Arithmetic V) (registry : FunctionRegistry V)
    (resolver : String → Option V) (e : Expr V) (formula : String)
    (hspells : Spells A e.tokens formula.toList) (hbytes : utf8Length formula.toList ≤ 4096)
    (htokens : e.tokens.length ≤ 512) (hparens : e.parens ≤ 32) (hcalls : e.calls ≤ 16)
    (hdeclared : e.Declared registry) :
    (do
      let tokens ← tokenize A formula
      let rpn ← toRpn tokens registry
      evaluate A resolver registry rpn) = e.value A resolver registry := by
  rw [tokenize_tokens hspells hbytes htokens]
  change (toRpn e.tokens registry >>= _) = _
  rw [toRpn_tokens hparens hcalls hdeclared]
  exact evaluate_rpn e

/-- A function of one argument that gives it back. -/
def identityOnly : FunctionRegistry ℤ :=
  ⟨fun name => if name = "ID" then some ⟨some 1, List.head?⟩ else none⟩

def signedCall : Expr ℤ :=
  .binary .mul (by decide) (.neg (.literal 2)) (.call "ID" (.one (.var "a")))

theorem signedCall_spelled : Spells integers signedCall.tokens "-2 * id(a)".toList := by
  have htext : "-2 * id(a)".toList = ['-'] ++ (['2'] ++ ([' '] ++ (['*'] ++ ([' '] ++ (['i', 'd'] ++
      (['('] ++ (['a'] ++ ([')'] ++ [])))))))) := by simp
  have hnone : ∀ c ∈ ([] : List Char), isBlank c = true := by simp
  have hblank : ∀ c ∈ [' '], isBlank c = true := by simp; decide
  have hclose : Spells integers [.parenClose] [')'] :=
    @Spells.cons ℤ integers _ _ [] [')'] [] hnone rfl (fun h => absurd h (by decide)) .nil
  have hvar : Spells integers [.var "a", .parenClose] ['a', ')'] :=
    @Spells.cons ℤ integers _ _ [] ['a'] _ hnone ⟨by simp [IsName, IsNameRest], rfl⟩
      (fun _ => by simp; decide) hclose
  have hopen : Spells integers [.parenOpen, .var "a", .parenClose] ['(', 'a', ')'] :=
    @Spells.cons ℤ integers _ _ [] ['('] _ hnone rfl (fun h => absurd h (by decide)) hvar
  have hname : IsName ['i', 'd'] := ⟨by decide, by simp [IsNameRest]⟩
  have hcall := @Spells.cons ℤ integers (.function "ID" 0) _ [' '] ['i', 'd'] _ hblank
    ⟨hname, by decide, rfl⟩ (fun _ => by simp; decide) hopen
  have htimes := @Spells.cons ℤ integers (.operator .mul) _ [' '] ['*'] _ hblank rfl
    (fun h => absurd h (by decide)) hcall
  have hdigit : ∀ c ∈ ['2'], c.isDigit ∨ c = '.' := by simp
  have htwo := @Spells.cons ℤ integers (.literal 2) _ [] ['2'] _ hnone
    ⟨⟨by decide, hdigit, by decide⟩, by decide⟩ (fun _ => by simp; decide) htimes
  have hminus := @Spells.cons ℤ integers (.operator .neg) _ [] ['-'] _ hnone rfl
    (fun h => absurd h (by decide)) htwo
  rw [htext]
  exact hminus

theorem formula_value_signedCall :
    (do
      let tokens ← tokenize integers "-2 * id(a)"
      let rpn ← toRpn tokens identityOnly
      evaluate integers (fun _ => some 5) identityOnly rpn) =
        signedCall.value integers (fun _ => some 5) identityOnly ∧
      signedCall.value integers (fun _ => some 5) identityOnly = .ok (-10) :=
  ⟨formula_value integers identityOnly _ signedCall "-2 * id(a)" signedCall_spelled
    (by decide +kernel) (by decide +kernel) (by decide +kernel) (by decide +kernel)
    ⟨⟨⟩, by decide +kernel, ⟨⟩⟩, rfl⟩

end MetriEngine.Aegis.Formula

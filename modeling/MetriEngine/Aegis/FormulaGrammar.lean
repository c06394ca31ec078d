import MetriEngine.Aegis.Formula

/-!
# Which formulas the parser lets through

The grammar of expressions, and what the parser checks of it. It counts parentheses and
knows its functions, but it does not look at what stands next to what: of the token lists that
it accepts the expressions are those in which every two neighbours can stand together and every
comma stands directly between the parentheses of a call.
-/
namespace MetriEngine.Aegis.Formula

variable {V : Type}

/-! ### The grammar -/

inductive Phrase where
  | expression
  | arguments
deriving DecidableEq

/-- A call has one argument at least; in brackets stands an expression. -/
inductive Derives : Phrase → List (Token V) → Prop where
  | literal (val : V) : Derives .expression [.literal val]
  | var (name : String) : Derives .expression [.var name]
  | binary (op : Operator) (hop : op ≠ .neg) {l r : List (Token V)} (hl : Derives .expression l)
      (hr : Derives .expression r) : Derives .expression (l ++ .operator op :: r)
  | neg {e : List (Token V)} (he : Derives .expression e) :
      Derives .expression (.operator .neg :: e)
  | paren {e : List (Token V)} (he : Derives .expression e) :
      Derives .expression (.parenOpen :: e ++ [.parenClose])
  | call (name : String) (arity : ℕ) {args : List (Token V)} (hargs : Derives .arguments args) :
      Derives .expression (.function name arity :: .parenOpen :: args ++ [.parenClose])
  | one {e : List (Token V)} (he : Derives .expression e) : Derives .arguments e
  | more {args e : List (Token V)} (hargs : Derives .arguments args) (he : Derives .expression e) :
      Derives .arguments (args ++ .comma :: e)

/-! ### Neighbours -/

/-- After this token an operand is missing. -/
def wantsOperand : Token V → Bool
  | .operator _ | .parenOpen | .comma => true
  | _ => false

def startsOperand : Token V → Bool
  | .literal _ | .var _ | .function _ _ | .parenOpen | .operator .neg => true
  | _ => false

def endsOperand : Token V → Bool
  | .literal _ | .var _ | .parenClose => true
  | _ => false

/-- This token can stand behind an operand. -/
def followsOperand : Token V → Bool
  | .operator .neg => false
  | .operator _ | .parenClose | .comma => true
  | _ => false

def isParenOpen : Token V → Bool
  | .parenOpen => true
  | _ => false

/-- The two can stand together. -/
def follows (a b : Token V) : Bool :=
  if wantsOperand a then startsOperand b
  else if endsOperand a then followsOperand b
  else isParenOpen b

/-- Every two neighbours can stand together, also at both ends of the formula in brackets. -/
def Alternates (tokens : List (Token V)) : Prop :=
  List.IsChain (fun a b => follows a b = true) (.parenOpen :: tokens ++ [.parenClose])

/-- Every comma stands directly between the parentheses of a call: the flags say of each open
parenthesis whether it is a call's, the innermost first, and of the token before whether it
names a function. -/
def commasInCalls : Bool → List Bool → List (Token V) → Bool
  | _, _, [] => true
  | _, calls, .function _ _ :: tokens => commasInCalls true calls tokens
  | afterName, calls, .parenOpen :: tokens => commasInCalls false (afterName :: calls) tokens
  | _, calls, .parenClose :: tokens => commasInCalls false calls.tail tokens
  | _, calls, .comma :: tokens => calls.headD false && commasInCalls false calls tokens
  | _, calls, _ :: tokens => commasInCalls false calls tokens

theorem commasInCalls_derives {phrase : Phrase} {w : List (Token V)} (h : Derives phrase w)
    (calls : List Bool) (rest : List (Token V))
    (hcalls : phrase = .arguments → calls.headD false = true) :
    commasInCalls false calls (w ++ rest) = commasInCalls false calls rest := by
  induction h generalizing calls rest with
  | literal val => rfl
  | var name => rfl
  | binary op hop hl hr ihl ihr =>
    rw [List.append_assoc, ihl calls _ nofun]
    exact ihr calls rest nofun
  | neg he ih => exact ih calls rest nofun
  | paren he ih =>
    change commasInCalls false (false :: calls) ((_ ++ [.parenClose]) ++ rest) = _
    rw [List.append_assoc, ih (false :: calls) _ nofun]
    rfl
  | call name arity hargs ih =>
    change commasInCalls false (true :: calls) ((_ ++ [.parenClose]) ++ rest) = _
    rw [List.append_assoc, ih (true :: calls) _ fun _ => rfl]
    rfl
  | one he ih => exact ih calls rest nofun
  | more hargs he ihargs ihe =>
    have hcall := hcalls rfl
    rw [List.append_assoc, ihargs calls _ hcalls]
    change (calls.headD false && commasInCalls false calls (_ ++ rest)) = _
    rw [hcall, Bool.true_and]
    exact ihe calls rest nofun

theorem follows_of_wants {a b : Token V} (ha : wantsOperand a = true) (hb : startsOperand b = true) :
    follows a b = true := by
  rw [follows, if_pos ha, hb]

theorem follows_of_ends {a b : Token V} (ha : endsOperand a = true) (hb : followsOperand b = true) :
    follows a b = true := by
  have hwants : wantsOperand a = false := by cases a <;> first | rfl | cases ha
  rw [follows, hwants, if_neg Bool.false_ne_true, if_pos ha, hb]

theorem followsOperand_operator {op : Operator} (hop : op ≠ .neg) :
    followsOperand (.operator op : Token V) = true := by
  cases op <;> first | rfl | exact absurd rfl hop

abbrev Chained (tokens : List (Token V)) : Prop :=
  List.IsChain (fun a b => follows a b = true) tokens

/-- An expression fits behind what wants an operand and before what can follow one. -/
theorem chained_derives {phrase : Phrase} {w : List (Token V)} (h : Derives phrase w)
    {a : Token V} {rest : List (Token V)} (ha : wantsOperand a = true)
    (hrest : ∀ z, endsOperand z = true → Chained (z :: rest)) : Chained (a :: w ++ rest) := by
  induction h generalizing a rest with
  | literal val =>
    exact List.isChain_cons_cons.mpr ⟨follows_of_wants ha rfl, hrest _ rfl⟩
  | var name =>
    exact List.isChain_cons_cons.mpr ⟨follows_of_wants ha rfl, hrest _ rfl⟩
  | binary op hop hl hr ihl ihr =>
    rw [← List.cons_append, List.append_assoc]
    apply ihl ha
    intro z hz
    exact List.isChain_cons_cons.mpr
      ⟨follows_of_ends hz (followsOperand_operator hop), ihr rfl hrest⟩
  | neg he ih =>
    exact List.isChain_cons_cons.mpr ⟨follows_of_wants ha rfl, ih rfl hrest⟩
  | @paren e he ih =>
    have hinner : Chained (.parenOpen :: e ++ .parenClose :: rest) := by
      apply ih rfl
      intro z hz
      exact List.isChain_cons_cons.mpr ⟨follows_of_ends hz rfl, hrest _ rfl⟩
    rw [List.cons_append, List.cons_append, List.cons_append, List.append_assoc]
    exact List.isChain_cons_cons.mpr ⟨follows_of_wants ha rfl, hinner⟩
  | @call name arity args hargs ih =>
    have hinner : Chained (.parenOpen :: args ++ .parenClose :: rest) := by
      apply ih rfl
      intro z hz
      exact List.isChain_cons_cons.mpr ⟨follows_of_ends hz rfl, hrest _ rfl⟩
    rw [List.cons_append, List.cons_append, List.cons_append, List.cons_append, List.cons_append,
      List.append_assoc]
    exact List.isChain_cons_cons.mpr
      ⟨follows_of_wants ha rfl, List.isChain_cons_cons.mpr ⟨rfl, hinner⟩⟩
  | one he ih => exact ih ha hrest
  | more hargs he ihargs ihe =>
    rw [← List.cons_append, List.append_assoc]
    apply ihargs ha
    intro z hz
    exact List.isChain_cons_cons.mpr ⟨follows_of_ends hz rfl, ihe rfl hrest⟩

theorem Derives.alternates {w : List (Token V)} (h : Derives .expression w) : Alternates w := by
  apply chained_derives h rfl
  intro z hz
  exact List.isChain_cons_cons.mpr ⟨follows_of_ends hz rfl, List.IsChain.singleton _⟩

theorem Derives.commas {w : List (Token V)} (h : Derives .expression w) :
    commasInCalls false [] w = true := by
  have hall := commasInCalls_derives h [] [] nofun
  rwa [List.append_nil] at hall

/-! ### Balance -/

/-- Every parenthesis is closed, `depth` of them being open. -/
def closes : ℕ → List (Token V) → Bool
  | depth, [] => depth = 0
  | depth, .parenOpen :: tokens => closes (depth + 1) tokens
  | 0, .parenClose :: _ => false
  | depth + 1, .parenClose :: tokens => closes depth tokens
  | depth, _ :: tokens => closes depth tokens

def openCount (opStack : List (Token V)) : ℕ := opStack.countP isParenOpen

theorem openCount_dropWhile {p : Token V → Bool} (hp : p .parenOpen = false)
    (opStack : List (Token V)) : openCount (opStack.dropWhile p) = openCount opStack := by
  induction opStack with
  | nil => rfl
  | cons t opStack ih =>
    rw [List.dropWhile_cons]
    split_ifs with ht
    · have hopen : isParenOpen t = false := by
        cases t <;> first | rfl | (rw [hp] at ht; cases ht)
      rw [ih, openCount, openCount, List.countP_cons, hopen]
      rfl
    · rfl

theorem openCount_cons {t : Token V} (ht : isParenOpen t = false) (opStack : List (Token V)) :
    openCount (t :: opStack) = openCount opStack := by
  rw [openCount, openCount, List.countP_cons, ht]
  rfl

/-- A flush up to the open parenthesis leaves it on the top. -/
theorem head_of_flush {opStack : List (Token V)} {t : Token V} {below : List (Token V)}
    (h : opStack.dropWhile notOpen = t :: below) : t = .parenOpen := by
  have hhead := List.head?_dropWhile_not notOpen opStack
  rw [h, List.head?_cons] at hhead
  cases t <;> first | rfl | cases hhead

/-- What one token does to the parentheses that are open. -/
theorem step_openCount {registry : FunctionRegistry V} {s s' : RpnState V} {token : Token V}
    (h : s.step registry token = .ok s') (hs : openCount s.opStack = s.parenDepth)
    (rest : List (Token V)) :
    openCount s'.opStack = s'.parenDepth ∧
      closes s.parenDepth (token :: rest) = closes s'.parenDepth rest := by
  unfold RpnState.step at h
  cases token with
  | literal val =>
    cases h
    exact ⟨hs, rfl⟩
  | var name =>
    cases h
    exact ⟨hs, rfl⟩
  | operator op =>
    cases h
    have hsame : (if op = .neg then { s with arityStack := touch s.arityStack } else s).opStack =
        s.opStack ∧ (if op = .neg then { s with arityStack := touch s.arityStack } else s).parenDepth =
        s.parenDepth := by
      split_ifs <;> exact ⟨rfl, rfl⟩
    constructor
    · change openCount (.operator op :: List.dropWhile (popsBefore op) _) = _
      rw [openCount_cons rfl, openCount_dropWhile rfl, hsame.1, hs]
      exact hsame.2.symm
    · change closes _ rest = closes (RpnState.parenDepth (ite _ _ _)) rest
      rw [hsame.2]
  | function name arity =>
    dsimp only at h
    split_ifs at h
    cases h
    exact ⟨hs, rfl⟩
  | parenOpen =>
    dsimp only at h
    split_ifs at h
    cases h
    refine ⟨?_, rfl⟩
    change openCount (.parenOpen :: s.opStack) = s.parenDepth + 1
    rw [openCount, List.countP_cons, ← hs]
    rfl
  | parenClose =>
    dsimp only at h
    split_ifs at h with hdepth
    obtain ⟨depth, hd⟩ := Nat.exists_eq_succ_of_ne_zero hdepth
    have hcount := openCount_dropWhile (p := notOpen) rfl s.opStack
    have hflush : (s.flush notOpen).opStack = s.opStack.dropWhile notOpen := rfl
    rw [hs, hd] at hcount
    rw [hflush] at h
    rw [hd]
    cases hstack : s.opStack.dropWhile notOpen with
    | nil =>
      rw [hstack] at h
      cases h
    | cons t below =>
      rw [hstack] at h hcount
      rw [head_of_flush hstack, openCount, List.countP_cons_of_pos rfl] at hcount
      have hbelow : openCount below = depth := Nat.succ_injective hcount
      split at h
      · rename_i hcons
        cases hcons
      · rename_i name arity opStack hcons
        cases hcons
        cases h
        rw [openCount_cons rfl] at hbelow
        dsimp only
        rw [hd]
        exact ⟨hbelow, rfl⟩
      · rename_i hcons
        cases hcons
        cases h
        dsimp only
        rw [hd]
        exact ⟨hbelow, rfl⟩
  | comma =>
    cases h
    refine ⟨?_, rfl⟩
    change openCount (s.opStack.dropWhile notOpen) = s.parenDepth
    rw [openCount_dropWhile rfl, hs]

theorem run_openCount {registry : FunctionRegistry V} {tokens : List (Token V)} {s s' : RpnState V}
    (h : RpnState.run registry tokens s = .ok s')
    (hs : openCount s.opStack = s.parenDepth) :
    openCount s'.opStack = s'.parenDepth ∧ closes s.parenDepth tokens = decide (s'.parenDepth = 0) := by
  induction tokens generalizing s with
  | nil =>
    cases h
    exact ⟨hs, rfl⟩
  | cons token tokens ih =>
    rw [RpnState.run] at h
    cases hstep : s.step registry token with
    | error e =>
      rw [hstep] at h
      cases h
    | ok next =>
      rw [hstep] at h
      obtain ⟨hcount, hcloses⟩ := step_openCount hstep hs tokens
      obtain ⟨hcount', hrest⟩ := ih h hcount
      exact ⟨hcount', hcloses.trans hrest⟩

/-- The parser accepts no formula with unbalanced parentheses. -/
theorem closes_of_toRpn {registry : FunctionRegistry V} {tokens rpn : List (Token V)}
    (h : toRpn tokens registry = .ok rpn) : closes 0 tokens = true := by
  unfold toRpn at h
  cases hrun : RpnState.run registry tokens ({} : RpnState V) with
  | error e =>
    rw [hrun] at h
    cases h
  | ok s =>
    rw [hrun] at h
    change s.finish = _ at h
    unfold RpnState.finish at h
    split_ifs at h with hall
    obtain ⟨hcount, hcloses⟩ := run_openCount hrun rfl
    have hzero : openCount s.opStack = 0 := by
      apply List.countP_eq_zero.mpr
      intro t ht
      have hnot := List.all_eq_true.mp hall t ht
      cases t <;> first | exact Bool.false_ne_true | cases hnot
    rw [hcloses, ← hcount, hzero]
    rfl

/-! ### From neighbours to expressions -/

/-- What stands before an operand that is missing: with any operand it is an expression. -/
def Wants (phrase : Phrase) (w : List (Token V)) : Prop :=
  ∀ e, Derives .expression e → Derives phrase (w ++ e)

theorem wants_nil : Wants .expression ([] : List (Token V)) := fun _ he => he

/-- A parenthesis that is open: what stands before it, and of a call the arguments that are
done, each with its comma. -/
inductive Frame (V : Type) where
  | paren (before : List (Token V))
  | call (before : List (Token V)) (name : String) (arity : ℕ) (done : List (Token V))

namespace Frame

def tokens : Frame V → List (Token V)
  | paren before => before ++ [.parenOpen]
  | call before name arity done => before ++ .function name arity :: .parenOpen :: done

def isCall : Frame V → Bool
  | paren _ => false
  | call .. => true

def Fits : Frame V → Prop
  | paren before => Wants .expression before
  | call before _ _ done => Wants .expression before ∧ Wants .arguments done

end Frame

/-- The innermost first. -/
def framed : List (Frame V) → List (Token V)
  | [] => []
  | frame :: frames => framed frames ++ frame.tokens

/-- What is known of the tokens since the last parenthesis that is open, by the last of all. -/
inductive Pending : Token V → List (Token V) → Prop where
  | wants {last : Token V} {w : List (Token V)} (hlast : wantsOperand last = true)
      (hw : Wants .expression w) : Pending last w
  | done {last : Token V} {w : List (Token V)} (hlast : endsOperand last = true)
      (hw : Derives .expression w) : Pending last w
  | named (name : String) (arity : ℕ) {w : List (Token V)} (hw : Wants .expression w) :
      Pending (.function name arity) (w ++ [.function name arity])

def isFunction : Token V → Bool
  | .function _ _ => true
  | _ => false

/-- The induction is on the tokens that are left. -/
theorem derives_of_pending (tokens : List (Token V)) (frames : List (Frame V))
    (hframes : ∀ frame ∈ frames, frame.Fits) {last : Token V} {w : List (Token V)}
    (hpending : Pending last w) (hchain : Chained (last :: tokens ++ [.parenClose]))
    (hcommas : commasInCalls (isFunction last) (frames.map Frame.isCall) tokens = true)
    (hcloses : closes frames.length tokens = true) :
    Derives .expression (framed frames ++ w ++ tokens) := by
  induction tokens generalizing frames last w with
  | nil =>
    have hends : follows last (.parenClose : Token V) = true :=
      (List.isChain_cons_cons.mp hchain).1
    have hnone : frames = [] := List.length_eq_zero_iff.mp (of_decide_eq_true hcloses)
    cases hpending with
    | wants hlast hw =>
      rw [follows, if_pos hlast] at hends
      cases hends
    | done hlast hw =>
      rw [hnone, List.append_nil]
      exact hw
    | named name arity hw => cases hends
  | cons token tokens ih =>
    obtain ⟨hfollows, hrest⟩ := List.isChain_cons_cons.mp hchain
    cases hpending with
    | wants hlast hw =>
      have hstarts : startsOperand token = true := by
        rwa [follows, if_pos hlast] at hfollows
      cases token with
      | literal val =>
        have hnext := ih frames hframes (.done rfl (hw _ (.literal val))) hrest hcommas hcloses
        simpa using hnext
      | var name =>
        have hnext := ih frames hframes (.done rfl (hw _ (.var name))) hrest hcommas hcloses
        simpa using hnext
      | operator op =>
        cases op with
        | neg =>
          have hsigned : Wants .expression (w ++ [.operator .neg]) := by
            intro e he
            rw [List.append_assoc]
            exact hw _ (.neg he)
          have hnext := ih frames hframes (.wants rfl hsigned) hrest hcommas hcloses
          simpa using hnext
        | _ => cases hstarts
      | function name arity =>
        have hnext := ih frames hframes (.named name arity hw) hrest hcommas hcloses
        simpa using hnext
      | parenOpen =>
        have hflag : isFunction last = false := by cases last <;> first | rfl | cases hlast
        rw [hflag] at hcommas
        have hnext := ih (.paren w :: frames) (List.forall_mem_cons.mpr ⟨hw, hframes⟩)
          (.wants rfl wants_nil) hrest hcommas hcloses
        simpa [framed, Frame.tokens] using hnext
      | parenClose => cases hstarts
      | comma => cases hstarts
    | done hlast hw =>
      have hbehind : followsOperand token = true := by
        have hnot : wantsOperand last = false := by cases last <;> first | rfl | cases hlast
        rwa [follows, hnot, if_neg Bool.false_ne_true, if_pos hlast] at hfollows
      cases token with
      | operator op =>
        have hop : op ≠ .neg := by
          rintro rfl
          cases hbehind
        have hmissing : Wants .expression (w ++ [.operator op]) := by
          intro e he
          rw [List.append_assoc]
          exact .binary op hop hw he
        have hnext := ih frames hframes (.wants rfl hmissing) hrest hcommas hcloses
        simpa using hnext
      | parenClose =>
        cases frames with
        | nil => cases hcloses
        | cons frame frames =>
          obtain ⟨hfits, hbelow⟩ := List.forall_mem_cons.mp hframes
          cases frame with
          | paren before =>
            have hnext := ih frames hbelow (.done rfl (hfits _ (.paren hw))) hrest hcommas hcloses
            simpa [framed, Frame.tokens] using hnext
          | call before name arity done =>
            have hcall := hfits.1 _ (.call name arity (hfits.2 _ hw))
            have hnext := ih frames hbelow (.done rfl hcall) hrest hcommas hcloses
            simpa [framed, Frame.tokens] using hnext
      | comma =>
        cases frames with
        | nil => cases hcommas
        | cons frame frames =>
          obtain ⟨hfits, hbelow⟩ := List.forall_mem_cons.mp hframes
          cases frame with
          | paren before => cases hcommas
          | call before name arity done =>
            have hdone : Wants .arguments (done ++ w ++ [.comma]) := by
              intro e he
              rw [List.append_assoc (done ++ w)]
              exact .more (hfits.2 _ hw) he
            have hnext := ih (.call before name arity (done ++ w ++ [.comma]) :: frames)
              (List.forall_mem_cons.mpr ⟨⟨hfits.1, hdone⟩, hbelow⟩) (.wants rfl wants_nil)
              hrest hcommas hcloses
            simpa [framed, Frame.tokens] using hnext
      | _ => cases hbehind
    | named name arity hw =>
      cases token with
      | parenOpen =>
        have hnext := ih (.call _ name arity [] :: frames)
          (List.forall_mem_cons.mpr ⟨⟨hw, fun _ he => .one he⟩, hframes⟩)
          (.wants rfl wants_nil) hrest hcommas hcloses
        simpa [framed, Frame.tokens] using hnext
      | _ => cases hfollows

/-- Of the token lists that the parser lets through. -/
theorem derives_iff {registry : FunctionRegistry V} {tokens rpn : List (Token V)}
    (h : toRpn tokens registry = .ok rpn) :
    Derives .expression tokens ↔ Alternates tokens ∧ commasInCalls false [] tokens = true := by
  constructor
  · intro hderives
    exact ⟨hderives.alternates, hderives.commas⟩
  · rintro ⟨hchain, hcommas⟩
    exact derives_of_pending tokens [] nofun (.wants rfl wants_nil) hchain hcommas
      (closes_of_toRpn h)

/-- The parser lets the tokens through and the evaluator gives them a value. -/
def Accepted (A : Arithmetic V) (resolver : String → Option V) (registry : FunctionRegistry V)
    (tokens : List (Token V)) : Prop :=
  ∃ rpn val, toRpn tokens registry = .ok rpn ∧ evaluate A resolver registry rpn = .ok val

/-- What has a value is an expression exactly when its neighbours can stand together and its
commas stand in calls. -/
theorem accepted_derives_iff (A : Arithmetic V) (resolver : String → Option V)
    (registry : FunctionRegistry V) (tokens : List (Token V)) :
    (Accepted A resolver registry tokens → Derives .expression tokens) ↔
      (Accepted A resolver registry tokens →
        Alternates tokens ∧ commasInCalls false [] tokens = true) := by
  apply forall_congr'
  rintro ⟨rpn, val, hrpn, hval⟩
  exact derives_iff hrpn

/-- The integers, with one function of any number of arguments. -/
def integers : Arithmetic ℤ where
  parse s :=
    if s.toList.all Char.isDigit then
      some (s.toList.foldl (fun n c => 10 * n + (c.toNat - 48)) 0)
    else none
  nan := 0
  isZero x := x = 0
  neg x := -x
  add := (· + ·)
  sub := (· - ·)
  mul := (· * ·)
  div := Int.tdiv
  rem := Int.tmod
  powf x y := x ^ y.toNat

def noFunctions : FunctionRegistry ℤ := ⟨fun _ => none⟩

/-- Two operands with the operator behind them, and two in brackets with a comma between. -/
theorem accepted_not_derived :
    Accepted integers (fun _ => none) noFunctions [.literal 1, .literal 2, .operator .add] ∧
    ¬Derives .expression ([.literal 1, .literal 2, .operator .add] : List (Token ℤ)) ∧
    Accepted integers (fun _ => none) noFunctions
      [.parenOpen, .literal 1, .comma, .literal 2, .parenClose] ∧
    ¬Derives .expression
      ([.parenOpen, .literal 1, .comma, .literal 2, .parenClose] : List (Token ℤ)) := by
  refine ⟨⟨_, 3, rfl, by decide +kernel⟩, ?_, ⟨_, 2, rfl, by decide +kernel⟩, ?_⟩
  · intro h
    have hchain := (List.isChain_cons_cons.mp (List.isChain_cons_cons.mp h.alternates).2).1
    cases hchain
  · intro h
    cases h.commas

end MetriEngine.Aegis.Formula

import MetriEngine.Eav.Transact
import MetriEngine.Foundation.FixedWidth

/-!
# Sequences

The numbers that a tenant's records are known by. A counter is a row of the sequence
registry: one for the tenant, and one for each location that was given its own. A code is
the next number of the counter that a record draws from, under the tenant's prefix and the
tag of its location.
-/
namespace MetriEngine.Codice
open Foundation Storage Eav

/-! ### Configuration -/

inductive ScopeResolution
  | exact
  | nearestRegistered
deriving DecidableEq

def ScopeResolution.fromStr (s : String) : ScopeResolution :=
  if s = "nearest_registered" then .nearestRegistered else .exact

structure SeqAttrConfig where
  name : String
  codePrefix : String
  padding : ℕ
  scopeResolution : ScopeResolution
deriving DecidableEq

/-- What the tenant's own row says of its numbers; the rest is as the model has it. -/
structure SequencePolicy where
  codePrefix : Option String := none
  padding : Option ℕ := none
  scopeResolution : Option ScopeResolution := none
deriving DecidableEq

namespace SeqAttrConfig

def fromAutoGenerate (name : String) (autoGen : AutoGenerate) : Option SeqAttrConfig :=
  if autoGen.strategy = "sequential" then
    some ⟨name, autoGen.codePrefix.getD "", autoGen.padding.getD 4,
      .fromStr (autoGen.scopeResolution.getD "exact")⟩
  else none

def applyPolicy (config : SeqAttrConfig) (policy : SequencePolicy) : SeqAttrConfig where
  name := config.name
  codePrefix := policy.codePrefix.getD config.codePrefix
  padding := policy.padding.getD config.padding
  scopeResolution := policy.scopeResolution.getD config.scopeResolution

end SeqAttrConfig

/-! ### Counters -/

def buildSequenceCode (tenantId fieldName : String) (scopeTag : Option String) : String :=
  match scopeTag.filter fun tag => tag ≠ "" with
  | some tag => tenantId ++ ":" ++ fieldName ++ ":" ++ tag ++ "_seq"
  | none => tenantId ++ ":" ++ fieldName ++ "_seq"

/-- `{:0>width$}` -/
def zeroPadded (width value : ℕ) : String := String.ofList ((Nat.toDigits 10 value).leftpad width '0')

def formatCode (codePrefix : String) (segment : Option String) (padding value : ℕ) : String :=
  match segment.filter fun seg => seg ≠ "" with
  | some seg => codePrefix ++ seg ++ "-" ++ zeroPadded padding value
  | none => codePrefix ++ zeroPadded padding value

def policyFromItem (item : Item) : SequencePolicy where
  codePrefix := (item.lookup "prefix").bind avString
  padding := ((item.lookup "padding").bind avNumber).bind parseUnsigned
  scopeResolution := ((item.lookup "scope_resolution").bind avString).map .fromStr

def readGlobalPolicy (st : MbfPartitionStore) (tenantId fieldName : String) : SequencePolicy :=
  ((st.items.lookup (sequenceKey (buildSequenceCode tenantId fieldName none))).map policyFromItem).getD {}

def readSequence (st : MbfPartitionStore) (seqCode : String) : Option ℕ :=
  (((st.items.lookup (sequenceKey seqCode)).bind fun item => item.lookup "current_value").bind
    avNumber).bind parseUnsigned

/-- The counters of the location and of those above it, the nearest first. -/
def scopeCandidates (tenantId fieldName : String) (scopeTag : Option String)
    (ancestorScopes : List String) : List String :=
  (scopeTag.map fun tag => buildSequenceCode tenantId fieldName (some tag)).toList ++
    ancestorScopes.map fun ancestor => buildSequenceCode tenantId fieldName (some ancestor)

/-- The counter that a code is drawn from: the nearest with a number, or the tenant's. -/
def finalCode (st : MbfPartitionStore) (tenantId fieldName : String) (scopeTag : Option String)
    (ancestorScopes : List String) : String :=
  ((scopeCandidates tenantId fieldName scopeTag ancestorScopes).find? fun candidate =>
    (readSequence st candidate).isSome).getD (buildSequenceCode tenantId fieldName none)

/-- The number that a code is printed with, an `i64` as a `u64`. -/
def printedNumber (n : ℤ) : ℕ := (n % 2 ^ 64).toNat

def next (st : MbfPartitionStore) (config : SeqAttrConfig) (scopeTag : Option String) (tenantId : String)
    (ancestorScopes : List String) (segment : Option String) (nowMs : ℤ) :
    MbfPartitionStore × ℤ × String :=
  let (st', newVal) := st.sequenceIncrement
    (finalCode st tenantId config.name scopeTag ancestorScopes) tenantId nowMs
  (st', newVal, formatCode config.codePrefix segment config.padding (printedNumber newVal))

/-! ### Locations -/

/-- The tag of a location, and the locations above it. -/
structure ScopeContext where
  segment : Option String
  ancestors : List String
deriving DecidableEq

def textAttr (attrs : ActiveAttrs) (name : String) : Option String :=
  match attrs.lookup name with
  | some (_, .str s) => some s
  | _ => none

/-- The walk from a location to the root, at most sixteen locations long. -/
def climb (attrsOf : String → ActiveAttrs) : ℕ → List String → String → ScopeContext → ScopeContext
  | 0, _, _, ctx => ctx
  | depth + 1, visited, cursor, ctx =>
    if cursor ∈ visited then ctx
    else
      let attrs := attrsOf cursor
      let segment := ctx.segment.or (textAttr attrs "tag")
      match (textAttr attrs "parent_location_id").filter fun s => s ≠ "" with
      | some parent =>
        if parent ∈ cursor :: visited then ⟨segment, ctx.ancestors⟩
        else climb attrsOf depth (cursor :: visited) parent ⟨segment, ctx.ancestors ++ [parent]⟩
      | none => ⟨segment, ctx.ancestors⟩

def scopeOf (attrsOf : String → ActiveAttrs) (root : String) : ScopeContext :=
  climb attrsOf 16 [] root ⟨none, []⟩

/-- A tag that was found is kept on the way up. -/
theorem segment_climb (attrsOf : String → ActiveAttrs) {tag : String} (depth : ℕ) :
    ∀ (visited : List String) (cursor : String) (ctx : ScopeContext), ctx.segment = some tag →
      (climb attrsOf depth visited cursor ctx).segment = some tag := by
  induction depth with
  | zero =>
    intro visited cursor ctx h
    exact h
  | succ depth ih =>
    intro visited cursor ctx h
    have hsegment : ctx.segment.or (textAttr (attrsOf cursor) "tag") = some tag := by
      rw [h, Option.some_or]
    unfold climb
    split_ifs with hseen
    · exact h
    · dsimp only
      split
      · split_ifs with hloop
        · exact hsegment
        · exact ih _ _ _ hsegment
      · exact hsegment

/-- A location with a tag is printed with it. -/
theorem segment_scopeOf {attrsOf : String → ActiveAttrs} {root tag : String}
    (h : textAttr (attrsOf root) "tag" = some tag) : (scopeOf attrsOf root).segment = some tag := by
  unfold scopeOf climb
  rw [if_neg List.not_mem_nil]
  dsimp only
  rw [h, Option.none_or]
  split
  · split_ifs with hloop
    · rfl
    · exact segment_climb attrsOf 15 _ _ _ rfl
  · rfl

/-! ### Values -/

/-- What a record prints of its location, and the counters it may inherit: only where the
nearest counter is looked for, the location is named and the tree was read. -/
def scopeUsed (config : SeqAttrConfig) (scopeTag : Option String) (scope : Option ScopeContext) :
    ScopeContext :=
  match scope, scopeTag with
  | some ctx, some _ => if config.scopeResolution = .nearestRegistered then ctx else ⟨none, []⟩
  | _, _ => ⟨none, []⟩

/-- The value that `inject` gives a sequential attribute. -/
def sequentialValue (st : MbfPartitionStore) (config : SeqAttrConfig) (tenantId : String)
    (scopeTag : Option String) (scope : Option ScopeContext) (nowMs : ℤ) :
    MbfPartitionStore × ℤ × String :=
  let effective := config.applyPolicy (readGlobalPolicy st tenantId config.name)
  let used := scopeUsed effective scopeTag scope
  next st effective scopeTag tenantId used.ancestors used.segment nowMs

/-! ### Seeding -/

inductive StatusCode
  | invalidArgument
  | failedPrecondition
deriving DecidableEq

/-- The error of a request to the configuration. -/
structure Status where
  code : StatusCode
  message : String
deriving DecidableEq

/-- The counter of a location that a request sets, and the number before the wanted one;
a request without a location is for the tenant's own row. -/
def validateScopedRequest (scopeTag : Option String) (setNextValue : Option (Signed 64)) :
    Except Status (Option (String × ℤ)) :=
  match (scopeTag.map Text.trim).filter fun t => t ≠ "" with
  | none => .ok none
  | some tag =>
    match setNextValue with
    | none => .error ⟨.invalidArgument, "set_next_value es obligatorio al fijar el contador de una ubicación"⟩
    | some n =>
      if n.val < 1 then .error ⟨.invalidArgument, "set_next_value debe ser un número positivo"⟩
      else .ok (some (tag, n.val - 1))

/-- The part of `upsert_sequence_config` that seeds the counter of a location; nothing for a
request that is for the tenant's row. -/
def seedCounter (st : MbfPartitionStore) (tenantId fieldName : String) (scopeTag : Option String)
    (setNextValue : Option (Signed 64)) (nowMs : ℤ) : Except Status (Option MbfPartitionStore) := do
  match ← validateScopedRequest scopeTag setNextValue with
  | none => return none
  | some (tag, targetValue) =>
    match st.sequenceScopedSet (buildSequenceCode tenantId fieldName (some tag)) tenantId targetValue nowMs with
    | some st' => return some st'
    | none => throw ⟨.failedPrecondition,
        "El contador de esa ubicación ya está más adelante — no se puede retroceder"⟩

theorem validateScopedRequest_eq_some {scopeTag : Option String} {setNextValue : Option (Signed 64)}
    {tag : String} {target : ℤ} (h : validateScopedRequest scopeTag setNextValue = .ok (some (tag, target))) :
    tag ≠ "" ∧ 0 ≤ target ∧ target < 2 ^ 63 - 1 := by
  unfold validateScopedRequest at h
  split at h
  · cases h
  · rename_i t htag
    split at h
    · cases h
    · rename_i n
      split_ifs at h with hpositive
      cases h
      obtain ⟨_, hne⟩ := Option.filter_eq_some_iff.mp htag
      have hn := n.property
      norm_num at hn
      refine ⟨of_decide_eq_true hne, ?_, ?_⟩ <;> omega

theorem seedCounter_eq_some {st st' : MbfPartitionStore} {tenantId fieldName : String}
    {scopeTag : Option String} {setNextValue : Option (Signed 64)} {nowMs : ℤ}
    (h : seedCounter st tenantId fieldName scopeTag setNextValue nowMs = .ok (some st')) :
    ∃ tag target, validateScopedRequest scopeTag setNextValue = .ok (some (tag, target)) ∧
      st.sequenceScopedSet (buildSequenceCode tenantId fieldName (some tag)) tenantId target nowMs =
        some st' := by
  unfold seedCounter at h
  cases hvalid : validateScopedRequest scopeTag setNextValue with
  | error e =>
    rw [hvalid] at h
    cases h
  | ok request =>
    rw [hvalid] at h
    cases request with
    | none => cases h
    | some request =>
      obtain ⟨tag, target⟩ := request
      refine ⟨tag, target, rfl, ?_⟩
      change (match st.sequenceScopedSet (buildSequenceCode tenantId fieldName (some tag)) tenantId
          target nowMs with
        | some st' => (.ok (some st') : Except Status (Option MbfPartitionStore))
        | none => .error _) = .ok (some st') at h
      split at h
      · rename_i st'' hset
        cases h
        exact hset
      · cases h

/-! ### Codes tell their parts -/

theorem toList_zeroPadded (width value : ℕ) :
    (zeroPadded width value).toList = fixedDigits width value := String.toList_ofList

theorem zeroPadded_inj {width m n : ℕ} (h : zeroPadded width m = zeroPadded width n) : m = n := by
  have hdigits := congrArg String.toList h
  rw [toList_zeroPadded, toList_zeroPadded] at hdigits
  rw [← ofDigitChars_fixedDigits width m, ← ofDigitChars_fixedDigits width n, hdigits]

theorem dash_notMem_zeroPadded (width value : ℕ) : '-' ∉ (zeroPadded width value).toList := by
  rw [toList_zeroPadded]
  intro h
  exact absurd (isDigit_of_mem_fixedDigits h) (by decide)

/-- What stands after the last separator, and what before it. -/
theorem last_separator {α : Type*} {sep : α} {a a' b b' : List α} (hb : sep ∉ b) (hb' : sep ∉ b')
    (h : a ++ sep :: b = a' ++ sep :: b') : a = a' ∧ b = b' := by
  induction a generalizing a' with
  | nil =>
    cases a' with
    | nil => exact ⟨rfl, (List.cons.inj h).2⟩
    | cons x a' =>
      rw [List.nil_append, List.cons_append] at h
      obtain ⟨_, htail⟩ := List.cons.inj h
      exact absurd (htail ▸ List.mem_append_right a' List.mem_cons_self) hb
  | cons x a ih =>
    cases a' with
    | nil =>
      rw [List.nil_append, List.cons_append] at h
      obtain ⟨_, htail⟩ := List.cons.inj h
      exact absurd (htail ▸ List.mem_append_right a List.mem_cons_self) hb'
    | cons y a' =>
      rw [List.cons_append, List.cons_append] at h
      obtain ⟨rfl, htail⟩ := List.cons.inj h
      obtain ⟨rfl, rfl⟩ := ih htail
      exact ⟨rfl, rfl⟩

/-- Under one prefix and one width, a code tells its segment and its number. -/
theorem formatCode_inj {codePrefix : String} {segment segment' : Option String} {padding m n : ℕ}
    (hseg : segment ≠ some "") (hseg' : segment' ≠ some "")
    (h : formatCode codePrefix segment padding m = formatCode codePrefix segment' padding n) :
    segment = segment' ∧ m = n := by
  have hform (s : Option String) (hs : s ≠ some "") (k : ℕ) :
      (formatCode codePrefix s padding k).toList = codePrefix.toList ++
        ((s.map fun seg => seg.toList ++ ['-']).getD []) ++ (zeroPadded padding k).toList := by
    cases s with
    | none => simp [formatCode]
    | some seg =>
      have hne : seg ≠ "" := fun heq => hs (by rw [heq])
      simp only [formatCode, Option.filter_some, hne, ne_eq, not_false_eq_true, decide_true, if_true,
        String.toList_append, Option.map_some, Option.getD_some, List.append_assoc]
      rfl
  have hlists := congrArg String.toList h
  rw [hform _ hseg, hform _ hseg', List.append_assoc, List.append_assoc] at hlists
  have hrest := List.append_cancel_left hlists
  have hm := dash_notMem_zeroPadded padding m
  have hn := dash_notMem_zeroPadded padding n
  cases segment with
  | none =>
    cases segment' with
    | none =>
      refine ⟨rfl, zeroPadded_inj (String.toList_injective hrest)⟩
    | some seg' =>
      simp only [Option.map_none, Option.getD_none, List.nil_append, Option.map_some,
        Option.getD_some] at hrest
      exact absurd (hrest ▸ by simp) hm
  | some seg =>
    cases segment' with
    | none =>
      simp only [Option.map_none, Option.getD_none, List.nil_append, Option.map_some,
        Option.getD_some] at hrest
      exact absurd (hrest ▸ by simp) hn
    | some seg' =>
      simp only [Option.map_some, Option.getD_some, List.append_assoc, List.singleton_append] at hrest
      obtain ⟨hsegs, hdigits⟩ := last_separator hm hn hrest
      exact ⟨congrArg some (String.toList_injective hsegs),
        zeroPadded_inj (String.toList_injective hdigits)⟩

theorem printedNumber_inj {m n : ℤ} (hm : -2 ^ 63 ≤ m ∧ m < 2 ^ 63) (hn : -2 ^ 63 ≤ n ∧ n < 2 ^ 63)
    (h : printedNumber m = printedNumber n) : m = n := by
  unfold printedNumber at h
  omega

/-- The row of a location is not the tenant's. -/
theorem scoped_ne_global (tenantId fieldName : String) {tag : String} (h : tag ≠ "") :
    buildSequenceCode tenantId fieldName (some tag) ≠ buildSequenceCode tenantId fieldName none := by
  intro heq
  have hlists := congrArg String.toList heq
  simp only [buildSequenceCode, Option.filter_some, h, ne_eq, not_false_eq_true, decide_true, if_true,
    Option.filter_none, String.toList_append, List.append_assoc] at hlists
  have hrest := List.append_cancel_left (List.append_cancel_left (List.append_cancel_left hlists))
  exact absurd (List.cons.inj hrest).1 (by decide)

end MetriEngine.Codice

import MetriEngine.Cluster.SequenceNumbers
import MetriEngine.Codice.Sequence

/-!
# Codes that are minted once

A tenant's records draw codes for one field, at the locations of a tree or at none, while
counters of locations are seeded. A code that prints its location is as old as its counter;
one that does not is told apart only by the tenant's own counter.
-/
namespace MetriEngine.Codice
open Foundation Storage Eav Cluster

/-! ### Rows -/

section Rows
variable {st st' : MbfPartitionStore} {seqCode other tenantId : String}

theorem parseSigned_of_parseUnsigned {s : String} {n : ℕ} (h : parseUnsigned s = some n) :
    parseSigned s.toList = some (n : ℤ) := by
  obtain ⟨hparse, _⟩ := Option.filter_eq_some_iff.mp h
  cases hs : s.toList with
  | nil =>
    rw [hs] at hparse
    cases hparse
  | cons c cs =>
    rw [hs, List.head?_cons, List.tail_cons] at hparse
    split_ifs at hparse with hplus
    · obtain rfl := Option.some.inj hplus
      rw [parseSigned, hparse]
      rfl
    · have hminus : c ≠ '-' := by
        rintro rfl
        have hdigit := digits_of_parseNat hparse '-' List.mem_cons_self
        exact absurd hdigit (by decide)
      have hother : c ≠ '+' := fun heq => hplus (by rw [heq])
      rw [parseSigned.eq_def]
      split
      · rename_i heq
        exact absurd (List.cons.inj heq).1 hminus
      · rename_i heq
        exact absurd (List.cons.inj heq).1 hother
      · rw [hparse]
        rfl

/-- A counter with a number never stands below zero. -/
theorem numberBefore_nonneg (h : (readSequence st seqCode).isSome = true) :
    0 ≤ numberBefore seqCode st := by
  obtain ⟨n, hn⟩ := Option.isSome_iff_exists.mp h
  obtain ⟨text, htext, hparse⟩ := Option.bind_eq_some_iff.mp hn
  obtain ⟨value, hvalue, havail⟩ := Option.bind_eq_some_iff.mp htext
  obtain ⟨item, hitem, hlookup⟩ := Option.bind_eq_some_iff.mp hvalue
  unfold numberBefore MbfPartitionStore.currentValue
  rw [hitem, Option.bind_some, hlookup, Option.bind_some, havail, Option.bind_some, parseI64,
    parseInRange, parseSigned_of_parseUnsigned hparse, Option.filter_some]
  split_ifs
  · exact Int.natCast_nonneg n
  · exact le_rfl

/-- A row that holds a number. -/
structure HoldsNumber (st : MbfPartitionStore) (seqCode : String) (n : ℤ) : Prop where
  row : ∃ item, st.items.lookup (sequenceKey seqCode) = some item ∧
    item.lookup "current_value" = some (.n (toString n))
  bounds : -2 ^ 63 ≤ n ∧ n < 2 ^ 63

theorem HoldsNumber.numberBefore {n : ℤ} (h : HoldsNumber st seqCode n) :
    numberBefore seqCode st = n := by
  obtain ⟨item, hitem, hvalue⟩ := h.row
  unfold Cluster.numberBefore MbfPartitionStore.currentValue
  rw [hitem, Option.bind_some, hvalue, Option.bind_some]
  have hparse : parseI64 (toString n) = some n := parseI64_toString h.bounds.1 h.bounds.2
  rw [avNumber, Option.bind_some, hparse]
  rfl

theorem HoldsNumber.readSequence {n : ℤ} (h : HoldsNumber st seqCode n) (hn : 0 ≤ n) :
    (readSequence st seqCode).isSome = true := by
  obtain ⟨item, hitem, hvalue⟩ := h.row
  unfold Codice.readSequence
  rw [hitem, Option.bind_some, hvalue, Option.bind_some, avNumber, Option.bind_some]
  obtain ⟨m, rfl⟩ := Int.eq_ofNat_of_zero_le hn
  have hm : m < 2 ^ 64 := by
    have := h.bounds.2
    omega
  rw [show toString (m : ℤ) = Nat.repr m from rfl, parseUnsigned_repr hm]
  rfl

theorem readSequence_congr
    (h : st'.items.lookup (sequenceKey seqCode) = st.items.lookup (sequenceKey seqCode)) :
    readSequence st' seqCode = readSequence st seqCode := by
  rw [readSequence, readSequence, h]

theorem numberBefore_congr
    (h : st'.items.lookup (sequenceKey seqCode) = st.items.lookup (sequenceKey seqCode)) :
    numberBefore seqCode st' = numberBefore seqCode st := by
  rw [numberBefore, numberBefore, h]

/-! ### Increments and seedings -/

theorem setSequence_lookup (item : Item) (other : String) :
    (st.setSequence seqCode item).items.lookup (sequenceKey other) =
      if other = seqCode then some item else st.items.lookup (sequenceKey other) := by
  unfold MbfPartitionStore.setSequence
  dsimp only
  rw [OrdMap.lookup_insert]
  split_ifs with hkey hcode hcode
  · rfl
  · exact absurd (PrimaryKey.mk.inj hkey).1 hcode
  · exact absurd (by rw [hcode]) hkey
  · rfl

theorem increment_lookup_of_ne {nowMs : ℤ} (h : other ≠ seqCode) :
    (st.sequenceIncrement seqCode tenantId nowMs).1.items.lookup (sequenceKey other) =
      st.items.lookup (sequenceKey other) := by
  unfold MbfPartitionStore.sequenceIncrement
  dsimp only
  rw [setSequence_lookup, if_neg h]

/-- What an increment leaves of a row. -/
theorem lookup_numbered (entry : Item) (value tenant updated : AttributeValue) {name : String}
    (h : name ≠ "current_value" ∧ name ≠ "tenant_id" ∧ name ≠ "updated_at") :
    ((orInsert (entry.insert "current_value" value) "tenant_id" tenant).insert
      "updated_at" updated).lookup name = entry.lookup name := by
  rw [OrdMap.lookup_insert_of_ne _ _ h.2.2]
  unfold orInsert
  split_ifs
  · exact OrdMap.lookup_insert_of_ne _ _ h.1
  · rw [OrdMap.lookup_insert_of_ne _ _ h.2.1]
    exact OrdMap.lookup_insert_of_ne _ _ h.1

theorem lookup_current_numbered (entry : Item) (value tenant updated : AttributeValue) :
    ((orInsert (entry.insert "current_value" value) "tenant_id" tenant).insert
      "updated_at" updated).lookup "current_value" = some value := by
  rw [OrdMap.lookup_insert_of_ne _ _ (by decide)]
  unfold orInsert
  split_ifs
  · exact OrdMap.lookup_insert_self _ _ _
  · rw [OrdMap.lookup_insert_of_ne _ _ (by decide)]
    exact OrdMap.lookup_insert_self _ _ _

theorem increment_number {nowMs : ℤ} (hmax : numberBefore seqCode st < 2 ^ 63 - 1) :
    (st.sequenceIncrement seqCode tenantId nowMs).2 = numberBefore seqCode st + 1 ∧
      HoldsNumber (st.sequenceIncrement seqCode tenantId nowMs).1 seqCode
        (numberBefore seqCode st + 1) := by
  obtain ⟨hnumber, _⟩ := @sequenceIncrement_number seqCode tenantId st nowMs hmax
  have hbounds : -2 ^ 63 ≤ numberBefore seqCode st ∧ numberBefore seqCode st < 2 ^ 63 :=
    numberBefore_bounds
  refine ⟨hnumber, ⟨?_, by omega⟩⟩
  rw [← hnumber]
  unfold MbfPartitionStore.sequenceIncrement
  dsimp only
  rw [setSequence_lookup, if_pos rfl]
  exact ⟨_, rfl, lookup_current_numbered _ _ _ _⟩

/-- An increment changes nothing of a policy. -/
theorem readGlobalPolicy_increment {nowMs : ℤ} (tenant fieldName : String) :
    readGlobalPolicy (st.sequenceIncrement seqCode tenantId nowMs).1 tenant fieldName =
      readGlobalPolicy st tenant fieldName := by
  by_cases hcode : buildSequenceCode tenant fieldName none = seqCode
  · unfold readGlobalPolicy
    rw [hcode]
    unfold MbfPartitionStore.sequenceIncrement
    dsimp only
    rw [setSequence_lookup, if_pos rfl, Option.map_some, Option.getD_some]
    have hpolicy (entry : Item) (value tenant updated : AttributeValue) :
        policyFromItem ((orInsert (entry.insert "current_value" value) "tenant_id" tenant).insert
          "updated_at" updated) = policyFromItem entry := by
      unfold policyFromItem
      rw [lookup_numbered _ _ _ _ (by decide), lookup_numbered _ _ _ _ (by decide),
        lookup_numbered _ _ _ _ (by decide)]
    rw [hpolicy]
    unfold MbfPartitionStore.sequenceEntry
    cases st.items.lookup (sequenceKey seqCode) with
    | none => simp [policyFromItem]
    | some item => rfl
  · unfold readGlobalPolicy
    rw [increment_lookup_of_ne hcode]

theorem scopedSet_lookup_of_ne {target nowMs : ℤ}
    (hset : st.sequenceScopedSet seqCode tenantId target nowMs = some st') (h : other ≠ seqCode) :
    st'.items.lookup (sequenceKey other) = st.items.lookup (sequenceKey other) := by
  unfold MbfPartitionStore.sequenceScopedSet at hset
  split_ifs at hset
  cases hset
  rw [setSequence_lookup, if_neg h]

theorem scopedSet_number {target nowMs : ℤ} (hbounds : -2 ^ 63 ≤ target ∧ target < 2 ^ 63)
    (hset : st.sequenceScopedSet seqCode tenantId target nowMs = some st') :
    HoldsNumber st' seqCode target := by
  unfold MbfPartitionStore.sequenceScopedSet at hset
  split_ifs at hset
  cases hset
  refine ⟨?_, hbounds⟩
  rw [setSequence_lookup, if_pos rfl]
  refine ⟨_, rfl, ?_⟩
  rw [OrdMap.lookup_insert_of_ne _ _ (by decide), OrdMap.lookup_insert_of_ne _ _ (by decide)]
  exact OrdMap.lookup_insert_self _ _ _

end Rows

/-! ### Runs -/

/-- Locations, each under a tag of its own. -/
structure LocationTree where
  attrsOf : String → ActiveAttrs
  nodes : List String
  named : "" ∉ nodes
  tagged : ∀ loc ∈ nodes, ∃ tag, tag ≠ "" ∧ textAttr (attrsOf loc) "tag" = some tag
  distinct : ∀ loc ∈ nodes, ∀ loc' ∈ nodes,
    textAttr (attrsOf loc) "tag" = textAttr (attrsOf loc') "tag" → loc = loc'

/-- A code, with the segment and the number that it was made of. -/
structure Minted where
  segment : Option String
  number : ℤ
  code : String
deriving DecidableEq

structure MintWorld where
  store : MbfPartitionStore
  minted : List Minted

inductive MintAction
  | mint (scopeTag : Option String) (scope : Option ScopeContext) (nowMs : ℤ)
  | seed (scopeTag : Option String) (setNextValue : Option (Signed 64)) (nowMs : ℤ)

section Runs
variable (tree : LocationTree) (config : SeqAttrConfig) (tenantId : String)

/-- The configuration under the tenant's policy. -/
def effective (st : MbfPartitionStore) : SeqAttrConfig :=
  config.applyPolicy (readGlobalPolicy st tenantId config.name)

/-- The counter that a record draws from. -/
def drawnFrom (st : MbfPartitionStore) (scopeTag : Option String) (scope : Option ScopeContext) : String :=
  finalCode st tenantId config.name scopeTag
    (scopeUsed (effective config tenantId st) scopeTag scope).ancestors

/-- The tenant's own counter. -/
abbrev globalCode : String := buildSequenceCode tenantId config.name none

def MintWorld.step (w : MintWorld) : MintAction → Option MintWorld
  | .mint scopeTag scope nowMs =>
    let (st', number, code) := sequentialValue w.store config tenantId scopeTag scope nowMs
    let segment := (scopeUsed (effective config tenantId w.store) scopeTag scope).segment
    some ⟨st', w.minted ++ [⟨segment, number, code⟩]⟩
  | .seed scopeTag setNextValue nowMs =>
    match seedCounter w.store tenantId config.name scopeTag setNextValue nowMs with
    | .ok (some st') => some ⟨st', w.minted⟩
    | _ => none

/-- A record is at no location, at one of the tree, or at one whose tree was not read. -/
def AtTree (scopeTag : Option String) (scope : Option ScopeContext) : Prop :=
  scope = none ∨ scopeTag = none ∨
    ∃ loc ∈ tree.nodes, scopeTag = some loc ∧ scope = some (scopeOf tree.attrsOf loc)

instance (scopeTag : Option String) (scope : Option ScopeContext) : Decidable (AtTree tree scopeTag scope) :=
  inferInstanceAs (Decidable (_ ∨ _ ∨ _))

/-- The records of an action are at the tree's locations; seedings are unrestricted. -/
def Placed : MintAction → Prop
  | .mint scopeTag scope _ => AtTree tree scopeTag scope
  | .seed .. => True

instance (a : MintAction) : Decidable (Placed tree a) := by
  cases a <;> (unfold Placed; infer_instance)

/-- What a seeding must leave behind: the numbers that were printed with the tag of a
location which then draws from the seeded counter. -/
def SeedsAhead (w : MintWorld) (seeded : String × ℤ) (nowMs : ℤ) : Prop :=
  ∀ st' ∈ w.store.sequenceScopedSet (buildSequenceCode tenantId config.name (some seeded.1)) tenantId
      seeded.2 nowMs,
    ∀ loc ∈ tree.nodes,
      drawnFrom config tenantId st' (some loc) (some (scopeOf tree.attrsOf loc)) =
        buildSequenceCode tenantId config.name (some seeded.1) →
      ∀ m ∈ w.minted, m.segment = textAttr (tree.attrsOf loc) "tag" → m.number ≤ seeded.2

instance (w : MintWorld) (seeded : String × ℤ) (nowMs : ℤ) :
    Decidable (SeedsAhead tree config tenantId w seeded nowMs) := by
  unfold SeedsAhead
  infer_instance

/-- A code without a segment is drawn from the tenant's counter, a counter is below the
largest `i64` when it is drawn from, and no seeding falls behind. -/
def MintGuard (w : MintWorld) : MintAction → Prop
  | .mint scopeTag scope _ =>
    AtTree tree scopeTag scope ∧
      numberBefore (drawnFrom config tenantId w.store scopeTag scope) w.store < 2 ^ 63 - 1 ∧
      ((scopeUsed (effective config tenantId w.store) scopeTag scope).segment = none →
        drawnFrom config tenantId w.store scopeTag scope = globalCode config tenantId)
  | .seed scopeTag setNextValue nowMs =>
    ∀ seeded ∈ (validateScopedRequest scopeTag setNextValue).toOption.join,
      SeedsAhead tree config tenantId w seeded nowMs

instance (w : MintWorld) (a : MintAction) : Decidable (MintGuard tree config tenantId w a) := by
  cases a <;> (unfold MintGuard; infer_instance)

/-! ### The invariant -/

/-- The codes differ, each is printed under the policy, and none was drawn ahead of the
counter that stands for its segment. -/
structure MintInv (policy : SequencePolicy) (w : MintWorld) : Prop where
  settled : readGlobalPolicy w.store tenantId config.name = policy
  codes : ∀ m ∈ w.minted, m.segment ≠ some "" ∧ (-2 ^ 63 ≤ m.number ∧ m.number < 2 ^ 63) ∧
    m.code = formatCode (config.applyPolicy policy).codePrefix m.segment
      (config.applyPolicy policy).padding (printedNumber m.number)
  bare : ∀ m ∈ w.minted, m.segment = none → m.number ≤ numberBefore (globalCode config tenantId) w.store
  placed : ∀ loc ∈ tree.nodes, ∀ m ∈ w.minted, m.segment = textAttr (tree.attrsOf loc) "tag" →
    m.number ≤ numberBefore
      (drawnFrom config tenantId w.store (some loc) (some (scopeOf tree.attrsOf loc))) w.store
  once : w.minted.Pairwise fun a b => a.code ≠ b.code

section Steps
variable {tree} {config} {tenantId} {st st' : MbfPartitionStore}

theorem ancestors_climb (attrsOf : String → ActiveAttrs) (depth : ℕ) :
    ∀ (visited : List String) (cursor : String) (ctx : ScopeContext), "" ∉ ctx.ancestors →
      "" ∉ (climb attrsOf depth visited cursor ctx).ancestors := by
  induction depth with
  | zero =>
    intro visited cursor ctx h
    exact h
  | succ depth ih =>
    intro visited cursor ctx h
    unfold climb
    split_ifs with hseen
    · exact h
    · dsimp only
      split
      · rename_i parent hparent
        obtain ⟨_, hne⟩ := Option.filter_eq_some_iff.mp hparent
        split_ifs with hloop
        · exact h
        · apply ih
          rw [List.mem_append, not_or]
          refine ⟨h, ?_⟩
          rw [List.mem_singleton]
          exact Ne.symm (of_decide_eq_true hne)
      · exact h

/-- No location of a tree draws from the tenant's counter as from one of its own. -/
theorem global_notMem_candidates {loc : String} (hloc : loc ∈ tree.nodes) (ctx : ScopeContext)
    (hctx : "" ∉ ctx.ancestors) :
    globalCode config tenantId ∉ scopeCandidates tenantId config.name (some loc) ctx.ancestors := by
  have hne : loc ≠ "" := fun heq => tree.named (heq ▸ hloc)
  intro h
  rcases List.mem_append.mp h with h | h
  · exact scoped_ne_global tenantId config.name hne (List.mem_singleton.mp h).symm
  · obtain ⟨ancestor, hancestor, heq⟩ := List.mem_map.mp h
    exact scoped_ne_global tenantId config.name (fun h => hctx (h ▸ hancestor)) heq

theorem ancestors_scopeUsed (c : SeqAttrConfig) (loc : String) :
    "" ∉ (scopeUsed c (some loc) (some (scopeOf tree.attrsOf loc))).ancestors := by
  unfold scopeUsed
  dsimp only
  split_ifs
  · exact ancestors_climb _ _ _ _ _ List.not_mem_nil
  · exact List.not_mem_nil

/-- A counter that was drawn from is the tenant's, or has a number. -/
theorem drawnFrom_cases (scopeTag : Option String) (scope : Option ScopeContext) :
    drawnFrom config tenantId st scopeTag scope = globalCode config tenantId ∨
      (readSequence st (drawnFrom config tenantId st scopeTag scope)).isSome = true := by
  unfold drawnFrom finalCode
  cases hfind : (scopeCandidates tenantId config.name scopeTag
      (scopeUsed (effective config tenantId st) scopeTag scope).ancestors).find? fun candidate =>
        (readSequence st candidate).isSome with
  | none => exact Or.inl rfl
  | some code =>
    have hfound : (readSequence st code).isSome = true := by simpa using List.find?_some hfind
    exact Or.inr hfound

/-- Where the policy stays, a location draws from the same counter as long as the same of
its counters have a number. -/
theorem drawnFrom_congr {loc : String}
    (hpolicy : readGlobalPolicy st' tenantId config.name = readGlobalPolicy st tenantId config.name)
    (h : ∀ code ∈ scopeCandidates tenantId config.name (some loc)
      (scopeUsed (effective config tenantId st) (some loc) (some (scopeOf tree.attrsOf loc))).ancestors,
        (readSequence st' code).isSome = (readSequence st code).isSome) :
    drawnFrom config tenantId st' (some loc) (some (scopeOf tree.attrsOf loc)) =
      drawnFrom config tenantId st (some loc) (some (scopeOf tree.attrsOf loc)) := by
  unfold drawnFrom finalCode
  rw [effective, hpolicy, ← effective]
  congr 1
  exact List.find?_congr h

/-- A record that prints the tag of a location is one of that location. -/
theorem segment_atTree {scopeTag : Option String} {scope : Option ScopeContext} {c : SeqAttrConfig}
    (hat : AtTree tree scopeTag scope) {tag : String} (h : (scopeUsed c scopeTag scope).segment = some tag) :
    ∃ loc ∈ tree.nodes, scopeTag = some loc ∧ scope = some (scopeOf tree.attrsOf loc) ∧
      textAttr (tree.attrsOf loc) "tag" = some tag := by
  rcases hat with rfl | rfl | ⟨loc, hloc, rfl, rfl⟩
  · cases h
  · cases scope <;> cases h
  · obtain ⟨own, _, hown⟩ := tree.tagged loc hloc
    refine ⟨loc, hloc, rfl, rfl, ?_⟩
    unfold scopeUsed at h
    dsimp only at h
    split_ifs at h
    rw [segment_scopeOf hown] at h
    rw [hown, h]

/-- A mint draws the next number of one counter. -/
theorem mint_increment {w : MintWorld} {scopeTag : Option String} {scope : Option ScopeContext} {nowMs : ℤ} :
    sequentialValue w.store config tenantId scopeTag scope nowMs =
      let drawn := w.store.sequenceIncrement (drawnFrom config tenantId w.store scopeTag scope) tenantId nowMs
      (drawn.1, drawn.2, formatCode (effective config tenantId w.store).codePrefix
        (scopeUsed (effective config tenantId w.store) scopeTag scope).segment
        (effective config tenantId w.store).padding (printedNumber drawn.2)) := rfl

theorem MintInv.mint {policy : SequencePolicy} {w w' : MintWorld} {scopeTag : Option String}
    {scope : Option ScopeContext} {nowMs : ℤ} (h : MintInv tree config tenantId policy w)
    (hguard : MintGuard tree config tenantId w (.mint scopeTag scope nowMs))
    (hstep : w.step config tenantId (.mint scopeTag scope nowMs) = some w') :
    MintInv tree config tenantId policy w' := by
  obtain ⟨hat, hmax, hglobal⟩ := hguard
  let code := drawnFrom config tenantId w.store scopeTag scope
  obtain ⟨hnumber, hholds⟩ := @increment_number w.store code tenantId nowMs hmax
  let used := scopeUsed (effective config tenantId w.store) scopeTag scope
  let after := (w.store.sequenceIncrement code tenantId nowMs).1
  have heff : effective config tenantId w.store = config.applyPolicy policy := by
    rw [effective, h.settled]
  have hworld : w' = ⟨after, w.minted ++ [⟨used.segment, numberBefore code w.store + 1,
      formatCode (config.applyPolicy policy).codePrefix used.segment
        (config.applyPolicy policy).padding (printedNumber (numberBefore code w.store + 1))⟩]⟩ := by
    unfold MintWorld.step at hstep
    dsimp only at hstep
    rw [mint_increment] at hstep
    dsimp only at hstep
    rw [hnumber] at hstep
    rw [← heff]
    exact (Option.some.inj hstep).symm
  have hpolicy : readGlobalPolicy after tenantId config.name =
      readGlobalPolicy w.store tenantId config.name := readGlobalPolicy_increment _ _
  -- no counter falls back
  have hgrows (other : String) : numberBefore other w.store ≤ numberBefore other after := by
    by_cases hother : other = code
    · rw [hother, hholds.numberBefore]
      exact Int.le_add_one le_rfl
    · exact le_of_eq (numberBefore_congr (increment_lookup_of_ne hother)).symm
  -- the locations draw from where they drew
  have hsame {loc : String} (hloc : loc ∈ tree.nodes) :
      drawnFrom config tenantId after (some loc) (some (scopeOf tree.attrsOf loc)) =
        drawnFrom config tenantId w.store (some loc) (some (scopeOf tree.attrsOf loc)) := by
    apply drawnFrom_congr hpolicy
    intro other hother
    by_cases heq : other = code
    · rcases @drawnFrom_cases config tenantId w.store scopeTag scope with hcode | hcode
      · have hglobalCode : other = globalCode config tenantId := heq.trans hcode
        exact absurd (hglobalCode ▸ hother)
          (global_notMem_candidates hloc _ (ancestors_scopeUsed _ loc))
      · have hnonneg : 0 ≤ numberBefore code w.store := numberBefore_nonneg hcode
        have hbefore : (readSequence w.store code).isSome = true := hcode
        rw [heq, hbefore]
        exact hholds.readSequence (by omega)
    · rw [readSequence_congr (increment_lookup_of_ne heq)]
  have hbounds : -2 ^ 63 ≤ numberBefore code w.store := numberBefore_bounds.1
  subst hworld
  constructor
  · exact hpolicy.trans h.settled
  · intro m hm
    rcases List.mem_append.mp hm with hm | hm
    · exact h.codes m hm
    · obtain rfl := List.mem_singleton.mp hm
      refine ⟨?_, ⟨?_, ?_⟩, rfl⟩
      · intro hempty
        obtain ⟨loc, hloc, _, _, htag⟩ := segment_atTree hat hempty
        obtain ⟨tag, hne, htagged⟩ := tree.tagged loc hloc
        exact hne (Option.some.inj (htagged.symm.trans htag))
      · dsimp only
        omega
      · dsimp only
        change numberBefore code w.store < 2 ^ 63 - 1 at hmax
        omega
  · intro m hm hsegment
    rcases List.mem_append.mp hm with hm | hm
    · exact (h.bare m hm hsegment).trans (hgrows _)
    · obtain rfl := List.mem_singleton.mp hm
      rw [← hglobal hsegment]
      exact le_of_eq hholds.numberBefore.symm
  · intro loc hloc m hm hsegment
    rw [hsame hloc]
    rcases List.mem_append.mp hm with hm | hm
    · exact (h.placed loc hloc m hm hsegment).trans (hgrows _)
    · obtain rfl := List.mem_singleton.mp hm
      obtain ⟨tag, _, htag⟩ := tree.tagged loc hloc
      obtain ⟨loc', hloc', rfl, rfl, htag'⟩ := segment_atTree hat (hsegment.trans htag)
      obtain rfl := tree.distinct loc hloc loc' hloc' (htag.trans htag'.symm)
      exact le_of_eq hholds.numberBefore.symm
  · rw [List.pairwise_append]
    refine ⟨h.once, List.pairwise_singleton _ _, ?_⟩
    intro m hm new hnew heq
    obtain rfl := List.mem_singleton.mp hnew
    obtain ⟨hne, hrange, hcode⟩ := h.codes m hm
    rw [hcode] at heq
    have hfresh : used.segment ≠ some "" := by
      intro hempty
      obtain ⟨loc, hloc, _, _, htag⟩ := segment_atTree hat hempty
      obtain ⟨tag, htagne, htagged⟩ := tree.tagged loc hloc
      exact htagne (Option.some.inj (htagged.symm.trans htag))
    obtain ⟨hsegment, hprinted⟩ := formatCode_inj hne hfresh heq
    change numberBefore code w.store < 2 ^ 63 - 1 at hmax
    have hnumbers := printedNumber_inj hrange ⟨by omega, by omega⟩ hprinted
    -- the counter that the code was drawn from had passed the older number
    have hpassed : m.number ≤ numberBefore code w.store := by
      cases hused : used.segment with
      | none =>
        rw [show code = globalCode config tenantId from hglobal hused]
        exact h.bare m hm (hsegment.trans hused)
      | some tag =>
        obtain ⟨loc, hloc, rfl, rfl, htag⟩ := segment_atTree hat hused
        exact h.placed loc hloc m hm ((hsegment.trans hused).trans htag.symm)
    omega

/-- The first that passes is still the first where one more passes and is not found. -/
theorem find?_of_one_more {α : Type*} {p p' : α → Bool} {x : α} {l : List α}
    (hsame : ∀ a, a ≠ x → p' a = p a) (hx : p' x = true) (h : l.find? p' ≠ some x) :
    l.find? p = l.find? p' := by
  induction l with
  | nil => rfl
  | cons a rest ih =>
    by_cases ha : a = x
    · subst ha
      exact absurd (List.find?_cons_of_pos hx) h
    · rw [List.find?_cons, List.find?_cons, hsame a ha]
      cases hp : p a with
      | true => rfl
      | false =>
        apply ih
        rwa [List.find?_cons, hsame a ha, hp] at h

theorem MintInv.seed {policy : SequencePolicy} {w w' : MintWorld} {scopeTag : Option String}
    {setNextValue : Option (Signed 64)} {nowMs : ℤ} (h : MintInv tree config tenantId policy w)
    (hguard : MintGuard tree config tenantId w (.seed scopeTag setNextValue nowMs))
    (hstep : w.step config tenantId (.seed scopeTag setNextValue nowMs) = some w') :
    MintInv tree config tenantId policy w' := by
  unfold MintWorld.step at hstep
  dsimp only at hstep
  split at hstep
  swap
  · cases hstep
  rename_i after hseed
  cases hstep
  obtain ⟨tag, target, hvalid, hset⟩ := seedCounter_eq_some hseed
  obtain ⟨hne, hnonneg, hmax⟩ := validateScopedRequest_eq_some hvalid
  have hahead := hguard (tag, target) (by rw [hvalid]; rfl) after hset
  let code := buildSequenceCode tenantId config.name (some tag)
  have hcode : code ≠ globalCode config tenantId := scoped_ne_global _ _ hne
  have hholds : HoldsNumber after code target := scopedSet_number ⟨by omega, by omega⟩ hset
  have hother {other : String} (hother : other ≠ code) :
      after.items.lookup (sequenceKey other) = w.store.items.lookup (sequenceKey other) :=
    scopedSet_lookup_of_ne hset hother
  have hpolicy : readGlobalPolicy after tenantId config.name =
      readGlobalPolicy w.store tenantId config.name := by
    unfold readGlobalPolicy
    rw [hother hcode.symm]
  constructor
  · exact hpolicy.trans h.settled
  · exact h.codes
  · intro m hm hsegment
    rw [numberBefore_congr (hother hcode.symm)]
    exact h.bare m hm hsegment
  · intro loc hloc m hm hsegment
    by_cases hdrawn : drawnFrom config tenantId after (some loc) (some (scopeOf tree.attrsOf loc)) = code
    · rw [hdrawn, hholds.numberBefore]
      exact hahead loc hloc hdrawn m hm hsegment
    · -- the location draws from where it drew
      have hsame : drawnFrom config tenantId w.store (some loc) (some (scopeOf tree.attrsOf loc)) =
          drawnFrom config tenantId after (some loc) (some (scopeOf tree.attrsOf loc)) := by
        unfold drawnFrom finalCode at hdrawn ⊢
        rw [effective, ← hpolicy, ← effective]
        congr 1
        apply @find?_of_one_more _ _ _ code
        · intro other hne
          rw [readSequence_congr (hother hne)]
        · exact hholds.readSequence hnonneg
        · intro hfound
          rw [hfound] at hdrawn
          exact hdrawn rfl
      rw [numberBefore_congr (hother hdrawn), ← hsame]
      exact h.placed loc hloc m hm hsegment
  · exact h.once

end Steps

/-- In runs that keep to the guard no code is minted twice. -/
theorem minted_once {st : MbfPartitionStore} {w : MintWorld}
    (hrun : Run (MintWorld.step config tenantId) (MintGuard tree config tenantId) ⟨st, []⟩ w) :
    (w.minted.map Minted.code).Nodup := by
  have hstart : MintInv tree config tenantId (readGlobalPolicy st tenantId config.name) ⟨st, []⟩ :=
    ⟨rfl, by simp, by simp, by simp, List.Pairwise.nil⟩
  have hend := Run.invariant (I := MintInv tree config tenantId
      (readGlobalPolicy st tenantId config.name)) (by
    intro u a v hu hguard hstep
    cases a with
    | mint scopeTag scope nowMs => exact hu.mint hguard hstep
    | seed scopeTag setNextValue nowMs => exact hu.seed hguard hstep) hrun hstart
  rw [List.Nodup, List.pairwise_map]
  exact hend.once

end Runs

/-! ### A site and a hall in it -/

def siteAttrs (loc : String) : ActiveAttrs :=
  if loc = "site" then (∅ : ActiveAttrs).insert "tag" (1, .str "S")
  else if loc = "hall" then
    ((∅ : ActiveAttrs).insert "tag" (1, .str "H")).insert "parent_location_id" (1, .str "site")
  else ∅

def siteTree : LocationTree where
  attrsOf := siteAttrs
  nodes := ["site", "hall"]
  named := by decide
  tagged := by
    intro loc hloc
    rcases List.mem_pair.mp hloc with rfl | rfl
    · exact ⟨"S", by decide, by decide +kernel⟩
    · exact ⟨"H", by decide, by decide +kernel⟩
  distinct := by decide +kernel

def workOrders (scopeResolution : ScopeResolution) : SeqAttrConfig := ⟨"code", "WO-", 4, scopeResolution⟩

def noSequences : MbfPartitionStore := {}

def setNext (n : ℤ) (h : -2 ^ 63 ≤ n ∧ n < 2 ^ 63 := by decide) : Option (Signed 64) := some ⟨n, h⟩

/-- The hall takes the site's numbers until it has its own. -/
def nearestMints : List MintAction :=
  [.mint none none 10, .seed (some "site") (setNext 40) 11,
    .mint (some "hall") (some (scopeOf siteAttrs "hall")) 12,
    .seed (some "hall") (setNext 41) 13, .mint (some "hall") (some (scopeOf siteAttrs "hall")) 14,
    .mint (some "site") (some (scopeOf siteAttrs "site")) 15, .mint none none 16]

theorem nearest_codes_differ :
    ∃ w : MintWorld, w.minted.map Minted.code =
        ["WO-0001", "WO-H-0040", "WO-H-0041", "WO-S-0041", "WO-0002"] ∧
      (w.minted.map Minted.code).Nodup := by
  have hexec : (exec (MintWorld.step (workOrders .nearestRegistered) "acme")
      (MintGuard siteTree (workOrders .nearestRegistered) "acme") ⟨noSequences, []⟩ nearestMints).any
        (fun w => decide (w.minted.map Minted.code =
          ["WO-0001", "WO-H-0040", "WO-H-0041", "WO-S-0041", "WO-0002"])) = true := by
    decide +kernel
  obtain ⟨w, hrun, hcodes⟩ := exists_run_of_exec hexec
  exact ⟨w, of_decide_eq_true hcodes, minted_once _ _ _ hrun⟩

/-- Where only the exact counter is looked for, a code does not print its location: the
first number of a location is the first number of the tenant. -/
def exactMints : List MintAction :=
  [.seed (some "site") (setNext 1) 10, .mint (some "site") (some (scopeOf siteAttrs "site")) 11,
    .mint none none 12]

theorem exact_codes_collide :
    ∃ w : MintWorld, Run (MintWorld.step (workOrders .exact) "acme") (fun _ a => Placed siteTree a)
        ⟨noSequences, []⟩ w ∧ ¬(w.minted.map Minted.code).Nodup := by
  have hexec : (exec (MintWorld.step (workOrders .exact) "acme") (fun _ a => Placed siteTree a)
      ⟨noSequences, []⟩ exactMints).any
        (fun w => decide (w.minted.map Minted.code = ["WO-0001", "WO-0001"])) = true := by
    decide +kernel
  obtain ⟨w, hrun, hcodes⟩ := exists_run_of_exec hexec
  refine ⟨w, hrun, ?_⟩
  rw [of_decide_eq_true hcodes]
  decide

end MetriEngine.Codice

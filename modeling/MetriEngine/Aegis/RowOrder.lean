import MetriEngine.Foundation.WeakOrder
import MetriEngine.Aegis.Table

/-!
# The order of rows

Rows are compared by one sort key after another. A key orders numbers among themselves and
texts among themselves; a value that is missing, of another type, or of the other of the two
is tied with everything. Whether the rows of a list are ordered at all hangs on which kinds of
values meet under a key.
-/
namespace MetriEngine.Aegis
open Foundation Storage Eav

/-! ### Values -/

inductive ValueKind
  | number
  | text
  | other
deriving DecidableEq

/-- A NaN is compared with nothing. -/
def kindOf : JsonValue → ValueKind
  | .number n => if n.asF64.isNaN then .other else .number
  | .string _ => .text
  | _ => .other

theorem compareJsonValues_number (m n : JsonNumber) :
    compareJsonValues (.number m) (.number n) =
      if m.asF64.isNaN ∨ n.asF64.isNaN then .eq else compare m.asF64.place n.asF64.place := by
  unfold compareJsonValues F64.lt
  by_cases hm : m.asF64.isNaN
  · simp [hm]
  · by_cases hn : n.asF64.isNaN
    · simp [hn]
    · rcases lt_trichotomy m.asF64.place n.asF64.place with h | h | h
      · simp [hm, hn, h, compare_lt_iff_lt.mpr h]
      · simp [hm, hn, h]
      · simp [hm, hn, h, h.not_gt, compare_gt_iff_gt.mpr h]

theorem compareJsonValues_swap (u v : JsonValue) :
    compareJsonValues v u = (compareJsonValues u v).swap := by
  cases u with
  | number m =>
    cases v with
    | number n =>
      rw [compareJsonValues_number, compareJsonValues_number]
      by_cases h : m.asF64.isNaN ∨ n.asF64.isNaN
      · rw [if_pos h, if_pos h.symm]
        rfl
      · rw [if_neg h, if_neg fun h' => h h'.symm]
        exact Std.OrientedOrd.eq_swap
    | _ => rfl
  | string s =>
    cases v with
    | string t => exact Std.OrientedOrd.eq_swap
    | _ => rfl
  | _ => cases v <;> rfl

theorem kindOf_eq_of_compare {u v : JsonValue} (h : compareJsonValues u v ≠ .eq) :
    kindOf u = kindOf v := by
  cases u with
  | number m =>
    cases v with
    | number n =>
      rw [compareJsonValues_number] at h
      split_ifs at h with hnan
      · exact absurd rfl h
      · rw [not_or] at hnan
        simp [kindOf, hnan.1, hnan.2]
    | _ => exact absurd rfl h
  | string s =>
    cases v with
    | string t => rfl
    | _ => exact absurd rfl h
  | _ => cases v <;> exact absurd rfl h

/-- Numbers are ordered by their place and texts by their characters. -/
theorem compareJsonValues_splits {u v w : JsonValue} (hkind : kindOf w = kindOf u)
    (h : compareJsonValues u v = .lt) :
    compareJsonValues u w = .lt ∨ compareJsonValues w v = .lt := by
  cases u with
  | number m =>
    cases v with
    | number n =>
      rw [compareJsonValues_number] at h
      split_ifs at h with hnan
      rw [not_or] at hnan
      have hlt := compare_lt_iff_lt.mp h
      cases w with
      | number l =>
        have hl : l.asF64.isNaN = false := by
          by_contra hl
          simp [kindOf, hnan.1, hl] at hkind
        rw [compareJsonValues_number, compareJsonValues_number, if_neg (by simp [hnan.1, hl]),
          if_neg (by simp [hnan.2, hl]), compare_lt_iff_lt, compare_lt_iff_lt]
        rcases lt_or_ge m.asF64.place l.asF64.place with hml | hlm
        · exact Or.inl hml
        · exact Or.inr (hlm.trans_lt hlt)
      | _ => simp [kindOf, hnan.1] at hkind
    | _ => cases h
  | string s =>
    cases v with
    | string t =>
      have hlt : s < t := compare_lt_iff_lt.mp h
      cases w with
      | string r =>
        rcases lt_or_ge s r with hsr | hrs
        · exact Or.inl (compare_lt_iff_lt.mpr hsr)
        · exact Or.inr (compare_lt_iff_lt.mpr (hrs.trans_lt hlt))
      | number l =>
        unfold kindOf at hkind
        dsimp only at hkind
        split_ifs at hkind
      | _ => cases hkind
    | _ => cases h
  | _ => cases v <;> cases h

/-! ### Rows -/

/-- The value that a row is compared by. -/
def SortDefinition.value (spec : SortDefinition) (row : JsonMap) : JsonValue :=
  (row.lookup (spec.field.getD "")).getD .null

def SortDefinition.key (spec : SortDefinition) : KindedOrder JsonMap ValueKind where
  cmp a b :=
    let order := compareJsonValues (spec.value a) (spec.value b)
    if spec.descending then order.swap else order
  kind row := kindOf (spec.value row)
  swap a b := by
    dsimp only
    rw [compareJsonValues_swap (spec.value a)]
    split_ifs
    · rfl
    · rfl
  kind_eq := by
    intro a b h
    apply kindOf_eq_of_compare
    intro heq
    apply h
    dsimp only
    rw [heq]
    split_ifs <;> rfl
  splits := by
    intro a b c hkind h
    dsimp only at h ⊢
    split_ifs at h ⊢ with hdesc
    · have hba : compareJsonValues (spec.value b) (spec.value a) = .lt := by
        rw [compareJsonValues_swap (spec.value a), h]
      have hsame : kindOf (spec.value c) = kindOf (spec.value b) :=
        hkind.trans (kindOf_eq_of_compare (by rw [hba]; decide)).symm
      rcases compareJsonValues_splits hsame hba with hbc | hca
      · right
        rw [← compareJsonValues_swap, hbc]
      · left
        rw [← compareJsonValues_swap, hca]
    · exact compareJsonValues_splits hkind h

theorem compareRows_eq (sortDefs : List SortDefinition) (a b : JsonMap) :
    compareRows sortDefs a b = lexicographic (sortDefs.map SortDefinition.key) a b := by
  unfold compareRows lexicographic
  rw [List.foldr_map]
  rfl

/-- Where a key puts one row before another, a third row has a value of another kind under it,
and no key before it orders any of the three, the keys after it put the third row after the
one or before the other. -/
def MixedRowsSettled (sortDefs : List SortDefinition) (rows : List JsonMap) : Prop :=
  ∀ a ∈ rows, ∀ b ∈ rows, ∀ c ∈ rows, Settled (sortDefs.map SortDefinition.key) a b c

/-- What a sort is for: the comparison is a strict weak order of the rows, and the result has
the rows that there were, none before one that compares below it. -/
structure SortsRows (sortDefs : List SortDefinition) (rows sorted : List JsonMap) : Prop where
  ordered : WeakOrderOn (compareRows sortDefs) rows
  perm : sorted.Perm rows
  sorted : sorted.Pairwise fun a b => compareRows sortDefs a b ≠ .gt

theorem applySort_eq (sortDefs : List SortDefinition) (rows : List JsonMap) :
    applySort sortDefs rows = rows.insertionSort fun a b => compareRows sortDefs a b ≠ .gt := by
  unfold applySort
  split_ifs with hnil
  · subst hnil
    have hpair : rows.Pairwise fun a b => compareRows [] a b ≠ .gt :=
      List.pairwise_of_forall fun _ _ => by simp [compareRows]
    exact hpair.insertionSort_eq.symm
  · rfl

theorem sortsRows_iff (sortDefs : List SortDefinition) (rows : List JsonMap) :
    SortsRows sortDefs rows (applySort sortDefs rows) ↔ MixedRowsSettled sortDefs rows := by
  have hcmp : compareRows sortDefs = lexicographic (sortDefs.map SortDefinition.key) := by
    funext a b
    exact compareRows_eq sortDefs a b
  have horder := weakOrderOn_lexicographic_iff (sortDefs.map SortDefinition.key) rows
  rw [← hcmp] at horder
  constructor
  · intro h
    exact horder.mp h.ordered
  · intro h
    have hweak := horder.mpr h
    refine ⟨hweak, ?_, ?_⟩
    · rw [applySort_eq]
      exact List.perm_insertionSort _ rows
    · rw [applySort_eq]
      exact pairwise_insertionSort_of_weakOrderOn hweak

/-! ### Orders as JSON -/

/-- `to_uppercase` of a direction is `DESC`; the long s is the one letter that is not ASCII
and turns into one of it. -/
def isDescending (direction : String) : Bool :=
  direction.toList.map (fun c => if c = 'ſ' then 'S' else c.toUpper) = "DESC".toList

/-- A member of an `order_by` entry. -/
def sortMember (spec : JsonValue) (name : String) : Option JsonValue :=
  spec.asObject.bind fun entries => entries.lookup name

/-- An entry of `order_by`. -/
def orderByDefinition (spec : JsonValue) : SortDefinition where
  field := some (textOf ((sortMember spec "attribute").or (sortMember spec "field")))
  descending := isDescending (((sortMember spec "direction").bind JsonValue.asStr).getD "ASC")

/-- `apply_sort_in_memory` -/
def applySortInMemory (rows : List JsonMap) (orderBy : List JsonValue) : List JsonMap :=
  applySort (orderBy.map orderByDefinition) rows

/-- Both sorts sort the rows exactly where the keys settle what is mixed. -/
theorem rows_sorted_iff (rows : List JsonMap) :
    (∀ sortDefs, SortsRows sortDefs rows (applySort sortDefs rows) ↔
      MixedRowsSettled sortDefs rows) ∧
    ∀ orderBy, SortsRows (orderBy.map orderByDefinition) rows (applySortInMemory rows orderBy) ↔
      MixedRowsSettled (orderBy.map orderByDefinition) rows := by
  constructor
  · intro sortDefs
    exact sortsRows_iff sortDefs rows
  · intro orderBy
    exact sortsRows_iff (orderBy.map orderByDefinition) rows

/-! ### Two numbers and a text -/

def sizeRow (size : JsonValue) : JsonMap := (∅ : JsonMap).insert "size" size

def one : JsonNumber := .ofSigned ⟨1, by norm_num⟩
def two : JsonNumber := .ofSigned ⟨2, by norm_num⟩

/-- A text between two numbers is tied with both, and two is left before one. -/
theorem text_between_numbers :
    ¬ ∀ sortDefs rows, SortsRows sortDefs rows (applySort sortDefs rows) := by
  intro h
  let spec : SortDefinition := ⟨some "size", false⟩
  have hrows := (sortsRows_iff [spec] _).mp
    (h [spec] [sizeRow (.number two), sizeRow (.string "x"), sizeRow (.number one)])
  have hplaced := hrows (sizeRow (.number one)) (by simp) (sizeRow (.number two)) (by simp)
    (sizeRow (.string "x")) (by simp) [] spec.key [] rfl (fun _ hk => absurd hk List.not_mem_nil)
    (by decide +kernel) (by decide +kernel)
  rcases hplaced with h' | h' <;> cases h'

end MetriEngine.Aegis

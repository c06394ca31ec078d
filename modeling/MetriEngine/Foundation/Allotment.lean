import Mathlib

/-!
# Drawing an amount from sources in order

Each source gives what it has, as far as that is still wanted. The sources are sorted by a stamp,
and those of one stamp stay in the order in which they came.
-/
namespace MetriEngine.Foundation

/-! ### What each source gives -/

section Drawing

variable {ι α : Type*} [DecidableEq ι] [AddCommGroup α] [LinearOrder α]

/-- What the source `i` gives when `wanted` is drawn. -/
def drawn (held : ι → α) : List ι → α → ι → α
  | [], _, _ => 0
  | j :: order, wanted, i =>
    if i = j then min (held j) wanted else drawn held order (wanted - min (held j) wanted) i

variable {held : ι → α} {order : List ι} {wanted : α}

@[simp] theorem drawn_nil (i : ι) : drawn held [] wanted i = 0 := rfl

@[simp] theorem drawn_cons_self (i : ι) :
    drawn held (i :: order) wanted i = min (held i) wanted := if_pos rfl

theorem drawn_cons_of_ne {i j : ι} (h : i ≠ j) :
    drawn held (j :: order) wanted i = drawn held order (wanted - min (held j) wanted) i :=
  if_neg h

theorem drawn_of_notMem {i : ι} (h : i ∉ order) : drawn held order wanted i = 0 := by
  induction order generalizing wanted with
  | nil => rfl
  | cons j order ih =>
    rw [List.mem_cons, not_or] at h
    rw [drawn_cons_of_ne h.1]
    exact ih h.2

theorem drawn_congr {held' : ι → α} (h : ∀ j ∈ order, held j = held' j) (i : ι) :
    drawn held order wanted i = drawn held' order wanted i := by
  induction order generalizing wanted with
  | nil => rfl
  | cons j order ih =>
    rw [drawn, drawn, h j List.mem_cons_self]
    split_ifs
    · rfl
    · exact ih fun k hk => h k (List.mem_cons_of_mem j hk)

theorem drawn_zero (hheld : ∀ j ∈ order, 0 ≤ held j) (i : ι) : drawn held order 0 i = 0 := by
  induction order with
  | nil => rfl
  | cons j order ih =>
    have hmin : min (held j) 0 = 0 := min_eq_right (hheld j List.mem_cons_self)
    rw [drawn, hmin, sub_zero, ih fun k hk => hheld k (List.mem_cons_of_mem j hk), ite_self]

theorem drawn_le {i : ι} (hi : 0 ≤ held i) : drawn held order wanted i ≤ held i := by
  induction order generalizing wanted with
  | nil => exact hi
  | cons j order ih =>
    rw [drawn]
    split_ifs with hij
    · rw [hij]
      exact min_le_left ..
    · exact ih

/-- A source gives something only once those before it have given all that they have. -/
theorem drawn_in_order (hnodup : order.Nodup) (hheld : ∀ j ∈ order, 0 ≤ held j) :
    order.Pairwise fun i j =>
      0 < drawn held order wanted j → drawn held order wanted i = held i := by
  induction order generalizing wanted with
  | nil => exact List.Pairwise.nil
  | cons k order ih =>
    obtain ⟨hk, hrest⟩ := List.nodup_cons.mp hnodup
    have hheld' (j : ι) (hj : j ∈ order) : 0 ≤ held j := hheld j (List.mem_cons_of_mem k hj)
    have hne (j : ι) (hj : j ∈ order) : j ≠ k := fun hjk => hk (hjk ▸ hj)
    apply List.Pairwise.cons
    · intro j hj hpos
      rw [drawn_cons_self, min_eq_left_iff]
      rw [drawn_cons_of_ne (hne j hj)] at hpos
      by_contra hlt
      rw [min_eq_right (le_of_not_ge hlt), sub_self, drawn_zero hheld'] at hpos
      exact hpos.false
    · apply (ih hrest hheld').imp_of_mem
      intro i j hi hj h
      rw [drawn_cons_of_ne (hne i hi), drawn_cons_of_ne (hne j hj)]
      exact h

variable [IsOrderedAddMonoid α]

theorem drawn_nonneg (hheld : ∀ j ∈ order, 0 ≤ held j) (hwanted : 0 ≤ wanted) (i : ι) :
    0 ≤ drawn held order wanted i := by
  induction order generalizing wanted with
  | nil => exact le_rfl
  | cons j order ih =>
    rw [drawn]
    split_ifs
    · exact le_min (hheld j List.mem_cons_self) hwanted
    · apply ih fun k hk => hheld k (List.mem_cons_of_mem j hk)
      exact sub_nonneg.mpr (min_le_right ..)

/-- Together they give what is wanted, or all that they have. -/
theorem sum_drawn (hnodup : order.Nodup) (hheld : ∀ j ∈ order, 0 ≤ held j) (hwanted : 0 ≤ wanted) :
    (order.map (drawn held order wanted)).sum = min (order.map held).sum wanted := by
  induction order generalizing wanted with
  | nil => exact (min_eq_left hwanted).symm
  | cons j order ih =>
    obtain ⟨hj, hrest⟩ := List.nodup_cons.mp hnodup
    have hheld' (k : ι) (hk : k ∈ order) : 0 ≤ held k := hheld k (List.mem_cons_of_mem j hk)
    have hleft : 0 ≤ wanted - min (held j) wanted := sub_nonneg.mpr (min_le_right ..)
    have htail : order.map (drawn held (j :: order) wanted) =
        order.map (drawn held order (wanted - min (held j) wanted)) := by
      apply List.map_congr_left
      intro k hk
      exact drawn_cons_of_ne fun hkj => hj (hkj ▸ hk)
    rw [List.map_cons, List.map_cons, List.sum_cons, List.sum_cons, drawn_cons_self, htail,
      ih hrest hheld' hleft]
    have hsum : 0 ≤ (order.map held).sum := by
      apply List.sum_nonneg
      intro x hx
      obtain ⟨k, hk, rfl⟩ := List.mem_map.mp hx
      exact hheld' k hk
    rcases le_total (held j) wanted with hle | hle
    · rw [min_eq_left hle, ← min_add_add_left, add_sub_cancel]
    · have hall : wanted ≤ held j + (order.map held).sum := le_add_of_le_of_nonneg hle hsum
      rw [min_eq_right hle, sub_self, min_eq_right hsum, add_zero, min_eq_right hall]

end Drawing

/-! ### Sorting by a stamp -/

section Sorting

variable {α : Type*} [LinearOrder α] (r : α → α → Prop)

/-- Of two sources the first comes earlier by its stamp, or has the same stamp and came earlier. -/
def Earlier (i j : α) : Prop := r i j ∧ (r j i → i < j)

variable {r}

theorem Earlier.asymm {i j : α} (h : Earlier r i j) : ¬ Earlier r j i := fun h' =>
  (h.2 h'.1).asymm (h'.2 h.1)

/-- What holds along a sorted list holds between any two of its sources. -/
theorem of_earlier {l : List α} {p : α → α → Prop} (hl : l.Pairwise (Earlier r))
    (hp : l.Pairwise p) {i j : α} (hi : i ∈ l) (hj : j ∈ l) (hij : Earlier r i j) : p i j := by
  induction l with
  | nil => exact absurd hi List.not_mem_nil
  | cons a l ih =>
    obtain ⟨ha, hrest⟩ := List.pairwise_cons.mp hl
    obtain ⟨hpa, hprest⟩ := List.pairwise_cons.mp hp
    cases hi with
    | head =>
      cases hj with
      | head => exact absurd hij hij.asymm
      | tail _ hj => exact hpa j hj
    | tail _ hi =>
      cases hj with
      | head => exact absurd (ha i hi) hij.asymm
      | tail _ hj => exact ih hrest hprest hi hj

variable [DecidableRel r] [Std.Total r] [IsTrans α r]

theorem pairwise_earlier_orderedInsert {a : α} {l : List α} (hl : l.Pairwise (Earlier r))
    (ha : ∀ b ∈ l, a < b) : (l.orderedInsert r a).Pairwise (Earlier r) := by
  induction l with
  | nil => exact List.pairwise_singleton ..
  | cons b l ih =>
    obtain ⟨hb, hrest⟩ := List.pairwise_cons.mp hl
    rw [List.orderedInsert]
    split_ifs with hab
    · apply List.Pairwise.cons _ hl
      intro c hc
      have hac : r a c := by
        cases hc with
        | head => exact hab
        | tail _ hc => exact trans_of r hab (hb c hc).1
      exact ⟨hac, fun _ => ha c hc⟩
    · apply List.Pairwise.cons
      · intro c hc
        rcases (List.mem_orderedInsert r).mp hc with rfl | hc
        · exact ⟨(total_of r b c).resolve_right hab, fun h => absurd h hab⟩
        · exact hb c hc
      · exact ih hrest fun c hc => ha c (List.mem_cons_of_mem b hc)

/-- Sources that came in order are sorted by their stamps, those of one stamp still in order. -/
theorem pairwise_earlier_insertionSort {l : List α} (hl : l.Pairwise (· < ·)) :
    (l.insertionSort r).Pairwise (Earlier r) := by
  induction l with
  | nil => exact List.Pairwise.nil
  | cons a l ih =>
    obtain ⟨ha, hrest⟩ := List.pairwise_cons.mp hl
    apply pairwise_earlier_orderedInsert (ih hrest)
    intro b hb
    exact ha b ((List.mem_insertionSort r).mp hb)

end Sorting
end MetriEngine.Foundation

import Mathlib.Data.List.Basic
import Mathlib.Data.List.Induction
import Mathlib.Order.Bounds.Basic

/-!
# Groups with a summary

A query over items may go over groups of them instead. A group that lies apart from the query
is left out as a whole, one that lies within it is taken in by its summary, and any other is
gone through item by item.
-/
namespace MetriEngine.Foundation

/-! ### Ranges -/

section Ranges
variable {ι : Type*} [Preorder ι]

/-- Two closed ranges have nothing in common: one ends before the other begins. -/
def Apart (lo hi queryLo queryHi : ι) : Prop := hi < queryLo ∨ queryHi < lo

def Within (lo hi queryLo queryHi : ι) : Prop := queryLo ≤ lo ∧ hi ≤ queryHi

variable {lo hi lo' hi' queryLo queryHi : ι}

/-- What lies in a range that is apart is apart. -/
theorem Apart.of_subrange (h : Apart lo hi queryLo queryHi) (hlo : lo ≤ lo') (hhi : hi' ≤ hi) :
    Apart lo' hi' queryLo queryHi :=
  h.imp (lt_of_le_of_lt hhi) (lt_of_lt_of_le · hlo)

/-- What lies in a range that is within is not apart. -/
theorem Within.not_apart (h : Within lo hi queryLo queryHi) (hlo : lo ≤ lo') (hhi : hi' ≤ hi)
    (hle : lo' ≤ hi') : ¬Apart lo' hi' queryLo queryHi := by
  rintro (hbefore | hbehind)
  · exact absurd (h.1.trans (hlo.trans hle)) (not_le_of_gt hbefore)
  · exact absurd (hle.trans (hhi.trans h.2)) (not_le_of_gt hbehind)

instance {ι : Type*} [LinearOrder ι] (lo hi queryLo queryHi : ι) :
    Decidable (Apart lo hi queryLo queryHi) := inferInstanceAs (Decidable (_ ∨ _))

instance {ι : Type*} [LinearOrder ι] (lo hi queryLo queryHi : ι) :
    Decidable (Within lo hi queryLo queryHi) := inferInstanceAs (Decidable (_ ∧ _))

end Ranges

/-! ### Folds -/

section Folds
variable {α β γ σ τ : Type*}

/-- A fold over groups keeps in step with the fold over their items, one group after the other. -/
theorem foldl_flatMap_rel {R : σ → τ → Prop} {items : γ → List α} {nodeStep : σ → γ → σ}
    {step : τ → α → τ} {groups : List γ}
    (h : ∀ g ∈ groups, ∀ s t, R s t → R (nodeStep s g) ((items g).foldl step t)) {s : σ} {t : τ}
    (hst : R s t) : R (groups.foldl nodeStep s) ((groups.flatMap items).foldl step t) := by
  induction groups generalizing s t with
  | nil => exact hst
  | cons g groups ih =>
    rw [List.foldl_cons, List.flatMap_cons, List.foldl_append]
    exact ih (fun g' hg' => h g' (List.mem_cons_of_mem _ hg')) (h g List.mem_cons_self s t hst)

/-- Two folds over one list keep in step where a single step does. -/
theorem foldl_rel_of_mem {R : σ → τ → Prop} {f : σ → α → σ} {g : τ → α → τ} {xs : List α}
    (h : ∀ x ∈ xs, ∀ s t, R s t → R (f s x) (g t x)) {s : σ} {t : τ} (hst : R s t) :
    R (xs.foldl f s) (xs.foldl g t) := by
  induction xs generalizing s t with
  | nil => exact hst
  | cons x xs ih =>
    exact ih (fun y hy => h y (List.mem_cons_of_mem _ hy)) (h x List.mem_cons_self s t hst)

theorem foldl_closed {P : β → Prop} {op : β → β → β} (h : ∀ a b, P a → P b → P (op a b)) {a : β}
    {xs : List β} (ha : P a) (hxs : ∀ x ∈ xs, P x) : P (xs.foldl op a) :=
  List.foldlRecOn xs op ha fun b hb x hx => h b x hb (hxs x hx)

/-- A group that is folded on its own and taken in then leaves what its items leave one after the
other. It is enough that the operation is associative as far as `f` sees. -/
theorem op_foldl {P : β → Prop} {op : β → β → β} {e : β} {f : β → γ}
    (hclosed : ∀ a b, P a → P b → P (op a b))
    (hassoc : ∀ a b c, P a → P b → P c → f (op (op a b) c) = f (op a (op b c)))
    (hcongr : ∀ a b c, f a = f b → f (op a c) = f (op b c)) (hid : ∀ a, op e a = a) (he : P e)
    {a : β} (ha : P a) {xs : List β} (hxs : ∀ x ∈ xs, P x) (hne : xs ≠ []) :
    f (op a (xs.foldl op e)) = f (xs.foldl op a) := by
  induction xs using List.reverseRecOn with
  | nil => exact absurd rfl hne
  | append_singleton xs x ih =>
    have hbefore : ∀ y ∈ xs, P y := fun y hy => hxs y (List.mem_append_left _ hy)
    have hx : P x := hxs x (List.mem_append_right _ List.mem_cons_self)
    rw [List.foldl_concat, List.foldl_concat]
    by_cases hnil : xs = []
    · subst hnil
      rw [List.foldl_nil, List.foldl_nil, hid]
    · rw [← hassoc _ _ _ ha (foldl_closed hclosed he hbefore) hx]
      exact hcongr _ _ _ (ih hbefore hnil)

/-- Keeps the value of the latest item; of two that are equally late the second. -/
def takeLatest {ι : Type*} [LE ι] [DecidableLE ι] (best : ι × β) (item : ι × β) : ι × β :=
  if best.1 ≤ item.1 then item else best

section Latest
variable {ι : Type*} [LinearOrder ι]

theorem foldl_takeLatest_of_lt {best : ι × β} {xs : List (ι × β)} (h : ∀ x ∈ xs, x.1 < best.1) :
    xs.foldl takeLatest best = best := by
  induction xs with
  | nil => rfl
  | cons x xs ih =>
    rw [List.foldl_cons, takeLatest, if_neg (not_le_of_gt (h x List.mem_cons_self))]
    exact ih fun y hy => h y (List.mem_cons_of_mem _ hy)

/-- What comes before an item that is as late is forgotten. -/
theorem takeLatest_takeLatest {x item : ι × β} (h : x.1 ≤ item.1) (best : ι × β) :
    takeLatest (takeLatest best x) item = takeLatest best item := by
  by_cases hx : best.1 ≤ x.1
  · rw [takeLatest.eq_1 best x, if_pos hx, takeLatest, takeLatest, if_pos h, if_pos (hx.trans h)]
  · rw [takeLatest.eq_1 best x, if_neg hx]

/-- Of some items the last one among the latest decides. -/
theorem foldl_takeLatest {before behind : List (ι × β)} {item : ι × β}
    (hbefore : ∀ x ∈ before, x.1 ≤ item.1) (hbehind : ∀ x ∈ behind, x.1 < item.1) (best : ι × β) :
    (before ++ item :: behind).foldl takeLatest best = takeLatest best item := by
  induction before generalizing best with
  | nil =>
    rw [List.nil_append, List.foldl_cons, takeLatest]
    split_ifs with h
    · exact foldl_takeLatest_of_lt hbehind
    · exact foldl_takeLatest_of_lt fun x hx => (hbehind x hx).trans (lt_of_not_ge h)
  | cons x before ih =>
    rw [List.cons_append, List.foldl_cons,
      ih fun y hy => hbefore y (List.mem_cons_of_mem _ hy),
      takeLatest_takeLatest (hbefore x List.mem_cons_self)]

/-- Among some items there is a last one of the latest. -/
theorem exists_foldl_takeLatest (first : ι × β) (rest : List (ι × β)) :
    ∃ before behind, first :: rest = before ++ rest.foldl takeLatest first :: behind ∧
      (∀ x ∈ before, x.1 ≤ (rest.foldl takeLatest first).1) ∧
      ∀ x ∈ behind, x.1 < (rest.foldl takeLatest first).1 := by
  induction rest using List.reverseRecOn with
  | nil => exact ⟨[], [], rfl, by simp, by simp⟩
  | append_singleton rest x ih =>
    obtain ⟨before, behind, hlist, hbefore, hbehind⟩ := ih
    have hwhole : first :: (rest ++ [x]) =
        before ++ rest.foldl takeLatest first :: (behind ++ [x]) := by
      rw [← List.cons_append, hlist, List.append_assoc, List.cons_append]
    rw [List.foldl_concat, takeLatest]
    split_ifs with hx
    · refine ⟨first :: rest, [], rfl, ?_, by simp⟩
      rw [hlist]
      intro y hy
      rcases List.mem_append.mp hy with hy | hy
      · exact (hbefore y hy).trans hx
      · rcases List.mem_cons.mp hy with rfl | hy
        · exact hx
        · exact (hbehind y hy).le.trans hx
    · refine ⟨before, behind ++ [x], hwhole, hbefore, ?_⟩
      intro y hy
      rcases List.mem_append.mp hy with hy | hy
      · exact hbehind y hy
      · rw [List.mem_singleton.mp hy]
        exact lt_of_not_ge hx

end Latest

section Hulls
variable {ι : Type*} [LinearOrder ι] (f : α → ι)

theorem isLeast_foldl_min (first : α) (rest : List α) :
    IsLeast {t | ∃ a ∈ first :: rest, f a = t} ((rest.map f).foldl min (f first)) := by
  induction rest using List.reverseRecOn with
  | nil => simp [IsLeast, lowerBounds]
  | append_singleton rest x ih =>
    have hset : {t | ∃ a ∈ first :: (rest ++ [x]), f a = t} =
        insert (f x) {t | ∃ a ∈ first :: rest, f a = t} := by
      ext t
      simp only [List.mem_cons, List.mem_append, List.not_mem_nil, or_false, Set.mem_insert_iff,
        Set.mem_ofPred_eq]
      grind
    rw [hset, List.map_append, List.map_singleton, List.foldl_concat, min_comm]
    exact ih.insert (f x)

theorem isGreatest_foldl_max (first : α) (rest : List α) :
    IsGreatest {t | ∃ a ∈ first :: rest, f a = t} ((rest.map f).foldl max (f first)) :=
  @isLeast_foldl_min α ιᵒᵈ _ f first rest

end Hulls
end Folds
end MetriEngine.Foundation

import MetriEngine.Foundation.Text

/-!
# Texts joined by a separator

Parts that are joined are told apart only by the pieces between separators: a separator inside of
a part cuts it as one between parts does, and no parts are joined as one empty part is.
-/
namespace MetriEngine.Foundation

section Lists
variable {α : Type*} [DecidableEq α] {sep : α}

/-- The pieces of parts, one after the other. -/
def cutAll (sep : α) (parts : List (List α)) : List (List α) :=
  if parts = [] then [[]] else parts.flatMap (splitOnSep sep)

theorem splitOnSep_ne_nil (l : List α) : splitOnSep sep l ≠ [] := by
  cases l with
  | nil => exact List.cons_ne_nil _ _
  | cons x l =>
    rw [splitOnSep]
    split_ifs
    · exact List.cons_ne_nil _ _
    · cases splitOnSep sep l <;> exact List.cons_ne_nil _ _

theorem splitOnSep_append_sep (l m : List α) :
    splitOnSep sep (l ++ sep :: m) = splitOnSep sep l ++ splitOnSep sep m := by
  induction l with
  | nil => simp [splitOnSep]
  | cons x l ih =>
    rw [List.cons_append, splitOnSep, splitOnSep, ih]
    split_ifs with hx
    · rfl
    · cases hl : splitOnSep sep l with
      | nil => exact absurd hl (splitOnSep_ne_nil l)
      | cons y ys => rfl

theorem splitOnSep_intercalate (parts : List (List α)) :
    splitOnSep sep ([sep].intercalate parts) = cutAll sep parts := by
  induction parts with
  | nil => rfl
  | cons p parts ih =>
    cases parts with
    | nil => simp [cutAll]
    | cons q parts =>
      rw [List.intercalate_cons_cons, List.append_assoc]
      change splitOnSep sep (p ++ sep :: [sep].intercalate (q :: parts)) = _
      rw [splitOnSep_append_sep, ih]
      rfl

theorem intercalate_splitOnSep (l : List α) : [sep].intercalate (splitOnSep sep l) = l := by
  induction l with
  | nil => rfl
  | cons x l ih =>
    rw [splitOnSep]
    cases hl : splitOnSep sep l with
    | nil => exact absurd hl (splitOnSep_ne_nil l)
    | cons y ys =>
      rw [hl] at ih
      split_ifs with hx
      · rw [List.intercalate_cons_cons, ih, hx]
        rfl
      · cases ys with
        | nil =>
          rw [List.intercalate_singleton] at ih ⊢
          rw [ih]
        | cons z zs =>
          rw [List.intercalate_cons_cons] at ih ⊢
          rw [List.cons_append, List.cons_append, ih]

/-- Joined parts are equal exactly where their pieces are. -/
theorem intercalate_eq_iff (parts parts' : List (List α)) :
    [sep].intercalate parts = [sep].intercalate parts' ↔ cutAll sep parts = cutAll sep parts' := by
  rw [← splitOnSep_intercalate, ← splitOnSep_intercalate]
  constructor
  · intro h
    rw [h]
  · intro h
    have hjoined := congrArg [sep].intercalate h
    rwa [intercalate_splitOnSep, intercalate_splitOnSep] at hjoined

end Lists

namespace Text

/-- The pieces of texts between separators, one after the other. -/
def pieces (sep : Char) (parts : List String) : List String :=
  if parts = [] then [""] else parts.flatMap fun s => split s sep

theorem pieces_eq (sep : Char) (parts : List String) :
    pieces sep parts = (cutAll sep (parts.map String.toList)).map String.ofList := by
  unfold pieces cutAll
  by_cases h : parts = []
  · simp [h]
  · have hmap : parts.map String.toList ≠ [] := fun hmap => h (List.map_eq_nil_iff.mp hmap)
    rw [if_neg h, if_neg hmap, List.map_flatMap, List.flatMap_map]
    rfl

theorem intercalate_eq_iff_pieces (sep : Char) (parts parts' : List String) :
    (String.singleton sep).intercalate parts = (String.singleton sep).intercalate parts' ↔
      pieces sep parts = pieces sep parts' := by
  have hinj : Function.Injective (List.map String.ofList) :=
    List.map_injective_iff.mpr fun _ _ h => String.ofList_injective h
  rw [pieces_eq, pieces_eq, hinj.eq_iff, ← intercalate_eq_iff, ← String.toList_inj,
    String.toList_intercalate, String.toList_intercalate, String.toList_singleton]

end Text
end MetriEngine.Foundation

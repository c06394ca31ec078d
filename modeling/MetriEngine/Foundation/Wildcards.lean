import Mathlib.Data.List.Basic

/-!
# Patterns with wildcards

A pattern is a list of symbols: a letter that stands for itself, a wildcard for one letter, and
one for any number of them. Which letters a wildcard may stand for is a parameter.
-/
namespace MetriEngine.Foundation

inductive Wildcard (α : Type) where
  | exactly (a : α)
  | one
  | many
deriving DecidableEq

namespace Wildcard
variable {α : Type}

/-- A word is what a pattern stands for. -/
def Covers (stands : α → Prop) : List (Wildcard α) → List α → Prop
  | [], word => word = []
  | exactly a :: pattern, word => ∃ rest, word = a :: rest ∧ Covers stands pattern rest
  | one :: pattern, word => ∃ a rest, word = a :: rest ∧ stands a ∧ Covers stands pattern rest
  | many :: pattern, word =>
    ∃ run rest, word = run ++ rest ∧ (∀ a ∈ run, stands a) ∧ Covers stands pattern rest

theorem Covers.mono {stands stands' : α → Prop} (h : ∀ a, stands a → stands' a)
    {pattern : List (Wildcard α)} {word : List α} (hcovers : Covers stands pattern word) : Covers stands' pattern word := by
  induction pattern generalizing word with
  | nil => exact hcovers
  | cons symbol pattern ih =>
    cases symbol with
    | exactly a =>
      obtain ⟨rest, hword, hrest⟩ := hcovers
      exact ⟨rest, hword, ih hrest⟩
    | one =>
      obtain ⟨a, rest, hword, ha, hrest⟩ := hcovers
      exact ⟨a, rest, hword, h a ha, ih hrest⟩
    | many =>
      obtain ⟨run, rest, hword, hrun, hrest⟩ := hcovers
      exact ⟨run, rest, hword, fun a ha => h a (hrun a ha), ih hrest⟩

/-! ### A matcher -/

section Matcher
variable [DecidableEq α] (stands : α → Bool)

/-- What is left of a word behind each run that a wildcard may stand for. -/
def suffixes : List α → List (List α)
  | [] => [[]]
  | a :: word => (a :: word) :: if stands a then suffixes word else []

def covers : List (Wildcard α) → List α → Bool
  | [], word => word.isEmpty
  | exactly a :: pattern, word => word.head? = some a && covers pattern word.tail
  | one :: pattern, word => word.head?.any stands && covers pattern word.tail
  | many :: pattern, word => (suffixes stands word).any fun rest => covers pattern rest

omit [DecidableEq α] in
theorem mem_suffixes_iff {word rest : List α} :
    rest ∈ suffixes stands word ↔ ∃ run, word = run ++ rest ∧ ∀ a ∈ run, stands a = true := by
  induction word with
  | nil =>
    rw [suffixes, List.mem_singleton]
    constructor
    · rintro rfl
      exact ⟨[], rfl, fun a ha => absurd ha List.not_mem_nil⟩
    · rintro ⟨run, hword, _⟩
      exact (List.append_eq_nil_iff.mp hword.symm).2
  | cons b word ih =>
    rw [suffixes, List.mem_cons]
    constructor
    · rintro (rfl | hmem)
      · exact ⟨[], rfl, fun a ha => absurd ha List.not_mem_nil⟩
      · split_ifs at hmem with hb
        · obtain ⟨run, rfl, hrun⟩ := ih.mp hmem
          exact ⟨b :: run, rfl, List.forall_mem_cons.mpr ⟨hb, hrun⟩⟩
        · exact absurd hmem List.not_mem_nil
    · rintro ⟨run, hword, hrun⟩
      cases run with
      | nil => exact Or.inl hword.symm
      | cons c run =>
        obtain ⟨rfl, rfl⟩ := List.cons.inj hword
        right
        rw [if_pos (hrun b List.mem_cons_self)]
        exact ih.mpr ⟨run, rfl, fun a ha => hrun a (List.mem_cons_of_mem b ha)⟩

theorem covers_iff {pattern : List (Wildcard α)} {word : List α} :
    covers stands pattern word = true ↔ Covers (fun a => stands a = true) pattern word := by
  induction pattern generalizing word with
  | nil => exact List.isEmpty_iff
  | cons symbol pattern ih =>
    cases symbol with
    | exactly a =>
      rw [covers, Bool.and_eq_true, decide_eq_true_eq, ih]
      cases word with
      | nil => simp [Covers]
      | cons b word =>
        constructor
        · rintro ⟨hb, hrest⟩
          exact ⟨word, congrArg (· :: word) (Option.some.inj hb), hrest⟩
        · rintro ⟨rest, hword, hrest⟩
          obtain ⟨rfl, rfl⟩ := List.cons.inj hword
          exact ⟨rfl, hrest⟩
    | one =>
      rw [covers, Bool.and_eq_true, ih]
      cases word with
      | nil => simp [Covers]
      | cons b word => simp [Covers]
    | many =>
      rw [covers, List.any_eq_true]
      simp only [mem_suffixes_iff, ih, Covers]
      constructor
      · rintro ⟨rest, ⟨run, hword, hrun⟩, hrest⟩
        exact ⟨run, rest, hword, hrun, hrest⟩
      · rintro ⟨run, rest, hword, hrun, hrest⟩
        exact ⟨rest, ⟨run, hword, hrun⟩, hrest⟩

end Matcher
end Wildcard
end MetriEngine.Foundation

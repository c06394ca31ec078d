import Mathlib

/-!
# Edit scripts

A script edits a word piece by piece: a piece is kept, substituted, deleted, inserted, or two
neighbours change places, and no piece is edited twice. The least cost of the scripts from one word
to another is reached from the least costs of their prefixes.
-/
namespace MetriEngine.Foundation

universe u

variable {α : Type u}

inductive Edit (α : Type u)
  | keep (x : α)
  | substitute (x y : α)
  | delete (x : α)
  | insert (y : α)
  | transpose (x y : α)

namespace Edit

/-- The piece of the first word. -/
def source : Edit α → List α
  | keep x => [x]
  | substitute x _ => [x]
  | delete x => [x]
  | insert _ => []
  | transpose x y => [x, y]

/-- The piece of the second word. -/
def target : Edit α → List α
  | keep x => [x]
  | substitute _ y => [y]
  | delete _ => []
  | insert y => [y]
  | transpose x y => [y, x]

def cost : Edit α → ℕ
  | keep _ => 0
  | _ => 1

/-- The edit the other way. -/
def invert : Edit α → Edit α
  | keep x => keep x
  | substitute x y => substitute y x
  | delete x => insert x
  | insert y => delete y
  | transpose x y => transpose y x

@[simp] theorem source_invert (e : Edit α) : e.invert.source = e.target := by cases e <;> rfl

@[simp] theorem target_invert (e : Edit α) : e.invert.target = e.source := by cases e <;> rfl

@[simp] theorem cost_invert (e : Edit α) : e.invert.cost = e.cost := by cases e <;> rfl

/-! ### Scripts -/

/-- The script takes the first word, piece by piece, to the second. -/
structure Turns (script : List (Edit α)) (a b : List α) : Prop where
  source : script.flatMap source = a
  target : script.flatMap target = b

/-- The costs of the scripts from one word to another. -/
def costs (a b : List α) : Set ℕ :=
  {k | ∃ script, Turns script a b ∧ (script.map cost).sum = k}

variable {a b : List α} {x y : α} {k : ℕ}

theorem costs_subset_swap (a b : List α) : costs a b ⊆ costs b a := by
  rintro k ⟨script, hturns, rfl⟩
  refine ⟨script.map invert, ⟨?_, ?_⟩, ?_⟩
  · simp [List.flatMap_map, hturns.target]
  · simp [List.flatMap_map, hturns.source]
  · simp [Function.comp_def]

theorem costs_swap (a b : List α) : costs a b = costs b a :=
  (costs_subset_swap a b).antisymm (costs_subset_swap b a)

/-- Only a script that keeps every piece is free. -/
theorem zero_mem_costs : 0 ∈ costs a b ↔ a = b := by
  constructor
  · rintro ⟨script, hturns, hcost⟩
    rw [← hturns.source, ← hturns.target]
    apply List.flatMap_congr
    intro e he
    have hfree := List.sum_eq_zero_iff.mp hcost e.cost (List.mem_map_of_mem he)
    cases e <;> simp [cost] at hfree
    rfl
  · rintro rfl
    refine ⟨a.map keep, ⟨?_, ?_⟩, ?_⟩
    · simp [List.flatMap_map, source]
    · simp [List.flatMap_map, target]
    · simp [Function.comp_def, cost]

/-- An edit changes the length by no more than it costs. -/
theorem length_le_of_mem_costs (h : k ∈ costs a b) : a.length ≤ b.length + k := by
  obtain ⟨script, hturns, rfl⟩ := h
  rw [← hturns.source, ← hturns.target]
  clear hturns
  induction script with
  | nil => simp
  | cons e script ih =>
    have he : e.source.length ≤ e.target.length + e.cost := by
      cases e <;> simp [source, target, cost]
    rw [List.flatMap_cons, List.flatMap_cons, List.length_append, List.length_append, List.map_cons,
      List.sum_cons]
    omega

/-! ### One more piece -/

theorem costs_append (h : k ∈ costs a b) (e : Edit α) :
    k + e.cost ∈ costs (a ++ e.source) (b ++ e.target) := by
  obtain ⟨script, hturns, rfl⟩ := h
  refine ⟨script ++ [e], ⟨?_, ?_⟩, ?_⟩
  · simp [hturns.source]
  · simp [hturns.target]
  · simp

/-- Every script ends in its last edit. -/
theorem exists_last (h : k ∈ costs a b) (hne : a ≠ [] ∨ b ≠ []) :
    ∃ (e : Edit α) (a' b' : List α) (k' : ℕ), k' ∈ costs a' b' ∧ a = a' ++ e.source ∧
      b = b' ++ e.target ∧ k = k' + e.cost := by
  obtain ⟨script, hturns, rfl⟩ := h
  induction script using List.reverseRecOn with
  | nil =>
    have hsource := hturns.source
    have htarget := hturns.target
    rw [List.flatMap_nil] at hsource htarget
    rcases hne with hne | hne
    · exact absurd hsource.symm hne
    · exact absurd htarget.symm hne
  | append_singleton script e =>
    refine ⟨e, _, _, _, ⟨script, ⟨rfl, rfl⟩, rfl⟩, ?_, ?_, ?_⟩
    · rw [← hturns.source]
      simp
    · rw [← hturns.target]
      simp
    · simp

theorem isLeast_nil_left (b : List α) : IsLeast (costs [] b) b.length := by
  constructor
  · refine ⟨b.map insert, ⟨?_, ?_⟩, ?_⟩
    · simp [List.flatMap_map, source]
    · simp [List.flatMap_map, target]
    · simp [Function.comp_def, cost]
  · intro k hk
    rw [costs_swap] at hk
    simpa using length_le_of_mem_costs hk

theorem isLeast_nil_right (a : List α) : IsLeast (costs a []) a.length := by
  rw [costs_swap]
  exact isLeast_nil_left a

section
variable [DecidableEq α]

/-- What it costs to leave `x` where the other word has `y`. -/
def mismatch (x y : α) : ℕ := if x = y then 0 else 1

theorem costs_diagonal (h : k ∈ costs a b) (x y : α) :
    k + mismatch x y ∈ costs (a ++ [x]) (b ++ [y]) := by
  rw [mismatch]
  split_ifs with heq
  · subst heq
    exact costs_append h (keep x)
  · exact costs_append h (substitute x y)

theorem costs_transposed (h : k ∈ costs a b) (x y : α) :
    k + mismatch x y ∈ costs (a ++ [y, x]) (b ++ [x, y]) := by
  rw [mismatch]
  split_ifs with heq
  · subst heq
    simpa [source, target, cost] using costs_append (costs_append h (keep x)) (keep x)
  · exact costs_append h (transpose y x)

variable {p q r t : ℕ}

/-- The last edit of a script to two words that go on by one character each, where it does not
exchange the last two. -/
theorem le_of_last (hdelete : p ∈ lowerBounds (costs a (b ++ [y])))
    (hinsert : q ∈ lowerBounds (costs (a ++ [x]) b)) (hdiagonal : r ∈ lowerBounds (costs a b))
    (hk : k ∈ costs (a ++ [x]) (b ++ [y])) :
    min (min (p + 1) (q + 1)) (r + mismatch x y) ≤ k ∨
      ∃ a' b' k', k' ∈ costs a' b' ∧ a = a' ++ [y] ∧ b = b' ++ [x] ∧ k = k' + 1 := by
  obtain ⟨e, a', b', k', hk', ha, hb, rfl⟩ := exists_last hk (.inl (by simp))
  cases e with
  | keep z =>
    obtain ⟨rfl, rfl⟩ := List.append_singleton_inj.mp ha
    obtain ⟨rfl, rfl⟩ := List.append_singleton_inj.mp hb
    have := hdiagonal hk'
    exact .inl (by simp [mismatch, cost, this])
  | substitute z w =>
    obtain ⟨rfl, rfl⟩ := List.append_singleton_inj.mp ha
    obtain ⟨rfl, rfl⟩ := List.append_singleton_inj.mp hb
    have := hdiagonal hk'
    have hle : mismatch x y ≤ 1 := by
      rw [mismatch]
      split_ifs <;> omega
    exact .inl (by simp only [cost]; omega)
  | delete z =>
    obtain ⟨rfl, rfl⟩ := List.append_singleton_inj.mp ha
    rw [target, List.append_nil] at hb
    rw [← hb] at hk'
    have := hdelete hk'
    exact .inl (by simp only [cost]; omega)
  | insert z =>
    obtain ⟨rfl, rfl⟩ := List.append_singleton_inj.mp hb
    rw [source, List.append_nil] at ha
    rw [← ha] at hk'
    have := hinsert hk'
    exact .inl (by simp only [cost]; omega)
  | transpose z w =>
    have ha : a ++ [x] = a' ++ [z] ++ [w] := by simpa [source] using ha
    have hb : b ++ [y] = b' ++ [w] ++ [z] := by simpa [target] using hb
    obtain ⟨hfirst, rfl⟩ := List.append_singleton_inj.mp ha
    obtain ⟨hsecond, rfl⟩ := List.append_singleton_inj.mp hb
    exact .inr ⟨a', b', k', hk', hfirst, hsecond, rfl⟩

theorem isLeast_snoc (hdelete : IsLeast (costs a (b ++ [y])) p)
    (hinsert : IsLeast (costs (a ++ [x]) b) q) (hdiagonal : IsLeast (costs a b) r)
    (hnot : ∀ a' b', ¬(a = a' ++ [y] ∧ b = b' ++ [x])) :
    IsLeast (costs (a ++ [x]) (b ++ [y])) (min (min (p + 1) (q + 1)) (r + mismatch x y)) := by
  constructor
  · have hd := costs_append hdelete.1 (delete x)
    have hi := costs_append hinsert.1 (insert y)
    rw [target, List.append_nil] at hd
    rw [source, List.append_nil] at hi
    apply min_rec' (· ∈ costs (a ++ [x]) (b ++ [y]))
    · exact min_rec' (· ∈ costs (a ++ [x]) (b ++ [y])) hd hi
    · exact costs_diagonal hdiagonal.1 x y
  · intro k hk
    rcases le_of_last hdelete.2 hinsert.2 hdiagonal.2 hk with hle | ⟨a', b', k', -, ha, hb, -⟩
    · exact hle
    · exact absurd ⟨ha, hb⟩ (hnot a' b')

theorem isLeast_snoc_transposed (hdelete : IsLeast (costs (a ++ [y]) (b ++ [x] ++ [y])) p)
    (hinsert : IsLeast (costs (a ++ [y] ++ [x]) (b ++ [x])) q)
    (hdiagonal : IsLeast (costs (a ++ [y]) (b ++ [x])) r) (htransposed : IsLeast (costs a b) t) :
    IsLeast (costs (a ++ [y] ++ [x]) (b ++ [x] ++ [y]))
      (min (min (min (p + 1) (q + 1)) (r + mismatch x y)) (t + mismatch x y)) := by
  constructor
  · have hd := costs_append hdelete.1 (delete x)
    have hi := costs_append hinsert.1 (insert y)
    have ht := costs_transposed htransposed.1 x y
    rw [target, List.append_nil] at hd
    rw [source, List.append_nil] at hi
    apply min_rec' (· ∈ costs (a ++ [y] ++ [x]) (b ++ [x] ++ [y]))
    · apply min_rec' (· ∈ costs (a ++ [y] ++ [x]) (b ++ [x] ++ [y]))
      · exact min_rec' (· ∈ costs (a ++ [y] ++ [x]) (b ++ [x] ++ [y])) hd hi
      · exact costs_diagonal hdiagonal.1 x y
    · simpa using ht
  · intro k hk
    rcases le_of_last hdelete.2 hinsert.2 hdiagonal.2 hk with hle | ⟨a', b', k', hk', ha, hb, rfl⟩
    · exact min_le_of_left_le hle
    · obtain ⟨rfl, -⟩ := List.append_singleton_inj.mp ha
      obtain ⟨rfl, -⟩ := List.append_singleton_inj.mp hb
      have := htransposed.2 hk'
      have hle : mismatch x y ≤ 1 := by
        rw [mismatch]
        split_ifs <;> omega
      exact min_le_of_right_le (by omega)

end

end Edit
end MetriEngine.Foundation

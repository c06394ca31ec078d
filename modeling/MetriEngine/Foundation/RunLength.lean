import Mathlib.Data.List.Count
import Mathlib.Data.List.Induction
import Mathlib.Tactic.Common
import Mathlib.Algebra.Order.BigOperators.Group.List
import Mathlib.Algebra.Order.Ring.Nat

/-!
# Tallies of runs

Labels come one after another. A tally counts the label at hand as long as it stays the same,
and opens a new entry as soon as it changes. It holds each label once exactly when no label
comes back after another one.
-/
namespace MetriEngine.Foundation

universe u
variable {κ : Type u} [DecidableEq κ]

namespace RunLength

/-- Counts one more label: in the last entry when it is that of the last entry. -/
def addLabel (entries : List (κ × ℕ)) (k : κ) : List (κ × ℕ) :=
  match entries.getLast? with
  | some last =>
    if last.1 = k then entries.dropLast ++ [(last.1, last.2 + 1)] else entries ++ [(k, 1)]
  | none => entries ++ [(k, 1)]

def tally (labels : List κ) : List (κ × ℕ) := labels.foldl addLabel []

/-- Between two labels that agree there is no other one. -/
def Contiguous (labels : List κ) : Prop := ∀ a b, [a, b, a].Sublist labels → b = a

@[simp] theorem addLabel_nil (k : κ) : addLabel [] k = [(k, 1)] := rfl

theorem addLabel_same (entries : List (κ × ℕ)) (k : κ) (n : ℕ) :
    addLabel (entries ++ [(k, n)]) k = entries ++ [(k, n + 1)] := by
  simp [addLabel]

theorem addLabel_other (entries : List (κ × ℕ)) {k k' : κ} (n : ℕ) (h : k' ≠ k) :
    addLabel (entries ++ [(k', n)]) k = entries ++ [(k', n)] ++ [(k, 1)] := by
  simp [addLabel, h]

theorem tally_concat (labels : List κ) (k : κ) :
    tally (labels ++ [k]) = addLabel (tally labels) k := by
  rw [tally, List.foldl_append]
  rfl

/-- The entry at the end of a tally is that of the label that came last. -/
theorem exists_last (labels : List κ) (k : κ) :
    ∃ entries n, tally (labels ++ [k]) = entries ++ [(k, n)] := by
  rw [tally_concat]
  induction tally labels using List.reverseRecOn with
  | nil => exact ⟨[], 1, rfl⟩
  | append_singleton entries last =>
    obtain ⟨k', n⟩ := last
    by_cases h : k' = k
    · subst h
      exact ⟨entries, n + 1, addLabel_same entries k' n⟩
    · exact ⟨entries ++ [(k', n)], 1, addLabel_other entries n h⟩

/-- What a tally does with the label that comes next: it is that of the last entry, or it
opens an entry. -/
theorem tally_cases (labels : List κ) (k : κ) :
    (∃ before entries n, labels = before ++ [k] ∧ tally labels = entries ++ [(k, n)] ∧
      tally (labels ++ [k]) = entries ++ [(k, n + 1)]) ∨
    (labels.getLast? ≠ some k ∧ tally (labels ++ [k]) = tally labels ++ [(k, 1)]) := by
  rw [tally_concat]
  induction labels using List.reverseRecOn with
  | nil => exact Or.inr ⟨by simp, rfl⟩
  | append_singleton before k' =>
    obtain ⟨entries, n, heq⟩ := exists_last before k'
    by_cases h : k' = k
    · subst h
      exact Or.inl ⟨before, entries, n, rfl, heq, by rw [heq, addLabel_same]⟩
    · exact Or.inr ⟨by simpa using h, by rw [heq, addLabel_other entries n h]⟩

theorem sum_tally (labels : List κ) : ((tally labels).map Prod.snd).sum = labels.length := by
  induction labels using List.reverseRecOn with
  | nil => rfl
  | append_singleton labels k ih =>
    rcases tally_cases labels k with ⟨before, entries, n, -, heq, hnext⟩ | ⟨-, hnext⟩
    · rw [heq] at ih
      rw [hnext]
      simp only [List.map_append, List.map_cons, List.map_nil, List.sum_append, List.sum_cons,
        List.sum_nil, List.length_append, List.length_cons, List.length_nil] at ih ⊢
      omega
    · rw [hnext]
      simp [ih]

theorem length_tally_le (labels : List κ) : (tally labels).length ≤ labels.length := by
  induction labels using List.reverseRecOn with
  | nil => simp [tally]
  | append_singleton labels k ih =>
    rcases tally_cases labels k with ⟨before, entries, n, -, heq, hnext⟩ | ⟨-, hnext⟩
    · rw [heq] at ih
      simp only [hnext, List.length_append, List.length_singleton] at ih ⊢
      omega
    · simp only [hnext, List.length_append, List.length_singleton]
      omega

theorem count_le (labels : List κ) : ∀ e ∈ tally labels, e.2 ≤ labels.length := by
  intro e he
  rw [← sum_tally]
  exact List.le_sum_of_mem (List.mem_map_of_mem he)

theorem mem_tally (labels : List κ) (k : κ) :
    k ∈ (tally labels).map Prod.fst ↔ k ∈ labels := by
  induction labels using List.reverseRecOn with
  | nil => simp [tally]
  | append_singleton labels k' ih =>
    rcases tally_cases labels k' with ⟨before, entries, n, rfl, heq, hnext⟩ | ⟨-, hnext⟩
    · rw [heq] at ih
      rw [hnext]
      simp only [List.map_append, List.map_cons, List.map_nil, List.mem_append,
        List.mem_singleton] at ih ⊢
      rw [ih]
      tauto
    · rw [hnext]
      simp only [List.map_append, List.map_cons, List.map_nil, List.mem_append,
        List.mem_singleton, ih]

/-- Where a label has one entry only, the entry counts all that came of it. -/
theorem count_of_nodup (labels : List κ) (h : ((tally labels).map Prod.fst).Nodup) :
    ∀ e ∈ tally labels, e.2 = labels.count e.1 := by
  induction labels using List.reverseRecOn with
  | nil => simp [tally]
  | append_singleton labels k ih =>
    rcases tally_cases labels k with ⟨before, entries, n, -, heq, hnext⟩ | ⟨-, hnext⟩
    · rw [heq] at ih
      rw [hnext] at h ⊢
      simp only [List.map_append, List.map_cons, List.map_nil] at h ih
      have hbefore := ih h
      rw [List.nodup_append] at h
      intro e he
      rcases List.mem_append.mp he with he | he
      · have hne : e.1 ≠ k := h.2.2 e.1 (List.mem_map_of_mem he) k (by simp)
        rw [hbefore e (List.mem_append_left _ he), List.count_append]
        simp [Ne.symm hne]
      · obtain rfl := List.mem_singleton.mp he
        have hk : n = labels.count k := hbefore (k, n) (by simp)
        simp [List.count_append, ← hk]
    · rw [hnext] at h ⊢
      simp only [List.map_append, List.map_cons, List.map_nil] at h
      rw [List.nodup_append] at h
      have hnew : k ∉ labels := fun hk =>
        h.2.2 k ((mem_tally labels k).mpr hk) k (by simp) rfl
      intro e he
      rcases List.mem_append.mp he with he | he
      · have hne : e.1 ≠ k := h.2.2 e.1 (List.mem_map_of_mem he) k (by simp)
        rw [ih h.1 e he, List.count_append]
        simp [Ne.symm hne]
      · obtain rfl := List.mem_singleton.mp he
        simp [List.count_append, List.count_eq_zero_of_not_mem hnew]

omit [DecidableEq κ] in
theorem Contiguous.init {labels : List κ} {k : κ} (h : Contiguous (labels ++ [k])) :
    Contiguous labels :=
  fun a b hsub => h a b (hsub.trans (List.sublist_append_left _ _))

omit [DecidableEq κ] in
/-- A sublist of a list with one more element ends before it or with it. -/
theorem sublist_concat {a b c k : κ} {labels : List κ}
    (h : [a, b, c].Sublist (labels ++ [k])) :
    [a, b, c].Sublist labels ∨ c = k ∧ [a, b].Sublist labels := by
  rcases List.sublist_append_iff.mp h with ⟨l₁, l₂, heq, h₁, h₂⟩
  rcases List.sublist_singleton.mp h₂ with rfl | rfl
  · rw [List.append_nil] at heq
    exact Or.inl (heq ▸ h₁)
  · have hsplit : [a, b] ++ [c] = l₁ ++ [k] := heq
    obtain ⟨rfl, hc⟩ := List.append_inj' hsplit rfl
    exact Or.inr ⟨by simpa using hc, h₁⟩

omit [DecidableEq κ] in
theorem contiguous_same {before : List κ} {k : κ} (h : Contiguous (before ++ [k])) :
    Contiguous (before ++ [k] ++ [k]) := by
  intro a b hsub
  rcases sublist_concat hsub with hthree | ⟨rfl, htwo⟩
  · exact h a b hthree
  · rcases List.sublist_append_iff.mp htwo with ⟨l₁, l₂, heq, h₁, h₂⟩
    rcases List.sublist_singleton.mp h₂ with rfl | rfl
    · rw [List.append_nil] at heq
      subst heq
      exact h a b (h₁.append (List.Sublist.refl [a]))
    · have hsplit : [a] ++ [b] = l₁ ++ [a] := heq
      have hb := (List.append_inj' hsplit rfl).2
      simpa using hb

omit [DecidableEq κ] in
theorem contiguous_other {labels : List κ} {k : κ} (hlast : labels.getLast? ≠ some k) :
    Contiguous (labels ++ [k]) ↔ Contiguous labels ∧ k ∉ labels := by
  constructor
  · intro h
    refine ⟨h.init, fun hk => ?_⟩
    induction labels using List.reverseRecOn with
    | nil => simp at hk
    | append_singleton before b =>
      have hne : b ≠ k := by simpa using hlast
      have hbefore : k ∈ before := by
        rcases List.mem_append.mp hk with hk | hk
        · exact hk
        · exact absurd (List.mem_singleton.mp hk).symm hne
      have hsub : ([k] ++ [b] ++ [k]).Sublist (before ++ [b] ++ [k]) :=
        ((List.singleton_sublist.mpr hbefore).append (List.Sublist.refl [b])).append
          (List.Sublist.refl [k])
      exact hne (h k b hsub)
  · rintro ⟨h, hk⟩ a b hsub
    rcases sublist_concat hsub with hthree | ⟨rfl, htwo⟩
    · exact h a b hthree
    · exact absurd (htwo.subset List.mem_cons_self) hk

/-- Each label has one entry exactly when none comes back after another one. -/
theorem nodup_iff (labels : List κ) :
    ((tally labels).map Prod.fst).Nodup ↔ Contiguous labels := by
  induction labels using List.reverseRecOn with
  | nil => simp [tally, Contiguous]
  | append_singleton labels k ih =>
    rcases tally_cases labels k with ⟨before, entries, n, rfl, heq, hnext⟩ | ⟨hlast, hnext⟩
    · rw [heq] at ih
      have hkeys : (tally (before ++ [k] ++ [k])).map Prod.fst =
          (entries ++ [(k, n)]).map Prod.fst := by
        rw [hnext]
        simp
      rw [hkeys, ih]
      exact ⟨contiguous_same, Contiguous.init⟩
    · rw [hnext, contiguous_other hlast, ← ih, ← mem_tally labels k, List.map_append,
        List.nodup_append]
      simp only [List.map_cons, List.map_nil, List.nodup_cons, List.not_mem_nil, not_false_eq_true,
        List.nodup_nil, and_true, true_and, List.mem_singleton]
      refine and_congr_right fun _ => ⟨fun h hk => h k hk k rfl rfl, ?_⟩
      rintro h a ha b rfl rfl
      exact h ha

end RunLength
end MetriEngine.Foundation

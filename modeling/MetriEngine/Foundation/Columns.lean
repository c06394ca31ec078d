import Mathlib.Data.List.Basic

/-!
# Columns of partial readings

Two readings of the members of a list give two columns, each without the members that it
cannot read. Beside them stand the pairs of the members that both can read.
-/
namespace MetriEngine.Foundation

variable {α β γ : Type} {f : α → Option β} {g : α → Option γ} {l : List α}

/-- The pair of what two readings give. -/
def readBoth (f : α → Option β) (g : α → Option γ) (a : α) : Option (β × γ) :=
  (f a).bind fun x => (g a).map fun y => (x, y)

theorem isSome_readBoth (a : α) : (readBoth f g a).isSome = ((f a).isSome && (g a).isSome) := by
  unfold readBoth
  cases f a with
  | none => rfl
  | some x => cases g a <;> rfl

/-- The two columns are those of the pairs where the two readings read the same members. -/
theorem columns_eq_pairs (h : ∀ a ∈ l, (f a).isSome = (g a).isSome) :
    l.filterMap f = (l.filterMap (readBoth f g)).map Prod.fst ∧
    l.filterMap g = (l.filterMap (readBoth f g)).map Prod.snd := by
  induction l with
  | nil => exact ⟨rfl, rfl⟩
  | cons a l ih =>
    obtain ⟨hfirst, hsecond⟩ := ih fun b hb => h b (List.mem_cons_of_mem a hb)
    have hboth := h a List.mem_cons_self
    cases hf : f a with
    | none =>
      have hg : g a = none := by simpa [hf] using hboth.symm
      simp [hf, hg, readBoth, hfirst, hsecond]
    | some x =>
      obtain ⟨y, hg⟩ := Option.isSome_iff_exists.mp (by simpa [hf] using hboth.symm)
      simp [hf, hg, readBoth, hfirst, hsecond]

theorem length_pairs_le : (l.filterMap (readBoth f g)).length ≤ (l.filterMap f).length ∧
    (l.filterMap (readBoth f g)).length ≤ (l.filterMap g).length := by
  simp only [List.length_filterMap_eq_countP, isSome_readBoth]
  constructor
  · apply List.countP_mono_left
    intro a _ h
    exact (Bool.and_eq_true_iff.mp h).1
  · apply List.countP_mono_left
    intro a _ h
    exact (Bool.and_eq_true_iff.mp h).2

/-- Where the columns are as long as the list of pairs, the readings read the same members. -/
theorem agree_of_length (hf : (l.filterMap f).length = (l.filterMap (readBoth f g)).length)
    (hg : (l.filterMap g).length = (l.filterMap (readBoth f g)).length) :
    ∀ a ∈ l, (f a).isSome = (g a).isSome := by
  induction l with
  | nil => exact fun a ha => absurd ha List.not_mem_nil
  | cons a l ih =>
    have hle := length_pairs_le (f := f) (g := g) (l := l)
    have hhead : (f a).isSome = (g a).isSome ∧
        (l.filterMap f).length = (l.filterMap (readBoth f g)).length ∧
        (l.filterMap g).length = (l.filterMap (readBoth f g)).length := by
      cases hfa : f a <;> cases hga : g a <;> simp [hfa, hga, readBoth] at hf hg ⊢ <;> omega
    intro b hb
    rcases List.mem_cons.mp hb with rfl | hb
    · exact hhead.1
    · exact ih hhead.2.1 hhead.2.2 b hb

end MetriEngine.Foundation

import Mathlib.Data.List.Pairwise
import Mathlib.Data.List.Sort

/-!
# Lists whose members carry a key

A list that was taken apart and put together in some order comes back by a sort on keys
that were distinct, and a list of results that tell their sources tells the result of each.
-/
namespace MetriEngine.Foundation
variable {α β γ : Type*}

/-- A permutation of a list with growing keys is sorted back to it. -/
theorem insertionSort_of_perm {key : α → ℕ} {l l' : List α} (h : l.Perm l')
    (hl' : l'.Pairwise fun a b => key a < key b) :
    (l.insertionSort fun a b => key a ≤ key b) = l' := by
  have hkey : ∀ a ∈ l', ∀ b ∈ l', key a = key b → a = b := by
    intro a ha b hb hab
    by_contra hne
    have hlt := hl'.imp (S := fun a b => key a ≠ key b) fun hab => Nat.ne_of_lt hab
    have : Std.Symm fun a b : α => key a ≠ key b := ⟨fun _ _ h => Ne.symm h⟩
    exact hlt.forall ha hb hne hab
  have : Std.Total fun a b : α => key a ≤ key b := ⟨fun a b => Nat.le_total _ _⟩
  have : IsTrans α fun a b : α => key a ≤ key b := ⟨fun _ _ _ => Nat.le_trans⟩
  have hperm : (l.insertionSort fun a b => key a ≤ key b).Perm l' :=
    (List.perm_insertionSort _ l).trans h
  apply @List.Perm.eq_of_pairwise α (fun a b => key a ≤ key b)
  · intro a b ha hb hab hba
    exact hkey a (hperm.mem_iff.mp ha) b hb (Nat.le_antisymm hab hba)
  · exact List.pairwise_insertionSort _ l
  · exact hl'.imp fun hab => Nat.le_of_lt hab
  · exact hperm

/-- What is taken of a list with its positions lies in the order of the positions. -/
theorem pairwise_filterMap_zipIdx (l : List α) (f : α → Option β) :
    (l.zipIdx.filterMap fun e => (f e.1).map (e.2, ·)).Pairwise fun a b => a.1 < b.1 := by
  have hpositions : l.zipIdx.Pairwise fun a b => a.2 < b.2 := by
    have hrange := List.pairwise_lt_range' (s := 0) (n := l.length)
    rw [← List.zipIdx_map_snd, List.pairwise_map] at hrange
    exact hrange
  rw [List.pairwise_filterMap]
  apply hpositions.imp
  intro a b hab x hx y hy
  obtain ⟨u, _, rfl⟩ := Option.map_eq_some_iff.mp hx
  obtain ⟨v, _, rfl⟩ := Option.map_eq_some_iff.mp hy
  exact hab

theorem map_snd_filterMap_zipIdx (l : List α) (f : α → Option β) :
    (l.zipIdx.filterMap fun e => (f e.1).map (e.2, ·)).map Prod.snd = l.filterMap f := by
  have hvalues : (l.zipIdx.filterMap fun e => (f e.1).map (e.2, ·)).map Prod.snd =
      (l.zipIdx.map Prod.fst).filterMap f := by
    rw [List.map_filterMap, List.filterMap_map]
    congr 1
    funext e
    cases h : f e.1 <;> simp [h]
  rw [hvalues, List.zipIdx_map_fst]

/-- Taking from the members with a property and from those without it, part after part. -/
theorem filterMap_parts_perm (l : List α) (p : α → Bool) (f : α → Option β) :
    ((l.filterMap fun a => if p a then f a else none) ++ (l.filter fun a => !p a).filterMap f).Perm
      (l.filterMap f) := by
  have hpart : (l.filterMap fun a => if p a then f a else none) = (l.filter p).filterMap f := by
    rw [List.filterMap_filter]
  rw [hpart, ← List.filterMap_append]
  exact (List.filter_append_perm p l).filterMap f

/-- Results that are only lost are no more than there were. -/
theorem length_filterMap_le_of_lost {f g : α → Option β} {l : List α}
    (hlost : ∀ a ∈ l, g a = f a ∨ g a = none) : (l.filterMap g).length ≤ (l.filterMap f).length := by
  induction l with
  | nil => exact le_rfl
  | cons a rest ih =>
    have hrest := ih fun b hb => hlost b (List.mem_cons_of_mem _ hb)
    rcases hlost a List.mem_cons_self with heq | hnone
    · cases hfa : f a with
      | none => simpa [heq, hfa] using hrest
      | some r => simpa [heq, hfa] using hrest
    · cases hfa : f a with
      | none => simpa [hnone, hfa] using hrest
      | some r =>
        rw [List.filterMap_cons_none hnone, List.filterMap_cons_some hfa, List.length_cons]
        omega

/-- Results that are only lost are all there where they are as many. -/
theorem eq_of_length_filterMap {f g : α → Option β} {l : List α}
    (hlost : ∀ a ∈ l, g a = f a ∨ g a = none)
    (h : (l.filterMap g).length = (l.filterMap f).length) : ∀ a ∈ l, g a = f a := by
  induction l with
  | nil => simp
  | cons a rest ih =>
    have hmem : ∀ b ∈ rest, g b = f b ∨ g b = none := fun b hb => hlost b (List.mem_cons_of_mem _ hb)
    have hrest := length_filterMap_le_of_lost hmem
    rcases hlost a List.mem_cons_self with heq | hnone
    · have hlength : (rest.filterMap g).length = (rest.filterMap f).length := by
        cases hfa : f a with
        | none => simpa [heq, hfa] using h
        | some r => simpa [heq, hfa] using h
      exact List.forall_mem_cons.mpr ⟨heq, ih hmem hlength⟩
    · cases hfa : f a with
      | none =>
        rw [List.filterMap_cons_none hnone, List.filterMap_cons_none hfa] at h
        exact List.forall_mem_cons.mpr ⟨hnone.trans hfa.symm, ih hmem h⟩
      | some r =>
        rw [List.filterMap_cons_none hnone, List.filterMap_cons_some hfa, List.length_cons] at h
        omega

/-- Where a result tells its source, equal lists of results have the same result for each. -/
theorem eq_of_filterMap_eq {tag : β → Option γ} {name : α → γ} {f g : α → Option β} {l : List α}
    (hname : ∀ a ∈ l, ∀ b ∈ l, name a = name b → a = b)
    (hf : ∀ a ∈ l, ∀ r, f a = some r → tag r = some (name a))
    (hg : ∀ a ∈ l, ∀ r, g a = some r → tag r = some (name a))
    (h : l.filterMap f = l.filterMap g) : ∀ a ∈ l, f a = g a := by
  induction l with
  | nil => simp
  | cons a rest ih =>
    have hrest (hrest : rest.filterMap f = rest.filterMap g) : ∀ b ∈ rest, f b = g b :=
      ih (fun b hb c hc => hname b (List.mem_cons_of_mem _ hb) c (List.mem_cons_of_mem _ hc))
        (fun b hb => hf b (List.mem_cons_of_mem _ hb)) (fun b hb => hg b (List.mem_cons_of_mem _ hb))
        hrest
    -- a result of the first that the other side lacks would come from its own later occurrence
    have hlost {u v : α → Option β} {r : β}
        (hu : ∀ b ∈ a :: rest, ∀ r, u b = some r → tag r = some (name b))
        (hv : ∀ b ∈ a :: rest, ∀ r, v b = some r → tag r = some (name b))
        (hua : u a = some r) (hva : v a = none)
        (heq : (a :: rest).filterMap u = (a :: rest).filterMap v) : False := by
      rw [List.filterMap_cons_some hua, List.filterMap_cons_none hva] at heq
      obtain ⟨b, hb, hvb⟩ := List.mem_filterMap.mp (heq ▸ List.mem_cons_self)
      have hsame : name a = name b := Option.some.inj
        ((hu a List.mem_cons_self r hua).symm.trans (hv b (List.mem_cons_of_mem _ hb) r hvb))
      rw [← hname a List.mem_cons_self b (List.mem_cons_of_mem _ hb) hsame, hva] at hvb
      cases hvb
    have hfirst : f a = g a ∧ rest.filterMap f = rest.filterMap g := by
      cases hfa : f a with
      | none =>
        cases hga : g a with
        | none =>
          rw [List.filterMap_cons_none hfa, List.filterMap_cons_none hga] at h
          exact ⟨rfl, h⟩
        | some r => exact (hlost hg hf hga hfa h.symm).elim
      | some r =>
        cases hga : g a with
        | none => exact (hlost hf hg hfa hga h).elim
        | some r' =>
          rw [List.filterMap_cons_some hfa, List.filterMap_cons_some hga] at h
          obtain ⟨rfl, htail⟩ := List.cons_eq_cons.mp h
          exact ⟨rfl, htail⟩
    intro b hb
    rcases List.mem_cons.mp hb with rfl | hb
    · exact hfirst.1
    · exact hrest hfirst.2 b hb

end MetriEngine.Foundation

import Mathlib

/-!
# Chains of stamps

A stamp binds an entry to the tip before it, and is the next tip. Two chains with one tip have the
same entries, unless a pair stamped along one of them has the stamp of a different pair of the other,
or the stamp that both began with.
-/
namespace MetriEngine.Foundation.HashChain

universe u v
variable {Entry : Type u} {Digest : Type v} (stamp : Digest → Entry → Digest)

/-- The tip after these entries. -/
def tipAfter (genesis : Digest) (entries : List Entry) : Digest := entries.foldl stamp genesis

/-- The pairs that are stamped: each entry with the tip before it. -/
def stamped : Digest → List Entry → List (Digest × Entry)
  | _, [] => []
  | tip, entry :: entries => (tip, entry) :: stamped (stamp tip entry) entries

@[simp] theorem tipAfter_nil (genesis : Digest) : tipAfter stamp genesis [] = genesis := rfl

@[simp] theorem tipAfter_cons (genesis : Digest) (entry : Entry) (entries : List Entry) :
    tipAfter stamp genesis (entry :: entries) = tipAfter stamp (stamp genesis entry) entries := rfl

@[simp] theorem tipAfter_concat (genesis : Digest) (entries : List Entry) (entry : Entry) :
    tipAfter stamp genesis (entries ++ [entry]) = stamp (tipAfter stamp genesis entries) entry := by
  simp [tipAfter]

@[simp] theorem stamped_nil (genesis : Digest) : stamped stamp genesis ([] : List Entry) = [] := rfl

@[simp] theorem stamped_cons (genesis : Digest) (entry : Entry) (entries : List Entry) :
    stamped stamp genesis (entry :: entries) =
      (genesis, entry) :: stamped stamp (stamp genesis entry) entries := rfl

@[simp] theorem stamped_concat (genesis : Digest) (entries : List Entry) (entry : Entry) :
    stamped stamp genesis (entries ++ [entry]) =
      stamped stamp genesis entries ++ [(tipAfter stamp genesis entries, entry)] := by
  induction entries generalizing genesis with
  | nil => rfl
  | cons first entries ih => simp [ih]

theorem last_mem_stamped (genesis : Digest) (entries : List Entry) (last : Entry) :
    (tipAfter stamp genesis entries, last) ∈ stamped stamp genesis (entries ++ [last]) := by simp

variable {stamp} {genesis : Digest} {P : Digest → Prop} {Q : Entry → Prop}

/-- What the first tip has and a stamp keeps, the tip of each stamped pair has. -/
theorem of_mem_stamped (hgenesis : P genesis)
    (hstamp : ∀ tip entry, P tip → Q entry → P (stamp tip entry)) {entries : List Entry}
    (h : ∀ entry ∈ entries, Q entry) : ∀ pair ∈ stamped stamp genesis entries, P pair.1 ∧ Q pair.2 := by
  induction entries generalizing genesis with
  | nil => simp
  | cons entry entries ih =>
    have hentry : Q entry := h entry List.mem_cons_self
    intro pair hpair
    rcases List.mem_cons.mp hpair with rfl | hpair
    · exact ⟨hgenesis, hentry⟩
    · exact ih (hstamp _ _ hgenesis hentry) (fun e he => h e (List.mem_cons_of_mem _ he)) pair hpair

/-- Different pairs of the two chains with one stamp. -/
def Collide (stamp : Digest → Entry → Digest) (genesis : Digest) (entries entries' : List Entry) :
    Prop :=
  ∃ a ∈ stamped stamp genesis entries, ∃ b ∈ stamped stamp genesis entries',
    a ≠ b ∧ stamp a.1 a.2 = stamp b.1 b.2

/-- A pair of one of the chains is stamped back to their first tip. -/
def Returns (stamp : Digest → Entry → Digest) (genesis : Digest) (entries entries' : List Entry) :
    Prop :=
  ∃ a ∈ stamped stamp genesis entries ++ stamped stamp genesis entries', stamp a.1 a.2 = genesis

/-- Two chains with one tip have the same entries, or a stamp of theirs has failed. -/
theorem eq_of_tipAfter_eq {entries entries' : List Entry}
    (htip : tipAfter stamp genesis entries = tipAfter stamp genesis entries') :
    entries = entries' ∨ Collide stamp genesis entries entries' ∨
      Returns stamp genesis entries entries' := by
  induction entries using List.reverseRecOn generalizing entries' with
  | nil =>
    cases entries' using List.reverseRecOn with
    | nil => exact .inl rfl
    | append_singleton entries' last' =>
      rw [tipAfter_nil, tipAfter_concat] at htip
      exact .inr (.inr ⟨_, List.mem_append_right _ (last_mem_stamped ..), htip.symm⟩)
  | append_singleton entries last ih =>
    cases entries' using List.reverseRecOn with
    | nil =>
      rw [tipAfter_nil, tipAfter_concat] at htip
      exact .inr (.inr ⟨_, List.mem_append_left _ (last_mem_stamped ..), htip⟩)
    | append_singleton entries' last' =>
      rw [tipAfter_concat, tipAfter_concat] at htip
      by_cases hsame : (tipAfter stamp genesis entries, last) = (tipAfter stamp genesis entries', last')
      · -- the same pair was stamped: the chains before it had one tip
        obtain ⟨htips, rfl⟩ := Prod.mk.inj hsame
        rcases ih htips with rfl | ⟨a, ha, b, hb, hab⟩ | ⟨a, ha, hback⟩
        · exact .inl rfl
        · exact .inr (.inl ⟨a, by simp [ha], b, by simp [hb], hab⟩)
        · right
          right
          refine ⟨a, ?_, hback⟩
          rcases List.mem_append.mp ha with ha | ha <;> simp [ha]
      · exact .inr (.inl ⟨_, last_mem_stamped .., _, last_mem_stamped .., hsame, htip⟩)

end MetriEngine.Foundation.HashChain

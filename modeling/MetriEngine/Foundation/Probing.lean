import Mathlib

/-!
# Linear probing

A probe walks around a table from the slot of its hash. A free slot is found whenever there is
one, and a table with more slots than entries has one.
-/
namespace MetriEngine.Foundation

universe u
variable {α : Type u}

section Search
variable [DecidableEq α]

/-- The first free slot at or after `slot`, among the next `fuel` ones around the table. -/
def freeSlot (free : α) (slots : List α) : ℕ → ℕ → Option ℕ
  | _, 0 => none
  | slot, fuel + 1 =>
    if slots[slot]? = some free then some slot
    else freeSlot free slots ((slot + 1) % slots.length) fuel

/-- A probe that ends with nothing has seen no free slot. -/
theorem ne_free_of_freeSlot_eq_none {free : α} {slots : List α} {slot fuel : ℕ}
    (hslot : slot < slots.length) (h : freeSlot free slots slot fuel = none) :
    ∀ k < fuel, slots[(slot + k) % slots.length]? ≠ some free := by
  induction fuel generalizing slot with
  | zero =>
    intro k hk
    exact absurd hk (Nat.not_lt_zero k)
  | succ fuel ih =>
    rw [freeSlot] at h
    split_ifs at h with hfree
    intro k hk
    cases k with
    | zero => rwa [Nat.add_zero, Nat.mod_eq_of_lt hslot]
    | succ k =>
      have hnext := ih (Nat.mod_lt _ (by omega)) h k (by omega)
      rwa [Nat.mod_add_mod, show slot + 1 + k = slot + (k + 1) by omega] at hnext

theorem freeSlot_isSome {free : α} {slots : List α} {slot : ℕ} (hslot : slot < slots.length)
    (hfree : free ∈ slots) : (freeSlot free slots slot slots.length).isSome := by
  by_contra h
  have hnone := Option.not_isSome_iff_eq_none.mp h
  obtain ⟨j, hj, rfl⟩ := List.mem_iff_getElem.mp hfree
  have hseen := ne_free_of_freeSlot_eq_none hslot hnone
  -- the slot `j` is `j - slot` further on, around the end where it lies before
  rcases Nat.lt_or_ge j slot with hlt | hge
  · apply hseen (j + slots.length - slot) (by omega)
    rw [show slot + (j + slots.length - slot) = j + slots.length by omega, Nat.add_mod_right,
      Nat.mod_eq_of_lt hj, List.getElem?_eq_getElem hj]
  · apply hseen (j - slot) (by omega)
    rw [show slot + (j - slot) = j by omega, Nat.mod_eq_of_lt hj, List.getElem?_eq_getElem hj]

/-- A table with fewer entries than slots has a free slot. -/
theorem mem_of_countP_lt {free : α} {slots : List α}
    (h : slots.countP (fun s => decide (s ≠ free)) < slots.length) : free ∈ slots := by
  by_contra hmem
  have hall : ∀ s ∈ slots, decide (s ≠ free) = true := by
    intro s hs
    rw [decide_eq_true_eq]
    rintro rfl
    exact hmem hs
  rw [List.countP_eq_length.mpr hall] at h
  exact lt_irrefl _ h

/-- Where the search for a free slot ends, and what it has passed. -/
theorem freeSlot_eq_some {free : α} {slots : List α} {slot fuel s : ℕ} (hslot : slot < slots.length)
    (h : freeSlot free slots slot fuel = some s) :
    ∃ k < fuel, s = (slot + k) % slots.length ∧ slots[s]? = some free ∧
      ∀ j < k, slots[(slot + j) % slots.length]? ≠ some free := by
  induction fuel generalizing slot with
  | zero => cases h
  | succ fuel ih =>
    rw [freeSlot] at h
    split_ifs at h with hfree
    · cases h
      exact ⟨0, by omega, (Nat.mod_eq_of_lt hslot).symm, hfree, by omega⟩
    · obtain ⟨k, hk, hs, hfound, hpassed⟩ := ih (Nat.mod_lt _ (by omega)) h
      rw [Nat.mod_add_mod, show slot + 1 + k = slot + (k + 1) by omega] at hs
      refine ⟨k + 1, by omega, hs, hfound, fun j hj => ?_⟩
      cases j with
      | zero => rwa [Nat.add_zero, Nat.mod_eq_of_lt hslot]
      | succ j =>
        have hnext := hpassed j (by omega)
        rwa [Nat.mod_add_mod, show slot + 1 + j = slot + (j + 1) by omega] at hnext

/-- A probe from this slot meets the entry before any free slot. -/
def Reaches (free : α) (slots : List α) (slot : ℕ) (a : α) : Prop :=
  ∃ k < slots.length, slots[(slot + k) % slots.length]? = some a ∧
    ∀ j < k, slots[(slot + j) % slots.length]? ≠ some free

omit [DecidableEq α] in
/-- Filling a free slot hides no entry. -/
theorem Reaches.set {free : α} {slots : List α} {slot s : ℕ} {a b : α}
    (h : Reaches free slots slot a) (ha : a ≠ free) (hs : slots[s]? = some free) (hb : b ≠ free) :
    Reaches free (slots.set s b) slot a := by
  obtain ⟨k, hk, hfound, hpassed⟩ := h
  rw [Reaches, List.length_set]
  refine ⟨k, hk, ?_, fun j hj => ?_⟩
  · rw [List.getElem?_set_ne]
    · exact hfound
    · rintro rfl
      rw [hs] at hfound
      exact ha (Option.some.inj hfound).symm
  · by_cases hsame : s = (slot + j) % slots.length
    · subst hsame
      rw [List.getElem?_set_self (List.getElem?_eq_some_iff.mp hs).1]
      exact fun heq => hb (Option.some.inj heq)
    · rw [List.getElem?_set_ne hsame]
      exact hpassed j hj

/-- An entry put in the first free slot is reached from where the search began. -/
theorem reaches_set {free : α} {slots : List α} {slot s : ℕ} (hslot : slot < slots.length)
    (h : freeSlot free slots slot slots.length = some s) (b : α) :
    Reaches free (slots.set s b) slot b := by
  obtain ⟨k, hk, hs, hfree, hpassed⟩ := freeSlot_eq_some hslot h
  rw [Reaches, List.length_set]
  refine ⟨k, hk, ?_, fun j hj => ?_⟩
  · rw [← hs, List.getElem?_set_self (List.getElem?_eq_some_iff.mp hfree).1]
  · by_cases hsame : s = (slot + j) % slots.length
    · exact absurd (hsame ▸ hfree) (hpassed j hj)
    · rw [List.getElem?_set_ne hsame]
      exact hpassed j hj

end Search

/-- Filling one slot adds at most one entry. -/
theorem countP_set_le (p : α → Bool) (slots : List α) (slot : ℕ) (a : α) :
    (slots.set slot a).countP p ≤ slots.countP p + 1 := by
  induction slots generalizing slot with
  | nil => simp
  | cons b slots ih =>
    cases slot with
    | zero =>
      rw [List.set_cons_zero, List.countP_cons, List.countP_cons]
      split_ifs <;> omega
    | succ slot =>
      rw [List.set_cons_succ, List.countP_cons, List.countP_cons]
      have := ih slot
      omega

end MetriEngine.Foundation

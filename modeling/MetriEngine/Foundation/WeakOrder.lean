import Mathlib.Data.List.Sort
import Mathlib.Order.Compare

/-!
# Comparisons of values of several kinds

A comparison may order the values of one kind only and take all others for equal. Several of
them, one after the other until one decides, order a list weakly exactly where a value of
another kind is put in its place by the comparisons that follow. A list that is ordered weakly
is sorted by insertion.
-/
namespace MetriEngine.Foundation

variable {α κ : Type}

/-- A comparison that decides between values of one kind and orders them weakly. -/
structure KindedOrder (α κ : Type) where
  cmp : α → α → Ordering
  kind : α → κ
  swap : ∀ a b, cmp b a = (cmp a b).swap
  kind_eq : ∀ {a b}, cmp a b ≠ .eq → kind a = kind b
  splits : ∀ {a b c}, kind c = kind a → cmp a b = .lt → cmp a c = .lt ∨ cmp c b = .lt

/-- The first comparison that decides. -/
def lexicographic (keys : List (KindedOrder α κ)) (a b : α) : Ordering :=
  keys.foldr (fun k rest => (k.cmp a b).then rest) .eq

/-- A strict order of the members of a list, in which what is not ordered is tied. -/
structure WeakOrderOn (cmp : α → α → Ordering) (l : List α) : Prop where
  swap : ∀ a ∈ l, ∀ b ∈ l, cmp b a = (cmp a b).swap
  trans : ∀ a ∈ l, ∀ b ∈ l, ∀ c ∈ l, cmp a b = .lt → cmp b c = .lt → cmp a c = .lt
  tie_trans : ∀ a ∈ l, ∀ b ∈ l, ∀ c ∈ l, cmp a b = .eq → cmp b c = .eq → cmp a c = .eq

/-! ### One comparison -/

/-- Between two that are ordered every third one has its place. -/
def Splits (cmp : α → α → Ordering) (a b c : α) : Prop :=
  cmp a b = .lt → cmp a c = .lt ∨ cmp c b = .lt

section Swap
variable {cmp : α → α → Ordering} {a b c : α}

theorem lt_swap (hswap : ∀ a b, cmp b a = (cmp a b).swap) : cmp b a = .gt ↔ cmp a b = .lt := by
  rw [hswap a b]
  cases cmp a b <;> simp

theorem eq_swap (hswap : ∀ a b, cmp b a = (cmp a b).swap) : cmp b a = .eq ↔ cmp a b = .eq := by
  rw [hswap a b]
  cases cmp a b <;> simp

end Swap

theorem weakOrderOn_splits {cmp : α → α → Ordering} {l : List α} (h : WeakOrderOn cmp l) :
    ∀ a ∈ l, ∀ b ∈ l, ∀ c ∈ l, Splits cmp a b c := by
  intro a ha b hb c hc hab
  cases hac : cmp a c with
  | lt => exact Or.inl rfl
  | eq =>
    right
    cases hcb : cmp c b with
    | lt => rfl
    | eq =>
      rw [h.tie_trans a ha c hc b hb hac hcb] at hab
      cases hab
    | gt =>
      have hbc : cmp b c = .lt := by
        rw [h.swap c hc b hb, hcb]
        rfl
      rw [h.trans a ha b hb c hc hab hbc] at hac
      cases hac
  | gt =>
    have hca : cmp c a = .lt := by
      rw [h.swap a ha c hc, hac]
      rfl
    exact Or.inr (h.trans c hc a ha b hb hca hab)

/-- A list is ordered weakly exactly where every member has its place between two others. -/
theorem weakOrderOn_iff_splits {cmp : α → α → Ordering}
    (hswap : ∀ a b, cmp b a = (cmp a b).swap) (l : List α) :
    WeakOrderOn cmp l ↔ ∀ a ∈ l, ∀ b ∈ l, ∀ c ∈ l, Splits cmp a b c := by
  constructor
  · exact weakOrderOn_splits
  · intro h
    refine ⟨fun a _ b _ => hswap a b, ?_, ?_⟩
    · intro a ha b hb c hc hab hbc
      rcases h a ha b hb c hc hab with hac | hcb
      · exact hac
      · rw [(lt_swap hswap).mpr hbc] at hcb
        cases hcb
    · intro a ha b hb c hc hab hbc
      cases hac : cmp a c with
      | eq => rfl
      | lt =>
        rcases h a ha c hc b hb hac with h' | h'
        · rw [hab] at h'
          cases h'
        · rw [hbc] at h'
          cases h'
      | gt =>
        rcases h c hc a ha b hb ((lt_swap hswap).mp hac) with h' | h'
        · rw [(eq_swap hswap).mpr hbc] at h'
          cases h'
        · rw [(eq_swap hswap).mpr hab] at h'
          cases h'

namespace KindedOrder
variable (k : KindedOrder α κ) {a b c : α}

theorem eq_of_kind_ne (h : k.kind a ≠ k.kind b) : k.cmp a b = .eq := by
  by_contra hne
  exact h (k.kind_eq hne)

/-- What is tied with another of its kind compares as that one does. -/
theorem cmp_congr (hkind : k.kind a = k.kind b) (hab : k.cmp a b = .eq) : k.cmp a c = k.cmp b c := by
  have hba : k.cmp b a = .eq := (eq_swap k.swap).mpr hab
  cases hac : k.cmp a c with
  | lt =>
    rcases k.splits hkind.symm hac with h | h
    · rw [hab] at h
      cases h
    · exact h.symm
  | gt =>
    have hca := (lt_swap k.swap).mp hac
    have hsame : k.kind c = k.kind a := k.kind_eq (by rw [hca]; decide)
    rcases k.splits (hkind.symm.trans hsame.symm) hca with h | h
    · exact ((lt_swap k.swap).mpr h).symm
    · rw [hba] at h
      cases h
  | eq =>
    cases hbc : k.cmp b c with
    | eq => rfl
    | lt =>
      rcases k.splits hkind hbc with h | h
      · rw [hba] at h
        cases h
      · rw [hac] at h
        cases h
    | gt =>
      have hcb := (lt_swap k.swap).mp hbc
      have hsame : k.kind c = k.kind b := k.kind_eq (by rw [hcb]; decide)
      rcases k.splits (hkind.trans hsame.symm) hcb with h | h
      · rw [(eq_swap k.swap).mpr hac] at h
        cases h
      · rw [hab] at h
        cases h

theorem cmp_self (a : α) : k.cmp a a = .eq := by
  have hself := k.swap a a
  cases h : k.cmp a a with
  | eq => rfl
  | _ =>
    rw [h] at hself
    cases hself

/-- Of three that are tied any two are. -/
theorem tied (hab : k.cmp a b = .eq) (hac : k.cmp a c = .eq) (hbc : k.cmp b c = .eq) {x y : α}
    (hx : x = a ∨ x = b ∨ x = c) (hy : y = a ∨ y = b ∨ y = c) : k.cmp x y = .eq := by
  rcases hx with rfl | rfl | rfl
  · rcases hy with rfl | rfl | rfl
    · exact k.cmp_self _
    · exact hab
    · exact hac
  · rcases hy with rfl | rfl | rfl
    · exact (eq_swap k.swap).mpr hab
    · exact k.cmp_self _
    · exact hbc
  · rcases hy with rfl | rfl | rfl
    · exact (eq_swap k.swap).mpr hac
    · exact (eq_swap k.swap).mpr hbc
    · exact k.cmp_self _

end KindedOrder

/-! ### Several comparisons -/

section Lexicographic
variable {keys before after : List (KindedOrder α κ)} {k : KindedOrder α κ} {a b c : α}

theorem lexicographic_swap (keys : List (KindedOrder α κ)) (a b : α) :
    lexicographic keys b a = (lexicographic keys a b).swap := by
  induction keys with
  | nil => rfl
  | cons k keys ih =>
    change (k.cmp b a).then (lexicographic keys b a) = ((k.cmp a b).then (lexicographic keys a b)).swap
    rw [ih, k.swap a b]
    cases k.cmp a b <;> rfl

theorem lexicographic_cons_of_eq (h : k.cmp a b = .eq) :
    lexicographic (k :: keys) a b = lexicographic keys a b := by
  change (k.cmp a b).then _ = _
  rw [h]
  rfl

theorem lexicographic_cons_of_ne (h : k.cmp a b ≠ .eq) :
    lexicographic (k :: keys) a b = k.cmp a b := by
  change (k.cmp a b).then _ = _
  cases hk : k.cmp a b with
  | eq => exact absurd hk h
  | _ => rfl

theorem lexicographic_append (h : ∀ k ∈ before, k.cmp a b = .eq) :
    lexicographic (before ++ keys) a b = lexicographic keys a b := by
  induction before with
  | nil => rfl
  | cons k before ih =>
    rw [List.cons_append, lexicographic_cons_of_eq (h k List.mem_cons_self)]
    exact ih fun k' hk' => h k' (List.mem_cons_of_mem k hk')

/-- No key decides between two of the three. -/
def Undecided (keys : List (KindedOrder α κ)) (a b c : α) : Prop :=
  ∀ k ∈ keys, k.cmp a b = .eq ∧ k.cmp a c = .eq ∧ k.cmp b c = .eq

/-- Where the first key that decides among three puts one before another and the third is of
another kind, the keys after it put the third after the one or before the other. -/
def Settled (keys : List (KindedOrder α κ)) (a b c : α) : Prop :=
  ∀ before k after, keys = before ++ k :: after → Undecided before a b c → k.cmp a b = .lt →
    k.kind c ≠ k.kind a → lexicographic after a c = .lt ∨ lexicographic after c b = .lt

theorem Settled.tail (h : Settled (k :: keys) a b c)
    (hk : k.cmp a b = .eq ∧ k.cmp a c = .eq ∧ k.cmp b c = .eq) : Settled keys a b c := by
  intro before k' after hsplit hundecided
  apply h (k :: before) k' after (by rw [hsplit]; rfl)
  intro k'' hk''
  rcases List.mem_cons.mp hk'' with rfl | hmem
  · exact hk
  · exact hundecided k'' hmem

theorem Settled.head (h : Settled (k :: keys) a b c) (hab : k.cmp a b = .lt)
    (hkind : k.kind c ≠ k.kind a) :
    lexicographic keys a c = .lt ∨ lexicographic keys c b = .lt :=
  h [] k keys rfl (fun _ hk => absurd hk List.not_mem_nil) hab hkind

/-- Where the third comes between two that are ordered, it is settled. -/
theorem settled_of_splits (h : Splits (lexicographic keys) a b c) : Settled keys a b c := by
  rintro before k after rfl hundecided hab hkind
  have hpass {x y : α} (hbefore : ∀ k ∈ before, k.cmp x y = .eq) :
      lexicographic (before ++ k :: after) x y = lexicographic (k :: after) x y :=
    lexicographic_append hbefore
  have hbkind : k.kind a = k.kind b := k.kind_eq (by rw [hab]; decide)
  have hac : k.cmp a c = .eq := k.eq_of_kind_ne hkind.symm
  have hcb : k.cmp c b = .eq := k.eq_of_kind_ne (hbkind ▸ hkind)
  have hlt : lexicographic (before ++ k :: after) a b = .lt := by
    rw [hpass fun k' hk' => (hundecided k' hk').1, lexicographic_cons_of_ne (by rw [hab]; decide), hab]
  have hthird := h hlt
  rw [hpass fun k' hk' => (hundecided k' hk').2.1, lexicographic_cons_of_eq hac,
    hpass fun k' hk' => (eq_swap k'.swap).mpr (hundecided k' hk').2.2,
    lexicographic_cons_of_eq hcb] at hthird
  exact hthird

/-- Three that are settled, whichever of them stands where, split. -/
theorem splits_of_settled (keys : List (KindedOrder α κ)) {a b c : α}
    (h : ∀ x y z, (x = a ∨ x = b ∨ x = c) → (y = a ∨ y = b ∨ y = c) → (z = a ∨ z = b ∨ z = c) →
      Settled keys x y z) : Splits (lexicographic keys) a b c := by
  induction keys with
  | nil =>
    intro hab
    cases hab
  | cons k keys ih =>
    intro hlt
    have hlast {x y : α} (hxy : lexicographic keys x y = .lt) : lexicographic keys y x ≠ .lt := by
      rw [lexicographic_swap keys x y, hxy]
      decide
    have hfirst {x y : α} (hxy : k.cmp x y = .lt) : lexicographic (k :: keys) x y = .lt := by
      rw [lexicographic_cons_of_ne (by rw [hxy]; decide), hxy]
    cases hab : k.cmp a b with
    | gt =>
      rw [lexicographic_cons_of_ne (by rw [hab]; decide), hab] at hlt
      cases hlt
    | lt =>
      by_cases hkind : k.kind c = k.kind a
      · rcases k.splits hkind hab with hac | hcb
        · exact Or.inl (hfirst hac)
        · exact Or.inr (hfirst hcb)
      · -- the third is of another kind: the keys that follow place it
        have hbkind : k.kind a = k.kind b := k.kind_eq (by rw [hab]; decide)
        rw [lexicographic_cons_of_eq (k.eq_of_kind_ne (Ne.symm hkind)),
          lexicographic_cons_of_eq (k.eq_of_kind_ne (hbkind ▸ hkind))]
        exact (h a b c (.inl rfl) (.inr (.inl rfl)) (.inr (.inr rfl))).head hab hkind
    | eq =>
      rw [lexicographic_cons_of_eq hab] at hlt
      by_cases htied : k.cmp a c = .eq ∧ k.cmp b c = .eq
      · obtain ⟨hac, hbc⟩ := htied
        rw [lexicographic_cons_of_eq hac, lexicographic_cons_of_eq ((eq_swap k.swap).mpr hbc)]
        apply ih _ hlt
        intro x y z hx hy hz
        exact (h x y z hx hy hz).tail ⟨k.tied hab hac hbc hx hy, k.tied hab hac hbc hx hz,
          k.tied hab hac hbc hy hz⟩
      · by_cases hkind : k.kind a = k.kind b
        · have hsame : k.cmp a c = k.cmp b c := k.cmp_congr hkind hab
          cases hac : k.cmp a c with
          | lt => exact Or.inl (hfirst hac)
          | gt => exact Or.inr (hfirst ((lt_swap k.swap).mp (hsame.symm.trans hac)))
          | eq => exact absurd ⟨hac, hsame.symm.trans hac⟩ htied
        · -- only one of the two is of the kind of the third
          by_cases hca : k.kind c = k.kind a
          · have hcb : k.cmp c b = .eq := k.eq_of_kind_ne (hca ▸ hkind)
            cases hac : k.cmp a c with
            | lt => exact Or.inl (hfirst hac)
            | eq => exact absurd ⟨hac, (eq_swap k.swap).mp hcb⟩ htied
            | gt =>
              right
              rw [lexicographic_cons_of_eq hcb]
              rcases (h c a b (.inr (.inr rfl)) (.inl rfl) (.inr (.inl rfl))).head
                ((lt_swap k.swap).mp hac) (hca ▸ Ne.symm hkind) with hplaced | hplaced
              · exact hplaced
              · exact absurd hplaced (hlast hlt)
          · have hac : k.cmp a c = .eq := k.eq_of_kind_ne (Ne.symm hca)
            cases hbc : k.cmp b c with
            | eq => exact absurd ⟨hac, hbc⟩ htied
            | gt => exact Or.inr (hfirst ((lt_swap k.swap).mp hbc))
            | lt =>
              left
              rw [lexicographic_cons_of_eq hac]
              rcases (h b c a (.inr (.inl rfl)) (.inr (.inr rfl)) (.inl rfl)).head hbc hkind with
                hplaced | hplaced
              · exact absurd hplaced (hlast hlt)
              · exact hplaced

/-- Comparisons that follow one another order a list weakly exactly where they settle every
three of its members. -/
theorem weakOrderOn_lexicographic_iff (keys : List (KindedOrder α κ)) (l : List α) :
    WeakOrderOn (lexicographic keys) l ↔
      ∀ a ∈ l, ∀ b ∈ l, ∀ c ∈ l, Settled keys a b c := by
  rw [weakOrderOn_iff_splits (lexicographic_swap keys)]
  constructor
  · intro h a ha b hb c hc
    exact settled_of_splits (h a ha b hb c hc)
  · intro h a ha b hb c hc
    apply splits_of_settled
    have hmem {x : α} (hx : x = a ∨ x = b ∨ x = c) : x ∈ l := by
      rcases hx with rfl | rfl | rfl <;> assumption
    intro x y z hx hy hz
    exact h x (hmem hx) y (hmem hy) z (hmem hz)

end Lexicographic

/-! ### Sorting -/

/-- Insertion sorts what is ordered weakly. -/
theorem pairwise_insertionSort_of_weakOrderOn {cmp : α → α → Ordering} {l : List α}
    (h : WeakOrderOn cmp l) :
    (l.insertionSort fun a b => cmp a b ≠ .gt).Pairwise fun a b => cmp a b ≠ .gt := by
  let r : {x // x ∈ l} → {x // x ∈ l} → Prop := fun a b => cmp a.val b.val ≠ .gt
  have htotal : Std.Total r := by
    constructor
    intro a b
    have hswap := h.swap a.val a.property b.val b.property
    cases hab : cmp a.val b.val with
    | gt =>
      right
      change cmp b.val a.val ≠ .gt
      rw [hswap, hab]
      decide
    | _ =>
      left
      change cmp a.val b.val ≠ .gt
      rw [hab]
      decide
  have htrans : IsTrans _ r := by
    constructor
    intro a b c hab hbc hac
    have hca : cmp c.val a.val = .lt := by
      rw [h.swap a.val a.property c.val c.property, hac]
      rfl
    have hsplits := weakOrderOn_splits h
    rcases hsplits c.val c.property a.val a.property b.val b.property hca with hcb | hba
    · apply hbc
      rw [h.swap c.val c.property b.val b.property, hcb]
      rfl
    · apply hab
      rw [h.swap b.val b.property a.val a.property, hba]
      rfl
  have hsorted := List.pairwise_insertionSort r l.attach
  have hmap : (l.attach.insertionSort r).map Subtype.val =
      l.insertionSort fun a b => cmp a b ≠ .gt := by
    rw [List.map_insertionSort r (fun a b => cmp a b ≠ .gt) Subtype.val l.attach
      (fun a _ b _ => Iff.rfl), List.attach_map_subtype_val]
  rw [← hmap, List.pairwise_map]
  exact hsorted

end MetriEngine.Foundation

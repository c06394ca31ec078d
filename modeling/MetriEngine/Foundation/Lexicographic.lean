import MetriEngine.Foundation.FixedWidth

/-!
# Byte strings against runs of the lowest and the highest byte

A scan is bounded by byte strings that end in a run of the lowest or of the highest byte. These
are the byte strings that compare below, or not above, such a run, and how cutting and continuing
them changes their order.
-/
namespace MetriEngine.Foundation

/-! ### The octets of a text -/

theorem utf8EncodeChar_lt (c : Char) : ∀ b ∈ String.utf8EncodeChar c, b.toNat < 248 := by
  have hbyte (n : ℕ) (hn : n < 248) : (UInt8.ofNat n).toNat < 248 := by
    rw [UInt8.toNat_ofNat']
    omega
  rw [String.utf8EncodeChar]
  split_ifs
  all_goals
    simp only [List.forall_mem_cons, List.not_mem_nil, false_implies, implies_true, and_true]
  · exact hbyte _ (by omega)
  · exact ⟨hbyte _ (by omega), hbyte _ (by omega)⟩
  · exact ⟨hbyte _ (by omega), hbyte _ (by omega), hbyte _ (by omega)⟩
  · exact ⟨hbyte _ (by omega), hbyte _ (by omega), hbyte _ (by omega), hbyte _ (by omega)⟩

/-- The eight highest octets are in no text. -/
theorem utf8_lt (s : String) : ∀ b ∈ utf8 s, b.val < 248 := by
  intro b hb
  rw [utf8, ← String.utf8Encode_toList, List.utf8Encode, List.data_toByteArray] at hb
  obtain ⟨u, hu, rfl⟩ := List.mem_map.mp hb
  obtain ⟨c, -, hc⟩ := List.mem_flatMap.mp hu
  exact utf8EncodeChar_lt c u hc

/-! ### Runs of one byte -/

universe u
variable {α : Type u} [LinearOrder α]

/-- Whatever holds no top byte is below a run of it. -/
theorem lt_replicate {top : α} {l : List α} {n : ℕ} (hn : 0 < n) (hl : ∀ b ∈ l, b < top) :
    l < List.replicate n top := by
  obtain ⟨n, rfl⟩ := Nat.exists_eq_succ_of_ne_zero hn.ne'
  rw [List.replicate_succ]
  cases l with
  | nil => exact List.nil_lt_cons _ _
  | cons b l => exact List.cons_lt_cons_iff.mpr (Or.inl (hl b List.mem_cons_self))

theorem not_replicate_lt {top : α} (htop : ∀ b, b ≤ top) {l : List α} {n : ℕ}
    (hl : l.length ≤ n) : ¬ List.replicate n top < l := by
  induction n generalizing l with
  | zero =>
    rw [List.eq_nil_of_length_eq_zero (Nat.le_zero.mp hl)]
    exact lt_irrefl _
  | succ n ih =>
    cases l with
    | nil => exact List.not_lt_nil _
    | cons b l =>
      rw [List.replicate_succ, List.cons_lt_cons_iff]
      rintro (hlt | ⟨-, hlt⟩)
      · exact absurd (htop b) (not_le_of_gt hlt)
      · exact ih (Nat.le_of_succ_le_succ hl) hlt

/-- Only the shorter runs of the lowest byte are below a run of it. -/
theorem lt_replicate_bot_iff {bot : α} (hbot : ∀ b, bot ≤ b) {l : List α} {n : ℕ} :
    l < List.replicate n bot ↔ l.length < n ∧ ∀ b ∈ l, b = bot := by
  induction n generalizing l with
  | zero => simp
  | succ n ih =>
    cases l with
    | nil => simp [List.replicate_succ]
    | cons b l =>
      have hnot : ¬ b < bot := not_lt_of_ge (hbot b)
      rw [List.replicate_succ, List.cons_lt_cons_iff, ih]
      simp only [hnot, false_or, List.length_cons, List.forall_mem_cons]
      constructor
      · rintro ⟨hb, hlen, hall⟩
        exact ⟨by omega, hb, hall⟩
      · rintro ⟨hlen, hb, hall⟩
        exact ⟨hb, by omega, hall⟩

/-! ### Cut and continued sequences -/

theorem le_append (l m : List α) : l ≤ l ++ m := by
  induction l with
  | nil => exact not_lt.mp (List.not_lt_nil _)
  | cons b l ih =>
    rw [List.cons_append, ← not_lt, List.cons_lt_cons_iff]
    simp [ih]

/-- Cutting two sequences to one length keeps their order. -/
theorem take_le_take {l m : List α} (h : l ≤ m) (n : ℕ) : l.take n ≤ m.take n := by
  induction n generalizing l m with
  | zero => rw [List.take_zero, List.take_zero]
  | succ n ih =>
    cases l with
    | nil => exact not_lt.mp (List.not_lt_nil _)
    | cons b l =>
      cases m with
      | nil => exact absurd (List.nil_lt_cons b l) (not_lt_of_ge h)
      | cons c m =>
        rw [← not_lt, List.cons_lt_cons_iff] at h
        rw [List.take_succ_cons, List.take_succ_cons, ← not_lt, List.cons_lt_cons_iff]
        rintro (hlt | ⟨rfl, hlt⟩)
        · exact h (Or.inl hlt)
        · exact absurd hlt (not_lt_of_ge (ih (not_lt.mp fun hml => h (Or.inr ⟨rfl, hml⟩))))

/-- What differs before either ends keeps its order whatever follows. -/
theorem append_lt_append {l m : List α} (h : l ≤ m) (hpre : ¬ l <+: m) (c d : List α) :
    l ++ c < m ++ d := by
  induction l generalizing m with
  | nil => exact absurd (List.nil_prefix) hpre
  | cons x l ih =>
    cases m with
    | nil => exact absurd (List.nil_lt_cons x l) (not_lt_of_ge h)
    | cons y m =>
      rw [← not_lt, List.cons_lt_cons_iff] at h
      push Not at h
      rw [List.cons_append, List.cons_append, List.cons_lt_cons_iff]
      rcases lt_or_eq_of_le h.1 with hlt | rfl
      · exact Or.inl hlt
      · refine Or.inr ⟨rfl, ih (h.2 rfl) fun hlm => hpre ?_⟩
        exact (List.prefix_cons_inj x).mpr hlm

theorem append_le_append_iff_of_le {l m : List α} (h : l ≤ m) (c d : List α) :
    l ++ c ≤ m ++ d ↔ (l <+: m → c ≤ m.drop l.length ++ d) := by
  by_cases hpre : l <+: m
  · obtain ⟨t, rfl⟩ := hpre
    rw [List.drop_left, List.append_assoc, ← not_lt, append_lt_append_iff rfl]
    simp
  · simp [hpre, (append_lt_append h hpre c d).le]

/-- A sequence without the top byte exceeds one that a run of it follows only by a difference
before that ends. -/
theorem le_append_replicate_iff {top : α} {c d : List α} {n : ℕ} (hn : 0 < n)
    (hc : ∀ b ∈ c, b < top) :
    c ≤ d ++ List.replicate n top ↔ ¬ (d < c ∧ ¬ d <+: c) := by
  constructor
  · rintro h ⟨hlt, hpre⟩
    have hlong := append_lt_append hlt.le hpre (List.replicate n top) []
    rw [List.append_nil] at hlong
    exact absurd hlong (not_lt_of_ge h)
  · intro h
    rcases le_or_gt c d with hcd | hdc
    · exact hcd.trans (le_append _ _)
    · have hpre : d <+: c := by
        by_contra hpre
        exact h ⟨hdc, hpre⟩
      obtain ⟨t, rfl⟩ := hpre
      have ht : t < List.replicate n top :=
        lt_replicate hn fun b hb => hc b (List.mem_append_right d hb)
      rw [← not_lt, append_lt_append_iff rfl]
      simp [ht.le]

end MetriEngine.Foundation

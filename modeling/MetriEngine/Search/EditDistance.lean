import MetriEngine.Foundation.EditScripts
import MetriEngine.Search.Text

/-!
# The edit distance of two words

The table of `damerau_levenshtein` holds for every pair of prefixes the least cost of an edit script
between them. The automaton of a query gives that distance where it is within the bound, and the
comparison of the lengths in front of it turns away no candidate that is.
-/
namespace MetriEngine.Search
open Foundation Edit

/-! ### The table -/

/-- The entries of a row up to column `n`, each the distance of its prefixes. -/
structure IsRow (a b : List Char) (i n : ℕ) (row : List ℕ) : Prop where
  length : row.length = n + 1
  isLeast : ∀ j ≤ n, IsLeast (costs (a.take i) (b.take j)) (row.getD j 0)

/-- The rows up to row `i`. -/
structure IsTable (a b : List Char) (i : ℕ) (rows : List (List ℕ)) : Prop where
  length : rows.length = i + 1
  isRow : ∀ i' ≤ i, IsRow a b i' b.length (rows.getD i' [])

variable {a b : List Char} {rows : List (List ℕ)} {row : List ℕ} {i j : ℕ}

theorem getD_concat_lt {β : Type*} {l : List β} {n : ℕ} (h : n < l.length) (v d : β) :
    (l ++ [v]).getD n d = l.getD n d := by
  rw [List.getD_append _ _ _ _ h]

theorem getD_concat_length {β : Type*} {l : List β} {n : ℕ} (h : l.length = n) (v d : β) :
    (l ++ [v]).getD n d = v := by
  rw [List.getD_append_right _ _ _ _ h.le, h, Nat.sub_self, List.getD_cons_zero]

/-- One more character of a prefix. -/
theorem take_succ_eq {l : List Char} {n : ℕ} (hn : n < l.length) :
    l.take (n + 1) = l.take n ++ [l[n]] := by
  rw [List.take_add_one, List.getElem?_eq_getElem hn, Option.toList_some]

theorem take_eq_concat_iff {l l' : List Char} {n : ℕ} (hn : n ≤ l.length) {x : Char} :
    l.take n = l' ++ [x] ↔ 0 < n ∧ l' = l.take (n - 1) ∧ l[n - 1]? = some x := by
  cases n with
  | zero => simp
  | succ n =>
    rw [take_succ_eq hn, List.append_singleton_inj, Nat.add_sub_cancel, List.getElem?_eq_getElem hn,
      Option.some_inj]
    simp [eq_comm]

theorem editCell_isLeast (hrows : IsTable a b i rows) (hi : i < a.length) (hj : j < b.length)
    (hrow : IsRow a b (i + 1) j row) :
    IsLeast (costs (a.take (i + 1)) (b.take (j + 1))) (editCell a b rows row (i + 1) (j + 1)) := by
  have habove := (hrows.isRow i le_rfl).isLeast (j + 1) hj
  have hleft := hrow.isLeast j le_rfl
  have hdiagonal := (hrows.isRow i le_rfl).isLeast j hj.le
  have hx : a[i]? = some a[i] := List.getElem?_eq_getElem hi
  have hy : b[j]? = some b[j] := List.getElem?_eq_getElem hj
  have hcell : editCell a b rows row (i + 1) (j + 1) =
      let best := min (min ((rows.getD i []).getD (j + 1) 0 + 1) (row.getD j 0 + 1))
        ((rows.getD i []).getD j 0 + mismatch a[i] b[j])
      if a.take i = a.take (i - 1) ++ [b[j]] ∧ b.take j = b.take (j - 1) ++ [a[i]] then
        min best ((rows.getD (i - 1) []).getD (j - 1) 0 + mismatch a[i] b[j])
      else best := by
    simp only [editCell, Nat.add_sub_cancel, take_eq_concat_iff hi.le, take_eq_concat_iff hj.le, hx,
      hy, Option.some_inj, mismatch, show i + 1 - 2 = i - 1 by omega, show j + 1 - 2 = j - 1 by omega]
    congr 1
    apply propext
    constructor
    · rintro ⟨hipos, hjpos, hfirst, hsecond⟩
      exact ⟨⟨by omega, trivial, hsecond⟩, by omega, trivial, hfirst.symm⟩
    · rintro ⟨⟨hipos, -, hsecond⟩, hjpos, -, hfirst⟩
      exact ⟨by omega, by omega, hfirst.symm, hsecond⟩
  rw [hcell]
  rw [take_succ_eq hj] at habove ⊢
  rw [take_succ_eq hi] at hleft ⊢
  dsimp only
  split_ifs with htransposed
  · obtain ⟨hfirst, hsecond⟩ := htransposed
    have htwo := (hrows.isRow (i - 1) (by omega)).isLeast (j - 1) (by omega)
    rw [hfirst] at habove hleft hdiagonal ⊢
    rw [hsecond] at habove hleft hdiagonal ⊢
    exact isLeast_snoc_transposed habove hleft hdiagonal htwo
  · apply isLeast_snoc habove hleft hdiagonal
    rintro a' b' ⟨ha, hb⟩
    have ha' := ((take_eq_concat_iff hi.le).mp ha).2.1
    have hb' := ((take_eq_concat_iff hj.le).mp hb).2.1
    exact htransposed ⟨ha' ▸ ha, hb' ▸ hb⟩

/-! ### The loops -/

theorem isTable_zero (a b : List Char) : IsTable a b 0 [List.range (b.length + 1)] where
  length := rfl
  isRow i' hi' := by
    obtain rfl : i' = 0 := Nat.le_zero.mp hi'
    refine ⟨by simp, ?_⟩
    intro j hj
    have hentry : (List.range (b.length + 1)).getD j 0 = (b.take j).length := by
      rw [List.getD_eq_getElem _ _ (by simpa using Nat.lt_succ_of_le hj), List.getElem_range,
        List.length_take, Nat.min_eq_left hj]
    change IsLeast (costs [] (b.take j)) ((List.range (b.length + 1)).getD j 0)
    rw [hentry]
    exact isLeast_nil_left (b.take j)

theorem isRow_zero (b : List Char) (hi : i ≤ a.length) : IsRow a b i 0 [i] where
  length := rfl
  isLeast j hj := by
    obtain rfl : j = 0 := Nat.le_zero.mp hj
    have h := isLeast_nil_right (a.take i)
    rw [List.length_take, Nat.min_eq_left hi] at h
    simpa using h

theorem IsRow.step (hrow : IsRow a b (i + 1) j row) (hrows : IsTable a b i rows)
    (hi : i < a.length) (hj : j < b.length) :
    IsRow a b (i + 1) (j + 1) (row ++ [editCell a b rows row (i + 1) (j + 1)]) where
  length := by rw [List.length_append, hrow.length, List.length_singleton]
  isLeast j' hj' := by
    rcases Nat.lt_or_eq_of_le hj' with hlt | rfl
    · rw [getD_concat_lt (by rw [hrow.length]; exact hlt)]
      exact hrow.isLeast j' (Nat.le_of_lt_succ hlt)
    · rw [getD_concat_length hrow.length]
      exact editCell_isLeast hrows hi hj hrow

theorem isRow_foldl (hrows : IsTable a b i rows) (hi : i < a.length) (hj : j ≤ b.length) :
    IsRow a b (i + 1) j ((List.range' 1 j).foldl
      (fun row j => row ++ [editCell a b rows row (i + 1) j]) [i + 1]) := by
  induction j with
  | zero => exact isRow_zero b hi
  | succ j ih =>
    rw [List.range'_1_concat, List.foldl_append, Nat.add_comm 1 j]
    exact (ih (Nat.le_of_succ_le hj)).step hrows hi hj

theorem IsTable.step (hrows : IsTable a b i rows) (hrow : IsRow a b (i + 1) b.length row) :
    IsTable a b (i + 1) (rows ++ [row]) where
  length := by rw [List.length_append, hrows.length, List.length_singleton]
  isRow i' hi' := by
    rcases Nat.lt_or_eq_of_le hi' with hlt | rfl
    · rw [getD_concat_lt (by rw [hrows.length]; exact hlt)]
      exact hrows.isRow i' (Nat.le_of_lt_succ hlt)
    · rw [getD_concat_length hrows.length]
      exact hrow

theorem isTable_foldl (hi : i ≤ a.length) :
    IsTable a b i ((List.range' 1 i).foldl (fun rows i =>
      rows ++ [(List.range' 1 b.length).foldl (fun row j => row ++ [editCell a b rows row i j]) [i]])
      [List.range (b.length + 1)]) := by
  induction i with
  | zero => exact isTable_zero a b
  | succ i ih =>
    rw [List.range'_1_concat, List.foldl_append, Nat.add_comm 1 i]
    have hrows := ih (Nat.le_of_succ_le hi)
    exact hrows.step (isRow_foldl hrows hi le_rfl)

theorem damerauLevenshtein_isLeast (a b : String) :
    IsLeast (costs a.toList b.toList) (damerauLevenshtein a b) := by
  have htable := @isTable_foldl a.toList b.toList _ le_rfl
  have hlast := (htable.isRow _ le_rfl).isLeast _ le_rfl
  rw [List.take_length, List.take_length] at hlast
  exact hlast

/-! ### One-byte characters -/

/-- Only one-byte characters. -/
def IsAscii (s : String) : Prop := ∀ c ∈ s.toList, c.toNat < 128

instance (s : String) : Decidable (IsAscii s) :=
  inferInstanceAs (Decidable (∀ c ∈ s.toList, c.toNat < 128))

theorem utf8ByteSize_of_isAscii {s : String} (h : IsAscii s) : s.utf8ByteSize = s.toList.length := by
  induction s using String.push_induction with
  | empty => rfl
  | push s c ih =>
    have hc : c.utf8Size = 1 := by
      have hlt := h c (by simp)
      rw [Char.utf8Size, if_pos]
      exact UInt32.le_iff_toNat_le.mpr (Nat.le_of_lt_succ hlt)
    rw [String.utf8ByteSize_push, hc, ih fun d hd => h d (by simp [hd]), String.toList_push,
      List.length_append, List.length_singleton]

theorem length_toAsciiLowercase (s : String) :
    (toAsciiLowercase s).toList.length = s.toList.length := by
  rw [toAsciiLowercase, String.toList_ofList, List.length_map]

theorem toNat_toLower_lt {c : Char} (h : c.toNat < 128) : c.toLower.toNat < 128 := by
  by_cases hupper : c.isUpper
  · have hle : c.toNat ≤ 90 := by
      rw [Char.isUpper, decide_eq_true_eq] at hupper
      exact UInt32.le_iff_toNat_le.mp hupper.2
    rw [Char.toLower_eq_of_isUpper hupper, Char.toNat_ofNat, if_pos (.inl (by omega))]
    omega
  · rwa [Char.toLower_eq_of_not_isUpper hupper]

theorem isAscii_toAsciiLowercase {s : String} (h : IsAscii s) : IsAscii (toAsciiLowercase s) := by
  intro c hc
  rw [toAsciiLowercase, String.toList_ofList, List.mem_map] at hc
  obtain ⟨d, hd, rfl⟩ := hc
  exact toNat_toLower_lt (h d hd)

/-! ### The automaton of a query -/

structure LevenshteinAutomatonDfa where
  query : String
  maxEdits : ℕ

namespace LevenshteinAutomatonDfa

def new (query : String) (maxEdits : ℕ) : LevenshteinAutomatonDfa :=
  ⟨toAsciiLowercase query, maxEdits⟩

def accepts (dfa : LevenshteinAutomatonDfa) (candidate : String) : Option ℕ :=
  let lenDiff := max (dfa.query.utf8ByteSize - candidate.utf8ByteSize)
    (candidate.utf8ByteSize - dfa.query.utf8ByteSize)
  if dfa.maxEdits < lenDiff then none
  else
    let dist := damerauLevenshtein dfa.query (toAsciiLowercase candidate)
    if dist ≤ dfa.maxEdits then some dist else none

/-- On one-byte characters the automaton accepts what is within its bound, with the distance: the
lengths of two words never differ by more than it. -/
theorem accepts_eq_some {q c : String} {k d : ℕ} (hq : IsAscii q) (hc : IsAscii c) :
    (new q k).accepts c = some d ↔
      damerauLevenshtein (toAsciiLowercase q) (toAsciiLowercase c) = d ∧ d ≤ k := by
  have hleast := damerauLevenshtein_isLeast (toAsciiLowercase q) (toAsciiLowercase c)
  have hlong := length_le_of_mem_costs hleast.1
  have hshort := length_le_of_mem_costs (costs_swap _ _ ▸ hleast.1)
  rw [length_toAsciiLowercase, length_toAsciiLowercase] at hlong hshort
  rw [accepts, new, utf8ByteSize_of_isAscii (isAscii_toAsciiLowercase hq),
    utf8ByteSize_of_isAscii hc, length_toAsciiLowercase]
  dsimp only
  split_ifs with hlen hdist
  · have hfar : ¬damerauLevenshtein (toAsciiLowercase q) (toAsciiLowercase c) ≤ k := by omega
    simp only [false_iff]
    rintro ⟨rfl, hle⟩
    exact hfar hle
  · rw [Option.some_inj]
    constructor
    · rintro rfl
      exact ⟨rfl, hdist⟩
    · exact And.left
  · simp only [false_iff]
    rintro ⟨rfl, hle⟩
    exact hdist hle

end LevenshteinAutomatonDfa

/-- The distance is the least cost of an edit script, whichever way it is read; it is zero for
equal words only, and it is what the automaton of a query answers within its bound. -/
theorem damerauLevenshtein_exact :
    (∀ a b : String, IsLeast (costs a.toList b.toList) (damerauLevenshtein a b)) ∧
    (∀ a b : String, damerauLevenshtein a b = damerauLevenshtein b a) ∧
    (∀ a b : String, damerauLevenshtein a b = 0 ↔ a = b) ∧
    ∀ (q c : String) (k d : ℕ), IsAscii q → IsAscii c →
      ((LevenshteinAutomatonDfa.new q k).accepts c = some d ↔
        IsLeast (costs (toAsciiLowercase q).toList (toAsciiLowercase c).toList) d ∧ d ≤ k) := by
  refine ⟨damerauLevenshtein_isLeast, ?_, ?_, ?_⟩
  · intro a b
    have hleast := damerauLevenshtein_isLeast b a
    rw [costs_swap] at hleast
    exact (damerauLevenshtein_isLeast a b).unique hleast
  · intro a b
    have hleast := damerauLevenshtein_isLeast a b
    rw [← String.toList_inj, ← zero_mem_costs]
    constructor
    · intro hzero
      exact hzero ▸ hleast.1
    · intro hzero
      exact Nat.le_zero.mp (hleast.2 hzero)
  · intro q c k d hq hc
    rw [LevenshteinAutomatonDfa.accepts_eq_some hq hc]
    apply and_congr_left'
    constructor
    · rintro rfl
      exact damerauLevenshtein_isLeast _ _
    · exact (damerauLevenshtein_isLeast _ _).unique

/-- One letter is missing, another two have changed places. -/
theorem misspelt_query_is_accepted : (LevenshteinAutomatonDfa.new "Vectro" 2).accepts "vetor" = some 2 :=
  (damerauLevenshtein_exact.2.2.2 "Vectro" "vetor" 2 2 (by simp [IsAscii]) (by simp [IsAscii])).mpr
    ⟨by
      have h := damerauLevenshtein_exact.1 (toAsciiLowercase "Vectro") (toAsciiLowercase "vetor")
      rwa [show damerauLevenshtein (toAsciiLowercase "Vectro") (toAsciiLowercase "vetor") = 2 by
        decide +kernel] at h, le_rfl⟩

end MetriEngine.Search

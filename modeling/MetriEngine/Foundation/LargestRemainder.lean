import Mathlib

/-!
# Apportionment by largest remainders

A total is spread over weights: each weight gets its quota rounded down, and the units that are
left go one by one to the largest remainders, the earlier place first among equal ones. The
remainders add up to the units left times the sum of the weights, so there are at least as many
of them that are not zero as there are units left.
-/
namespace MetriEngine.Foundation.LargestRemainder

/-! ### Entries in the order of their claim -/

/-- An entry is a place and its remainder; the larger remainder comes first. -/
def Before (a b : ℕ × ℕ) : Prop := b.2 < a.2 ∨ a.2 = b.2 ∧ a.1 ≤ b.1

instance : DecidableRel Before := fun a b =>
  inferInstanceAs (Decidable (b.2 < a.2 ∨ a.2 = b.2 ∧ a.1 ≤ b.1))

instance : Std.Total Before where
  total a b := by
    unfold Before
    omega

instance : IsTrans (ℕ × ℕ) Before where
  trans a b c hab hbc := by
    unfold Before at *
    omega

def inOrder (entries : List (ℕ × ℕ)) : List (ℕ × ℕ) := entries.insertionSort Before

theorem inOrder_perm (entries : List (ℕ × ℕ)) : (inOrder entries).Perm entries :=
  List.perm_insertionSort Before entries

/-- Who has the better claim than one of the first `k` is among them. -/
theorem mem_take_of_better {entries : List (ℕ × ℕ)} {k : ℕ} {a b : ℕ × ℕ} (ha : a ∈ entries)
    (hb : b ∈ (inOrder entries).take k) (hbetter : ¬ Before b a) : a ∈ (inOrder entries).take k := by
  have hsorted : ((inOrder entries).take k ++ (inOrder entries).drop k).Pairwise Before := by
    rw [List.take_append_drop]
    exact List.pairwise_insertionSort Before entries
  have hmem : a ∈ (inOrder entries).take k ++ (inOrder entries).drop k := by
    rw [List.take_append_drop]
    exact (inOrder_perm entries).mem_iff.mpr ha
  cases List.mem_append.mp hmem with
  | inl htake => exact htake
  | inr hdrop => exact absurd ((List.pairwise_append.mp hsorted).2.2 b hb a hdrop) hbetter

/-- As long as no more are taken than have a remainder, each one taken has one. -/
theorem remainder_ne_zero {entries : List (ℕ × ℕ)} {k : ℕ} {b : ℕ × ℕ}
    (hk : k ≤ entries.countP fun e => e.2 ≠ 0) (hb : b ∈ (inOrder entries).take k) : b.2 ≠ 0 := by
  intro hzero
  have hdrop : ((inOrder entries).drop k).countP (fun e => e.2 ≠ 0) = 0 := by
    rw [List.countP_eq_zero]
    intro a ha hne
    rw [decide_eq_true_eq] at hne
    have hsorted : ((inOrder entries).take k ++ (inOrder entries).drop k).Pairwise Before := by
      rw [List.take_append_drop]
      exact List.pairwise_insertionSort Before entries
    have hbefore := (List.pairwise_append.mp hsorted).2.2 b hb a ha
    unfold Before at hbefore
    omega
  have htake : ((inOrder entries).take k).countP (fun e => e.2 ≠ 0) < k := by
    refine lt_of_lt_of_le (lt_of_le_of_ne List.countP_le_length ?_) (List.length_take_le _ _)
    intro hall
    have hne := List.countP_eq_length.mp hall b hb
    rw [decide_eq_true_eq] at hne
    exact hne hzero
  have hcount : ((inOrder entries).take k ++ (inOrder entries).drop k).countP (fun e => e.2 ≠ 0) =
      entries.countP fun e => e.2 ≠ 0 := by
    rw [List.take_append_drop]
    exact (inOrder_perm entries).countP_eq _
  rw [List.countP_append, hdrop, Nat.add_zero] at hcount
  omega

/-! ### Quotas -/

variable (n : ℕ) (weights : List ℕ)

def floorShare (w : ℕ) : ℕ := n * w / weights.sum

def remainder (w : ℕ) : ℕ := n * w % weights.sum

/-- The remainder of each place. -/
def entries : List (ℕ × ℕ) := weights.zipIdx.map fun p => (p.2, remainder n weights p.1)

def leftover : ℕ := n - (weights.map (floorShare n weights)).sum

/-- The places that get one unit more. -/
def raised : List ℕ := ((inOrder (entries n weights)).take (leftover n weights)).map Prod.fst

def share (i w : ℕ) : ℕ :=
  floorShare n weights w + if i ∈ raised n weights then 1 else 0

variable {n weights}

theorem mem_entries {e : ℕ × ℕ} :
    e ∈ entries n weights ↔ ∃ w, weights[e.1]? = some w ∧ e.2 = remainder n weights w := by
  rw [entries, List.mem_map]
  constructor
  · intro h
    obtain ⟨⟨w, i⟩, hp, rfl⟩ := h
    exact ⟨w, List.mem_zipIdx_iff_getElem?.mp hp, rfl⟩
  · intro h
    obtain ⟨w, hw, heq⟩ := h
    exact ⟨(w, e.1), List.mem_zipIdx_iff_getElem?.mpr hw, by rw [← heq]⟩

theorem entries_fst : (entries n weights).map Prod.fst = List.range weights.length := by
  rw [entries, List.map_map, List.range_eq_range', ← List.zipIdx_map_snd 0 weights]
  rfl

theorem nodup_inOrder_fst : ((inOrder (entries n weights)).map Prod.fst).Nodup := by
  rw [((inOrder_perm _).map Prod.fst).nodup_iff, entries_fst]
  exact List.nodup_range

theorem raised_nodup : (raised n weights).Nodup :=
  nodup_inOrder_fst.sublist ((List.take_sublist _ _).map Prod.fst)

/-- A quota is its floor and its remainder. -/
theorem sum_floor_remainder (W : ℕ) (ws : List ℕ) :
    W * (ws.map fun w => n * w / W).sum + (ws.map fun w => n * w % W).sum =
      n * ws.sum := by
  induction ws with
  | nil => simp
  | cons w ws ih =>
    have hdiv := Nat.div_add_mod (n * w) W
    simp only [List.map_cons, List.sum_cons, Nat.mul_add]
    omega

theorem sum_remainder_le {W : ℕ} (hW : 0 < W) (ws : List ℕ) :
    (ws.map fun w => n * w % W).sum ≤ W * ws.countP fun w => n * w % W ≠ 0 := by
  induction ws with
  | nil => simp
  | cons w ws ih =>
    have hlt := Nat.mod_lt (n * w) hW
    rw [List.map_cons, List.sum_cons, List.countP_cons, Nat.mul_add]
    split_ifs with hw
    · omega
    · simp only [ne_eq, decide_eq_true_eq, not_not] at hw
      omega

variable (hW : weights.sum ≠ 0)
include hW

omit hW in
theorem mul_leftover :
    weights.sum * leftover n weights = (weights.map (remainder n weights)).sum := by
  have hsum := sum_floor_remainder (n := n) weights.sum weights
  change weights.sum * (weights.map (floorShare n weights)).sum +
    (weights.map (remainder n weights)).sum = _ at hsum
  rw [leftover, Nat.mul_sub, mul_comm weights.sum n]
  omega

theorem sum_floorShare_le : (weights.map (floorShare n weights)).sum ≤ n := by
  have hsum := sum_floor_remainder (n := n) weights.sum weights
  have hle : weights.sum * (weights.map (floorShare n weights)).sum ≤ weights.sum * n := by
    change _ + _ = _ at hsum
    rw [mul_comm weights.sum n, ← hsum]
    exact Nat.le_add_right _ _
  exact Nat.le_of_mul_le_mul_left hle (Nat.pos_of_ne_zero hW)

/-- There is a remainder for each unit left. -/
theorem leftover_le : leftover n weights ≤ (entries n weights).countP fun e => e.2 ≠ 0 := by
  have hpos := Nat.pos_of_ne_zero hW
  have hcount : (entries n weights).countP (fun e => e.2 ≠ 0) =
      weights.countP fun w => n * w % weights.sum ≠ 0 := by
    have hfst := congrArg (List.countP fun w => n * w % weights.sum ≠ 0)
      (List.zipIdx_map_fst 0 weights)
    rw [List.countP_map] at hfst
    rw [entries, List.countP_map]
    exact hfst
  rw [hcount]
  apply Nat.le_of_mul_le_mul_left _ hpos
  rw [mul_leftover]
  exact sum_remainder_le hpos weights

theorem length_raised : (raised n weights).length = leftover n weights := by
  rw [raised, List.length_map, List.length_take, (inOrder_perm _).length_eq]
  exact Nat.min_eq_left ((leftover_le hW).trans List.countP_le_length)

/-- Only a weight with a remainder is raised. -/
theorem remainder_of_raised {i w : ℕ} (hw : weights[i]? = some w) (hi : i ∈ raised n weights) :
    remainder n weights w ≠ 0 := by
  obtain ⟨e, he, rfl⟩ := List.mem_map.mp hi
  have hne := remainder_ne_zero (leftover_le hW) he
  obtain ⟨w', hw', heq⟩ := mem_entries.mp
    ((inOrder_perm _).mem_iff.mp (List.mem_of_mem_take he))
  rw [hw] at hw'
  cases hw'
  rwa [← heq]

/-- The shares add up to the total. -/
theorem sum_share :
    (weights.zipIdx.map fun p => share n weights p.2 p.1).sum = n := by
  have hfloor := sum_floorShare_le (n := n) hW
  have hones : (weights.zipIdx.map fun p => if p.2 ∈ raised n weights then 1 else 0).sum =
      leftover n weights := by
    have hrange : weights.zipIdx.map (fun p => if p.2 ∈ raised n weights then 1 else 0) =
        (List.range weights.length).map fun i => if i ∈ raised n weights then 1 else 0 := by
      rw [List.range_eq_range', ← List.zipIdx_map_snd 0 weights, List.map_map]
      rfl
    have hsubset : (raised n weights).toFinset ⊆ Finset.range weights.length := by
      intro i hi
      obtain ⟨e, he, rfl⟩ := List.mem_map.mp (List.mem_toFinset.mp hi)
      obtain ⟨w, hw, -⟩ := mem_entries.mp ((inOrder_perm _).mem_iff.mp (List.mem_of_mem_take he))
      exact Finset.mem_range.mpr (List.getElem?_eq_some_iff.mp hw).1
    have hsum : (Finset.range weights.length).sum (fun i => if i ∈ raised n weights then 1 else 0) =
        (raised n weights).toFinset.card := by
      rw [← Finset.card_filter]
      congr 1
      ext i
      rw [Finset.mem_filter, List.mem_toFinset]
      exact ⟨fun h => h.2, fun h => ⟨hsubset (List.mem_toFinset.mpr h), h⟩⟩
    rw [hrange, ← length_raised hW, ← List.toFinset_card_of_nodup raised_nodup, ← hsum]
    rfl
  have hfloors : (weights.zipIdx.map fun p => floorShare n weights p.1).sum =
      (weights.map (floorShare n weights)).sum := by
    have hfst := congrArg (fun ws => (ws.map (floorShare n weights)).sum)
      (List.zipIdx_map_fst 0 weights)
    rw [List.map_map] at hfst
    exact hfst
  calc (weights.zipIdx.map fun p => share n weights p.2 p.1).sum
      = (weights.zipIdx.map fun p => floorShare n weights p.1).sum +
          (weights.zipIdx.map fun p => if p.2 ∈ raised n weights then 1 else 0).sum :=
        List.sum_map_add
    _ = (weights.map (floorShare n weights)).sum + leftover n weights := by
        rw [hfloors, hones]
    _ = n := by
        rw [leftover]
        omega

/-- A share is less than a unit away from its quota. -/
theorem share_near {i w : ℕ} (hw : weights[i]? = some w) :
    n * w < weights.sum * (share n weights i w + 1) ∧
      weights.sum * share n weights i w < n * w + weights.sum := by
  have hpos := Nat.pos_of_ne_zero hW
  have hdiv := Nat.div_add_mod (n * w) weights.sum
  have hlt := Nat.mod_lt (n * w) hpos
  unfold share floorShare
  rw [Nat.mul_add, Nat.mul_add]
  split_ifs with hi
  · have hne := remainder_of_raised hW hw hi
    unfold remainder at hne
    omega
  · omega

theorem share_le {i w : ℕ} (hw : weights[i]? = some w) : share n weights i w ≤ n := by
  have hnear := (share_near (n := n) hW hw).2
  have hweight : n * w ≤ weights.sum * n := by
    rw [mul_comm]
    exact Nat.mul_le_mul_right _ (List.le_sum_of_mem (List.mem_of_getElem? hw))
  have hlt : weights.sum * share n weights i w < weights.sum * (n + 1) := by
    rw [Nat.mul_add, Nat.mul_one]
    omega
  exact Nat.lt_succ_iff.mp (Nat.lt_of_mul_lt_mul_left hlt)

theorem share_zero {i : ℕ} (hw : weights[i]? = some 0) : share n weights i 0 = 0 := by
  have hnear := (share_near (n := n) hW hw).2
  rw [Nat.mul_zero, Nat.zero_add] at hnear
  by_contra hne
  exact absurd (Nat.le_mul_of_pos_right weights.sum (Nat.pos_of_ne_zero hne)) (Nat.not_le.mpr hnear)

omit hW in
/-- Of two equal weights the earlier one does not get less. -/
theorem share_of_equal {i j w : ℕ} (hij : i < j) (hi : weights[i]? = some w)
    (hj : weights[j]? = some w) : share n weights j w ≤ share n weights i w := by
  have hraised : j ∈ raised n weights → i ∈ raised n weights := by
    intro h
    obtain ⟨e, he, rfl⟩ := List.mem_map.mp h
    obtain ⟨w', hw', hrem⟩ := mem_entries.mp
      ((inOrder_perm _).mem_iff.mp (List.mem_of_mem_take he))
    rw [hj] at hw'
    cases hw'
    have hmem : (i, remainder n weights w) ∈ entries n weights :=
      mem_entries.mpr ⟨w, hi, rfl⟩
    have hbetter : ¬ Before e (i, remainder n weights w) := by
      unfold Before
      omega
    exact List.mem_map.mpr ⟨_, mem_take_of_better hmem he hbetter, rfl⟩
  unfold share
  split_ifs with hjr hir
  · exact le_rfl
  · exact absurd (hraised hjr) hir
  · omega
  · exact le_rfl

end MetriEngine.Foundation.LargestRemainder

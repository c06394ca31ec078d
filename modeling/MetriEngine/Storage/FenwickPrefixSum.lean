import MetriEngine.Foundation.LowBit
import MetriEngine.Storage.FinancialLedger

/-!
# The tree of prefix sums

Amounts are added at an index and summed over ranges of indices. Indices are machine words, and
so is the length of the tree, which is one more than that of what it sums; amounts wrap at 128
bits. Nothing stands for a stop of the machine or for a loop that goes on.
-/
namespace MetriEngine.Storage.FinancialLedger
open Foundation

/-! ### The tree -/

/-- The sum of two machine words. -/
def addUsize (a b : ℕ) : ℕ := (a + b) % 2 ^ 64

/-- `i & (!i + 1)` -/
def lowestBit (i : ℕ) : ℕ := i &&& addUsize (2 ^ 64 - 1 - i) 1

structure FenwickPrefixSum128 where
  tree : List ℤ
deriving DecidableEq

namespace FenwickPrefixSum128

/-- `vec![0; len + 1]`; a vector of more than `isize::MAX` bytes stops the machine. -/
def withCapacity (len : ℕ) : Option FenwickPrefixSum128 :=
  let treeLen := addUsize len 1
  if treeLen * 16 ≤ 2 ^ 63 - 1 then some ⟨List.replicate treeLen 0⟩ else none

/-- Adds to the nodes from `i` up; nothing when `fuel` rounds do not suffice. -/
def addLoop (delta : ℤ) : ℕ → ℕ → List ℤ → Option (List ℤ)
  | 0, _, _ => none
  | fuel + 1, i, tree =>
    if i < tree.length then
      addLoop delta fuel (addUsize i (lowestBit i)) (tree.modify i fun node => wrapI128 (node + delta))
    else some tree

def addAt (fw : FenwickPrefixSum128) (idx : ℕ) (delta : ℤ) : Option FenwickPrefixSum128 :=
  (addLoop delta (fw.tree.length + 1) (addUsize idx 1) fw.tree).map fun tree => ⟨tree⟩

/-- Sums the nodes from `i` down; nothing when `fuel` rounds do not suffice. -/
def sumLoop (tree : List ℤ) : ℕ → ℕ → ℤ → Option ℤ
  | 0, _, _ => none
  | fuel + 1, i, sum =>
    if 0 < i then
      (tree[i]?).bind fun node => sumLoop tree fuel (i &&& (i - 1)) (wrapI128 (sum + node))
    else some sum

def prefixSum (fw : FenwickPrefixSum128) (idx : ℕ) : Option ℤ :=
  sumLoop fw.tree (fw.tree.length + 1) (min (addUsize idx 1) (fw.tree.length - 1)) 0

def rangeSum (fw : FenwickPrefixSum128) (start stop : ℕ) : Option ℤ :=
  if stop < start then some 0
  else do
    let upper ← fw.prefixSum stop
    if start = 0 then return upper
    else return wrapI128 (upper - (← fw.prefixSum (start - 1)))

def addAll (fw : FenwickPrefixSum128) (adds : List (ℕ × ℤ)) : Option FenwickPrefixSum128 :=
  adds.foldlM (fun fw add => fw.addAt add.1 add.2) fw

def fromSlice (values : List ℤ) : Option FenwickPrefixSum128 :=
  (withCapacity values.length).bind fun fw => fw.addAll (values.zipIdx.map fun v => (v.2, v.1))

end FenwickPrefixSum128

/-! ### Sums of what was added -/

/-- The sum of what was added at the indices from `lo` on and before `hi`. -/
def sumBetween (adds : List (ℕ × ℤ)) (lo hi : ℕ) : ℤ :=
  ((adds.filter fun add => decide (lo ≤ add.1 ∧ add.1 < hi)).map Prod.snd).sum

theorem sumBetween_append (adds adds' : List (ℕ × ℤ)) (lo hi : ℕ) :
    sumBetween (adds ++ adds') lo hi = sumBetween adds lo hi + sumBetween adds' lo hi := by
  rw [sumBetween, List.filter_append, List.map_append, List.sum_append, sumBetween, sumBetween]

theorem sumBetween_singleton (idx : ℕ) (delta : ℤ) (lo hi : ℕ) :
    sumBetween [(idx, delta)] lo hi = if lo ≤ idx ∧ idx < hi then delta else 0 := by
  unfold sumBetween
  split_ifs with h
  · simp [h]
  · simp [h]

/-- Ranges that meet add up. -/
theorem sumBetween_add (adds : List (ℕ × ℤ)) {lo mid hi : ℕ} (hlo : lo ≤ mid) (hhi : mid ≤ hi) :
    sumBetween adds lo mid + sumBetween adds mid hi = sumBetween adds lo hi := by
  induction adds with
  | nil => rfl
  | cons add adds ih =>
    rw [← List.singleton_append, sumBetween_append, sumBetween_append, sumBetween_append,
      sumBetween_singleton, sumBetween_singleton, sumBetween_singleton, ← ih]
    split_ifs <;> omega

/-- Beyond the indices that were added at nothing is to be summed. -/
theorem sumBetween_min {adds : List (ℕ × ℤ)} {n : ℕ} (hin : ∀ add ∈ adds, add.1 < n) (lo hi : ℕ) :
    sumBetween adds lo (min hi n) = sumBetween adds lo hi := by
  unfold sumBetween
  congr 2
  apply List.filter_congr
  intro add hadd
  have := hin add hadd
  exact decide_eq_decide.mpr (by omega)

theorem sumBetween_self (adds : List (ℕ × ℤ)) {lo hi : ℕ} (h : hi ≤ lo) : sumBetween adds lo hi = 0 := by
  have hnone : (adds.filter fun add => decide (lo ≤ add.1 ∧ add.1 < hi)) = [] := by
    rw [List.filter_eq_nil_iff]
    intro add _ hadd
    have := of_decide_eq_true hadd
    omega
  rw [sumBetween, hnone]
  rfl

theorem abs_sumBetween_le (adds : List (ℕ × ℤ)) (lo hi : ℕ) :
    |sumBetween adds lo hi| ≤ (adds.map fun add => |add.2|).sum := by
  induction adds with
  | nil => exact le_of_eq abs_zero
  | cons add adds ih =>
    rw [← List.singleton_append, sumBetween_append, sumBetween_singleton, List.map_append,
      List.sum_append]
    refine (abs_add_le _ _).trans (add_le_add ?_ ih)
    split_ifs <;> simp

/-! ### The loops -/

theorem wrapI128_wrap_add (a b : ℤ) : wrapI128 (wrapI128 a + b) = wrapI128 (a + b) := by
  unfold wrapI128
  omega

theorem wrapI128_add_wrap (a b : ℤ) : wrapI128 (a + wrapI128 b) = wrapI128 (a + b) := by
  unfold wrapI128
  omega

theorem wrapI128_sub_wrap (a b : ℤ) : wrapI128 (wrapI128 a - wrapI128 b) = wrapI128 (a - b) := by
  unfold wrapI128
  omega

theorem lowestBit_eq {i : ℕ} (hi : 0 < i) (hlt : i < 2 ^ 64) : lowestBit i = lowBit i := by
  have hneg : addUsize (2 ^ 64 - 1 - i) 1 = 2 ^ 64 - i := by
    unfold addUsize
    omega
  rw [lowestBit, hneg, land_neg hi hlt]

namespace FenwickPrefixSum128

/-- Past the end no node of the tree covers the place. -/
theorem getElem?_past {tree : List ℤ} {i : ℕ} (h : tree.length ≤ i) (delta : ℤ) (j : ℕ) :
    tree[j]? = (tree[j]?).map fun node => if Covers j i then wrapI128 (node + delta) else node := by
  rcases Nat.lt_or_ge j tree.length with hj | hj
  · have hnot : ¬ Covers j i := fun h => absurd h.2 (by omega)
    simp [hnot]
  · rw [List.getElem?_eq_none hj]
    rfl

/-- The loop ends, and adds to the nodes that cover its first place. -/
theorem addLoop_spec (delta : ℤ) {fuel i : ℕ} {tree : List ℤ} (hi : 0 < i)
    (hlen : tree.length ≤ 2 ^ 63) (hfuel : tree.length ≤ i + fuel) :
    ∃ tree', addLoop delta (fuel + 1) i tree = some tree' ∧ tree'.length = tree.length ∧
      ∀ j : ℕ, tree'[j]? = (tree[j]?).map fun node =>
        if Covers j i then wrapI128 (node + delta) else node := by
  induction fuel generalizing i tree with
  | zero =>
    rw [addLoop, if_neg (by omega)]
    exact ⟨tree, rfl, rfl, getElem?_past hfuel delta⟩
  | succ fuel ih =>
    rw [addLoop]
    split_ifs with hlt
    · have hpos := lowBit_pos hi
      have hle := lowBit_le i
      have hnext : addUsize i (lowestBit i) = i + lowBit i := by
        rw [lowestBit_eq hi (by omega), addUsize]
        omega
      rw [hnext]
      obtain ⟨tree', hloop, hlength, hnodes⟩ := @ih (i + lowBit i)
        (tree.modify i fun node => wrapI128 (node + delta)) (by omega)
        (by rwa [List.length_modify]) (by rw [List.length_modify]; omega)
      refine ⟨tree', hloop, by rw [hlength, List.length_modify], ?_⟩
      intro j
      rw [hnodes j, List.getElem?_modify]
      cases tree[j]? with
      | none => rfl
      | some node =>
        by_cases hij : i = j
        · subst hij
          simp [not_covers_next hi, covers_self hi]
        · have hiff : Covers j i ↔ Covers j (i + lowBit i) := by
            rw [covers_iff_next hi]
            simp [Ne.symm hij]
          simp [hij, hiff]
    · exact ⟨tree, rfl, rfl, getElem?_past (by omega) delta⟩

/-- The node `j` of a tree holds what was added at the indices it covers. -/
structure Holds (n : ℕ) (adds : List (ℕ × ℤ)) (fw : FenwickPrefixSum128) : Prop where
  length : fw.tree.length = n + 1
  node : ∀ j, 0 < j → j ≤ n →
    fw.tree[j]? = some (wrapI128 (sumBetween adds (j - lowBit j) j))

theorem Holds.start {n : ℕ} : Holds n [] ⟨List.replicate (n + 1) 0⟩ := by
  constructor
  · simp
  · intro j _ hj
    have hlt : j < n + 1 := by omega
    simp [hlt, sumBetween, wrapI128]

/-- Adding at an index ends, and the tree holds what was added before and this. -/
theorem Holds.addAt {n : ℕ} (hn : n < 2 ^ 63) {adds : List (ℕ × ℤ)} {fw : FenwickPrefixSum128}
    (h : Holds n adds fw) {idx : ℕ} (hidx : idx < n) (delta : ℤ) :
    ∃ fw', fw.addAt idx delta = some fw' ∧ Holds n (adds ++ [(idx, delta)]) fw' := by
  have hlen := h.length
  have hplace : addUsize idx 1 = idx + 1 := by
    rw [addUsize]
    omega
  obtain ⟨tree', hloop, hlength, hnodes⟩ := @addLoop_spec delta fw.tree.length (idx + 1) fw.tree
    (Nat.succ_pos idx) (by omega) (by omega)
  refine ⟨⟨tree'⟩, ?_, hlength.trans hlen, ?_⟩
  · rw [FenwickPrefixSum128.addAt, hplace, hloop]
    rfl
  · intro j hj hjn
    rw [hnodes j, h.node j hj hjn, sumBetween_append, sumBetween_singleton, Option.map_some]
    congr 1
    by_cases hcovers : Covers j (idx + 1)
    · have hrange : j - lowBit j ≤ idx ∧ idx < j := by
        have hle := lowBit_le j
        obtain ⟨hlow, hhigh⟩ := hcovers
        omega
      rw [if_pos hcovers, if_pos hrange, wrapI128_wrap_add]
    · have hrange : ¬ (j - lowBit j ≤ idx ∧ idx < j) := by
        intro hrange
        exact hcovers ⟨by omega, by omega⟩
      rw [if_neg hcovers, if_neg hrange, add_zero]

theorem Holds.addAll {n : ℕ} (hn : n < 2 ^ 63) {adds adds' : List (ℕ × ℤ)}
    {fw : FenwickPrefixSum128} (h : Holds n adds fw) (hin : ∀ add ∈ adds', add.1 < n) :
    ∃ fw', fw.addAll adds' = some fw' ∧ Holds n (adds ++ adds') fw' := by
  induction adds' generalizing adds fw with
  | nil => exact ⟨fw, rfl, by rwa [List.append_nil]⟩
  | cons add adds' ih =>
    obtain ⟨fw', hadd, hfw'⟩ := h.addAt hn (hin add List.mem_cons_self) add.2
    obtain ⟨fw'', hall, hfw''⟩ := ih hfw' fun a ha => hin a (List.mem_cons_of_mem _ ha)
    refine ⟨fw'', ?_, ?_⟩
    · rw [FenwickPrefixSum128.addAll, List.foldlM_cons, hadd]
      exact hall
    · rwa [List.append_assoc] at hfw''

/-- The loop down from a node ends with the sum of all that lies below. -/
theorem Holds.sumLoop {n : ℕ} {adds : List (ℕ × ℤ)} {fw : FenwickPrefixSum128} (h : Holds n adds fw)
    {fuel i : ℕ} (hi : i ≤ n) (hfuel : i ≤ fuel) (sum : ℤ) :
    FenwickPrefixSum128.sumLoop fw.tree (fuel + 1) i (wrapI128 sum) =
      some (wrapI128 (sum + sumBetween adds 0 i)) := by
  induction fuel generalizing i sum with
  | zero =>
    rw [FenwickPrefixSum128.sumLoop, if_neg (by omega), sumBetween_self adds (by omega), add_zero]
  | succ fuel ih =>
    rw [FenwickPrefixSum128.sumLoop]
    split_ifs with hpos
    · have hbit := lowBit_pos hpos
      have hle := lowBit_le i
      rw [h.node i hpos hi, Option.bind_some, wrapI128_wrap_add, wrapI128_add_wrap, land_pred_eq,
        ih (by omega) (by omega), ← sumBetween_add adds (Nat.zero_le (i - lowBit i)) (Nat.sub_le _ _)]
      congr 2
      ring
    · rw [sumBetween_self adds (by omega), add_zero]

theorem Holds.prefixSum {n : ℕ} {adds : List (ℕ × ℤ)} {fw : FenwickPrefixSum128}
    (h : Holds n adds fw) (hin : ∀ add ∈ adds, add.1 < n) (idx : ℕ) :
    fw.prefixSum idx = some (wrapI128 (sumBetween adds 0 (addUsize idx 1))) := by
  have hsum := h.sumLoop (min_le_right (addUsize idx 1) n)
    (Nat.le_succ_of_le (min_le_right (addUsize idx 1) n)) 0
  rw [zero_add, sumBetween_min hin] at hsum
  rw [FenwickPrefixSum128.prefixSum, h.length, Nat.add_sub_cancel]
  exact hsum

theorem Holds.rangeSum {n : ℕ} {adds : List (ℕ × ℤ)} {fw : FenwickPrefixSum128}
    (h : Holds n adds fw) (hin : ∀ add ∈ adds, add.1 < n) {start stop : ℕ} (hle : start ≤ stop)
    (hstop : stop < 2 ^ 64) :
    fw.rangeSum start stop =
      some (wrapI128 (sumBetween adds 0 (addUsize stop 1) - sumBetween adds 0 start)) := by
  rw [FenwickPrefixSum128.rangeSum, if_neg (by omega), h.prefixSum hin stop]
  change (if start = 0 then _ else _) = _
  by_cases hzero : start = 0
  · rw [if_pos hzero, hzero, sumBetween_self adds le_rfl, sub_zero]
    rfl
  · have hprev : addUsize (start - 1) 1 = start := by
      rw [addUsize]
      omega
    rw [if_neg hzero, h.prefixSum hin (start - 1), hprev]
    exact congrArg some (wrapI128_sub_wrap _ _)

/-! ### Trees and what they sum -/

/-- A tree of zeros, or one over given values. -/
inductive Source
  | capacity (len : ℕ)
  | slice (values : List ℤ)

def Source.length : Source → ℕ
  | .capacity len => len
  | .slice values => values.length

/-- The amounts that are in the tree from the start. -/
def Source.adds : Source → List (ℕ × ℤ)
  | .capacity _ => []
  | .slice values => values.zipIdx.map fun v => (v.2, v.1)

def Source.build : Source → Option FenwickPrefixSum128
  | .capacity len => withCapacity len
  | .slice values => fromSlice values

theorem Source.build_eq (source : Source) :
    source.build = (withCapacity source.length).bind fun fw => fw.addAll source.adds := by
  cases source with
  | capacity len =>
    change withCapacity len = (withCapacity len).bind some
    exact (Option.bind_fun_some _).symm
  | slice values => rfl

theorem Source.adds_lt (source : Source) : ∀ add ∈ source.adds, add.1 < source.length := by
  cases source with
  | capacity len => exact fun _ h => absurd h List.not_mem_nil
  | slice values =>
    intro add hadd
    obtain ⟨v, hv, rfl⟩ := List.mem_map.mp hadd
    exact (List.getElem?_eq_some_iff.mp (List.mem_zipIdx_iff_getElem?.mp hv)).1

/-- A tree over an index too many for a word: it has no node. -/
theorem addAll_empty (adds : List (ℕ × ℤ)) : addAll ⟨[]⟩ adds = some ⟨[]⟩ := by
  induction adds with
  | nil => rfl
  | cons add adds ih =>
    rw [addAll, List.foldlM_cons]
    exact ih

/-- What a tree answers for the sum `expected` of some indices. -/
def Answers (answer : Option ℤ) (expected : ℤ) (exact : Prop) : Prop :=
  ∃ sum, answer = some sum ∧ (sum = expected ↔ exact)

/-- One more than the length, and than the index, is still a word. -/
def IndexFits (n idx : ℕ) : Prop := n + 1 < 2 ^ 64 ∧ idx + 1 < 2 ^ 64

theorem Holds.answers_prefix {n : ℕ} {adds : List (ℕ × ℤ)} {fw : FenwickPrefixSum128}
    (h : Holds n adds fw) (hn : n < 2 ^ 63) (hin : ∀ add ∈ adds, add.1 < n)
    (hfits : ∀ lo hi, -2 ^ 127 ≤ sumBetween adds lo hi ∧ sumBetween adds lo hi < 2 ^ 127) {idx : ℕ}
    (hidx : idx < 2 ^ 64) :
    Answers (fw.prefixSum idx) (sumBetween adds 0 (idx + 1))
      (IndexFits n idx ∨ sumBetween adds 0 (idx + 1) = 0) := by
  refine ⟨_, h.prefixSum hin idx, ?_⟩
  by_cases hmax : idx + 1 < 2 ^ 64
  · have hplace : addUsize idx 1 = idx + 1 := Nat.mod_eq_of_lt hmax
    have hrange := hfits 0 (idx + 1)
    rw [hplace, wrapI128, Int.emod_eq_of_lt (by omega) (by omega)]
    exact ⟨fun _ => .inl ⟨by omega, hmax⟩, fun _ => by omega⟩
  · have hplace : addUsize idx 1 = 0 := by
      rw [addUsize]
      omega
    have hnot : ¬ IndexFits n idx := fun h => hmax h.2
    rw [hplace, sumBetween_self adds le_rfl]
    simp [hnot, wrapI128, eq_comm]

theorem Holds.answers_range {n : ℕ} {adds : List (ℕ × ℤ)} {fw : FenwickPrefixSum128}
    (h : Holds n adds fw) (hn : n < 2 ^ 63) (hin : ∀ add ∈ adds, add.1 < n)
    (hfits : ∀ lo hi, -2 ^ 127 ≤ sumBetween adds lo hi ∧ sumBetween adds lo hi < 2 ^ 127)
    {start stop : ℕ} (hstop : stop < 2 ^ 64) :
    Answers (fw.rangeSum start stop) (sumBetween adds start (stop + 1))
      (stop < start ∨ IndexFits n stop ∨ sumBetween adds 0 (stop + 1) = 0) := by
  rcases Nat.lt_or_ge stop start with hlt | hle
  · refine ⟨0, if_pos hlt, ?_⟩
    rw [sumBetween_self adds (by omega)]
    simp [hlt]
  refine ⟨_, h.rangeSum hin hle hstop, ?_⟩
  have hsplit := sumBetween_add adds (Nat.zero_le start) (show start ≤ stop + 1 by omega)
  have hrange := hfits start (stop + 1)
  have hall := hfits 0 (stop + 1)
  by_cases hmax : stop + 1 < 2 ^ 64
  · have hplace : addUsize stop 1 = stop + 1 := Nat.mod_eq_of_lt hmax
    rw [hplace, wrapI128, Int.emod_eq_of_lt (by omega) (by omega)]
    exact ⟨fun _ => .inr (.inl ⟨by omega, hmax⟩), fun _ => by omega⟩
  · have hplace : addUsize stop 1 = 0 := by
      rw [addUsize]
      omega
    have hnot : ¬ IndexFits n stop := fun h => hmax h.2
    rw [hplace, sumBetween_self adds le_rfl, wrapI128]
    simp only [hnot, Nat.not_lt.mpr hle, false_or]
    omega

/-- A tree that the memory can hold takes every run of amounts and answers every sum. The answers
are those sums exactly as long as one more than the length and than the last index fits a word,
or else what the overflow leaves out is zero. -/
theorem fenwick_sums_iff (source : Source) (hlength : source.length < 2 ^ 64)
    (hmemory : (withCapacity source.length).isSome = true) {adds : List (ℕ × ℤ)}
    (hin : ∀ add ∈ adds, add.1 < source.length)
    (hfits : ∀ lo hi, -2 ^ 127 ≤ sumBetween (source.adds ++ adds) lo hi ∧
      sumBetween (source.adds ++ adds) lo hi < 2 ^ 127) :
    ∃ fw, source.build.bind (·.addAll adds) = some fw ∧
      (∀ idx < 2 ^ 64,
        Answers (fw.prefixSum idx)
          (sumBetween (source.adds ++ adds) 0 (min idx (source.length - 1) + 1))
          (IndexFits source.length idx ∨
            sumBetween (source.adds ++ adds) 0 (min idx (source.length - 1) + 1) = 0)) ∧
      ∀ start stop, stop < 2 ^ 64 →
        Answers (fw.rangeSum start stop) (sumBetween (source.adds ++ adds) start (stop + 1))
          (stop < start ∨ IndexFits source.length stop ∨ sumBetween (source.adds ++ adds)
            (if source.length + 1 < 2 ^ 64 then 0 else start) (stop + 1) = 0) := by
  have hall : ∀ add ∈ source.adds ++ adds, add.1 < source.length := by
    intro add hadd
    rcases List.mem_append.mp hadd with h | h
    · exact source.adds_lt add h
    · exact hin add h
  have hclamp (idx : ℕ) : sumBetween (source.adds ++ adds) 0 (min idx (source.length - 1) + 1) =
      sumBetween (source.adds ++ adds) 0 (idx + 1) := by
    rw [← sumBetween_min hall 0 (idx + 1), ← sumBetween_min hall 0 (min idx _ + 1)]
    congr 1
    omega
  simp only [hclamp]
  have hbuild : source.build.bind (·.addAll adds) =
      (withCapacity source.length).bind (·.addAll (source.adds ++ adds)) := by
    rw [source.build_eq, Option.bind_assoc]
    congr 1
    funext fw
    exact (List.foldlM_append (m := Option)).symm
  rw [hbuild]
  by_cases hover : source.length + 1 < 2 ^ 64
  · have hplace : addUsize source.length 1 = source.length + 1 := Nat.mod_eq_of_lt hover
    rw [withCapacity, hplace] at hmemory ⊢
    split_ifs at hmemory ⊢ with hbytes
    · have hn : source.length < 2 ^ 63 := by omega
      obtain ⟨fw, hadded, hholds⟩ := (Holds.start (n := source.length)).addAll hn hall
      rw [List.nil_append] at hholds
      refine ⟨fw, hadded, ?_, ?_⟩
      · intro idx hidx
        exact hholds.answers_prefix hn hall hfits hidx
      · intro start stop hstop
        exact hholds.answers_range hn hall hfits hstop
    · cases hmemory
  · -- the vector of `usize::MAX + 1` nodes is empty
    have hplace : addUsize source.length 1 = 0 := by
      rw [addUsize]
      omega
    have hcapacity : withCapacity source.length = some ⟨[]⟩ := by
      rw [withCapacity, hplace]
      rfl
    have hnot (idx : ℕ) : ¬ IndexFits source.length idx := fun h => hover h.1
    have hprefix (idx : ℕ) : prefixSum ⟨[]⟩ idx = some 0 := by
      rw [prefixSum, List.length_nil, Nat.zero_sub, Nat.min_zero]
      rfl
    rw [hcapacity]
    refine ⟨⟨[]⟩, addAll_empty _, ?_, ?_⟩
    · intro idx _
      refine ⟨0, hprefix idx, ?_⟩
      simp [hnot, eq_comm]
    · intro start stop _
      rw [if_neg hover]
      refine ⟨0, ?_, ?_⟩
      · rw [FenwickPrefixSum128.rangeSum, hprefix, hprefix]
        split_ifs <;> rfl
      · rcases Nat.lt_or_ge stop start with hlt | hle
        · rw [sumBetween_self _ (by omega)]
          simp [hlt]
        · simp [hnot, Nat.not_lt.mpr hle, eq_comm]

/-- Three values, and 4 more at the second: the sums from the second on. -/
theorem fenwick_sums_of_three :
    ∃ fw, (Source.slice [5, 7, 1]).build.bind (·.addAll [(1, 4)]) = some fw ∧
      Answers (fw.rangeSum 1 9) 12 True := by
  have hfits (lo hi : ℕ) :
      -2 ^ 127 ≤ sumBetween ((Source.slice [5, 7, 1]).adds ++ [(1, 4)]) lo hi ∧
        sumBetween ((Source.slice [5, 7, 1]).adds ++ [(1, 4)]) lo hi < 2 ^ 127 := by
    have hle := abs_le.mp (abs_sumBetween_le ((Source.slice [5, 7, 1]).adds ++ [(1, 4)]) lo hi)
    have hsum : (((Source.slice [5, 7, 1]).adds ++ [(1, 4)]).map fun add : ℕ × ℤ => |add.2|).sum = 17 := by
      decide
    rw [hsum] at hle
    omega
  obtain ⟨fw, hfw, -, hrange⟩ := @fenwick_sums_iff (.slice [5, 7, 1]) (by decide) (by decide)
    [(1, 4)] (by decide) hfits
  refine ⟨fw, hfw, ?_⟩
  obtain ⟨sum, hsum, hiff⟩ := hrange 1 9 (by decide)
  have hexpected : sumBetween ((Source.slice [5, 7, 1]).adds ++ [(1, 4)]) 1 (9 + 1) = 12 := by decide
  rw [hexpected] at hiff
  exact ⟨sum, hsum, hiff.trans (iff_true_intro (.inr (.inl (by
    unfold IndexFits
    decide))))⟩

/-- At the last index of a word the next one wraps, and the sum of everything is zero. -/
theorem sum_at_the_last_index_is_lost : ¬ ∀ (source : Source) (adds : List (ℕ × ℤ)) (idx : ℕ),
    (∀ add ∈ adds, add.1 < source.length) → idx < 2 ^ 64 →
    ∃ fw, source.build.bind (·.addAll adds) = some fw ∧ fw.prefixSum idx =
      some (sumBetween (source.adds ++ adds) 0 (min idx (source.length - 1) + 1)) := by
  intro h
  obtain ⟨fw, hfw, hsum⟩ := h (.capacity 1) [(0, 5)] (2 ^ 64 - 1) (by decide) (by decide)
  have hbuilt : (Source.capacity 1).build.bind (·.addAll [(0, 5)]) = some ⟨[0, 5]⟩ := by decide
  cases hbuilt.symm.trans hfw
  revert hsum
  decide

end FenwickPrefixSum128
end MetriEngine.Storage.FinancialLedger

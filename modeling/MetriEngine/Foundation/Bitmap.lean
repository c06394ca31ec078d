import MetriEngine.Foundation.LowBit

/-!
# Bitmaps of 64-bit words

Bit `r` is bit `r % 64` of word `r / 64`; what lies behind the last word reads as clear. The set
bits are counted from the lowest: whole words are passed over by their number of set bits, and
inside a word the lowest bits are cleared one by one. Where the set bits are an increasing sequence
of places, the bit of rank `i` is the `i`-th of them.
-/
namespace MetriEngine.Foundation

abbrev Bitmap := List (BitVec 64)

namespace Bitmap

def bit (words : Bitmap) (r : ℕ) : Bool := (words[r / 64]?).any fun w => w.getLsbD (r % 64)

def setBit (words : Bitmap) (r : ℕ) : Bitmap :=
  words.modify (r / 64) fun w => w ||| 1#64 <<< (r % 64)

def clearBit (words : Bitmap) (r : ℕ) : Bitmap :=
  words.modify (r / 64) fun w => w &&& ~~~(1#64 <<< (r % 64))

/-- At least `n` words, the new ones zero. -/
def grow (words : Bitmap) (n : ℕ) : Bitmap :=
  words ++ List.replicate (n - words.length) 0#64

/-- The mask of one position has that bit only. -/
theorem getLsbD_mask (r q : ℕ) :
    (1#64 <<< (r % 64)).getLsbD (q % 64) = decide (q % 64 = r % 64) := by
  have hr : r % 64 < 64 := Nat.mod_lt r (by norm_num)
  rw [← BitVec.twoPow_eq, BitVec.getLsbD_twoPow]
  simp [hr, eq_comm]

/-- A word meets the mask of a position where its bit is set. -/
theorem land_mask_ne_zero (w : BitVec 64) (r : ℕ) :
    (w &&& 1#64 <<< (r % 64) != 0#64) = w.getLsbD (r % 64) := by
  have hr : r % 64 < 64 := Nat.mod_lt r (by norm_num)
  cases hbit : w.getLsbD (r % 64) with
  | true =>
    rw [bne_iff_ne]
    intro hzero
    have hand := congrArg (fun v => v.getLsbD (r % 64)) hzero
    simp only [BitVec.getLsbD_and, getLsbD_mask, hbit] at hand
    simp at hand
  | false =>
    have hzero : w &&& 1#64 <<< (r % 64) = 0#64 := by
      ext q hq
      rw [BitVec.getElem_and, ← BitVec.twoPow_eq, BitVec.getElem_twoPow, ← BitVec.getLsbD_eq_getElem]
      by_cases heq : q = r % 64
      · subst heq
        simp [hbit]
      · simp [heq]
    rw [hzero]
    rfl

@[simp] theorem length_setBit (words : Bitmap) (r : ℕ) :
    (words.setBit r).length = words.length := List.length_modify ..

@[simp] theorem length_clearBit (words : Bitmap) (r : ℕ) :
    (words.clearBit r).length = words.length := List.length_modify ..

theorem length_grow (words : Bitmap) (n : ℕ) : (words.grow n).length = max words.length n := by
  rw [grow, List.length_append, List.length_replicate]
  omega

theorem bit_setBit {words : Bitmap} {r : ℕ} (hr : r / 64 < words.length) (q : ℕ) :
    (words.setBit r).bit q = (decide (q = r) || words.bit q) := by
  rw [bit, setBit, List.getElem?_modify]
  by_cases hword : r / 64 = q / 64
  · have hq : q / 64 < words.length := hword ▸ hr
    have hsame : q % 64 = r % 64 ↔ q = r := by omega
    rw [bit, List.getElem?_eq_getElem hq, Option.map_eq_map, Option.map_some, if_pos hword,
      Option.any_some, Option.any_some, BitVec.getLsbD_or, getLsbD_mask, Bool.or_comm,
      decide_eq_decide.mpr hsame]
  · have hne : q ≠ r := by
      intro heq
      exact hword (by rw [heq])
    simp [hword, hne, bit]

theorem bit_clearBit (words : Bitmap) (r q : ℕ) :
    (words.clearBit r).bit q = (words.bit q && decide (q ≠ r)) := by
  rw [bit, clearBit, List.getElem?_modify]
  by_cases hword : r / 64 = q / 64
  · have hsame : q % 64 = r % 64 ↔ q = r := by omega
    have hmask : decide (q % 64 = r % 64) = decide (q = r) := decide_eq_decide.mpr hsame
    have hlt : q % 64 < 64 := Nat.mod_lt q (by norm_num)
    cases hw : words[q / 64]? with
    | none => simp [bit, hw]
    | some w =>
      rw [bit, hw, Option.map_eq_map, Option.map_some, if_pos hword, Option.any_some,
        Option.any_some, BitVec.getLsbD_and, BitVec.getLsbD_not, getLsbD_mask, hmask]
      simp [hlt]
  · have hne : q ≠ r := by
      intro heq
      exact hword (by rw [heq])
    simp [hword, hne, bit]

theorem bit_grow (words : Bitmap) (n r : ℕ) : (words.grow n).bit r = words.bit r := by
  rw [bit, bit, grow, List.getElem?_append]
  split_ifs with hr
  · rfl
  · rw [List.getElem?_replicate, List.getElem?_eq_none (Nat.le_of_not_lt hr)]
    split_ifs <;> simp

/-! ### Two bitmaps side by side -/

theorem bit_zipWith_and (a b : Bitmap) (q : ℕ) :
    bit (List.zipWith (· &&& ·) a b) q = (bit a q && bit b q) := by
  rw [bit, bit, bit, List.getElem?_zipWith]
  cases a[q / 64]? <;> cases b[q / 64]? <;> simp

theorem bit_zipWith_or {a b : Bitmap} (h : a.length = b.length) (q : ℕ) :
    bit (List.zipWith (· ||| ·) a b) q = (bit a q || bit b q) := by
  rw [bit, bit, bit, List.getElem?_zipWith]
  by_cases hq : q / 64 < a.length
  · rw [List.getElem?_eq_getElem hq, List.getElem?_eq_getElem (h ▸ hq)]
    simp
  · rw [List.getElem?_eq_none (by omega), List.getElem?_eq_none (by omega)]
    simp

/-- A bitmap whose words are all zero has no set bit. -/
theorem bit_of_not_any {words : Bitmap} (h : words.any (· != 0#64) = false) (q : ℕ) :
    bit words q = false := by
  rw [bit]
  cases hw : words[q / 64]? with
  | none => rfl
  | some w =>
    have hzero := List.any_eq_false.mp h w (List.mem_of_getElem? hw)
    simp at hzero
    simp [hzero]

/-! ### Ranks -/

/-- `count_ones` -/
def countOnes (w : BitVec 64) : ℕ := (List.range 64).countP fun q => w.getLsbD q

/-- `w &= w - 1`, so many times. -/
def clearLowest : ℕ → BitVec 64 → BitVec 64
  | 0, w => w
  | n + 1, w => clearLowest n (w &&& (w - 1))

/-- The place of the set bit of this rank, from the word `wordIdx` on. -/
def selectFrom : Bitmap → ℕ → ℕ → Option ℕ
  | [], _, _ => none
  | word :: words, wordIdx, remaining =>
    if remaining < countOnes word then
      some (wordIdx * 64 + (clearLowest remaining word).ctz.toNat)
    else selectFrom words (wordIdx + 1) (remaining - countOnes word)

/-! ### One word -/

theorem countOnes_eq (w : BitVec 64) : countOnes w = Nat.count (fun q => w.getLsbD q = true) 64 := by
  rw [countOnes, Nat.count]
  congr 1
  funext q
  simp

/-- Clearing the lowest bit clears one bit, and no lower one was set. -/
theorem exists_lowest {n : ℕ} {w : BitVec n} (hw : w ≠ 0) :
    ∃ k, w.getLsbD k = true ∧ (∀ q < k, w.getLsbD q = false) ∧
      ∀ q, (w &&& (w - 1)).getLsbD q = (w.getLsbD q && decide (q ≠ k)) := by
  have hpos : 0 < w.toNat := by
    rw [Nat.pos_iff_ne_zero]
    exact fun h => hw (BitVec.eq_of_toNat_eq h)
  obtain ⟨k, m, hkm⟩ := exists_odd hpos
  have hbit (q : ℕ) : w.getLsbD q = (decide (k ≤ q) && (2 * m + 1).testBit (q - k)) := by
    rw [BitVec.getLsbD, hkm, Nat.testBit_two_pow_mul]
  have hclear (q : ℕ) : (w &&& (w - 1)).getLsbD q =
      (decide (k ≤ q) && (2 * m).testBit (q - k)) := by
    have hpred : (w - 1).toNat = w.toNat - 1 := by
      have hlt := w.isLt
      have hone : (1 : BitVec n).toNat = 1 := by
        change 1 % 2 ^ n = 1
        exact Nat.mod_eq_of_lt (by omega)
      rw [BitVec.toNat_sub, hone, show 2 ^ n - 1 + w.toNat = w.toNat - 1 + 2 ^ n by omega,
        Nat.add_mod_right, Nat.mod_eq_of_lt (by omega)]
    rw [BitVec.getLsbD, BitVec.toNat_and, hpred, hkm, land_pred, Nat.testBit_two_pow_mul]
  refine ⟨k, ?_, ?_, ?_⟩
  · rw [hbit]
    simp
  · intro q hq
    rw [hbit, decide_eq_false (by omega), Bool.false_and]
  · intro q
    rw [hclear, hbit]
    rcases Nat.lt_trichotomy q k with hlt | rfl | hgt
    · rw [decide_eq_false (by omega), Bool.false_and, Bool.false_and, Bool.false_and]
    · simp
    · obtain ⟨j, hj⟩ : ∃ j, q - k = j + 1 := ⟨q - k - 1, by omega⟩
      rw [decide_eq_true (by omega : k ≤ q), decide_eq_true (by omega : q ≠ k), hj,
        Nat.testBit_succ, Nat.testBit_succ, show 2 * m / 2 = m by omega,
        show (2 * m + 1) / 2 = m by omega]
      simp

/-- Without its lowest bit a word has one set bit less below any other one. -/
theorem count_clear {n : ℕ} {w : BitVec n} {k p : ℕ} (hk : w.getLsbD k = true) (hkp : k < p)
    (hclear : ∀ q, (w &&& (w - 1)).getLsbD q = (w.getLsbD q && decide (q ≠ k))) :
    Nat.count (fun q => w.getLsbD q = true) p =
      Nat.count (fun q => (w &&& (w - 1)).getLsbD q = true) p + 1 := by
  rw [Nat.count_eq_card_filter_range, Nat.count_eq_card_filter_range]
  have hinsert : (Finset.range p).filter (fun q => w.getLsbD q = true) =
      insert k ((Finset.range p).filter fun q => (w &&& (w - 1)).getLsbD q = true) := by
    ext q
    rw [Finset.mem_insert, Finset.mem_filter, Finset.mem_filter, hclear, Finset.mem_range,
      Bool.and_eq_true, decide_eq_true_eq]
    constructor
    · rintro ⟨hq, hbit⟩
      by_cases heq : q = k
      · exact Or.inl heq
      · exact Or.inr ⟨hq, hbit, heq⟩
    · rintro (rfl | ⟨hq, hbit, -⟩)
      · exact ⟨hkp, hk⟩
      · exact ⟨hq, hbit⟩
  rw [hinsert, Finset.card_insert_of_notMem]
  rw [Finset.mem_filter, hclear]
  simp

/-- `trailing_zeros` is the place of the lowest set bit. -/
theorem ctz_of_lowest {n : ℕ} {w : BitVec n} {k : ℕ} (hk : w.getLsbD k = true)
    (hlow : ∀ q < k, w.getLsbD q = false) : w.ctz.toNat = k := by
  have hw : w ≠ 0#n := by
    rintro rfl
    simp at hk
  rcases Nat.lt_trichotomy w.ctz.toNat k with hlt | heq | hgt
  · have htrue := BitVec.getLsbD_true_ctz_of_ne_zero hw
    rw [hlow _ hlt] at htrue
    cases htrue
  · exact heq
  · rw [BitVec.getLsbD_false_of_lt_ctz hgt] at hk
    cases hk

/-- Behind as many cleared bits as there are set ones below it a set bit is the lowest. -/
theorem ctz_clearLowest {r : ℕ} {w : BitVec 64} {p : ℕ} (hp : w.getLsbD p = true)
    (hr : Nat.count (fun q => w.getLsbD q = true) p = r) : (clearLowest r w).ctz.toNat = p := by
  have hw : w ≠ 0 := by
    rintro rfl
    simp at hp
  induction r generalizing w with
  | zero =>
    rw [Nat.count_iff_forall_not] at hr
    exact @ctz_of_lowest 64 w p hp fun q hq => by simpa using hr q hq
  | succ r ih =>
    obtain ⟨k, hk, hlow, hclear⟩ := exists_lowest hw
    have hkp : k < p := by
      obtain ⟨q, hq, hbit⟩ := Nat.count_ne_iff_exists.mp (hr.trans_ne (Nat.succ_ne_zero r))
      by_contra hle
      rw [hlow q (by omega)] at hbit
      cases hbit
    have hbit : (w &&& (w - 1)).getLsbD p = true := by
      rw [hclear, hp, decide_eq_true (by omega), Bool.and_true]
    have hcount := count_clear hk hkp hclear
    apply ih hbit (by omega)
    intro hzero
    rw [hzero] at hbit
    simp at hbit

/-! ### The set bits of a word -/

/-- The places of the set bits, the lowest first: the lowest is read and cleared, so many times. -/
def popBits {n : ℕ} : ℕ → BitVec n → List ℕ
  | 0, _ => []
  | turns + 1, w => if w = 0 then [] else w.ctz.toNat :: popBits turns (w &&& (w - 1))

/-- The lowest set bit comes first, and the others are those of the cleared word. -/
theorem filter_lowest {n : ℕ} {w : BitVec n} {k : ℕ} (hk : w.getLsbD k = true)
    (hlow : ∀ q < k, w.getLsbD q = false)
    (hclear : ∀ q, (w &&& (w - 1)).getLsbD q = (w.getLsbD q && decide (q ≠ k))) :
    (List.range n).filter (fun q => w.getLsbD q) =
      k :: (List.range n).filter fun q => (w &&& (w - 1)).getLsbD q := by
  have hlt : k < n := BitVec.lt_of_getLsbD hk
  have hsplit : List.range n = List.range k ++ k :: (List.range' (k + 1) (n - 1 - k)) := by
    rw [List.range_eq_range', List.range_eq_range', show n = k + (n - k) by omega,
      ← List.range'_append_1, show n - k = n - 1 - k + 1 by omega, List.range'_succ, Nat.zero_add]
    congr 3
    omega
  have hbefore : ∀ f : ℕ → Bool, (∀ q < k, f q = false) → (List.range k).filter f = [] := by
    intro f hf
    rw [List.filter_eq_nil_iff]
    intro q hq
    rw [hf q (List.mem_range.mp hq)]
    exact Bool.false_ne_true
  have hafter : (List.range' (k + 1) (n - 1 - k)).filter (fun q => w.getLsbD q) =
      (List.range' (k + 1) (n - 1 - k)).filter fun q => (w &&& (w - 1)).getLsbD q := by
    apply List.filter_congr
    intro q hq
    have hgt : k + 1 ≤ q := (List.mem_range'_1.mp hq).1
    rw [hclear, decide_eq_true (by omega), Bool.and_true]
  rw [hsplit, List.filter_append, List.filter_append, List.filter_cons, List.filter_cons,
    hbefore _ hlow, hbefore _ fun q hq => by rw [hclear, hlow q hq, Bool.false_and], hafter, hk,
    hclear, hk]
  simp

/-- As many turns as there are set bits read them all. -/
theorem popBits_eq {n turns : ℕ} {w : BitVec n}
    (hturns : Nat.count (fun q => w.getLsbD q = true) n ≤ turns) :
    popBits turns w = (List.range n).filter fun q => w.getLsbD q := by
  induction turns generalizing w with
  | zero =>
    rw [popBits, eq_comm, List.filter_eq_nil_iff]
    intro q hq
    have hnone := (Nat.count_iff_forall_not.mp (Nat.le_zero.mp hturns)) q (List.mem_range.mp hq)
    simpa using hnone
  | succ turns ih =>
    rw [popBits]
    split_ifs with hzero
    · subst hzero
      simp
    · obtain ⟨k, hk, hlow, hclear⟩ := exists_lowest hzero
      have hcount := count_clear hk (BitVec.lt_of_getLsbD hk) hclear
      rw [ctz_of_lowest hk hlow, ih (by omega), filter_lowest hk hlow hclear]

/-! ### All words -/

theorem bit_cons_low (w : BitVec 64) (words : Bitmap) {q : ℕ} (hq : q < 64) :
    bit (w :: words) q = w.getLsbD q := by
  rw [bit, Nat.div_eq_of_lt hq, Nat.mod_eq_of_lt hq]
  rfl

theorem bit_cons_high (w : BitVec 64) (words : Bitmap) (q : ℕ) :
    bit (w :: words) (64 + q) = bit words q := by
  rw [bit, Nat.add_mod_left, Nat.add_div_left _ (by norm_num)]
  rfl

theorem count_cons_low (w : BitVec 64) (words : Bitmap) {p : ℕ} (hp : p ≤ 64) :
    Nat.count (fun q => bit (w :: words) q = true) p =
      Nat.count (fun q => w.getLsbD q = true) p := by
  rw [Nat.count_eq_card_filter_range, Nat.count_eq_card_filter_range]
  congr 1
  apply Finset.filter_congr
  intro q hq
  rw [bit_cons_low w words (by rw [Finset.mem_range] at hq; omega)]

/-- The selection finds the set bit that has as many set bits below it as its rank. -/
theorem selectFrom_eq {words : Bitmap} {wordIdx r p : ℕ} (hp : bit words p = true)
    (hr : Nat.count (fun q => bit words q = true) p = r) :
    selectFrom words wordIdx r = some (wordIdx * 64 + p) := by
  induction words generalizing wordIdx r p with
  | nil => simp [bit] at hp
  | cons w words ih =>
    rw [selectFrom]
    by_cases hlow : p < 64
    · rw [bit_cons_low w words hlow] at hp
      rw [count_cons_low w words hlow.le] at hr
      have hlt : r < countOnes w := by
        rw [countOnes_eq, ← hr]
        exact Nat.count_strict_mono hp hlow
      rw [if_pos hlt, ctz_clearLowest hp hr]
    · obtain ⟨p', rfl⟩ := Nat.exists_eq_add_of_le (Nat.le_of_not_lt hlow)
      rw [bit_cons_high] at hp
      rw [Nat.count_add, count_cons_low w words le_rfl, ← countOnes_eq] at hr
      simp only [bit_cons_high] at hr
      rw [if_neg (by omega), ih hp (r := r - countOnes w) (by omega)]
      congr 1
      ring

/-- The places of the set bits of all words. -/
def setPlaces (words : Bitmap) : List ℕ := (List.range (64 * words.length)).filter (bit words)

theorem mem_setPlaces {words : Bitmap} {q : ℕ} : q ∈ setPlaces words ↔ bit words q = true := by
  rw [setPlaces, List.mem_filter, List.mem_range]
  refine ⟨And.right, fun hbit => ⟨?_, hbit⟩⟩
  by_contra hle
  rw [bit, List.getElem?_eq_none (by omega)] at hbit
  cases hbit

theorem setPlaces_increasing (words : Bitmap) : (setPlaces words).Pairwise (· < ·) :=
  List.pairwise_lt_range.filter _

theorem setPlaces_cons (w : BitVec 64) (words : Bitmap) :
    setPlaces (w :: words) =
      (List.range 64).filter (fun q => w.getLsbD q) ++ (setPlaces words).map (64 + ·) := by
  rw [setPlaces, setPlaces, List.length_cons, Nat.mul_succ, Nat.add_comm, List.range_add,
    List.filter_append, List.filter_map]
  have hlow : (List.range 64).filter (bit (w :: words)) =
      (List.range 64).filter fun q => w.getLsbD q := by
    apply List.filter_congr
    intro q hq
    rw [bit_cons_low w words (List.mem_range.mp hq)]
  have hhigh : bit (w :: words) ∘ (64 + ·) = bit words := by
    funext q
    rw [Function.comp_apply, bit_cons_high]
  rw [hlow, hhigh]

theorem length_setPlaces (words : Bitmap) :
    (setPlaces words).length = (words.map countOnes).sum := by
  induction words with
  | nil => rfl
  | cons w words ih =>
    rw [setPlaces_cons, List.length_append, List.length_map, ih, List.map_cons, List.sum_cons,
      countOnes, List.countP_eq_length_filter]

/-- Popping word after word reads the places of all set bits. -/
theorem flatMap_popBits (words : Bitmap) (start : ℕ) :
    (words.zipIdx start).flatMap (fun e => (popBits 64 e.1).map (e.2 * 64 + ·)) =
      (setPlaces words).map (start * 64 + ·) := by
  induction words generalizing start with
  | nil => rfl
  | cons w words ih =>
    rw [List.zipIdx_cons, List.flatMap_cons, ih, setPlaces_cons, popBits_eq (Nat.count_le _),
      List.map_append, List.map_map]
    congr 2
    funext q
    rw [Function.comp_apply]
    ring

/-! ### Increasing places -/

/-- Below the entry of rank `i` of an increasing sequence there are `i` others. -/
theorem count_mem_of_increasing {places : List ℕ} (hinc : places.Pairwise (· < ·)) {i : ℕ}
    (hi : i < places.length) : Nat.count (· ∈ places) places[i] = i := by
  have hfilter : (Finset.range places[i]).filter (· ∈ places) = (places.take i).toFinset := by
    ext q
    rw [Finset.mem_filter, Finset.mem_range, List.mem_toFinset, List.mem_take_iff_getElem]
    constructor
    · rintro ⟨hq, hmem⟩
      obtain ⟨j, hj, rfl⟩ := List.mem_iff_getElem.mp hmem
      have hji : j < i := by
        by_contra hle
        rcases Nat.eq_or_lt_of_le (Nat.le_of_not_lt hle) with rfl | hlt
        · omega
        · have := List.pairwise_iff_getElem.mp hinc i j hi hj hlt
          omega
      exact ⟨j, by omega, rfl⟩
    · rintro ⟨j, hj, rfl⟩
      exact ⟨List.pairwise_iff_getElem.mp hinc j i (by omega) hi (by omega),
        List.getElem_mem _⟩
  rw [Nat.count_eq_card_filter_range, hfilter, List.toFinset_card_of_nodup, List.length_take]
  · omega
  · exact (List.Pairwise.imp (fun h => Nat.ne_of_lt h) hinc).sublist (List.take_sublist i places)

theorem bit_foldl_setBit (places : List ℕ) {words : Bitmap}
    (hin : ∀ p ∈ places, p / 64 < words.length) (q : ℕ) :
    bit (places.foldl setBit words) q = (decide (q ∈ places) || bit words q) := by
  induction places generalizing words with
  | nil => simp
  | cons p places ih =>
    rw [List.foldl_cons, ih, bit_setBit (hin p List.mem_cons_self)]
    · by_cases hqp : q = p <;> by_cases hmem : q ∈ places <;> simp [hqp, hmem]
    · intro p' hp'
      rw [length_setBit]
      exact hin p' (List.mem_cons_of_mem _ hp')

theorem bit_replicate_zero (n q : ℕ) : bit (List.replicate n 0#64) q = false := by
  rw [bit, List.getElem?_replicate]
  split_ifs <;> simp

/-- In a bitmap whose set bits are an increasing sequence the bit of rank `i` is the `i`-th. -/
theorem selectFrom_places {places : List ℕ} (hinc : places.Pairwise (· < ·)) {n : ℕ}
    (hin : ∀ p ∈ places, p / 64 < n) {i : ℕ} (hi : i < places.length) :
    selectFrom (places.foldl setBit (List.replicate n 0#64)) 0 i = some places[i] := by
  have hbit (q : ℕ) : bit (places.foldl setBit (List.replicate n 0#64)) q = true ↔
      q ∈ places := by
    rw [bit_foldl_setBit places (by simpa using hin), bit_replicate_zero]
    simp
  have hselect := @selectFrom_eq (places.foldl setBit (List.replicate n 0#64)) 0 i places[i]
    ((hbit _).mpr (List.getElem_mem hi)) (by
      simp only [hbit]
      exact count_mem_of_increasing hinc hi)
  rw [hselect, Nat.zero_mul, Nat.zero_add]

end Bitmap
end MetriEngine.Foundation

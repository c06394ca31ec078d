import MetriEngine.Foundation.Bitmap
import MetriEngine.Foundation.OrdMap

/-!
# Roaring bitmaps of row ids

The upper sixteen bits of a row id choose a container, the lower sixteen a bit among its 1024
words. A bitmap stands for the set of the row ids whose bits are set; insertion, intersection,
union and the readings are those of finite sets.
-/
namespace MetriEngine.Synopsis
open Foundation

/-- `u32` -/
abbrev RowId := Fin (2 ^ 32)

structure RoaringBitmap32 where
  /-- The words of each upper half. -/
  containers : OrdMap (Fin (2 ^ 16)) Bitmap

namespace RoaringBitmap32

/-! ### Row ids -/

/-- `row_id >> 16` -/
def hi (rowId : RowId) : Fin (2 ^ 16) := ⟨rowId.val >>> 16, by
  rw [Nat.shiftRight_eq_div_pow]
  have := rowId.isLt
  omega⟩

/-- `row_id & 0xFFFF` -/
def lo (rowId : RowId) : ℕ := rowId.val &&& 0xFFFF

/-- `hi_base | (word_idx * 64 + bit)` -/
def rowOf (key : Fin (2 ^ 16)) (place : ℕ) : RowId :=
  ⟨(key.val <<< 16 ||| place % 2 ^ 32) % 2 ^ 32, Nat.mod_lt _ (by norm_num)⟩

theorem hi_val (rowId : RowId) : (hi rowId).val = rowId.val / 2 ^ 16 :=
  Nat.shiftRight_eq_div_pow _ _

theorem lo_eq (rowId : RowId) : lo rowId = rowId.val % 2 ^ 16 :=
  Nat.and_two_pow_sub_one_eq_mod rowId.val 16

theorem lo_lt (rowId : RowId) : lo rowId < 2 ^ 16 := by
  rw [lo_eq]
  exact Nat.mod_lt _ (by norm_num)

theorem rowOf_val (key : Fin (2 ^ 16)) {place : ℕ} (hplace : place < 2 ^ 16) :
    (rowOf key place).val = key.val * 2 ^ 16 + place := by
  have hkey := key.isLt
  have hbits : key.val <<< 16 ||| place % 2 ^ 32 = key.val * 2 ^ 16 + place := by
    rw [Nat.mod_eq_of_lt (by omega), ← Nat.shiftLeft_add_eq_or_of_lt hplace, Nat.shiftLeft_eq]
  dsimp only [rowOf]
  rw [hbits]
  exact Nat.mod_eq_of_lt (by omega)

@[simp] theorem rowOf_hi_lo (rowId : RowId) : rowOf (hi rowId) (lo rowId) = rowId := by
  ext
  rw [rowOf_val _ (lo_lt rowId), hi_val, lo_eq]
  omega

theorem hi_rowOf (key : Fin (2 ^ 16)) {place : ℕ} (hplace : place < 2 ^ 16) :
    hi (rowOf key place) = key := by
  ext
  rw [hi_val, rowOf_val key hplace]
  omega

theorem lo_rowOf (key : Fin (2 ^ 16)) {place : ℕ} (hplace : place < 2 ^ 16) :
    lo (rowOf key place) = place := by
  rw [lo_eq, rowOf_val key hplace]
  omega

/-! ### Operations

An index past the end of a container stops the program: such a call gives nothing. -/

def zeros : Bitmap := List.replicate 1024 0#64

def insert (bm : RoaringBitmap32) (rowId : RowId) : Option RoaringBitmap32 :=
  let words := (bm.containers.lookup (hi rowId)).getD zeros
  if lo rowId / 64 < words.length then
    some ⟨bm.containers.insert (hi rowId) (words.setBit (lo rowId))⟩
  else none

def fromRowIds (rowIds : List RowId) : Option RoaringBitmap32 := rowIds.foldlM insert ⟨∅⟩

def contains (bm : RoaringBitmap32) (rowId : RowId) : Option Bool :=
  match bm.containers.lookup (hi rowId) with
  | none => some false
  | some words =>
    (words[lo rowId / 64]?).map fun word => word &&& 1#64 <<< (lo rowId % 64) != 0#64

def cardinality (bm : RoaringBitmap32) : ℕ :=
  ((bm.containers.entries.flatMap Prod.snd).map Bitmap.countOnes).sum

/-- The words of two containers of one key, met. -/
def andWords (wordsA wordsB : Bitmap) : Option Bitmap :=
  (List.range 1024).mapM fun i => do
    let a ← wordsA[i]?
    let b ← wordsB[i]?
    pure (a &&& b)

/-- What `and` does with one container: a match with no common bit leaves nothing. -/
def andContainer (other out : RoaringBitmap32) (e : Fin (2 ^ 16) × Bitmap) :
    Option RoaringBitmap32 :=
  match other.containers.lookup e.1 with
  | none => some out
  | some wordsB => do
    let merged ← andWords e.2 wordsB
    if merged.any (· != 0#64) then some ⟨out.containers.insert e.1 merged⟩ else some out

def and (bm other : RoaringBitmap32) : Option RoaringBitmap32 :=
  bm.containers.entries.foldlM (andContainer other) ⟨∅⟩

/-- `entry[i] |= words_b[i]` for the 1024 words. -/
def orWords (entry wordsB : Bitmap) : Option Bitmap :=
  (List.range 1024).foldlM (fun entry i => do
    let a ← entry[i]?
    let b ← wordsB[i]?
    pure (entry.set i (a ||| b))) entry

def orContainer (out : RoaringBitmap32) (e : Fin (2 ^ 16) × Bitmap) : Option RoaringBitmap32 := do
  let merged ← orWords ((out.containers.lookup e.1).getD zeros) e.2
  pure ⟨out.containers.insert e.1 merged⟩

def or (bm other : RoaringBitmap32) : Option RoaringBitmap32 :=
  other.containers.entries.foldlM orContainer bm

/-- The row ids of one container; the lowest set bit of a word is read and cleared while there is
one, which for 64 bits is at most 64 times. -/
def containerRows (e : Fin (2 ^ 16) × Bitmap) : List RowId :=
  e.2.zipIdx.flatMap fun word => (Bitmap.popBits 64 word.1).map fun bit =>
    rowOf e.1 (word.2 * 64 + bit)

def toVec (bm : RoaringBitmap32) : List RowId := bm.containers.entries.flatMap containerRows

/-! ### What a bitmap stands for -/

/-- Every container keeps its 1024 words. -/
def Full (bm : RoaringBitmap32) : Prop :=
  ∀ key words, bm.containers.lookup key = some words → words.length = 1024

/-- The bit of a row id is set. -/
def Holds (bm : RoaringBitmap32) (rowId : RowId) : Prop :=
  ∃ words, bm.containers.lookup (hi rowId) = some words ∧ words.bit (lo rowId) = true

/-- The bitmap, with all its words, of a set of row ids. -/
structure Represents (bm : RoaringBitmap32) (rows : Set RowId) : Prop where
  full : bm.Full
  holds : ∀ rowId, bm.Holds rowId ↔ rowId ∈ rows

theorem represents_empty : Represents ⟨∅⟩ ∅ where
  full := by simp [Full]
  holds := by simp [Holds]

@[simp] theorem length_zeros : zeros.length = 1024 := List.length_replicate

theorem bit_zeros (q : ℕ) : zeros.bit q = false := Bitmap.bit_replicate_zero 1024 q

variable {bm other : RoaringBitmap32} {rows others : Set RowId}

theorem Full.length_getD (h : bm.Full) (key : Fin (2 ^ 16)) :
    ((bm.containers.lookup key).getD zeros).length = 1024 := by
  cases hlookup : bm.containers.lookup key with
  | none => simp
  | some words => exact h key words hlookup

/-- The bits of a container, of which a missing one has none. -/
theorem bit_getD (bm : RoaringBitmap32) (key : Fin (2 ^ 16)) (q : ℕ) :
    ((bm.containers.lookup key).getD zeros).bit q = true ↔
      ∃ words, bm.containers.lookup key = some words ∧ words.bit q = true := by
  cases bm.containers.lookup key with
  | none => simp [bit_zeros]
  | some words => simp

theorem holds_iff (rowId : RowId) :
    bm.Holds rowId ↔ ((bm.containers.lookup (hi rowId)).getD zeros).bit (lo rowId) = true :=
  (bit_getD bm (hi rowId) (lo rowId)).symm

/-- A container put in its place changes the row ids of its key only. -/
theorem Represents.insert_container {key : Fin (2 ^ 16)} {words : Bitmap}
    (h : bm.Represents rows) (hlen : words.length = 1024) {rows' : Set RowId}
    (hsame : ∀ rowId, hi rowId = key → (words.bit (lo rowId) = true ↔ rowId ∈ rows'))
    (hother : ∀ rowId, hi rowId ≠ key → (rowId ∈ rows' ↔ rowId ∈ rows)) :
    Represents ⟨bm.containers.insert key words⟩ rows' where
  full key' words' hlookup := by
    rw [OrdMap.lookup_insert] at hlookup
    split_ifs at hlookup with hkey
    · rw [← Option.some.inj hlookup, hlen]
    · exact h.full key' words' hlookup
  holds rowId := by
    rw [Holds, OrdMap.lookup_insert]
    split_ifs with hkey
    · simpa using hsame rowId hkey
    · rw [hother rowId hkey, ← h.holds]
      rfl

/-! ### Insertion -/

theorem insert_spec (h : bm.Represents rows) (rowId : RowId) :
    ∃ bm', bm.insert rowId = some bm' ∧ bm'.Represents (Insert.insert rowId rows) := by
  have hlen := h.full.length_getD (hi rowId)
  have hin : lo rowId / 64 < ((bm.containers.lookup (hi rowId)).getD zeros).length := by
    have := lo_lt rowId
    omega
  refine ⟨_, if_pos hin, h.insert_container (by simpa using hlen) ?_ ?_⟩
  · intro row hrow
    rw [Bitmap.bit_setBit hin, Bool.or_eq_true, decide_eq_true_eq, Set.mem_insert_iff, ← h.holds,
      holds_iff, hrow]
    apply or_congr_left
    constructor
    · intro hlo
      rw [← rowOf_hi_lo row, hrow, hlo, rowOf_hi_lo]
    · rintro rfl
      rfl
  · intro row hrow
    rw [Set.mem_insert_iff, or_iff_right]
    rintro rfl
    exact hrow rfl

theorem foldlM_insert_spec (h : bm.Represents rows) (rowIds : List RowId) :
    ∃ bm', rowIds.foldlM insert bm = some bm' ∧
      bm'.Represents (rows ∪ {rowId | rowId ∈ rowIds}) := by
  induction rowIds generalizing bm rows with
  | nil => exact ⟨bm, rfl, by simpa using h⟩
  | cons rowId rowIds ih =>
    obtain ⟨bm₁, hinsert, h₁⟩ := insert_spec h rowId
    obtain ⟨bm', hfold, h'⟩ := ih h₁
    refine ⟨bm', ?_, ?_⟩
    · rw [List.foldlM_cons, hinsert]
      exact hfold
    · convert h' using 1
      ext row
      simp
      tauto

theorem fromRowIds_spec (rowIds : List RowId) :
    ∃ bm, fromRowIds rowIds = some bm ∧ bm.Represents {rowId | rowId ∈ rowIds} := by
  have h := foldlM_insert_spec represents_empty rowIds
  rwa [Set.empty_union] at h

/-! ### Intersection -/

theorem mapM_andWords {wordsA wordsB : Bitmap} {n : ℕ} (ha : n ≤ wordsA.length)
    (hb : n ≤ wordsB.length) :
    (List.range n).mapM (fun i => do
      let a ← wordsA[i]?
      let b ← wordsB[i]?
      pure (a &&& b)) = some ((List.zipWith (· &&& ·) wordsA wordsB).take n) := by
  induction n with
  | zero => rfl
  | succ n ih =>
    have hzip : n < (List.zipWith (· &&& ·) wordsA wordsB).length := by
      rw [List.length_zipWith]
      omega
    rw [List.range_succ, List.mapM_append, ih (by omega) (by omega),
      List.take_add_one, List.getElem?_eq_getElem hzip, List.getElem_zipWith, List.mapM_cons,
      List.mapM_nil, List.getElem?_eq_getElem (by omega), List.getElem?_eq_getElem (by omega)]
    rfl

theorem andWords_eq {wordsA wordsB : Bitmap} (ha : wordsA.length = 1024)
    (hb : wordsB.length = 1024) :
    andWords wordsA wordsB = some (List.zipWith (· &&& ·) wordsA wordsB) := by
  rw [andWords, mapM_andWords ha.ge hb.ge, List.take_of_length_le]
  rw [List.length_zipWith, ha, hb, Nat.min_self]

theorem andContainer_spec {out : RoaringBitmap32} {outRows : Set RowId}
    {e : Fin (2 ^ 16) × Bitmap} (hother : other.Represents others) (hlen : e.2.length = 1024)
    (hout : out.Represents outRows) (hfresh : ∀ row ∈ outRows, hi row ≠ e.1) :
    ∃ out', andContainer other out e = some out' ∧ out'.Represents
      {row | row ∈ outRows ∨ row ∈ others ∧ hi row = e.1 ∧ e.2.bit (lo row) = true} := by
  cases hlookup : other.containers.lookup e.1 with
  | none =>
    have hnone : ∀ row ∈ others, hi row ≠ e.1 := by
      intro row hrow heq
      obtain ⟨words, hwords, -⟩ := (hother.holds row).mpr hrow
      rw [heq, hlookup] at hwords
      cases hwords
    refine ⟨out, ?_, ?_⟩
    · rw [andContainer, hlookup]
    · convert hout using 1
      ext row
      simp only [Set.mem_ofPred_eq, or_iff_left_iff_imp]
      rintro ⟨hrow, heq, -⟩
      exact absurd heq (hnone row hrow)
  | some wordsB =>
    have hlenB := hother.full e.1 wordsB hlookup
    have hbit (row : RowId) (heq : hi row = e.1) : wordsB.bit (lo row) = true ↔ row ∈ others := by
      rw [← hother.holds, holds_iff, heq, hlookup, Option.getD_some]
    have hstep : andContainer other out e =
        if (List.zipWith (· &&& ·) e.2 wordsB).any (· != 0#64) then
          some ⟨out.containers.insert e.1 (List.zipWith (· &&& ·) e.2 wordsB)⟩ else some out := by
      rw [andContainer, hlookup]
      dsimp only
      rw [andWords_eq hlen hlenB]
      rfl
    rw [hstep]
    split_ifs with hany
    · refine ⟨_, rfl, hout.insert_container (by simp [hlen, hlenB]) ?_ ?_⟩
      · intro row heq
        rw [Bitmap.bit_zipWith_and, Bool.and_eq_true, hbit row heq]
        simp only [Set.mem_ofPred_eq, heq, true_and]
        have hnot : row ∉ outRows := fun hrow => hfresh row hrow heq
        tauto
      · intro row hne
        simp [hne]
    · refine ⟨out, rfl, ?_⟩
      convert hout using 1
      ext row
      simp only [Set.mem_ofPred_eq, or_iff_left_iff_imp]
      rintro ⟨hrow, heq, hset⟩
      have hclear := Bitmap.bit_of_not_any (Bool.eq_false_iff.mpr hany) (lo row)
      rw [Bitmap.bit_zipWith_and, hset, (hbit row heq).mpr hrow] at hclear
      cases hclear

/-- A row id is in the first container or in a later one. -/
theorem exists_words_cons {e : Fin (2 ^ 16) × Bitmap} {l : List (Fin (2 ^ 16) × Bitmap)}
    {row : RowId} :
    (∃ words, (hi row, words) ∈ e :: l ∧ words.bit (lo row) = true) ↔
      (hi row = e.1 ∧ e.2.bit (lo row) = true) ∨
        ∃ words, (hi row, words) ∈ l ∧ words.bit (lo row) = true := by
  simp only [List.mem_cons, Prod.ext_iff, or_and_right, exists_or]
  apply or_congr_left
  constructor
  · rintro ⟨_, ⟨heq, rfl⟩, hset⟩
    exact ⟨heq, hset⟩
  · rintro ⟨heq, hset⟩
    exact ⟨e.2, ⟨heq, rfl⟩, hset⟩

theorem foldlM_andContainer_spec {l : List (Fin (2 ^ 16) × Bitmap)} {out : RoaringBitmap32}
    {outRows : Set RowId} (hother : other.Represents others) (hlen : ∀ e ∈ l, e.2.length = 1024)
    (hnodup : (l.map Prod.fst).Nodup) (hout : out.Represents outRows)
    (hfresh : ∀ row ∈ outRows, hi row ∉ l.map Prod.fst) :
    ∃ out', l.foldlM (andContainer other) out = some out' ∧ out'.Represents
      {row | row ∈ outRows ∨ row ∈ others ∧ ∃ words, (hi row, words) ∈ l ∧
        words.bit (lo row) = true} := by
  induction l generalizing out outRows with
  | nil => exact ⟨out, rfl, by simpa using hout⟩
  | cons e l ih =>
    rw [List.map_cons, List.nodup_cons] at hnodup
    obtain ⟨out₁, hstep, h₁⟩ := andContainer_spec hother (hlen e List.mem_cons_self) hout
      fun row hrow heq => hfresh row hrow (by simp [heq])
    obtain ⟨out', hfold, h'⟩ := ih (fun e' he' => hlen e' (List.mem_cons_of_mem _ he')) hnodup.2 h₁ (by
      rintro row (hrow | ⟨-, heq, -⟩)
      · exact fun hmem => hfresh row hrow (List.mem_cons_of_mem _ hmem)
      · rw [heq]
        exact hnodup.1)
    refine ⟨out', ?_, ?_⟩
    · rw [List.foldlM_cons, hstep]
      exact hfold
    · convert h' using 1
      ext row
      rw [Set.mem_ofPred_eq, Set.mem_ofPred_eq, exists_words_cons, Set.mem_ofPred_eq]
      tauto

theorem holds_iff_mem_entries (rowId : RowId) :
    bm.Holds rowId ↔
      ∃ words, (hi rowId, words) ∈ bm.containers.entries ∧ words.bit (lo rowId) = true := by
  simp only [Holds, OrdMap.lookup_eq_some]

theorem Full.entries (h : bm.Full) : ∀ e ∈ bm.containers.entries, e.2.length = 1024 :=
  fun e he => h e.1 e.2 (OrdMap.lookup_eq_some.mpr he)

theorem and_spec (h : bm.Represents rows) (hother : other.Represents others) :
    ∃ out, bm.and other = some out ∧ out.Represents (rows ∩ others) := by
  obtain ⟨out, hfold, hout⟩ := foldlM_andContainer_spec hother h.full.entries
    bm.containers.keys_nodup represents_empty (by simp)
  refine ⟨out, hfold, ?_⟩
  convert hout using 1
  ext row
  rw [Set.mem_inter_iff, Set.mem_ofPred_eq, ← holds_iff_mem_entries, h.holds]
  simp [and_comm]

/-! ### Union -/

theorem foldlM_orWords {entry wordsB : Bitmap} {n : ℕ} (ha : n ≤ entry.length)
    (hb : n ≤ wordsB.length) :
    (List.range n).foldlM (fun entry i => do
      let a ← entry[i]?
      let b ← wordsB[i]?
      pure (entry.set i (a ||| b))) entry =
        some ((List.zipWith (· ||| ·) entry wordsB).take n ++ entry.drop n) := by
  induction n with
  | zero => rfl
  | succ n ih =>
    have hzip : n < (List.zipWith (· ||| ·) entry wordsB).length := by
      rw [List.length_zipWith]
      omega
    have htake : ((List.zipWith (· ||| ·) entry wordsB).take n).length = n := by
      rw [List.length_take]
      omega
    have hentry : (entry.drop n) = entry[n] :: entry.drop (n + 1) := List.drop_eq_getElem_cons ha
    rw [List.range_succ, List.foldlM_append, ih (by omega) (by omega), hentry]
    simp only [Option.bind_eq_bind, Option.bind_some, List.foldlM_cons, List.foldlM_nil,
      Option.pure_def, List.getElem?_append_right htake.le, htake, Nat.sub_self,
      List.getElem?_cons_zero, List.getElem?_eq_getElem (show n < wordsB.length from hb),
      List.set_append_right _ _ htake.le, List.set_cons_zero]
    rw [List.take_add_one, List.getElem?_eq_getElem hzip, List.getElem_zipWith, Option.toList_some,
      List.append_assoc, List.singleton_append]

theorem orWords_eq {entry wordsB : Bitmap} (ha : entry.length = 1024)
    (hb : wordsB.length = 1024) :
    orWords entry wordsB = some (List.zipWith (· ||| ·) entry wordsB) := by
  rw [orWords, foldlM_orWords ha.ge hb.ge, List.take_of_length_le, List.drop_of_length_le ha.le,
    List.append_nil]
  rw [List.length_zipWith, ha, hb, Nat.min_self]

theorem orContainer_spec {e : Fin (2 ^ 16) × Bitmap} (hlen : e.2.length = 1024)
    (h : bm.Represents rows) :
    ∃ out, orContainer bm e = some out ∧ out.Represents
      {row | row ∈ rows ∨ hi row = e.1 ∧ e.2.bit (lo row) = true} := by
  have hentry := h.full.length_getD e.1
  refine ⟨⟨bm.containers.insert e.1
    (List.zipWith (· ||| ·) ((bm.containers.lookup e.1).getD zeros) e.2)⟩, ?_,
    h.insert_container (by simp [hentry, hlen]) ?_ ?_⟩
  · rw [orContainer, orWords_eq hentry hlen]
    rfl
  · intro row heq
    rw [Bitmap.bit_zipWith_or (hentry.trans hlen.symm), Bool.or_eq_true, ← heq, ← holds_iff, h.holds]
    simp
  · intro row hne
    simp [hne]

theorem foldlM_orContainer_spec {l : List (Fin (2 ^ 16) × Bitmap)}
    (hlen : ∀ e ∈ l, e.2.length = 1024) (h : bm.Represents rows) :
    ∃ out, l.foldlM orContainer bm = some out ∧ out.Represents
      {row | row ∈ rows ∨ ∃ words, (hi row, words) ∈ l ∧ words.bit (lo row) = true} := by
  induction l generalizing bm rows with
  | nil => exact ⟨bm, rfl, by simpa using h⟩
  | cons e l ih =>
    obtain ⟨bm₁, hstep, h₁⟩ := orContainer_spec (hlen e List.mem_cons_self) h
    obtain ⟨out, hfold, hout⟩ := ih (fun e' he' => hlen e' (List.mem_cons_of_mem _ he')) h₁
    refine ⟨out, ?_, ?_⟩
    · rw [List.foldlM_cons, hstep]
      exact hfold
    · convert hout using 1
      ext row
      rw [Set.mem_ofPred_eq, Set.mem_ofPred_eq, exists_words_cons, Set.mem_ofPred_eq, or_assoc]

theorem or_spec (h : bm.Represents rows) (hother : other.Represents others) :
    ∃ out, bm.or other = some out ∧ out.Represents (rows ∪ others) := by
  obtain ⟨out, hfold, hout⟩ := foldlM_orContainer_spec hother.full.entries h
  refine ⟨out, hfold, ?_⟩
  convert hout using 1
  ext row
  rw [Set.mem_union, Set.mem_ofPred_eq, ← holds_iff_mem_entries, hother.holds]

/-! ### Readings -/

theorem contains_spec (h : bm.Represents rows) (rowId : RowId) :
    ∃ found, bm.contains rowId = some found ∧ (found = true ↔ rowId ∈ rows) := by
  cases hlookup : bm.containers.lookup (hi rowId) with
  | none =>
    refine ⟨false, ?_, ?_⟩
    · rw [contains, hlookup]
    · rw [← h.holds, holds_iff, hlookup, Option.getD_none, bit_zeros]
  | some words =>
    have hlen := h.full _ _ hlookup
    have hin : lo rowId / 64 < words.length := by
      have := lo_lt rowId
      omega
    refine ⟨words[lo rowId / 64] &&& 1#64 <<< (lo rowId % 64) != 0#64, ?_, ?_⟩
    · rw [contains, hlookup]
      dsimp only
      rw [List.getElem?_eq_getElem hin, Option.map_some]
    · rw [← h.holds, holds_iff, hlookup, Option.getD_some, Bitmap.bit,
        List.getElem?_eq_getElem hin, Option.any_some, Bitmap.land_mask_ne_zero]

theorem containerRows_eq (e : Fin (2 ^ 16) × Bitmap) :
    containerRows e = (Bitmap.setPlaces e.2).map (rowOf e.1) := by
  have hplaces : Bitmap.setPlaces e.2 = (Bitmap.setPlaces e.2).map (0 * 64 + ·) := by simp
  rw [containerRows, hplaces, ← Bitmap.flatMap_popBits, List.map_flatMap]
  simp only [List.map_map]
  rfl

theorem place_lt {words : Bitmap} (hlen : words.length = 1024) {q : ℕ}
    (hq : q ∈ Bitmap.setPlaces words) : q < 2 ^ 16 := by
  rw [Bitmap.setPlaces, List.mem_filter, List.mem_range, hlen] at hq
  omega

theorem mem_containerRows {e : Fin (2 ^ 16) × Bitmap} (hlen : e.2.length = 1024) {row : RowId} :
    row ∈ containerRows e ↔ hi row = e.1 ∧ e.2.bit (lo row) = true := by
  rw [containerRows_eq, List.mem_map]
  constructor
  · rintro ⟨q, hq, rfl⟩
    have hlt := place_lt hlen hq
    rw [hi_rowOf e.1 hlt, lo_rowOf e.1 hlt]
    exact ⟨rfl, Bitmap.mem_setPlaces.mp hq⟩
  · rintro ⟨heq, hset⟩
    refine ⟨lo row, Bitmap.mem_setPlaces.mpr hset, ?_⟩
    rw [← heq, rowOf_hi_lo]

theorem mem_toVec (h : bm.Represents rows) {row : RowId} : row ∈ bm.toVec ↔ row ∈ rows := by
  rw [← h.holds, holds_iff_mem_entries, toVec, List.mem_flatMap]
  constructor
  · rintro ⟨e, he, hrow⟩
    obtain ⟨heq, hset⟩ := (mem_containerRows (h.full.entries e he)).mp hrow
    exact ⟨e.2, heq ▸ he, hset⟩
  · rintro ⟨words, hwords, hset⟩
    have hlen := h.full.entries _ hwords
    exact ⟨_, hwords, (mem_containerRows hlen).mpr ⟨rfl, hset⟩⟩

theorem toVec_increasing (h : bm.Full) : bm.toVec.Pairwise (· < ·) := by
  rw [toVec, List.pairwise_flatMap]
  constructor
  · intro e he
    rw [containerRows_eq, List.pairwise_map]
    apply List.Pairwise.imp_of_mem _ (Bitmap.setPlaces_increasing e.2)
    intro p q hp hq hlt
    rw [Fin.lt_def, rowOf_val e.1 (place_lt (h.entries e he) hp),
      rowOf_val e.1 (place_lt (h.entries e he) hq)]
    exact Nat.add_lt_add_left hlt _
  · apply List.Pairwise.imp_of_mem _ bm.containers.sorted
    intro e e' he he' hlt row hrow row' hrow'
    have hkey := ((mem_containerRows (h.entries e he)).mp hrow).1
    have hkey' := ((mem_containerRows (h.entries e' he')).mp hrow').1
    rw [← hkey, ← hkey', Fin.lt_def, hi_val, hi_val] at hlt
    rw [Fin.lt_def]
    exact lt_of_not_ge fun hle => absurd hlt (Nat.not_lt.mpr (Nat.div_le_div_right hle))

theorem cardinality_eq (bm : RoaringBitmap32) : bm.cardinality = bm.toVec.length := by
  rw [cardinality, toVec]
  induction bm.containers.entries with
  | nil => rfl
  | cons e l ih =>
    rw [List.flatMap_cons, List.map_append, List.sum_append, ih, List.flatMap_cons,
      List.length_append, containerRows_eq, List.length_map, Bitmap.length_setPlaces]

/-! ### Bitmaps over bitmaps -/

/-- Bitmaps of lists of row ids, nested under intersections and unions. -/
inductive Nesting
  | rowIds (ids : List RowId)
  | and (a b : Nesting)
  | or (a b : Nesting)

def Nesting.bitmap : Nesting → Option RoaringBitmap32
  | .rowIds ids => fromRowIds ids
  | .and a b => do (← a.bitmap).and (← b.bitmap)
  | .or a b => do (← a.bitmap).or (← b.bitmap)

/-- The set that a nesting describes. -/
def Nesting.members : Nesting → Finset RowId
  | .rowIds ids => ids.toFinset
  | .and a b => a.members ∩ b.members
  | .or a b => a.members ∪ b.members

theorem Nesting.bitmap_spec (e : Nesting) : ∃ bm, e.bitmap = some bm ∧ bm.Represents ↑e.members := by
  induction e with
  | rowIds ids => simpa [Nesting.bitmap, Nesting.members] using fromRowIds_spec ids
  | and a b iha ihb =>
    obtain ⟨bmA, ha, hA⟩ := iha
    obtain ⟨bmB, hb, hB⟩ := ihb
    obtain ⟨out, hand, hout⟩ := and_spec hA hB
    refine ⟨out, ?_, ?_⟩
    · simp [Nesting.bitmap, ha, hb, hand]
    · simpa [Nesting.members] using hout
  | or a b iha ihb =>
    obtain ⟨bmA, ha, hA⟩ := iha
    obtain ⟨bmB, hb, hB⟩ := ihb
    obtain ⟨out, hor, hout⟩ := or_spec hA hB
    refine ⟨out, ?_, ?_⟩
    · simp [Nesting.bitmap, ha, hb, hor]
    · simpa [Nesting.members] using hout

/-- Every nesting of bitmaps is computed, and is read as the set it describes: listed in order and
without repetition, asked for one row id, counted. -/
theorem nesting_readings (e : Nesting) :
    ∃ bm, e.bitmap = some bm ∧ bm.Full ∧ bm.toVec = e.members.sort ∧
      (∀ rowId, bm.contains rowId = some (decide (rowId ∈ e.members))) ∧
      bm.cardinality = e.members.card := by
  obtain ⟨bm, hbm, h⟩ := e.bitmap_spec
  have hvec : bm.toVec = e.members.sort := by
    apply @List.Perm.eq_of_pairwise' RowId (· ≤ ·)
    · exact (toVec_increasing h.full).imp le_of_lt
    · exact e.members.pairwise_sort (· ≤ ·)
    · rw [List.perm_ext_iff_of_nodup ((toVec_increasing h.full).imp ne_of_lt) (e.members.sort_nodup _)]
      intro row
      rw [mem_toVec h, Finset.mem_coe, Finset.mem_sort]
  refine ⟨bm, hbm, h.full, hvec, ?_, ?_⟩
  · intro rowId
    obtain ⟨found, hfound, hiff⟩ := contains_spec h rowId
    rw [Finset.mem_coe] at hiff
    rw [hfound, Option.some_inj, Bool.eq_iff_iff, decide_eq_true_iff, hiff]
  · rw [cardinality_eq, hvec, Finset.length_sort]

end RoaringBitmap32
end MetriEngine.Synopsis

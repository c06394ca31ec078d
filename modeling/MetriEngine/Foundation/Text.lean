import Mathlib

/-!
# Text and byte strings

Executable string operations over character lists, decimal integers with their
range-checked parser, and the one fact about lexicographic order that prefix
scans rest on: the sequences between a prefix and one of its extensions all
carry that prefix.
-/
namespace MetriEngine.Foundation

/-- One octet. -/
abbrev Byte := Fin 256

-- Named once, so that a literal at one of these widths is the same term in every module.
instance neZeroByte : NeZero 256 := ⟨by decide⟩
instance neZeroU16 : NeZero (2 ^ 16) := ⟨by decide⟩
instance neZeroU32 : NeZero (2 ^ 32) := ⟨by decide⟩
instance neZeroU64 : NeZero (2 ^ 64) := ⟨by decide⟩

/-- The UTF-8 octets of a string. -/
def utf8 (s : String) : List Byte := s.toByteArray.data.toList.map UInt8.toFin

theorem utf8_injective : Function.Injective utf8 := by
  intro s t h
  have hinj : Function.Injective UInt8.toFin := fun _ _ => UInt8.toFin_inj.mp
  have hl := List.map_injective_iff.mpr hinj h
  have ha : s.toByteArray = t.toByteArray := ByteArray.ext (Array.toList_inj.mp hl)
  exact String.toByteArray_inj.mp ha

/-! ### Searching and splitting -/

section Split
variable {α : Type*} [DecidableEq α]

/-- Cuts a sequence at the first occurrence of `pat`. -/
def splitOnceList (pat : List α) : List α → Option (List α × List α)
  | [] => if pat = [] then some ([], []) else none
  | x :: xs =>
    if pat.isPrefixOf (x :: xs) then some ([], (x :: xs).drop pat.length)
    else (splitOnceList pat xs).map fun r => (x :: r.1, r.2)

/-- Splits a sequence at every occurrence of a separator. -/
def splitOnSep (sep : α) : List α → List (List α)
  | [] => [[]]
  | x :: xs =>
    if x = sep then [] :: splitOnSep sep xs
    else match splitOnSep sep xs with
      | [] => [[x]]
      | y :: ys => (x :: y) :: ys

theorem splitOnSep_of_notMem {sep : α} {l : List α} (h : sep ∉ l) :
    splitOnSep sep l = [l] := by
  induction l with
  | nil => rfl
  | cons x xs ih =>
    obtain ⟨hx, hxs⟩ := not_or.mp (mt List.mem_cons.mpr h)
    simp [splitOnSep, Ne.symm hx, ih hxs]

theorem splitOnSep_append {sep : α} {l : List α} (h : sep ∉ l) (m : List α) :
    splitOnSep sep (l ++ sep :: m) = l :: splitOnSep sep m := by
  induction l with
  | nil => simp [splitOnSep]
  | cons x xs ih =>
    obtain ⟨hx, hxs⟩ := not_or.mp (mt List.mem_cons.mpr h)
    simp [splitOnSep, Ne.symm hx, ih hxs]

end Split

namespace Text

/-- `str::strip_prefix` -/
def stripPrefix (p s : String) : Option String :=
  if p.toList.isPrefixOf s.toList then some (String.ofList (s.toList.drop p.toList.length))
  else none

/-- `str::split_once` -/
def splitOnce (pat s : String) : Option (String × String) :=
  (splitOnceList pat.toList s.toList).map fun r => (String.ofList r.1, String.ofList r.2)

/-- `str::contains` -/
def contains (s pat : String) : Bool := (splitOnceList pat.toList s.toList).isSome

/-- `str::starts_with` -/
def startsWith (s p : String) : Bool := p.toList.isPrefixOf s.toList

/-- `str::ends_with` -/
def endsWith (s p : String) : Bool := p.toList.isSuffixOf s.toList

/-- `str::split` at a character. -/
def split (s : String) (sep : Char) : List String :=
  (splitOnSep sep s.toList).map String.ofList

/-- Unicode `White_Space`, the class that `str::trim` removes. -/
def isWhitespace (c : Char) : Bool :=
  let n := c.toNat
  (9 ≤ n && n ≤ 13) || n = 32 || n = 0x85 || n = 0xA0 || n = 0x1680 ||
    (0x2000 ≤ n && n ≤ 0x200A) || n = 0x2028 || n = 0x2029 || n = 0x202F ||
    n = 0x205F || n = 0x3000

/-- `str::trim` -/
def trim (s : String) : String :=
  String.ofList ((s.toList.dropWhile isWhitespace).reverse.dropWhile isWhitespace).reverse

/-- `str::trim_matches` at one character. -/
def trimMatches (s : String) (c : Char) : String :=
  String.ofList
    ((s.toList.dropWhile fun d => d = c).reverse.dropWhile fun d => d = c).reverse

end Text

/-! ### Decimal integers -/

/-- Base-ten digits, at least one. -/
def parseNat (cs : List Char) : Option ℕ :=
  if cs ≠ [] ∧ cs.all Char.isDigit then some (Nat.ofDigitChars 10 cs 0) else none

/-- An optionally signed decimal integer. -/
def parseSigned : List Char → Option ℤ
  | '-' :: cs => (parseNat cs).map fun n => -(n : ℤ)
  | '+' :: cs => (parseNat cs).map Int.ofNat
  | cs => (parseNat cs).map Int.ofNat

/-- `str::parse` at `u64` and `usize`. -/
def parseUnsigned (s : String) : Option ℕ :=
  (parseNat (if s.toList.head? = some '+' then s.toList.tail else s.toList)).filter fun n => n < 2 ^ 64

/-- A signed decimal integer that fits the range `[lo, hi)`. -/
def parseInRange (lo hi : ℤ) (s : String) : Option ℤ :=
  (parseSigned s.toList).filter fun z => lo ≤ z && z < hi

theorem parseNat_repr (n : ℕ) : parseNat (Nat.repr n).toList = some n := by
  have hd : (Nat.toDigits 10 n).all Char.isDigit = true :=
    List.all_eq_true.mpr fun _ hc => Nat.isDigit_of_mem_toDigits (by omega) le_rfl hc
  rw [Nat.toList_repr, parseNat, if_pos ⟨Nat.toDigits_ne_nil, hd⟩,
    Nat.ofDigitChars_ten_toDigits]

theorem parseSigned_toString (z : ℤ) : parseSigned (toString z).toList = some z := by
  cases z with
  | ofNat n =>
    have hcons : ∃ c cs, (Nat.repr n).toList = c :: cs ∧ c.isDigit = true := by
      rw [Nat.toList_repr]
      cases h : Nat.toDigits 10 n with
      | nil => exact absurd h Nat.toDigits_ne_nil
      | cons c cs =>
        exact ⟨c, cs, rfl, Nat.isDigit_of_mem_toDigits (b := 10) (n := n) (by omega) le_rfl
          (by rw [h]; exact List.mem_cons_self)⟩
    obtain ⟨c, cs, hcs, hc⟩ := hcons
    have hp := parseNat_repr n
    change parseSigned (Nat.repr n).toList = some (Int.ofNat n)
    rw [hcs] at hp ⊢
    have hm : c ≠ '-' := by rintro rfl; exact absurd hc (by decide)
    have hq : c ≠ '+' := by rintro rfl; exact absurd hc (by decide)
    rw [parseSigned.eq_def]
    split
    · rename_i heq
      exact absurd (List.cons.inj heq).1 hm
    · rename_i heq
      exact absurd (List.cons.inj heq).1 hq
    · rw [hp]
      rfl
  | negSucc n =>
    change parseSigned ("-" ++ Nat.repr (n + 1)).toList = some (Int.negSucc n)
    rw [String.toList_append]
    change (parseNat (Nat.repr (n + 1)).toList).map (fun n => -(n : ℤ)) = _
    rw [parseNat_repr]
    rfl

theorem parseUnsigned_lt {s : String} {n : ℕ} (h : parseUnsigned s = some n) : n < 2 ^ 64 := by
  obtain ⟨_, hn⟩ := Option.filter_eq_some_iff.mp h
  exact of_decide_eq_true hn

theorem parseUnsigned_repr {n : ℕ} (h : n < 2 ^ 64) : parseUnsigned (Nat.repr n) = some n := by
  have hhead : (Nat.repr n).toList.head? ≠ some '+' := by
    intro hplus
    have hmem : '+' ∈ Nat.toDigits 10 n := by
      rw [← Nat.toList_repr]
      exact List.mem_of_mem_head? hplus
    exact absurd (Nat.isDigit_of_mem_toDigits (by omega) le_rfl hmem) (by decide)
  rw [parseUnsigned, if_neg hhead, parseNat_repr, Option.filter_some, if_pos (decide_eq_true h)]

theorem parseInRange_toString {lo hi z : ℤ} (hlo : lo ≤ z) (hhi : z < hi) :
    parseInRange lo hi (toString z) = some z := by
  rw [parseInRange, parseSigned_toString]
  simp [hlo, hhi]

theorem parseInRange_bounds {lo hi z : ℤ} {s : String} (h : parseInRange lo hi s = some z) :
    lo ≤ z ∧ z < hi := by
  obtain ⟨_, hz⟩ := Option.filter_eq_some_iff.mp h
  simpa using hz

/-! ### Prefixes under the lexicographic order -/

/-- Whatever lies between a prefix and one of its extensions extends it too. -/
theorem prefix_of_between {α : Type*} [LinearOrder α] {p a b : List α}
    (hpa : p ≤ a) (hab : a ≤ b) (hpb : p <+: b) : p <+: a := by
  induction p generalizing a b with
  | nil => exact List.nil_prefix
  | cons x p ih =>
    obtain ⟨t, rfl⟩ := hpb
    cases a with
    | nil => exact absurd hpa (not_le.mpr (List.nil_lt_cons x p))
    | cons y a =>
      rw [List.cons_append] at hab
      have hxy : y = x := by
        rcases lt_trichotomy y x with h | h | h
        · exact absurd (List.cons_lt_cons_iff.mpr (Or.inl h)) (not_lt.mpr hpa)
        · exact h
        · exact absurd (List.cons_lt_cons_iff.mpr (Or.inl h)) (not_lt.mpr hab)
      subst hxy
      have hpa' : p ≤ a := not_lt.mp fun h =>
        absurd (List.cons_lt_cons_iff.mpr (Or.inr ⟨rfl, h⟩)) (not_lt.mpr hpa)
      have hab' : a ≤ p ++ t := not_lt.mp fun h =>
        absurd (List.cons_lt_cons_iff.mpr (Or.inr ⟨rfl, h⟩)) (not_lt.mpr hab)
      exact (List.prefix_cons_inj y).mpr (ih hpa' hab' (List.prefix_append p t))

theorem le_of_prefix {α : Type*} [LinearOrder α] {p a : List α} (h : p <+: a) : p ≤ a := by
  obtain ⟨t, rfl⟩ := h
  induction p with
  | nil => exact not_lt.mp (List.not_lt_nil _)
  | cons x p ih =>
    refine not_lt.mp fun hlt => ?_
    rw [List.cons_append] at hlt
    rcases List.cons_lt_cons_iff.mp hlt with h | ⟨_, h⟩
    · exact lt_irrefl _ h
    · exact absurd ih (not_le.mpr h)

end MetriEngine.Foundation

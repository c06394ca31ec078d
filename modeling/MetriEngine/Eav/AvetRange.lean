import MetriEngine.Eav.Encoding
import MetriEngine.Eav.Json
import MetriEngine.Foundation.Lexicographic

/-!
# Ranges of the attribute-value index

A range query asks for the keys between two bounds. For the types whose values have one width the
keys come in the order of the values, and the keys between the bounds are those of the values that
meet them.
-/
namespace MetriEngine.Eav
open Foundation Storage

/-! ### The bounds -/

inductive AvetBound
  | unbounded
  | inclusive (v : DatomValue)
  | exclusive (v : DatomValue)

def AvetBound.value : AvetBound → Option DatomValue
  | .unbounded => none
  | .inclusive v => some v
  | .exclusive v => some v

/-- The least key of a range over the values of one tag. -/
def avetSkMin (tag : Byte) : AvetBound → List Byte
  | .unbounded => tag :: List.replicate 8 0x00
  | .inclusive v => avetSkPrefix v
  | .exclusive v => avetSkPrefix v ++ List.replicate 32 0xFF

/-- The greatest key of a range over the values of one tag. -/
def avetSkMax (tag : Byte) : AvetBound → List Byte
  | .unbounded => tag :: List.replicate 40 0xFF
  | .inclusive v => avetSkPrefix v ++ List.replicate 32 0xFF
  | .exclusive v => avetSkPrefix v

/-- Nothing without a bound, or where the type of the first bound is not indexed. -/
def avetSkRangeBounds (lower upper : AvetBound) : Option (List Byte × List Byte) :=
  (lower.value.or upper.value).bind fun sampleVal =>
    if sampleVal.valueType.isAvetIndexable then
      some (avetSkMin sampleVal.valueType.tag lower, avetSkMax sampleVal.valueType.tag upper)
    else none

/-! ### The order of the values -/

/-- `x` comes before `y`: a value of the same type with a lesser one. Texts compare by bytes, and
the two zeros of the doubles are one. -/
def DatomValue.Below : DatomValue → DatomValue → Prop
  | .bool a, .bool b => a < b
  | .long a, .long b => a.val < b.val
  | .instant a, .instant b => a.val < b.val
  | .ref a, .ref b => a < b
  | .bigInt a, .bigInt b => a.val < b.val
  | .double a, .double b => a.place < b.place
  | .str a, .str b => utf8 a < utf8 b
  | _, _ => False

/-- The value meets a lower bound. -/
def AvetBound.AtLeast : AvetBound → DatomValue → Prop
  | .unbounded, _ => True
  | .inclusive v, x => ¬ x.Below v
  | .exclusive v, x => v.Below x

/-- The value meets an upper bound. -/
def AvetBound.AtMost : AvetBound → DatomValue → Prop
  | .unbounded, _ => True
  | .inclusive v, x => ¬ v.Below x
  | .exclusive v, x => x.Below v

/-- A bound of the type of the values it bounds, if it is one at all. -/
def AvetBound.OfType (b : AvetBound) (t : ValueType) : Prop := ∀ v ∈ b.value, v.valueType = t

theorem avetSkRangeBounds_eq {lower upper : AvetBound} {t : ValueType}
    (hlower : lower.OfType t) (hupper : upper.OfType t) {range : List Byte × List Byte}
    (h : avetSkRangeBounds lower upper = some range) :
    range = (avetSkMin t.tag lower, avetSkMax t.tag upper) := by
  obtain ⟨v, hv, h⟩ := Option.bind_eq_some_iff.mp h
  have htype : v.valueType = t := by
    cases hl : lower.value with
    | some u =>
      rw [hl] at hv
      cases hv
      exact hlower v hl
    | none =>
      rw [hl] at hv
      exact hupper v hv
  rw [htype] at h
  split_ifs at h
  cases h
  rfl

/-- The part of an entity id that ends a key. -/
def avetSuffix (entityId : String) : List Byte := (utf8 entityId).take 26

theorem avetSuffix_lt (entityId : String) : ∀ b ∈ avetSuffix entityId, b < 0xFF := by
  intro b hb
  have := utf8_lt entityId b (List.mem_of_mem_take hb)
  rw [Fin.lt_def]
  exact this.trans (by decide)

theorem avetSuffix_empty : avetSuffix "" = [] := rfl

/-! ### Values of one width -/

/-- The width of the values of a type in a key, and the rank of a value among them. -/
def fixedRank : DatomValue → Option (ℕ × ℕ)
  | .bool b => some (1, if b then 1 else 0)
  | .long n => some (8, (n.val + 2 ^ 63).toNat)
  | .instant n => some (8, (n.val + 2 ^ 63).toNat)
  | .ref r => some (8, r.val)
  | .bigInt n => some (16, (n.val + 2 ^ 127).toNat)
  | _ => none

theorem xor_two_pow_of_lt {m k : ℕ} (h : m < 2 ^ k) : m ^^^ 2 ^ k = 2 ^ k + m := by
  have hor := Nat.two_pow_add_eq_or_of_lt h 1
  rw [Nat.mul_one] at hor
  rw [hor]
  apply Nat.eq_of_testBit_eq
  intro i
  rw [Nat.testBit_xor, Nat.testBit_or, Nat.testBit_two_pow]
  by_cases hi : k = i
  · subst hi
    simp [Nat.testBit_lt_two_pow h]
  · simp [hi]

/-- Flipping the sign bit shifts the signed numbers to the unsigned ones. -/
theorem asUnsigned_xor {w : ℕ} (n : Signed (w + 1)) :
    n.asUnsigned ^^^ 2 ^ w = (n.val + 2 ^ w).toNat := by
  obtain ⟨z, hlo, hhi⟩ := n
  rw [Nat.add_sub_cancel] at hlo hhi
  have hpow : (2 : ℤ) ^ (w + 1) = 2 * 2 ^ w := by ring
  have hcast : ((2 ^ w : ℕ) : ℤ) = 2 ^ w := by push_cast; rfl
  rw [Signed.asUnsigned]
  simp only
  rcases lt_or_ge z 0 with hneg | hpos
  · have hmod : z % 2 ^ (w + 1) = z + 2 ^ (w + 1) := by
      rw [← Int.add_emod_right, Int.emod_eq_of_lt (by omega) (by omega)]
    have hsplit : (z + 2 ^ (w + 1)).toNat = 2 ^ w + (z + 2 ^ w).toNat := by omega
    have hlt : (z + 2 ^ w).toNat < 2 ^ w := by omega
    rw [hmod, hsplit, ← xor_two_pow_of_lt hlt, Nat.xor_assoc, Nat.xor_self, Nat.xor_zero]
  · have hmod : z % 2 ^ (w + 1) = z := Int.emod_eq_of_lt hpos (by omega)
    have hlt : z.toNat < 2 ^ w := by omega
    rw [hmod, xor_two_pow_of_lt hlt]
    omega

/-- The key of a value of one width: its rank in that many bytes. -/
structure Fixed (v : DatomValue) (w r : ℕ) : Prop where
  key : ∀ e, buildAvetSk v e = v.valueType.tag :: (beBytes w r ++ avetSuffix e)
  lt : r < 256 ^ w
  pos : 0 < w
  le : w ≤ 16

theorem fixed_of_fixedRank {v : DatomValue} {w r : ℕ} (h : fixedRank v = some (w, r)) :
    Fixed v w r := by
  cases v <;> cases h
  case bool b =>
    refine ⟨fun e => ?_, ?_, by norm_num, by norm_num⟩
    · cases b <;> rfl
    · cases b <;> norm_num
  case long n =>
    have hbounds := n.2
    norm_num at hbounds
    refine ⟨fun e => ?_, by omega, by norm_num, by norm_num⟩
    rw [buildAvetSk, avetValueBytes, asUnsigned_xor (w := 63) n]
    rfl
  case instant n =>
    have hbounds := n.2
    norm_num at hbounds
    refine ⟨fun e => ?_, by omega, by norm_num, by norm_num⟩
    rw [buildAvetSk, avetValueBytes, asUnsigned_xor (w := 63) n]
    rfl
  case ref n =>
    have hbounds := n.isLt
    exact ⟨fun e => rfl, by norm_num; omega, by norm_num, by norm_num⟩
  case bigInt n =>
    have hbounds := n.2
    norm_num at hbounds
    refine ⟨fun e => ?_, by omega, by norm_num, by norm_num⟩
    rw [buildAvetSk, avetValueBytes, asUnsigned_xor (w := 127) n]
    rfl

theorem below_iff_of_fixedRank {x y : DatomValue} {w u r s : ℕ} (hx : fixedRank x = some (w, r))
    (hy : fixedRank y = some (u, s)) (htype : x.valueType = y.valueType) :
    u = w ∧ (x.Below y ↔ r < s) := by
  cases x <;> cases hx <;> cases y <;> cases hy <;> cases htype
  case bool.refl.bool a b =>
    refine ⟨rfl, ?_⟩
    change a < b ↔ _
    cases a <;> cases b <;> decide
  case long.refl.long a b =>
    have ha := a.2
    have hb := b.2
    norm_num at ha hb
    refine ⟨rfl, ?_⟩
    change a.val < b.val ↔ _
    omega
  case instant.refl.instant a b =>
    have ha := a.2
    have hb := b.2
    norm_num at ha hb
    refine ⟨rfl, ?_⟩
    change a.val < b.val ↔ _
    omega
  case ref.refl.ref a b => exact ⟨rfl, Iff.rfl⟩
  case bigInt.refl.bigInt a b =>
    have ha := a.2
    have hb := b.2
    norm_num at ha hb
    refine ⟨rfl, ?_⟩
    change a.val < b.val ↔ _
    omega

theorem exists_fixedRank {v x : DatomValue} {w r : ℕ} (hx : fixedRank x = some (w, r))
    (htype : v.valueType = x.valueType) : ∃ s, fixedRank v = some (w, s) := by
  cases x <;> cases hx <;> cases v <;> cases htype <;> exact ⟨_, rfl⟩

theorem avetSuffix_ne_nil {e : String} (he : e ≠ "") : avetSuffix e ≠ [] := by
  intro h
  have hnil : utf8 e = [] := by
    rw [avetSuffix, List.take_eq_nil_iff] at h
    exact h.resolve_left (by norm_num)
  exact he (utf8_injective (hnil.trans rfl))

/-- Keys of one type compare by rank, then by what follows. -/
theorem fixed_lt_iff {w r s : ℕ} {t : Byte} {a b : List Byte} (hr : r < 256 ^ w)
    (hs : s < 256 ^ w) :
    t :: (beBytes w r ++ a) < t :: (beBytes w s ++ b) ↔ r < s ∨ r = s ∧ a < b := by
  rw [List.cons_lt_cons_iff, append_lt_append_iff (by simp), beBytes_lt_iff hr hs, beBytes_inj hr hs]
  simp

theorem avetSkPrefix_fixed {v : DatomValue} {w s : ℕ} (hv : Fixed v w s) (b : List Byte) :
    avetSkPrefix v ++ b = v.valueType.tag :: (beBytes w s ++ b) := by
  rw [avetSkPrefix, hv.key, avetSuffix_empty, List.append_nil, List.cons_append]

namespace Fixed
variable {x v : DatomValue} {w r s : ℕ} (hx : Fixed x w r) (hv : Fixed v w s)
  (htype : v.valueType = x.valueType) (e : String)
include hx hv htype

theorem inclusive_le_iff : avetSkPrefix v ≤ buildAvetSk x e ↔ ¬ r < s := by
  rw [← not_lt, hx.key, ← List.append_nil (avetSkPrefix v), avetSkPrefix_fixed hv, htype,
    fixed_lt_iff hx.lt hv.lt]
  simp

theorem exclusive_le_iff :
    avetSkPrefix v ++ List.replicate 32 0xFF ≤ buildAvetSk x e ↔ s < r := by
  have hsuffix : avetSuffix e < List.replicate 32 (0xFF : Byte) :=
    lt_replicate (by norm_num) (avetSuffix_lt e)
  rw [← not_lt, hx.key, avetSkPrefix_fixed hv, htype, fixed_lt_iff hx.lt hv.lt]
  simp only [hsuffix, and_true]
  omega

theorem le_inclusive_iff :
    buildAvetSk x e ≤ avetSkPrefix v ++ List.replicate 32 0xFF ↔ ¬ s < r := by
  have hsuffix : avetSuffix e < List.replicate 32 (0xFF : Byte) :=
    lt_replicate (by norm_num) (avetSuffix_lt e)
  rw [← not_lt, hx.key, avetSkPrefix_fixed hv, htype, fixed_lt_iff hv.lt hx.lt]
  simp only [hsuffix.not_gt, and_false, or_false]

theorem le_exclusive_iff :
    buildAvetSk x e ≤ avetSkPrefix v ↔ r < s ∨ r = s ∧ avetSuffix e = [] := by
  rw [← not_lt, hx.key, ← List.append_nil (avetSkPrefix v), avetSkPrefix_fixed hv, htype,
    fixed_lt_iff hv.lt hx.lt]
  cases hsuffix : avetSuffix e with
  | nil =>
    simp only [lt_irrefl, and_false, or_false, and_true]
    omega
  | cons b l =>
    have hlt : [] < b :: l := List.nil_lt_cons _ _
    simp only [hlt, and_true, reduceCtorEq, and_false, or_false]
    omega

end Fixed

/-- Every key of the type is below the greatest key of a range without an upper bound. -/
theorem Fixed.le_unbounded {x : DatomValue} {w r : ℕ} (hx : Fixed x w r) (e : String) :
    buildAvetSk x e ≤ x.valueType.tag :: List.replicate 40 0xFF := by
  have hle := hx.le
  have hsplit : List.replicate 40 (0xFF : Byte) =
      List.replicate w 0xFF ++ List.replicate (40 - w) 0xFF := by
    rw [← List.replicate_add]
    congr 1
    omega
  have hrank : ¬ List.replicate w (0xFF : Byte) < beBytes w r :=
    not_replicate_lt (fun b => Fin.le_last b) (by simp)
  have hsuffix : avetSuffix e < List.replicate (40 - w) (0xFF : Byte) :=
    lt_replicate (by omega) (avetSuffix_lt e)
  rw [← not_lt, hx.key, List.cons_lt_cons_iff, hsplit, append_lt_append_iff (by simp)]
  simp [hrank, hsuffix.not_gt]

/-- The key that lies below the eight zero bytes of a range without a lower bound. -/
def SortsLow (x : DatomValue) (e : String) : Prop :=
  x = .bool false ∧ (utf8 e).length < 7 ∧ ∀ b ∈ utf8 e, b = 0

theorem below_zeros_iff {x : DatomValue} {w r : ℕ} (hx : fixedRank x = some (w, r)) (e : String) :
    beBytes w r ++ avetSuffix e < List.replicate 8 (0 : Byte) ↔ SortsLow x e := by
  rw [lt_replicate_bot_iff (fun b => Fin.zero_le b), List.length_append, beBytes_length, SortsLow]
  have hwide (h8 : 8 ≤ w) (hne : x ≠ .bool false) :
      (w + (avetSuffix e).length < 8 ∧ ∀ b ∈ beBytes w r ++ avetSuffix e, b = 0) ↔
        x = .bool false ∧ (utf8 e).length < 7 ∧ ∀ b ∈ utf8 e, b = 0 := by
    constructor
    · rintro ⟨hlen, -⟩
      omega
    · rintro ⟨h, -⟩
      exact absurd h hne
  cases x <;> cases hx
  case bool b =>
    cases b with
    | true =>
      have hone : beBytes 1 (if true = true then 1 else 0) = [1] := by decide
      rw [hone]
      constructor
      · rintro ⟨-, hall⟩
        exact absurd (hall 1 List.mem_cons_self) (by decide)
      · rintro ⟨h, -⟩
        cases h
    | false =>
      have hzero : beBytes 1 (if false = true then 1 else 0) = [0] := by decide
      rw [hzero, avetSuffix]
      constructor
      · rintro ⟨hlen, hall⟩
        rw [List.length_take] at hlen
        have hshort : (utf8 e).take 26 = utf8 e := List.take_of_length_le (by omega)
        refine ⟨rfl, by omega, ?_⟩
        rw [hshort] at hall
        intro b hb
        exact hall b (List.mem_cons_of_mem 0 hb)
      · rintro ⟨-, hlen, hall⟩
        rw [List.take_of_length_le (by omega)]
        refine ⟨by omega, ?_⟩
        intro b hb
        rcases List.mem_cons.mp hb with rfl | hb
        · rfl
        · exact hall b hb
  all_goals exact hwide (by norm_num) (by simp)

/-- A key is above the least key of a range when its value meets the lower bound. -/
theorem skMin_le_iff {x : DatomValue} {w r : ℕ} (hx : fixedRank x = some (w, r))
    {lower : AvetBound} (hlower : lower.OfType x.valueType) (e : String) :
    avetSkMin x.valueType.tag lower ≤ buildAvetSk x e ↔
      lower.AtLeast x ∧ ¬ (lower = .unbounded ∧ SortsLow x e) := by
  have hfixed := fixed_of_fixedRank hx
  cases lower with
  | unbounded =>
    rw [← not_lt, hfixed.key, avetSkMin, List.cons_lt_cons_iff, below_zeros_iff hx]
    simp [AvetBound.AtLeast]
  | inclusive v =>
    obtain ⟨s, hs⟩ := exists_fixedRank hx (hlower v rfl)
    have hbelow := (below_iff_of_fixedRank hx hs (hlower v rfl).symm).2
    rw [avetSkMin, hfixed.inclusive_le_iff (fixed_of_fixedRank hs) (hlower v rfl),
      AvetBound.AtLeast, hbelow]
    simp
  | exclusive v =>
    obtain ⟨s, hs⟩ := exists_fixedRank hx (hlower v rfl)
    have hbelow := (below_iff_of_fixedRank hs hx (hlower v rfl)).2
    rw [avetSkMin, hfixed.exclusive_le_iff (fixed_of_fixedRank hs) (hlower v rfl),
      AvetBound.AtLeast, hbelow]
    simp

/-- A key is below the greatest key of a range when its value meets the upper bound. -/
theorem le_skMax_iff {x : DatomValue} {w r : ℕ} (hx : fixedRank x = some (w, r))
    {upper : AvetBound} (hupper : upper.OfType x.valueType) {e : String} (he : e ≠ "") :
    buildAvetSk x e ≤ avetSkMax x.valueType.tag upper ↔ upper.AtMost x := by
  have hfixed := fixed_of_fixedRank hx
  cases upper with
  | unbounded => exact iff_of_true (hfixed.le_unbounded e) trivial
  | inclusive v =>
    obtain ⟨s, hs⟩ := exists_fixedRank hx (hupper v rfl)
    have hbelow := (below_iff_of_fixedRank hs hx (hupper v rfl)).2
    rw [avetSkMax, hfixed.le_inclusive_iff (fixed_of_fixedRank hs) (hupper v rfl),
      AvetBound.AtMost, hbelow]
  | exclusive v =>
    obtain ⟨s, hs⟩ := exists_fixedRank hx (hupper v rfl)
    have hbelow := (below_iff_of_fixedRank hx hs (hupper v rfl).symm).2
    rw [avetSkMax, hfixed.le_exclusive_iff (fixed_of_fixedRank hs) (hupper v rfl),
      AvetBound.AtMost, hbelow]
    simp [avetSuffix_ne_nil he]

/-- A value of a type whose values have one width. -/
def DatomValue.IsFixed (v : DatomValue) : Prop :=
  v.valueType ∈ [ValueType.boolean, .long, .instant, .reference, .bigInt]

theorem fixedRank_of_isFixed {v : DatomValue} (hv : v.IsFixed) :
    ∃ w r, fixedRank v = some (w, r) := by
  cases v
  case bool => exact ⟨_, _, rfl⟩
  case long => exact ⟨_, _, rfl⟩
  case instant => exact ⟨_, _, rfl⟩
  case ref => exact ⟨_, _, rfl⟩
  case bigInt => exact ⟨_, _, rfl⟩
  all_goals exact absurd hv (by simp [DatomValue.IsFixed, DatomValue.valueType])

/-- What the index promises of the keys of two values and of a range over the first one's type. -/
structure KeysInOrder (x y : DatomValue) (e f : String) (lower upper : AvetBound) : Prop where
  ascending : x.Below y → buildAvetSk x e < buildAvetSk y f
  apart : x.valueType ≠ y.valueType →
    (buildAvetSk x e < buildAvetSk y f ↔ x.valueType.tag < y.valueType.tag)
  ranged : ∀ range, avetSkRangeBounds lower upper = some range →
    (range.1 ≤ buildAvetSk x e ∧ buildAvetSk x e ≤ range.2 ↔ lower.AtLeast x ∧ upper.AtMost x)

theorem valueType_of_below {x y : DatomValue} (h : x.Below y) : x.valueType = y.valueType := by
  cases x <;> cases y <;> first | rfl | exact h.elim

/-- The keys of the types of one width keep their promise except for one key: `false` of an entity
whose id is a few zero bytes is missed by a range without a lower bound. -/
theorem fixed_keys_iff {x y : DatomValue} (hx : x.IsFixed) (hy : y.IsFixed) {e f : String}
    (he : e ≠ "") {lower upper : AvetBound} (hlower : lower.OfType x.valueType)
    (hupper : upper.OfType x.valueType) :
    KeysInOrder x y e f lower upper ↔
      ¬ (lower = .unbounded ∧ upper ≠ .unbounded ∧ upper.AtMost x ∧ x = .bool false ∧
        (utf8 e).length < 7 ∧ ∀ b ∈ utf8 e, b = 0) := by
  obtain ⟨w, r, hwr⟩ := fixedRank_of_isFixed hx
  obtain ⟨u, s, hus⟩ := fixedRank_of_isFixed hy
  have hfx := fixed_of_fixedRank hwr
  have hfy := fixed_of_fixedRank hus
  constructor
  · rintro h ⟨rfl, hbound, hmost, hlow⟩
    have hrange : ∃ range, avetSkRangeBounds .unbounded upper = some range := by
      cases upper with
      | unbounded => exact absurd rfl hbound
      | inclusive v =>
        obtain ⟨t, ht⟩ := exists_fixedRank hwr (hupper v rfl)
        cases v <;> cases ht <;> exact ⟨_, rfl⟩
      | exclusive v =>
        obtain ⟨t, ht⟩ := exists_fixedRank hwr (hupper v rfl)
        cases v <;> cases ht <;> exact ⟨_, rfl⟩
    obtain ⟨range, hrange⟩ := hrange
    have hin := (h.ranged range hrange).mpr ⟨trivial, hmost⟩
    rw [avetSkRangeBounds_eq hlower hupper hrange] at hin
    exact ((skMin_le_iff hwr hlower e).mp hin.1).2 ⟨rfl, hlow⟩
  · intro hnot
    refine ⟨fun hbelow => ?_, fun htype => ?_, fun range hrange => ?_⟩
    · have htype := valueType_of_below hbelow
      obtain ⟨rfl, hiff⟩ := below_iff_of_fixedRank hwr hus htype
      rw [hfx.key, hfy.key, htype, fixed_lt_iff hfx.lt hfy.lt]
      exact Or.inl (hiff.mp hbelow)
    · rw [hfx.key, hfy.key, List.cons_lt_cons_iff]
      have htag : x.valueType.tag ≠ y.valueType.tag := fun h => htype (ValueType.tag_injective h)
      simp [htag]
    · have hbound : ¬ (lower = .unbounded ∧ upper = .unbounded) := by
        rintro ⟨rfl, rfl⟩
        cases hrange
      rw [avetSkRangeBounds_eq hlower hupper hrange]
      simp only [skMin_le_iff hwr hlower e, le_skMax_iff hwr hupper he]
      constructor
      · rintro ⟨⟨hleast, -⟩, hmost⟩
        exact ⟨hleast, hmost⟩
      · rintro ⟨hleast, hmost⟩
        refine ⟨⟨hleast, ?_⟩, hmost⟩
        rintro ⟨hunb, hlow⟩
        exact hnot ⟨hunb, fun h => hbound ⟨hunb, h⟩, hmost, hlow⟩

theorem fixed_keys_iff_ref :
    KeysInOrder (.ref 1) (.ref 2) "n1" "n2" (.exclusive (.ref 0)) (.inclusive (.ref 1)) ↔
      ¬ (AvetBound.exclusive (.ref 0) = .unbounded ∧ AvetBound.inclusive (.ref 1) ≠ .unbounded ∧
        (AvetBound.inclusive (.ref 1)).AtMost (.ref 1) ∧ DatomValue.ref 1 = .bool false ∧
        (utf8 "n1").length < 7 ∧ ∀ b ∈ utf8 "n1", b = 0) := by
  apply fixed_keys_iff
  · simp [DatomValue.IsFixed, DatomValue.valueType]
  · simp [DatomValue.IsFixed, DatomValue.valueType]
  · decide
  · intro v hv
    cases hv
    rfl
  · intro v hv
    cases hv
    rfl

/-- The key of `false` of an entity named by one zero byte lies below the range up to `true`. -/
theorem false_of_zero_id_is_missed :
    avetSkRangeBounds .unbounded (.inclusive (.bool true)) =
        some ([1, 0, 0, 0, 0, 0, 0, 0, 0], 1 :: 1 :: List.replicate 32 0xFF) ∧
      (AvetBound.inclusive (.bool true)).AtMost (.bool false) ∧
      buildAvetSk (.bool false) "\x00" = [1, 0, 0] ∧
      ¬ ([1, 0, 0, 0, 0, 0, 0, 0, 0] : List Byte) ≤ [1, 0, 0] := by
  refine ⟨by decide, ?_, by decide, by decide⟩
  intro (h : true < false)
  exact absurd h (by decide)

end MetriEngine.Eav

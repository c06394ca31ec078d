import MetriEngine.Eav.AvetRange

/-!
# Doubles and texts in the attribute-value index

The key of a double is its bits with the order of the numbers, except at the negative zero: it is
not below zero, keeps its other bits and so comes before every other double. The key of a text is
cut and does not say where the text ends, so that a range may miss a text that meets its bounds.
-/
namespace MetriEngine.Eav
open Foundation Storage

/-! ### Doubles -/

def F64.IsNegZero (d : F64) : Prop := d.bits = 0x8000000000000000#64

instance (d : F64) : Decidable d.IsNegZero := inferInstanceAs (Decidable (_ = _))

theorem F64.bits_toNat (d : F64) :
    d.bits.toNat = (if d.bits.msb then 2 ^ 63 else 0) + d.magnitude := by
  have hlt := d.bits.isLt
  rw [magnitude, BitVec.msb_eq_decide]
  by_cases hmsb : 2 ^ 63 ≤ d.bits.toNat
  · rw [if_pos (by simpa using hmsb)]
    omega
  · rw [if_neg (by simpa using hmsb)]
    omega

theorem F64.isNegZero_iff (d : F64) :
    d.IsNegZero ↔ d.bits.msb = true ∧ d.magnitude = 0 := by
  have hbits := d.bits_toNat
  rw [IsNegZero, BitVec.toNat_eq, hbits]
  have hmagnitude : d.magnitude < 2 ^ 63 := Nat.mod_lt _ (by norm_num)
  change _ = 2 ^ 63 ↔ _
  cases d.bits.msb with
  | false =>
    simp only [Bool.false_eq_true, if_false, false_and, iff_false]
    omega
  | true =>
    simp only [if_true, true_and]
    omega

/-- The rank of a double among the keys. -/
theorem F64.normalized_toNat {d : F64} (hd : d.isNaN = false) :
    d.normalized.toNat =
      if d.bits.msb then (if d.magnitude = 0 then 0 else 2 ^ 63 - 1 - d.magnitude)
      else 2 ^ 63 + d.magnitude := by
  have hbits := d.bits_toNat
  have hmagnitude : d.magnitude < 2 ^ 63 := Nat.mod_lt _ (by norm_num)
  have hsign : (0x8000000000000000#64).toNat = 2 ^ 63 := by decide
  rw [normalized, isNegative, hd]
  cases hmsb : d.bits.msb with
  | false =>
    rw [hmsb] at hbits
    simp only [Bool.false_eq_true, if_false, zero_add] at hbits
    simp only [Bool.false_and, Bool.false_eq_true, if_false]
    rw [BitVec.toNat_xor, hbits, hsign, xor_two_pow_of_lt hmagnitude]
  | true =>
    rw [hmsb] at hbits
    simp only [if_true] at hbits
    by_cases hzero : d.magnitude = 0
    · simp only [hzero, ne_eq, not_true_eq_false, decide_false, Bool.true_and, Bool.false_and,
        Bool.false_eq_true, if_false, if_true]
      rw [BitVec.toNat_xor, hbits, hzero, hsign, Nat.add_zero, Nat.xor_self]
    · simp only [hzero, ne_eq, not_false_eq_true, decide_true, Bool.not_false, Bool.and_self,
        if_true, if_false]
      rw [BitVec.xor_allOnes, BitVec.toNat_not, hbits]
      omega

/-- Two doubles that the index holds in an order that is not theirs: it puts the negative zero
below all others. -/
def F64.Misordered (x y : F64) : Prop :=
  x.IsNegZero ∧ ¬ y.IsNegZero ∧ y.place ≤ 0 ∨ ¬ x.IsNegZero ∧ y.IsNegZero ∧ x.place < 0

theorem F64.rank_lt_iff {x y : F64} (hx : x.isNaN = false) (hy : y.isNaN = false) :
    (x.normalized.toNat < y.normalized.toNat ↔ x.place < y.place) ↔ ¬ x.Misordered y := by
  have hxm : x.magnitude ≤ 0x7FF0000000000000 := by simpa [isNaN] using hx
  have hym : y.magnitude ≤ 0x7FF0000000000000 := by simpa [isNaN] using hy
  rw [normalized_toNat hx, normalized_toNat hy, Misordered, isNegZero_iff, isNegZero_iff, place,
    place]
  cases x.bits.msb <;> cases y.bits.msb <;> simp only [Bool.false_eq_true, if_false, if_true,
    false_and, true_and, not_false_eq_true, or_false, false_or, and_false]
  case false.false =>
    rw [iff_true]
    omega
  all_goals split_ifs <;> omega

theorem F64.rank_inj {x y : F64} (hx : x.isNaN = false) (hy : y.isNaN = false) :
    x.normalized.toNat = y.normalized.toNat ↔ x = y := by
  constructor
  · intro h
    have hxm : x.magnitude ≤ 0x7FF0000000000000 := by simpa [isNaN] using hx
    have hym : y.magnitude ≤ 0x7FF0000000000000 := by simpa [isNaN] using hy
    rw [normalized_toNat hx, normalized_toNat hy] at h
    apply F64.ext
    apply BitVec.eq_of_toNat_eq
    rw [x.bits_toNat, y.bits_toNat]
    revert h
    cases x.bits.msb <;> cases y.bits.msb <;> simp only [Bool.false_eq_true, if_false, if_true]
    case false.false => omega
    all_goals split_ifs <;> omega
  · rintro rfl
    rfl

theorem fixed_double (d : F64) : Fixed (.double d) 8 d.normalized.toNat where
  key _ := rfl
  lt := by
    have := d.normalized.isLt
    norm_num
    omega
  pos := by norm_num
  le := by norm_num

/-- A bound that is a number. -/
def AvetBound.IsDouble (b : AvetBound) : Prop :=
  ∀ v ∈ b.value, ∃ d : F64, v = .double d ∧ d.isNaN = false

/-- The lower end of a range takes the wrong side for the value. -/
def AvetBound.MisjudgesLow (x : F64) : AvetBound → Prop
  | .inclusive (.double v) => x.Misordered v
  | .exclusive (.double v) => v.Misordered x
  | _ => False

/-- The upper end of a range takes the wrong side for the value. -/
def AvetBound.MisjudgesHigh (x : F64) (entityId : String) : AvetBound → Prop
  | .inclusive (.double v) => v.Misordered x
  | .exclusive (.double v) => x.Misordered v ∨ x = v ∧ entityId = ""
  | _ => False

theorem skMin_le_double_iff {x : F64} (hx : x.isNaN = false) {lower : AvetBound}
    (hlower : lower.IsDouble) (e : String) :
    (avetSkMin (DatomValue.double x).valueType.tag lower ≤ buildAvetSk (.double x) e ↔
      lower.AtLeast (.double x)) ↔ ¬ lower.MisjudgesLow x := by
  cases lower with
  | unbounded =>
    rw [← not_lt, (fixed_double x).key, avetSkMin, List.cons_lt_cons_iff,
      lt_replicate_bot_iff (fun b => Fin.zero_le b)]
    simp [AvetBound.AtLeast, AvetBound.MisjudgesLow]
  | inclusive v =>
    obtain ⟨d, rfl, hd⟩ := hlower v rfl
    rw [avetSkMin, (fixed_double x).inclusive_le_iff (fixed_double d) rfl, AvetBound.AtLeast,
      AvetBound.MisjudgesLow, ← F64.rank_lt_iff hx hd, not_iff_not]
    rfl
  | exclusive v =>
    obtain ⟨d, rfl, hd⟩ := hlower v rfl
    rw [avetSkMin, (fixed_double x).exclusive_le_iff (fixed_double d) rfl, AvetBound.AtLeast,
      AvetBound.MisjudgesLow, ← F64.rank_lt_iff hd hx]
    rfl

theorem double_le_skMax_iff {x : F64} (hx : x.isNaN = false) {upper : AvetBound}
    (hupper : upper.IsDouble) (e : String) :
    (buildAvetSk (.double x) e ≤ avetSkMax (DatomValue.double x).valueType.tag upper ↔
      upper.AtMost (.double x)) ↔ ¬ upper.MisjudgesHigh x e := by
  have hempty : avetSuffix e = [] ↔ e = "" := by
    constructor
    · intro h
      by_contra he
      exact avetSuffix_ne_nil he h
    · rintro rfl
      rfl
  cases upper with
  | unbounded =>
    exact iff_of_true (iff_of_true ((fixed_double x).le_unbounded e) trivial) not_false
  | inclusive v =>
    obtain ⟨d, rfl, hd⟩ := hupper v rfl
    rw [avetSkMax, (fixed_double x).le_inclusive_iff (fixed_double d) rfl, AvetBound.AtMost,
      AvetBound.MisjudgesHigh, ← F64.rank_lt_iff hd hx, not_iff_not]
    rfl
  | exclusive v =>
    obtain ⟨d, rfl, hd⟩ := hupper v rfl
    have hrank := F64.rank_lt_iff hx hd
    have hself : ¬ x.Misordered x := (F64.rank_lt_iff hx hx).mp (by simp)
    rw [avetSkMax, (fixed_double x).le_exclusive_iff (fixed_double d) rfl, AvetBound.AtMost,
      AvetBound.MisjudgesHigh, F64.rank_inj hx hd, hempty]
    change (_ ↔ x.place < d.place) ↔ _
    by_cases hsame : x = d
    · subst hsame
      simp [hself]
    · simp [hsame, hrank]

/-! ### Texts -/

/-- The part of a text that is in its key. -/
def textHead (s : String) : List Byte := (utf8 s).take 31

theorem buildAvetSk_str (s e : String) :
    buildAvetSk (.str s) e = ValueType.tag .string :: (textHead s ++ avetSuffix e) := rfl

theorem avetSkPrefix_str (s : String) :
    avetSkPrefix (.str s) = ValueType.tag .string :: textHead s := by
  rw [avetSkPrefix, buildAvetSk_str, avetSuffix_empty, List.append_nil]

theorem textHead_lt (s : String) : ∀ b ∈ textHead s, b < 0xFF := by
  intro b hb
  have := utf8_lt s b (List.mem_of_mem_take hb)
  rw [Fin.lt_def]
  exact this.trans (by decide)

/-- A lower bound that misses the key of a text meeting it: an open one that the text continues
past the part in the key, and none at all where the key holds a few zero bytes only. -/
def AvetBound.MissesLow (s e : String) : AvetBound → Prop
  | .unbounded =>
    (textHead s ++ avetSuffix e).length < 8 ∧ ∀ b ∈ textHead s ++ avetSuffix e, b = 0
  | .exclusive (.str l) => textHead l <+: textHead s
  | _ => False

/-- An upper bound that misses the key of a text meeting it: the text is at the front of the bound,
and the entity id sorts after the rest of the bound. -/
def AvetBound.MissesHigh (s e : String) : AvetBound → Prop
  | .inclusive (.str u) => textHead s <+: textHead u ∧
      (textHead u).drop (textHead s).length < avetSuffix e ∧
      ¬ (textHead u).drop (textHead s).length <+: avetSuffix e
  | .exclusive (.str u) => textHead s <+: textHead u ∧
      (textHead u).drop (textHead s).length < avetSuffix e
  | _ => False

def AvetBound.IsText (b : AvetBound) : Prop := ∀ v ∈ b.value, ∃ s : String, v = .str s

theorem skMin_le_str_iff {s : String} {lower : AvetBound} (hlower : lower.IsText)
    (hleast : lower.AtLeast (.str s)) (e : String) :
    avetSkMin (ValueType.tag .string) lower ≤ buildAvetSk (.str s) e ↔ ¬ lower.MissesLow s e := by
  cases lower with
  | unbounded =>
    rw [← not_lt, buildAvetSk_str, avetSkMin, List.cons_lt_cons_iff,
      lt_replicate_bot_iff (fun b => Fin.zero_le b), AvetBound.MissesLow]
    simp
  | inclusive v =>
    obtain ⟨l, rfl⟩ := hlower v rfl
    have hle : utf8 l ≤ utf8 s := not_lt.mp hleast
    have hkey : textHead l ≤ textHead s ++ avetSuffix e :=
      (take_le_take hle 31).trans (le_append _ _)
    rw [← not_lt, avetSkMin, avetSkPrefix_str, buildAvetSk_str, List.cons_lt_cons_iff]
    simp [hkey, AvetBound.MissesLow]
  | exclusive v =>
    obtain ⟨l, rfl⟩ := hlower v rfl
    have hlt : utf8 l < utf8 s := hleast
    have htail : ¬ List.replicate 32 (0xFF : Byte) ≤
        (textHead s).drop (textHead l).length ++ avetSuffix e := by
      rw [not_le]
      apply lt_replicate (by norm_num)
      intro b hb
      rcases List.mem_append.mp hb with hb | hb
      · exact textHead_lt s b (List.mem_of_mem_drop hb)
      · exact avetSuffix_lt e b hb
    rw [← not_lt, avetSkMin, avetSkPrefix_str, buildAvetSk_str, List.cons_append,
      List.cons_lt_cons_iff]
    have hiff := append_le_append_iff_of_le (take_le_take hlt.le 31)
      (List.replicate 32 (0xFF : Byte)) (avetSuffix e)
    change textHead l ++ _ ≤ textHead s ++ _ ↔ (textHead l <+: textHead s → _ ≤
      (textHead s).drop (textHead l).length ++ _) at hiff
    rw [imp_iff_not (by exact htail)] at hiff
    simp only [lt_irrefl, false_or, true_and, not_lt, hiff, AvetBound.MissesLow]

theorem str_le_skMax_iff {s : String} {upper : AvetBound} (hupper : upper.IsText)
    (hmost : upper.AtMost (.str s)) (e : String) :
    buildAvetSk (.str s) e ≤ avetSkMax (ValueType.tag .string) upper ↔
      ¬ upper.MissesHigh s e := by
  cases upper with
  | unbounded =>
    have hlt : textHead s ++ avetSuffix e < List.replicate 40 (0xFF : Byte) := by
      apply lt_replicate (by norm_num)
      intro b hb
      rcases List.mem_append.mp hb with hb | hb
      · exact textHead_lt s b hb
      · exact avetSuffix_lt e b hb
    apply iff_of_true _ not_false
    rw [← not_lt, buildAvetSk_str, avetSkMax, List.cons_lt_cons_iff]
    rintro (hhead | ⟨-, htail⟩)
    · exact lt_irrefl _ hhead
    · exact hlt.asymm htail
  | inclusive v =>
    obtain ⟨u, rfl⟩ := hupper v rfl
    have hle : utf8 s ≤ utf8 u := not_lt.mp hmost
    have hiff := append_le_append_iff_of_le (take_le_take hle 31) (avetSuffix e)
      (List.replicate 32 (0xFF : Byte))
    rw [le_append_replicate_iff (by norm_num) (avetSuffix_lt e)] at hiff
    rw [← not_lt, avetSkMax, avetSkPrefix_str, buildAvetSk_str, List.cons_append,
      List.cons_lt_cons_iff]
    simp only [lt_irrefl, false_or, true_and, not_lt, AvetBound.MissesHigh, not_and]
    simp only [not_and] at hiff
    exact hiff
  | exclusive v =>
    obtain ⟨u, rfl⟩ := hupper v rfl
    have hle : utf8 s ≤ utf8 u := le_of_lt (show utf8 s < utf8 u from hmost)
    have hiff := append_le_append_iff_of_le (take_le_take hle 31) (avetSuffix e) []
    rw [List.append_nil, List.append_nil] at hiff
    rw [← not_lt, avetSkMax, avetSkPrefix_str, buildAvetSk_str, List.cons_lt_cons_iff]
    simp only [lt_irrefl, false_or, true_and, not_lt, AvetBound.MissesHigh, not_and]
    exact hiff

/-! ### What the index promises of both -/

/-- The keys of two doubles come in the order of the doubles, and the keys of a range are those of
the values that meet its bounds. -/
structure DoublesInOrder (x y : F64) (e f : String) (lower upper : AvetBound) : Prop where
  ascending : (DatomValue.double x).Below (.double y) →
    buildAvetSk (.double x) e < buildAvetSk (.double y) f
  ranged : ∀ range, avetSkRangeBounds lower upper = some range →
    (range.1 ≤ buildAvetSk (.double x) e ∧ buildAvetSk (.double x) e ≤ range.2 ↔
      lower.AtLeast (.double x) ∧ upper.AtMost (.double x))

/-- The key of a text that meets the bounds is in the range. -/
def TextFound (s e : String) (lower upper : AvetBound) : Prop :=
  ∀ range, avetSkRangeBounds lower upper = some range →
    lower.AtLeast (.str s) → upper.AtMost (.str s) →
      range.1 ≤ buildAvetSk (.str s) e ∧ buildAvetSk (.str s) e ≤ range.2

/-- The ends of a range that take the wrong side for the value do no harm: with one of them wrong
the value misses the other bound, with both wrong it meets one bound. -/
def SidesCancel (x : F64) (e : String) (lower upper : AvetBound) : Prop :=
  (lower.MisjudgesLow x → ¬ upper.MisjudgesHigh x e → ¬ upper.AtMost (.double x)) ∧
  (¬ lower.MisjudgesLow x → upper.MisjudgesHigh x e → ¬ lower.AtLeast (.double x)) ∧
  (lower.MisjudgesLow x → upper.MisjudgesHigh x e →
    (lower.AtLeast (.double x) ↔ ¬ upper.AtMost (.double x)))

theorem AvetBound.IsDouble.ofType {b : AvetBound} (h : b.IsDouble) (x : F64) :
    b.OfType (DatomValue.double x).valueType := by
  intro v hv
  obtain ⟨d, rfl, -⟩ := h v hv
  rfl

theorem AvetBound.IsText.ofType {b : AvetBound} (h : b.IsText) (s : String) :
    b.OfType (DatomValue.str s).valueType := by
  intro v hv
  obtain ⟨t, rfl⟩ := h v hv
  rfl

/-- There are keys to compare with as soon as one bound is given. -/
theorem exists_avetSkRangeBounds {lower upper : AvetBound} {t : ValueType}
    (hlower : lower.OfType t) (hupper : upper.OfType t) (ht : t.isAvetIndexable = true)
    (hbound : ¬ (lower = .unbounded ∧ upper = .unbounded)) :
    avetSkRangeBounds lower upper = some (avetSkMin t.tag lower, avetSkMax t.tag upper) := by
  have hsome : ∃ v, lower.value.or upper.value = some v := by
    cases lower with
    | unbounded =>
      cases upper with
      | unbounded => exact absurd ⟨rfl, rfl⟩ hbound
      | inclusive v => exact ⟨v, rfl⟩
      | exclusive v => exact ⟨v, rfl⟩
    | inclusive v => exact ⟨v, rfl⟩
    | exclusive v => exact ⟨v, rfl⟩
  obtain ⟨v, hv⟩ := hsome
  have htype : v.valueType = t := by
    rcases Option.or_eq_some_iff.mp hv with hlow | ⟨-, hup⟩
    · exact hlower v hlow
    · exact hupper v hup
  rw [avetSkRangeBounds, hv, Option.bind_some, htype, if_pos ht]

theorem double_ascending_iff {x y : F64} (hx : x.isNaN = false) (hy : y.isNaN = false)
    (e f : String) :
    ((DatomValue.double x).Below (.double y) →
      buildAvetSk (.double x) e < buildAvetSk (.double y) f) ↔
      ¬ (x.place < y.place ∧ y.IsNegZero) := by
  have hrank := F64.rank_lt_iff hx hy
  have hzero (d : F64) (hd : d.IsNegZero) : d.place = 0 := by
    rw [F64.isNegZero_iff] at hd
    rw [F64.place, hd.1, hd.2]
    rfl
  change (x.place < y.place → _) ↔ _
  by_cases hlt : x.place < y.place
  · have hne : x.normalized.toNat ≠ y.normalized.toNat := by
      intro h
      rw [(F64.rank_inj hx hy).mp h] at hlt
      exact lt_irrefl _ hlt
    have hswap : x.Misordered y ↔ y.IsNegZero := by
      constructor
      · rintro (⟨hx0, -, hy0⟩ | ⟨-, hy0, -⟩)
        · rw [hzero x hx0] at hlt
          omega
        · exact hy0
      · intro hy0
        rw [hzero y hy0] at hlt
        refine Or.inr ⟨fun hx0 => ?_, hy0, hlt⟩
        rw [hzero x hx0] at hlt
        omega
    rw [hswap] at hrank
    have hkey : buildAvetSk (.double x) e < buildAvetSk (.double y) f ↔
        x.normalized.toNat < y.normalized.toNat := by
      rw [(fixed_double x).key, (fixed_double y).key]
      simp only [DatomValue.valueType]
      rw [fixed_lt_iff (fixed_double x).lt (fixed_double y).lt]
      simp only [hne, false_and, or_false]
    rw [hkey]
    simp only [hlt, forall_const, true_and, iff_true] at hrank ⊢
    exact hrank
  · simp [hlt]

/-- Two tests in place of two conditions, either of them wrong or right. -/
theorem and_iff_and_of_wrong {p q a b m n : Prop} (hp : (p ↔ a) ↔ ¬ m) (hq : (q ↔ b) ↔ ¬ n) :
    (p ∧ q ↔ a ∧ b) ↔ (m → ¬ n → ¬ b) ∧ (¬ m → n → ¬ a) ∧ (m → n → (a ↔ ¬ b)) := by
  by_cases hm : m <;> by_cases hn : n <;> by_cases ha : a <;> by_cases hb : b <;>
    simp_all

theorem double_ranged_iff {x : F64} (hx : x.isNaN = false) {lower upper : AvetBound}
    (hlower : lower.IsDouble) (hupper : upper.IsDouble) (e : String) :
    (∀ range, avetSkRangeBounds lower upper = some range →
      (range.1 ≤ buildAvetSk (.double x) e ∧ buildAvetSk (.double x) e ≤ range.2 ↔
        lower.AtLeast (.double x) ∧ upper.AtMost (.double x))) ↔
      SidesCancel x e lower upper := by
  have hlow := skMin_le_double_iff hx hlower e
  have hhigh := double_le_skMax_iff hx hupper e
  by_cases hbound : lower = .unbounded ∧ upper = .unbounded
  · obtain ⟨rfl, rfl⟩ := hbound
    apply iff_of_true
    · intro range hrange
      cases hrange
    · exact ⟨fun h => h.elim, fun _ h => h.elim, fun h => h.elim⟩
  · have hrange := exists_avetSkRangeBounds (hlower.ofType x) (hupper.ofType x) rfl hbound
    rw [hrange, SidesCancel]
    simp only [Option.some.injEq, forall_eq']
    exact and_iff_and_of_wrong hlow hhigh

theorem textFound_iff {s : String} {lower upper : AvetBound} (hlower : lower.IsText)
    (hupper : upper.IsText) (e : String) :
    TextFound s e lower upper ↔
      ¬ (¬ (lower = .unbounded ∧ upper = .unbounded) ∧ lower.AtLeast (.str s) ∧
        upper.AtMost (.str s) ∧ (lower.MissesLow s e ∨ upper.MissesHigh s e)) := by
  by_cases hbound : lower = .unbounded ∧ upper = .unbounded
  · obtain ⟨rfl, rfl⟩ := hbound
    apply iff_of_true
    · intro range hrange
      cases hrange
    · rintro ⟨h, -⟩
      exact h ⟨rfl, rfl⟩
  · have hrange := exists_avetSkRangeBounds (hlower.ofType s) (hupper.ofType s) rfl hbound
    rw [TextFound, hrange]
    simp only [Option.some.injEq, forall_eq', hbound, not_false_eq_true, true_and]
    constructor
    · rintro h ⟨hleast, hmost, hmiss | hmiss⟩
      · exact (skMin_le_str_iff hlower hleast e).mp (h hleast hmost).1 hmiss
      · exact (str_le_skMax_iff hupper hmost e).mp (h hleast hmost).2 hmiss
    · intro h hleast hmost
      refine ⟨(skMin_le_str_iff hlower hleast e).mpr fun hmiss => ?_,
        (str_le_skMax_iff hupper hmost e).mpr fun hmiss => ?_⟩
      · exact h ⟨hleast, hmost, Or.inl hmiss⟩
      · exact h ⟨hleast, hmost, Or.inr hmiss⟩

/-- The keys of doubles are in order unless the greater one is the negative zero, their ranges
exact unless an end of one takes the wrong side, and a range over texts complete unless one of its
ends misses the text. -/
theorem double_text_keys_iff {x y : F64} (hx : x.isNaN = false) (hy : y.isNaN = false)
    (e f : String) {lower upper : AvetBound} (hlower : lower.IsDouble) (hupper : upper.IsDouble)
    (s id : String) {low high : AvetBound} (hlow : low.IsText) (hhigh : high.IsText) :
    (DoublesInOrder x y e f lower upper ↔
      ¬ (x.place < y.place ∧ y.IsNegZero) ∧ SidesCancel x e lower upper) ∧
    (TextFound s id low high ↔
      ¬ (¬ (low = .unbounded ∧ high = .unbounded) ∧ low.AtLeast (.str s) ∧
        high.AtMost (.str s) ∧ (low.MissesLow s id ∨ high.MissesHigh s id))) := by
  have hascending := double_ascending_iff hx hy e f
  have hranged := double_ranged_iff hx hlower hupper e
  refine ⟨?_, textFound_iff hlow hhigh id⟩
  constructor
  · intro h
    exact ⟨hascending.mp h.ascending, hranged.mp h.ranged⟩
  · rintro ⟨hnot, hsides⟩
    exact ⟨hascending.mpr hnot, hranged.mpr hsides⟩

theorem double_text_keys_iff_ab :
    (DoublesInOrder ⟨0#64⟩ ⟨0x3FF0000000000000#64⟩ "n1" "n2" .unbounded
        (.inclusive (.double ⟨0x3FF0000000000000#64⟩)) ↔
      ¬ ((⟨0#64⟩ : F64).place < (⟨0x3FF0000000000000#64⟩ : F64).place ∧
        (⟨0x3FF0000000000000#64⟩ : F64).IsNegZero) ∧
      SidesCancel ⟨0#64⟩ "n1" .unbounded (.inclusive (.double ⟨0x3FF0000000000000#64⟩))) ∧
    (TextFound "AB" "n1" (.inclusive (.str "A")) .unbounded ↔
      ¬ (¬ (AvetBound.inclusive (.str "A") = .unbounded ∧ AvetBound.unbounded = .unbounded) ∧
        (AvetBound.inclusive (.str "A")).AtLeast (.str "AB") ∧
        AvetBound.unbounded.AtMost (.str "AB") ∧
        ((AvetBound.inclusive (.str "A")).MissesLow "AB" "n1" ∨
          AvetBound.unbounded.MissesHigh "AB" "n1"))) := by
  apply double_text_keys_iff
  · decide
  · decide
  · intro v hv
    cases hv
  · intro v hv
    cases hv
    exact ⟨_, rfl, by decide⟩
  · intro v hv
    cases hv
    exact ⟨_, rfl⟩
  · intro v hv
    cases hv

/-- The key of minus one lies above that of the negative zero, and the key of `AB` below the range
of the texts above `A`. -/
theorem negative_zero_sorts_below_and_continuation_is_missed :
    (⟨0xBFF0000000000000#64⟩ : F64).place < (⟨0x8000000000000000#64⟩ : F64).place ∧
      ¬ buildAvetSk (.double ⟨0xBFF0000000000000#64⟩) "n1" <
        buildAvetSk (.double ⟨0x8000000000000000#64⟩) "n2" ∧
      utf8 "A" < utf8 "AB" ∧
      avetSkRangeBounds (.exclusive (.str "A")) .unbounded =
        some (4 :: 65 :: List.replicate 32 0xFF, 4 :: List.replicate 40 0xFF) ∧
      buildAvetSk (.str "AB") "n1" < 4 :: 65 :: List.replicate 32 0xFF := by
  refine ⟨by decide, by decide, by decide, by decide, by decide⟩

end MetriEngine.Eav

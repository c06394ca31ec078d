import MetriEngine.Foundation.Text

/-!
# Fixed-width big-endian bytes

A number below `256 ^ n` as `n` bytes, most significant first. On numbers of one width
the lexicographic order of the bytes is the order of the numbers.
-/
namespace MetriEngine.Foundation

/-- The `n` low bytes of `x`, most significant first. -/
def beBytes : ℕ → ℕ → List Byte
  | 0, _ => []
  | n + 1, x => Fin.ofNat 256 (x / 256 ^ n) :: beBytes n (x % 256 ^ n)

/-- The number that bytes spell, most significant first. -/
def ofBeBytes (bytes : List Byte) : ℕ := bytes.foldl (fun x b => x * 256 + b.val) 0

@[simp] theorem beBytes_length (n x : ℕ) : (beBytes n x).length = n := by
  induction n generalizing x with
  | zero => rfl
  | succ n ih => rw [beBytes, List.length_cons, ih]

theorem foldl_beBytes (n x acc : ℕ) (h : x < 256 ^ n) :
    (beBytes n x).foldl (fun x b => x * 256 + b.val) acc = acc * 256 ^ n + x := by
  induction n generalizing x acc with
  | zero =>
    obtain rfl : x = 0 := by simpa using h
    simp [beBytes]
  | succ n ih =>
    have hpos : 0 < 256 ^ n := by positivity
    have hhead : x / 256 ^ n < 256 := Nat.div_lt_of_lt_mul (by rwa [pow_succ] at h)
    have hsplit := Nat.div_add_mod x (256 ^ n)
    have hval : (Fin.ofNat 256 (x / 256 ^ n)).val = x / 256 ^ n := Nat.mod_eq_of_lt hhead
    rw [beBytes, List.foldl_cons, ih _ _ (Nat.mod_lt _ hpos), hval]
    calc (acc * 256 + x / 256 ^ n) * 256 ^ n + x % 256 ^ n
        = acc * 256 ^ (n + 1) + (256 ^ n * (x / 256 ^ n) + x % 256 ^ n) := by ring
      _ = acc * 256 ^ (n + 1) + x := by rw [hsplit]

/-- The bytes spell their number. -/
theorem ofBeBytes_beBytes {n x : ℕ} (h : x < 256 ^ n) : ofBeBytes (beBytes n x) = x := by
  rw [ofBeBytes, foldl_beBytes n x 0 h, Nat.zero_mul, Nat.zero_add]

theorem beBytes_inj {n x y : ℕ} (hx : x < 256 ^ n) (hy : y < 256 ^ n) :
    beBytes n x = beBytes n y ↔ x = y := by
  constructor
  · intro h
    rw [← ofBeBytes_beBytes hx, h, ofBeBytes_beBytes hy]
  · rintro rfl
    rfl

/-- The order of the bytes is the order of the numbers. -/
theorem beBytes_lt_iff {n x y : ℕ} (hx : x < 256 ^ n) (hy : y < 256 ^ n) :
    beBytes n x < beBytes n y ↔ x < y := by
  induction n generalizing x y with
  | zero =>
    have hx0 : x = 0 := by simpa using hx
    have hy0 : y = 0 := by simpa using hy
    simp [beBytes, hx0, hy0]
  | succ n ih =>
    have hpos : 0 < 256 ^ n := by positivity
    have hxh : x / 256 ^ n < 256 := Nat.div_lt_of_lt_mul (by rwa [pow_succ] at hx)
    have hyh : y / 256 ^ n < 256 := Nat.div_lt_of_lt_mul (by rwa [pow_succ] at hy)
    have hval : ∀ z < 256, (Fin.ofNat 256 z).val = z := fun z hz => Nat.mod_eq_of_lt hz
    have hhead : Fin.ofNat 256 (x / 256 ^ n) < Fin.ofNat 256 (y / 256 ^ n) ↔
        x / 256 ^ n < y / 256 ^ n := by
      rw [Fin.lt_def, hval _ hxh, hval _ hyh]
    have heq : Fin.ofNat 256 (x / 256 ^ n) = Fin.ofNat 256 (y / 256 ^ n) ↔
        x / 256 ^ n = y / 256 ^ n := by
      rw [Fin.ext_iff, hval _ hxh, hval _ hyh]
    rw [beBytes, beBytes, List.cons_lt_cons_iff, hhead, heq,
      ih (Nat.mod_lt _ hpos) (Nat.mod_lt _ hpos)]
    have hxs := Nat.div_add_mod x (256 ^ n)
    have hys := Nat.div_add_mod y (256 ^ n)
    constructor
    · rintro (hlt | ⟨hsame, hlt⟩)
      · exact Nat.lt_of_div_lt_div hlt
      · rw [← hxs, ← hys, hsame]
        omega
    · intro hlt
      rcases lt_trichotomy (x / 256 ^ n) (y / 256 ^ n) with h | h | h
      · exact Or.inl h
      · rw [← hxs, ← hys, h] at hlt
        exact Or.inr ⟨h, by omega⟩
      · exact absurd (Nat.lt_of_div_lt_div h) hlt.asymm

/-- Sequences with prefixes of one length compare by the prefixes first. -/
theorem append_lt_append_iff {α : Type*} [LinearOrder α] {a b c d : List α}
    (hlen : a.length = b.length) : a ++ c < b ++ d ↔ a < b ∨ a = b ∧ c < d := by
  induction a generalizing b with
  | nil =>
    obtain rfl : b = [] := List.eq_nil_of_length_eq_zero hlen.symm
    simp
  | cons x a ih =>
    cases b with
    | nil => simp at hlen
    | cons y b =>
      have hlen' : a.length = b.length := by simpa using hlen
      rw [List.cons_append, List.cons_append, List.cons_lt_cons_iff, ih hlen',
        List.cons_lt_cons_iff, List.cons.injEq]
      tauto

end MetriEngine.Foundation

/-!
# Numbers with a fixed number of digits

A number with zeros in front up to a width. Texts of one width stand in the order of their
numbers.
-/
namespace MetriEngine.Foundation

/-- `{:0width}` -/
def fixedDigits (width n : ℕ) : List Char := (Nat.toDigits 10 n).leftpad width '0'

theorem isDigit_of_mem_fixedDigits {width n : ℕ} {c : Char} (h : c ∈ fixedDigits width n) :
    c.isDigit = true := by
  rcases List.mem_append.mp h with hzero | hdigit
  · rw [List.eq_of_mem_replicate hzero]
    rfl
  · exact Nat.isDigit_of_mem_toDigits (by omega) le_rfl hdigit

theorem length_fixedDigits {width n : ℕ} (hwidth : 0 < width) (h : n < 10 ^ width) :
    (fixedDigits width n).length = width := by
  have hle := (Nat.length_toDigits_le_iff (b := 10) (by omega) hwidth).mpr h
  rw [fixedDigits, List.length_leftpad]
  exact max_eq_left hle

theorem ofDigitChars_fixedDigits (width n : ℕ) : Nat.ofDigitChars 10 (fixedDigits width n) 0 = n := by
  rw [fixedDigits, List.leftpad, Nat.ofDigitChars_append, Nat.ofDigitChars_replicate_zero,
    Nat.mul_zero, Nat.ofDigitChars_ten_toDigits]

theorem parseNat_fixedDigits (width n : ℕ) : parseNat (fixedDigits width n) = some n := by
  have hall : (fixedDigits width n).all Char.isDigit = true :=
    List.all_eq_true.mpr fun _ hc => isDigit_of_mem_fixedDigits hc
  have hne : fixedDigits width n ≠ [] :=
    List.append_ne_nil_of_right_ne_nil _ Nat.toDigits_ne_nil
  rw [parseNat, if_pos ⟨hne, hall⟩, ofDigitChars_fixedDigits]

theorem digit_le {c : Char} (h : c.isDigit = true) : c.toNat - '0'.toNat ≤ 9 := by
  have hbounds := Char.isDigit_iff_toNat.mp h
  have hnine : '9'.toNat = 57 := rfl
  have hzero : '0'.toNat = 48 := rfl
  omega

/-- Later digits do not make up for what comes before them. -/
theorem ofDigitChars_lt_of_lt {a b : List Char} (hlength : a.length = b.length)
    (ha : ∀ c ∈ a, c.isDigit = true) {m n : ℕ} (h : m < n) :
    Nat.ofDigitChars 10 a m < Nat.ofDigitChars 10 b n := by
  induction a generalizing b m n with
  | nil =>
    obtain rfl : b = [] := List.eq_nil_of_length_eq_zero hlength.symm
    exact h
  | cons c a ih =>
    cases b with
    | nil => cases hlength
    | cons d b =>
      obtain ⟨hc, ha⟩ := List.forall_mem_cons.mp ha
      rw [Nat.ofDigitChars_cons, Nat.ofDigitChars_cons]
      apply ih (Nat.succ.inj hlength) ha
      have hdigit := digit_le hc
      omega

theorem ofDigitChars_lt {a b : List Char} (hlength : a.length = b.length)
    (ha : ∀ c ∈ a, c.isDigit = true) (h : a < b) (n : ℕ) :
    Nat.ofDigitChars 10 a n < Nat.ofDigitChars 10 b n := by
  induction a generalizing b n with
  | nil =>
    obtain rfl : b = [] := List.eq_nil_of_length_eq_zero hlength.symm
    exact absurd h (lt_irrefl _)
  | cons c a ih =>
    cases b with
    | nil => cases hlength
    | cons d b =>
      obtain ⟨hc, ha⟩ := List.forall_mem_cons.mp ha
      rw [Nat.ofDigitChars_cons, Nat.ofDigitChars_cons]
      rcases List.cons_lt_cons_iff.mp h with hlt | ⟨rfl, hlt⟩
      · apply ofDigitChars_lt_of_lt (Nat.succ.inj hlength) ha
        have hzero := (Char.isDigit_iff_toNat.mp hc).1
        have hchars : c.toNat < d.toNat := hlt
        omega
      · exact ih (Nat.succ.inj hlength) ha hlt _

/-- Texts of one width stand in the order of their numbers. -/
theorem fixedDigits_lt {width m n : ℕ} (hwidth : 0 < width) (hn : n < 10 ^ width) (h : m < n) :
    fixedDigits width m < fixedDigits width n := by
  have hlength : (fixedDigits width m).length = (fixedDigits width n).length := by
    rw [length_fixedDigits hwidth (h.trans hn), length_fixedDigits hwidth hn]
  rcases lt_trichotomy (fixedDigits width m) (fixedDigits width n) with hlt | heq | hlt
  · exact hlt
  · have hvalue := ofDigitChars_fixedDigits width m
    rw [heq, ofDigitChars_fixedDigits] at hvalue
    omega
  · have hvalue := ofDigitChars_lt hlength.symm
      (fun _ hc => isDigit_of_mem_fixedDigits hc) hlt 0
    rw [ofDigitChars_fixedDigits, ofDigitChars_fixedDigits] at hvalue
    omega

end MetriEngine.Foundation

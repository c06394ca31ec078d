import MetriEngine.Eav.Json

/-!
# Numeric synopses

What a synopsis keeps of the numbers of one attribute: how many there are, their sum in
ten-thousandths, the least and the greatest. The moments, sketches and spectra beside them
are floating-point statistics and are left out.
-/
namespace MetriEngine.Synopsis
open Foundation Storage Eav

/-! ### Arithmetic -/

/-- Two's complement reduction to `i128`: release builds wrap. -/
def wrapI128 (z : ℤ) : ℤ := (z + 2 ^ 127) % 2 ^ 128 - 2 ^ 127

theorem wrapI128_of_bounds {z : ℤ} (hlo : -2 ^ 127 ≤ z) (hhi : z < 2 ^ 127) : wrapI128 z = z := by
  rw [wrapI128, Int.emod_eq_of_lt (by omega) (by omega)]
  omega

theorem wrapI128_add (a b : ℤ) : wrapI128 (wrapI128 a + b) = wrapI128 (a + b) := by
  unfold wrapI128
  have h : (a + 2 ^ 127) % 2 ^ 128 - 2 ^ 127 + b + 2 ^ 127 = (a + 2 ^ 127) % 2 ^ 128 + b := by
    omega
  rw [h, Int.emod_add_emod]
  congr 2
  omega

theorem wrapI128_add_wrapI128 (a b : ℤ) : wrapI128 (wrapI128 a + wrapI128 b) = wrapI128 (a + b) := by
  rw [wrapI128_add, add_comm, wrapI128_add, add_comm]

/-- The double is `mantissa * 2 ^ (max exponent 1 - 1075)`: the two parts of the fraction. -/
def numerator (x : F64) : ℕ := x.mantissa * 2 ^ (max x.exponent 1 - 1075)
def denominator (x : F64) : ℕ := 2 ^ (1075 - max x.exponent 1)

/-- `(x * 10_000.0).round() as i128`: the product is rounded to a double, the double to the
nearest integer, halves away from zero, and the cast saturates. -/
def tenThousandths (x : F64) : ℤ :=
  let num := numerator x * 10000
  let den := denominator x
  let size :=
    if 2 ^ 127 * den ≤ num then 2 ^ 127
    else if 4 * num < den then 0
    else
      -- four times the product is at least one and is rounded as the product is
      let y := F64.ofRatio (4 * num) den
      (numerator y + 2 * denominator y) / (4 * denominator y)
  if x.bits.msb then -(min size (2 ^ 127) : ℕ) else (min size (2 ^ 127 - 1) : ℕ)

example : tenThousandths (F64.ofInt (-7)) = -70000 ∧
    tenThousandths ⟨0x3FF8000000000000⟩ = 15000 ∧
    tenThousandths ⟨0x7FE0000000000000⟩ = 2 ^ 127 - 1 := by decide +kernel

/-- `f64::min` and `f64::max` of two numbers. -/
def leastOf (a b : F64) : F64 := if b.lt a then b else a
def greatestOf (a b : F64) : F64 := if a.lt b then b else a

/-! ### Synopses -/

structure MbfHyperSynopsis512 where
  validCount : ℕ := 0
  sumExactI128 : ℤ := 0
  minVal : F64 := ⟨0x7FF0000000000000⟩
  maxVal : F64 := ⟨0xFFF0000000000000⟩
deriving DecidableEq

namespace MbfHyperSynopsis512

def observe (syn : MbfHyperSynopsis512) (x : F64) : MbfHyperSynopsis512 where
  validCount := syn.validCount
  sumExactI128 := wrapI128 (syn.sumExactI128 + tenThousandths x)
  minVal := if x.lt syn.minVal then x else syn.minVal
  maxVal := if syn.maxVal.lt x then x else syn.maxVal

def fromObservations (observations : List F64) : MbfHyperSynopsis512 :=
  { observations.foldl observe {} with validCount := observations.length }

def merge (syn other : MbfHyperSynopsis512) : MbfHyperSynopsis512 :=
  if syn.validCount = 0 then other
  else if other.validCount = 0 then syn
  else
    { validCount := syn.validCount + other.validCount
      sumExactI128 := wrapI128 (syn.sumExactI128 + other.sumExactI128)
      minVal := leastOf syn.minVal other.minVal
      maxVal := greatestOf syn.maxVal other.maxVal }

end MbfHyperSynopsis512

/-! ### What a synopsis says -/

/-- The synopsis of a multiset of numbers, the sum as far as its field holds it. -/
structure Summarises (syn : MbfHyperSynopsis512) (values : Multiset F64) : Prop where
  validCount : syn.validCount = values.card
  sum : syn.sumExactI128 = wrapI128 (values.map tenThousandths).sum
  minVal : syn.minVal ∈ values ∧ ∀ v ∈ values, syn.minVal.place ≤ v.place
  maxVal : syn.maxVal ∈ values ∧ ∀ v ∈ values, v.place ≤ syn.maxVal.place

theorem exponent_of_isFinite {x : F64} (h : x.isFinite = true) : x.magnitude / 2 ^ 52 < 2047 :=
  of_decide_eq_true h

theorem isNaN_of_isFinite {x : F64} (h : x.isFinite = true) : x.isNaN = false := by
  have hexponent := exponent_of_isFinite h
  simp only [F64.isNaN, decide_eq_false_iff_not]
  omega

/-- A finite double lies between the infinities. -/
theorem place_of_isFinite {x : F64} (h : x.isFinite = true) :
    -(0x7FF0000000000000 : ℤ) < x.place ∧ x.place < 0x7FF0000000000000 := by
  have hexponent := exponent_of_isFinite h
  unfold F64.place
  split_ifs <;> omega

theorem lt_iff_place {a b : F64} (ha : a.isNaN = false) (hb : b.isNaN = false) :
    a.lt b = true ↔ a.place < b.place := by
  simp [F64.lt, ha, hb]

/-- What the scan keeps of the numbers it has seen, none of them to begin with. -/
structure Tracks (syn : MbfHyperSynopsis512) (values : Multiset F64) : Prop where
  sum : syn.sumExactI128 = wrapI128 (values.map tenThousandths).sum
  minVal : syn.minVal.isNaN = false ∧ (syn.minVal.place = 0x7FF0000000000000 ∨ syn.minVal ∈ values) ∧
    ∀ v ∈ values, syn.minVal.place ≤ v.place
  maxVal : syn.maxVal.isNaN = false ∧ (syn.maxVal.place = -0x7FF0000000000000 ∨ syn.maxVal ∈ values) ∧
    ∀ v ∈ values, v.place ≤ syn.maxVal.place

theorem Tracks.empty : Tracks {} 0 where
  sum := by decide
  minVal := ⟨by decide, Or.inl (by decide), by simp⟩
  maxVal := ⟨by decide, Or.inl (by decide), by simp⟩

theorem Tracks.observe {syn : MbfHyperSynopsis512} {values : Multiset F64} {x : F64}
    (h : Tracks syn values) (hx : x.isFinite = true) : Tracks (syn.observe x) (x ::ₘ values) := by
  have hnan := isNaN_of_isFinite hx
  obtain ⟨hminNaN, hminMem, hminLe⟩ := h.minVal
  obtain ⟨hmaxNaN, hmaxMem, hmaxLe⟩ := h.maxVal
  refine ⟨?_, ?_, ?_⟩
  · rw [Multiset.map_cons, Multiset.sum_cons, add_comm, ← wrapI128_add, ← h.sum]
    rfl
  · simp only [MbfHyperSynopsis512.observe]
    split_ifs with hlt
    · rw [lt_iff_place hnan hminNaN] at hlt
      refine ⟨hnan, Or.inr (Multiset.mem_cons_self _ _), ?_⟩
      intro v hv
      cases Multiset.mem_cons.mp hv with
      | inl heq => exact heq ▸ le_refl _
      | inr hold => exact (hlt.trans_le (hminLe v hold)).le
    · rw [lt_iff_place hnan hminNaN, not_lt] at hlt
      refine ⟨hminNaN, hminMem.imp_right (Multiset.mem_cons_of_mem), ?_⟩
      intro v hv
      cases Multiset.mem_cons.mp hv with
      | inl heq => exact heq ▸ hlt
      | inr hold => exact hminLe v hold
  · simp only [MbfHyperSynopsis512.observe]
    split_ifs with hlt
    · rw [lt_iff_place hmaxNaN hnan] at hlt
      refine ⟨hnan, Or.inr (Multiset.mem_cons_self _ _), ?_⟩
      intro v hv
      cases Multiset.mem_cons.mp hv with
      | inl heq => exact heq ▸ le_refl _
      | inr hold => exact ((hmaxLe v hold).trans_lt hlt).le
    · rw [lt_iff_place hmaxNaN hnan, not_lt] at hlt
      refine ⟨hmaxNaN, hmaxMem.imp_right (Multiset.mem_cons_of_mem), ?_⟩
      intro v hv
      cases Multiset.mem_cons.mp hv with
      | inl heq => exact heq ▸ hlt
      | inr hold => exact hmaxLe v hold

theorem Tracks.foldl {values : List F64} (hfinite : ∀ v ∈ values, v.isFinite = true) :
    ∀ {syn : MbfHyperSynopsis512} {seen : Multiset F64}, Tracks syn seen →
      Tracks (values.foldl MbfHyperSynopsis512.observe syn) (seen + values) := by
  induction values with
  | nil =>
    intro syn seen h
    simpa using h
  | cons x values ih =>
    intro syn seen h
    have hrest : ∀ v ∈ values, v.isFinite = true := fun v hv =>
      hfinite v (List.mem_cons_of_mem x hv)
    have hstep := ih hrest (h.observe (hfinite x List.mem_cons_self))
    rw [Multiset.cons_add] at hstep
    rw [List.foldl_cons, ← Multiset.cons_coe, Multiset.add_cons]
    exact hstep

/-- One scan over finite numbers summarises them. -/
theorem summarises_fromObservations {values : List F64} (hne : values ≠ [])
    (hfinite : ∀ v ∈ values, v.isFinite = true) :
    Summarises (MbfHyperSynopsis512.fromObservations values) values := by
  have htracks := Tracks.foldl hfinite Tracks.empty
  rw [zero_add] at htracks
  obtain ⟨x, hx⟩ := List.exists_mem_of_ne_nil values hne
  have hplace := place_of_isFinite (hfinite x hx)
  obtain ⟨-, hminMem, hminLe⟩ := htracks.minVal
  obtain ⟨-, hmaxMem, hmaxLe⟩ := htracks.maxVal
  have hmin := hminLe x hx
  have hmax := hmaxLe x hx
  refine ⟨rfl, htracks.sum, ⟨hminMem.resolve_left ?_, hminLe⟩, ⟨hmaxMem.resolve_left ?_, hmaxLe⟩⟩
  · intro hinf
    omega
  · intro hinf
    omega

theorem Summarises.validCount_ne_zero {syn : MbfHyperSynopsis512} {values : Multiset F64}
    (h : Summarises syn values) : syn.validCount ≠ 0 := by
  intro hzero
  have hempty : values = 0 := Multiset.card_eq_zero.mp (h.validCount ▸ hzero)
  exact Multiset.notMem_zero _ (hempty ▸ h.minVal.1)

/-- Merging two synopses is the synopsis of the two multisets together. -/
theorem Summarises.merge {syn other : MbfHyperSynopsis512} {xs ys : Multiset F64}
    (hx : Summarises syn xs) (hy : Summarises other ys) (hfinite : ∀ v ∈ xs + ys, v.isFinite = true) :
    Summarises (syn.merge other) (xs + ys) := by
  have hnan (v : F64) (hv : v ∈ xs + ys) : v.isNaN = false := isNaN_of_isFinite (hfinite v hv)
  have hl {v : F64} (hv : v ∈ xs) : v ∈ xs + ys := Multiset.mem_add.mpr (Or.inl hv)
  have hr {v : F64} (hv : v ∈ ys) : v ∈ xs + ys := Multiset.mem_add.mpr (Or.inr hv)
  rw [MbfHyperSynopsis512.merge, if_neg hx.validCount_ne_zero, if_neg hy.validCount_ne_zero]
  refine ⟨?_, ?_, ?_, ?_⟩
  · rw [Multiset.card_add, ← hx.validCount, ← hy.validCount]
  · dsimp only
    rw [hx.sum, hy.sum, wrapI128_add_wrapI128, Multiset.map_add, Multiset.sum_add]
  · dsimp only [leastOf]
    split_ifs with hlt
    · rw [lt_iff_place (hnan _ (hr hy.minVal.1)) (hnan _ (hl hx.minVal.1))] at hlt
      refine ⟨hr hy.minVal.1, ?_⟩
      intro v hv
      cases Multiset.mem_add.mp hv with
      | inl hin => exact (hlt.trans_le (hx.minVal.2 v hin)).le
      | inr hin => exact hy.minVal.2 v hin
    · rw [lt_iff_place (hnan _ (hr hy.minVal.1)) (hnan _ (hl hx.minVal.1)), not_lt] at hlt
      refine ⟨hl hx.minVal.1, ?_⟩
      intro v hv
      cases Multiset.mem_add.mp hv with
      | inl hin => exact hx.minVal.2 v hin
      | inr hin => exact hlt.trans (hy.minVal.2 v hin)
  · dsimp only [greatestOf]
    split_ifs with hlt
    · rw [lt_iff_place (hnan _ (hl hx.maxVal.1)) (hnan _ (hr hy.maxVal.1))] at hlt
      refine ⟨hr hy.maxVal.1, ?_⟩
      intro v hv
      cases Multiset.mem_add.mp hv with
      | inl hin => exact ((hx.maxVal.2 v hin).trans_lt hlt).le
      | inr hin => exact hy.maxVal.2 v hin
    · rw [lt_iff_place (hnan _ (hl hx.maxVal.1)) (hnan _ (hr hy.maxVal.1)), not_lt] at hlt
      refine ⟨hl hx.maxVal.1, ?_⟩
      intro v hv
      cases Multiset.mem_add.mp hv with
      | inl hin => exact hx.maxVal.2 v hin
      | inr hin => exact (hy.maxVal.2 v hin).trans hlt

end MetriEngine.Synopsis

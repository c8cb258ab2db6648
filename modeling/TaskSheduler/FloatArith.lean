import Mathlib.Algebra.Order.Floor.Ring
import Mathlib.Data.Rat.Floor
import Mathlib.Tactic.Linarith

/-!
# Single-precision arithmetic, up to its rounding

A `FloatArith` says how a C++ implementation computes with `float`: every
operation yields its exact result rounded by `round`, and a conversion to
`int` truncates toward zero whenever the result fits; outside that range the
language leaves it open, and so does `toInt`.  `FloatArith.exact` reads the
same operations as exact rational arithmetic.

`clamp` is `std::clamp` on any ordered type.
-/

namespace FloatArithmetic

/-- `std::clamp`. -/
def clamp {α : Type*} [LT α] [DecidableLT α] (v lo hi : α) : α :=
  if v < lo then lo else if hi < v then hi else v

/-- Truncation toward zero. -/
def truncate (x : ℚ) : Int := if x < 0 then ⌈x⌉ else ⌊x⌋

/-- The arithmetic of `float`. -/
structure FloatArith where
  round : ℚ → ℚ
  toInt : ℚ → Int32
  toInt_eq : ∀ x, -(2 ^ 31) ≤ truncate x → truncate x < 2 ^ 31 →
    (toInt x).toInt = truncate x

/-- Exact rational arithmetic. -/
def FloatArith.exact : FloatArith where
  round := id
  toInt := fun x => Int32.ofInt (truncate x)
  toInt_eq := fun _ hlo hhi => Int32.toInt_ofInt_of_le hlo hhi

@[simp] theorem FloatArith.exact_round (x : ℚ) : FloatArith.exact.round x = x := rfl

section Clamp

variable {α : Type*} [LinearOrder α] {v lo hi : α}

theorem le_clamp (h : lo ≤ hi) : lo ≤ clamp v lo hi := by
  unfold clamp
  by_cases hlo : v < lo
  · rw [if_pos hlo]
  · rw [if_neg hlo]
    by_cases hhi : hi < v
    · rw [if_pos hhi]
      exact h
    · rw [if_neg hhi]
      exact not_lt.mp hlo

theorem clamp_le (h : lo ≤ hi) : clamp v lo hi ≤ hi := by
  unfold clamp
  by_cases hlo : v < lo
  · rw [if_pos hlo]
    exact h
  · rw [if_neg hlo]
    by_cases hhi : hi < v
    · rw [if_pos hhi]
    · rw [if_neg hhi]
      exact not_lt.mp hhi

theorem clamp_eq_max_min (h : lo ≤ hi) : clamp v lo hi = max lo (min v hi) := by
  unfold clamp
  by_cases hlo : v < lo
  · rw [if_pos hlo, min_eq_left (hlo.le.trans h), max_eq_left hlo.le]
  · have hlo' := not_lt.mp hlo
    rw [if_neg hlo]
    by_cases hhi : hi < v
    · rw [if_pos hhi, min_eq_right hhi.le, max_eq_right h]
    · rw [if_neg hhi, min_eq_left (not_lt.mp hhi), max_eq_right hlo']

/-- Clamping keeps the order. -/
theorem clamp_mono {v' : α} (h : lo ≤ hi) (hle : v ≤ v') : clamp v lo hi ≤ clamp v' lo hi := by
  rw [clamp_eq_max_min h, clamp_eq_max_min h]
  exact max_le_max_left lo (min_le_min_right hi hle)

end Clamp

/-- Clamping an `int` clamps its value. -/
theorem toInt_clamp (v lo hi : Int32) :
    (clamp v lo hi).toInt = clamp v.toInt lo.toInt hi.toInt := by
  simp only [clamp, Int32.lt_iff_toInt_lt]
  by_cases hlo : v.toInt < lo.toInt
  · rw [if_pos hlo, if_pos hlo]
  · rw [if_neg hlo, if_neg hlo]
    by_cases hhi : hi.toInt < v.toInt
    · rw [if_pos hhi, if_pos hhi]
    · rw [if_neg hhi, if_neg hhi]

/-- Truncation moves a nonnegative number down, by less than one. -/
theorem truncate_of_nonneg {x : ℚ} (h : 0 ≤ x) : truncate x = ⌊x⌋ :=
  if_neg (not_lt.mpr h)

/-- Truncation moves a negative number up, by less than one. -/
theorem truncate_of_neg {x : ℚ} (h : x < 0) : truncate x = ⌈x⌉ :=
  if_pos h

/-- Truncation to a positive integer or beyond. -/
theorem le_truncate_iff {n : Int} (hn : 1 ≤ n) (x : ℚ) : n ≤ truncate x ↔ (n : ℚ) ≤ x := by
  have hn' : (1 : ℚ) ≤ n := by exact_mod_cast hn
  by_cases hneg : x < 0
  · have hceil : ⌈x⌉ ≤ 0 := Int.ceil_le.mpr (by exact_mod_cast hneg.le)
    rw [truncate_of_neg hneg]
    constructor
    · intro h
      omega
    · intro h
      linarith
  · rw [truncate_of_nonneg (not_lt.mp hneg), Int.le_floor]

/-- Truncation above a negative integer. -/
theorem lt_truncate_iff {n : Int} (hn : n ≤ -1) (x : ℚ) : n < truncate x ↔ (n : ℚ) < x := by
  have hn' : (n : ℚ) ≤ -1 := by exact_mod_cast hn
  by_cases hneg : x < 0
  · rw [truncate_of_neg hneg, Int.lt_ceil]
  · have hfloor : 0 ≤ ⌊x⌋ := Int.floor_nonneg.mpr (not_lt.mp hneg)
    rw [truncate_of_nonneg (not_lt.mp hneg)]
    constructor
    · intro _
      linarith
    · intro _
      omega

/-- An integer truncates to itself. -/
theorem truncate_intCast (n : Int) : truncate (n : ℚ) = n := by
  unfold truncate
  rw [Int.ceil_intCast, Int.floor_intCast, ite_self]

/-- Truncation keeps the order. -/
theorem truncate_mono {x y : ℚ} (h : x ≤ y) : truncate x ≤ truncate y := by
  by_cases hpos : 1 ≤ truncate x
  · rw [le_truncate_iff hpos]
    exact ((le_truncate_iff hpos x).mp le_rfl).trans h
  · by_contra hlt
    have hneg : truncate y ≤ -1 := by omega
    have hless := (lt_truncate_iff hneg x).mp (not_le.mp hlt)
    exact lt_irrefl _ ((lt_truncate_iff hneg y).mpr (hless.trans_le h))

/-- Taking something away from an integer and truncating never raises it. -/
theorem truncate_sub_le (p : Int) {x : ℚ} (h : 0 ≤ x) : truncate (p - x) ≤ p := by
  by_cases hneg : (p : ℚ) - x < 0
  · rw [truncate_of_neg hneg, Int.ceil_le]
    linarith
  · rw [truncate_of_nonneg (not_lt.mp hneg)]
    have hfloor := Int.floor_le ((p : ℚ) - x)
    have hcast : ((⌊(p : ℚ) - x⌋ : Int) : ℚ) ≤ p := by linarith
    exact_mod_cast hcast

/-- **When truncation hides a deduction.**  Taking `x` away from an integer
`p` and truncating gives `p` back exactly if nothing is taken, or less than
one from a number that is not positive. -/
theorem truncate_sub_eq_iff (p : Int) {x : ℚ} (h : 0 ≤ x) :
    truncate (p - x) = p ↔ x = 0 ∨ (p ≤ 0 ∧ x < 1) := by
  by_cases hneg : (p : ℚ) - x < 0
  · rw [truncate_of_neg hneg, Int.ceil_eq_iff]
    constructor
    · rintro ⟨hlo, -⟩
      have hx : x < 1 := by linarith
      have hp : (p : ℚ) < 1 := by linarith
      have hp' : p < 1 := by exact_mod_cast hp
      exact .inr ⟨by omega, hx⟩
    · rintro (rfl | ⟨-, hx⟩)
      · constructor <;> linarith
      · constructor <;> linarith
  · rw [truncate_of_nonneg (not_lt.mp hneg), Int.floor_eq_iff]
    constructor
    · rintro ⟨hlo, -⟩
      exact .inl (by linarith)
    · rintro (rfl | ⟨hp, -⟩)
      · constructor <;> linarith
      · have hp' : (p : ℚ) ≤ 0 := by exact_mod_cast hp
        constructor <;> linarith

/-! ## Steps -/

/-- No number at which the truncated value clamped to `[lo, hi]` changes lies
between `x` and `y`. -/
def SameStep (lo hi : Int) (x y : ℚ) : Prop :=
  (∀ n, 1 ≤ n → n ≤ hi → ((n : ℚ) ≤ x ↔ (n : ℚ) ≤ y)) ∧
    ∀ n, lo ≤ n → n ≤ -1 → ((n : ℚ) < x ↔ (n : ℚ) < y)

/-- **Truncating and clamping** gives the same integer exactly on one step. -/
theorem clamp_truncate_eq_iff {lo hi : Int} (hlo : lo ≤ 0) (hhi : 0 ≤ hi) (x y : ℚ) :
    clamp (truncate x) lo hi = clamp (truncate y) lo hi ↔ SameStep lo hi x y := by
  have hbounds : lo ≤ hi := hlo.trans hhi
  rw [clamp_eq_max_min hbounds, clamp_eq_max_min hbounds]
  constructor
  · intro heq
    constructor
    · intro n hn hle
      rw [← le_truncate_iff hn, ← le_truncate_iff hn]
      omega
    · intro n hle hn
      rw [← lt_truncate_iff hn, ← lt_truncate_iff hn]
      omega
  · rintro ⟨habove, hbelow⟩
    have hup : ∀ n, 1 ≤ n → n ≤ hi → (n ≤ truncate x ↔ n ≤ truncate y) := by
      intro n hn hle
      rw [le_truncate_iff hn, le_truncate_iff hn]
      exact habove n hn hle
    have hdown : ∀ n, lo ≤ n → n ≤ -1 → (n < truncate x ↔ n < truncate y) := by
      intro n hle hn
      rw [lt_truncate_iff hn, lt_truncate_iff hn]
      exact hbelow n hle hn
    -- Were the two different, the step would be the larger one if that is
    -- positive, and the smaller one otherwise.
    by_contra hne
    have h₁ := hup (max lo (min (truncate x) hi))
    have h₂ := hup (max lo (min (truncate y) hi))
    have h₃ := hdown (max lo (min (truncate x) hi))
    have h₄ := hdown (max lo (min (truncate y) hi))
    omega

namespace FloatArith

/-- No operation rounds. -/
def Exact (float : FloatArith) : Prop := ∀ x, float.round x = x

/-- The truncated value is in the range of `int`. -/
def Fits (x : ℚ) : Prop := -(2 ^ 31) ≤ truncate x ∧ truncate x < 2 ^ 31

instance (x : ℚ) : Decidable (Fits x) := inferInstanceAs (Decidable (_ ∧ _))

/-- A number as a conversion to `int` sees it: itself where that is defined. -/
def converted (float : FloatArith) (x : ℚ) : ℚ :=
  if Fits x then x else ((float.toInt x).toInt : ℚ)

/-- The conversion truncates what it sees. -/
theorem toInt_converted (float : FloatArith) (x : ℚ) :
    (float.toInt x).toInt = truncate (float.converted x) := by
  unfold converted
  by_cases hfits : Fits x
  · rw [if_pos hfits]
    exact float.toInt_eq x hfits.1 hfits.2
  · rw [if_neg hfits, truncate_intCast]

/-- Rounding to nearest with 24 bits: it keeps the order and zero, and moves a
number in the normal range by at most the `2 ^ 24`th part of it. -/
structure Accurate (float : FloatArith) : Prop where
  mono : Monotone float.round
  zero : float.round 0 = 0
  near : ∀ x, 1 / 2 ^ 126 ≤ |x| → |x| ≤ 2 ^ 127 → |float.round x - x| ≤ |x| / 2 ^ 24

theorem exact_accurate : exact.Accurate where
  mono := monotone_id
  zero := rfl
  near := fun x _ _ => by
    rw [exact_round, sub_self, abs_zero]
    positivity

section Accuracy

variable {float : FloatArith} {x y : ℚ}

/-- Rounding a positive number of the normal range at most halves or doubles it. -/
theorem Accurate.within_two (h : float.Accurate) (hlo : 1 / 2 ^ 126 ≤ x) (hhi : x ≤ 2 ^ 127) :
    x / 2 ≤ float.round x ∧ float.round x ≤ 2 * x := by
  have hpos : 0 ≤ x := le_trans (by positivity) hlo
  have hnear := h.near x
  rw [abs_of_nonneg hpos] at hnear
  have hsmall : x / 2 ^ 24 ≤ x / 2 := div_le_div_of_nonneg_left hpos (by norm_num) (by norm_num)
  obtain ⟨hbelow, habove⟩ := abs_le.mp (hnear hlo hhi)
  constructor <;> linarith

/-- **A rounded quotient of rounded numbers** is at least an eighth of the quotient. -/
theorem Accurate.quotient_le (h : float.Accurate) (hx : 1 ≤ x) (hx' : x ≤ 2 ^ 64) (hy : 1 ≤ y)
    (hy' : y ≤ 2 ^ 64) : x / y / 8 ≤ float.round (float.round x / float.round y) := by
  have htiny : (1 : ℚ) / 2 ^ 126 ≤ 1 := by norm_num
  have hhuge : (2 : ℚ) ^ 64 ≤ 2 ^ 127 := by norm_num
  obtain ⟨hxlo, hxhi⟩ := h.within_two (htiny.trans hx) (hx'.trans hhuge)
  obtain ⟨hylo, hyhi⟩ := h.within_two (htiny.trans hy) (hy'.trans hhuge)
  have hround : 0 < float.round y := by linarith
  have hlow : x / y / 4 ≤ float.round x / float.round y := by
    rw [div_div, le_div_iff₀ hround, div_mul_eq_mul_div, div_le_iff₀ (by linarith)]
    nlinarith
  have hhigh : float.round x / float.round y ≤ 4 * x := by
    rw [div_le_iff₀ hround]
    nlinarith
  have hquotient : 1 / 2 ^ 64 ≤ x / y := by
    rw [div_le_div_iff₀ (by positivity) (by linarith)]
    nlinarith
  have hresult := h.within_two (x := float.round x / float.round y)
    (by linarith) (by linarith)
  linarith [hresult.1]

end Accuracy

end FloatArith

end FloatArithmetic

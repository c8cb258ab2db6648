import TaskSheduler.FloatArith
import Mathlib.Data.Int.Log

/-!
# Single precision

`FloatArith.single` rounds to the nearest number of 24 bits, ties to even, with
the gradual underflow of the binary32 format.  Infinities are left out: a
number above the range of the format keeps its 24 bits and its exponent.

The rounding keeps the order (`roundSingle_mono`), keeps every number the
format has (`roundSingle_representable`) and has the accuracy that the format
promises (`single_accurate`).  `roundMagnitude_eq` computes it on a given
number.
-/

namespace FloatArithmetic

/-! ## To the nearest integer -/

/-- The nearest integer, and of two the even one. -/
def nearestEven (x : ℚ) : Int :=
  if x - ⌊x⌋ < 1 / 2 then ⌊x⌋
  else if 1 / 2 < x - ⌊x⌋ then ⌊x⌋ + 1
  else if ⌊x⌋ % 2 = 0 then ⌊x⌋ else ⌊x⌋ + 1

/-- It is one of the two integers around the number, and not the further one. -/
theorem nearestEven_cases (x : ℚ) :
    (nearestEven x = ⌊x⌋ ∧ x - ⌊x⌋ ≤ 1 / 2) ∨
      (nearestEven x = ⌊x⌋ + 1 ∧ 1 / 2 ≤ x - ⌊x⌋) := by
  unfold nearestEven
  by_cases hlow : x - ⌊x⌋ < 1 / 2
  · rw [if_pos hlow]
    exact .inl ⟨rfl, hlow.le⟩
  · rw [if_neg hlow]
    by_cases hhigh : 1 / 2 < x - ⌊x⌋
    · rw [if_pos hhigh]
      exact .inr ⟨rfl, hhigh.le⟩
    · rw [if_neg hhigh]
      by_cases heven : ⌊x⌋ % 2 = 0
      · rw [if_pos heven]
        exact .inl ⟨rfl, not_lt.mp hhigh⟩
      · rw [if_neg heven]
        exact .inr ⟨rfl, not_lt.mp hlow⟩

/-- It is at most a half away. -/
theorem abs_nearestEven_sub_le (x : ℚ) : |nearestEven x - x| ≤ 1 / 2 := by
  have hfloor := Int.floor_le x
  have hlt := Int.lt_floor_add_one x
  rw [abs_le]
  rcases nearestEven_cases x with ⟨heq, hle⟩ | ⟨heq, hge⟩
  · rw [heq]
    constructor <;> linarith
  · rw [heq]
    push_cast
    constructor <;> linarith

/-- Integers are kept. -/
@[simp] theorem nearestEven_intCast (n : Int) : nearestEven n = n := by
  unfold nearestEven
  rw [Int.floor_intCast, sub_self, if_pos (by norm_num)]

/-- Rounding to an integer keeps the order. -/
theorem nearestEven_mono {x y : ℚ} (hxy : x ≤ y) : nearestEven x ≤ nearestEven y := by
  have hfloor : ⌊x⌋ ≤ ⌊y⌋ := Int.floor_mono hxy
  rcases hfloor.eq_or_lt with heq | hlt
  · rcases nearestEven_cases y with ⟨hy, hhalf⟩ | ⟨hy, -⟩
    · -- `y` is rounded down, and `x` is no further from the same integer
      have hx : x - ⌊x⌋ ≤ 1 / 2 := by
        rw [heq]
        linarith
      rcases hx.lt_or_eq with hlow | htie
      · have hdown : nearestEven x = ⌊x⌋ := if_pos hlow
        omega
      · rw [heq] at htie
        have hsame : x = y := by linarith
        rw [hsame]
    · rcases nearestEven_cases x with ⟨hx, -⟩ | ⟨hx, -⟩ <;> omega
  · rcases nearestEven_cases x with ⟨hx, -⟩ | ⟨hx, -⟩ <;>
      rcases nearestEven_cases y with ⟨hy, -⟩ | ⟨hy, -⟩ <;> omega

/-- A number less than a half from an integer. -/
theorem nearestEven_eq {x : ℚ} {n : Int} (hlo : (n : ℚ) - 1 / 2 < x) (hhi : x < n + 1 / 2) :
    nearestEven x = n := by
  obtain ⟨hbelow, habove⟩ := abs_le.mp (abs_nearestEven_sub_le x)
  have hlt : (nearestEven x : ℚ) < n + 1 := by linarith
  have hgt : (n : ℚ) < nearestEven x + 1 := by linarith
  have hlt' : nearestEven x < n + 1 := by exact_mod_cast hlt
  have hgt' : n < nearestEven x + 1 := by exact_mod_cast hgt
  omega

/-- A number halfway above an even integer. -/
theorem nearestEven_tie {n : Int} (heven : n % 2 = 0) : nearestEven (n + 1 / 2) = n := by
  have hfloor : ⌊(n : ℚ) + 1 / 2⌋ = n := by
    rw [Int.floor_eq_iff]
    constructor <;> linarith
  unfold nearestEven
  rw [hfloor, add_sub_cancel_left, if_neg (lt_irrefl _), if_neg (lt_irrefl _), if_pos heven]

/-! ## To 24 bits -/

/-- The exponent of the last bit of a positive number. -/
def lastBit (x : ℚ) : Int := max (Int.log 2 x) (-126) - 23

/-- A number that is not negative, rounded. -/
def roundMagnitude (x : ℚ) : ℚ := nearestEven (x / 2 ^ lastBit x) * 2 ^ lastBit x

/-- A number rounded; the sign is kept. -/
def roundSingle (x : ℚ) : ℚ := if x < 0 then -roundMagnitude (-x) else roundMagnitude x

section Magnitude

variable {x y : ℚ}

theorem two_zpow_pos (e : Int) : (0 : ℚ) < 2 ^ e := zpow_pos two_pos e

theorem roundMagnitude_zero : roundMagnitude 0 = 0 := by
  have hzero : nearestEven 0 = 0 := by simpa using nearestEven_intCast 0
  rw [roundMagnitude, zero_div, hzero, Int.cast_zero, zero_mul]

/-- No sign is introduced. -/
theorem roundMagnitude_nonneg (h : 0 ≤ x) : 0 ≤ roundMagnitude x := by
  have hnearest : nearestEven 0 ≤ nearestEven (x / 2 ^ lastBit x) :=
    nearestEven_mono (div_nonneg h (two_zpow_pos _).le)
  have hzero : nearestEven 0 = 0 := by simpa using nearestEven_intCast 0
  rw [hzero] at hnearest
  have hcast : (0 : ℚ) ≤ nearestEven (x / 2 ^ lastBit x) := by exact_mod_cast hnearest
  exact mul_nonneg hcast (two_zpow_pos _).le

/-- Rounding a quotient by a power of two that leaves an integer. -/
theorem roundMagnitude_of_integer {n : Int} (h : x = n * 2 ^ lastBit x) :
    roundMagnitude x = x := by
  have hquotient : x / 2 ^ lastBit x = n := by
    rw [div_eq_iff (two_zpow_pos _).ne']
    exact h
  rw [roundMagnitude, hquotient, nearestEven_intCast]
  exact h.symm

/-- **The numbers of the format**: 24 bits and no bit below `2 ^ (-149)`. -/
theorem roundMagnitude_representable {m : Nat} {e : Int} (hm : m < 2 ^ 24) (he : -149 ≤ e) :
    roundMagnitude (m * 2 ^ e) = m * 2 ^ e := by
  rcases Nat.eq_zero_or_pos m with rfl | hpos
  · simp [roundMagnitude_zero]
  have hx : (0 : ℚ) < m * 2 ^ e := mul_pos (Nat.cast_pos.mpr hpos) (two_zpow_pos e)
  have hm' : (m : ℚ) < 2 ^ (24 : Int) := by exact_mod_cast hm
  have hlt : (m * 2 ^ e : ℚ) < ((2 : Nat) : ℚ) ^ (24 + e) := by
    rw [Nat.cast_ofNat, zpow_add₀ two_ne_zero]
    exact mul_lt_mul_of_pos_right hm' (two_zpow_pos e)
  have hlog := (Int.lt_zpow_iff_log_lt Nat.one_lt_two hx).mp hlt
  have hbit : lastBit (m * 2 ^ e : ℚ) ≤ e := by
    unfold lastBit
    omega
  obtain ⟨k, hk⟩ := Int.eq_ofNat_of_zero_le (sub_nonneg.mpr hbit)
  have hsplit : e = k + lastBit (m * 2 ^ e : ℚ) := by omega
  refine roundMagnitude_of_integer (n := m * 2 ^ k) ?_
  calc (m * 2 ^ e : ℚ) = m * 2 ^ ((k : Int) + lastBit (m * 2 ^ e : ℚ)) := by rw [← hsplit]
    _ = ((m * 2 ^ k : Int) : ℚ) * 2 ^ lastBit (m * 2 ^ e : ℚ) := by
      rw [zpow_add₀ two_ne_zero, zpow_natCast]
      push_cast
      ring

/-- The result, from the place of the first bit. -/
theorem roundMagnitude_eq {e n : Int} (hlo : 2 ^ e ≤ x) (hhi : x < 2 ^ (e + 1)) (he : -126 ≤ e)
    (hn : nearestEven (x / 2 ^ (e - 23)) = n) : roundMagnitude x = n * 2 ^ (e - 23) := by
  have hx : 0 < x := lt_of_lt_of_le (two_zpow_pos e) hlo
  have hle : e ≤ Int.log 2 x :=
    (Int.zpow_le_iff_le_log Nat.one_lt_two hx).mp (by rwa [Nat.cast_ofNat])
  have hlt : Int.log 2 x < e + 1 :=
    (Int.lt_zpow_iff_log_lt Nat.one_lt_two hx).mp (by rwa [Nat.cast_ofNat])
  have hbit : lastBit x = e - 23 := by
    unfold lastBit
    omega
  rw [roundMagnitude, hbit, hn]

/-- The error is at most half of the last bit. -/
theorem abs_roundMagnitude_sub_le (x : ℚ) : |roundMagnitude x - x| ≤ 2 ^ lastBit x / 2 := by
  have hpos := two_zpow_pos (lastBit x)
  have hnear := abs_nearestEven_sub_le (x / 2 ^ lastBit x)
  have hscaled : roundMagnitude x - x =
      (nearestEven (x / 2 ^ lastBit x) - x / 2 ^ lastBit x) * 2 ^ lastBit x := by
    rw [sub_mul, div_mul_cancel₀ _ hpos.ne']
    rfl
  rw [hscaled, abs_mul, abs_of_pos hpos]
  calc |(nearestEven (x / 2 ^ lastBit x) : ℚ) - x / 2 ^ lastBit x| * 2 ^ lastBit x
      ≤ 1 / 2 * 2 ^ lastBit x := mul_le_mul_of_nonneg_right hnear hpos.le
    _ = 2 ^ lastBit x / 2 := by ring

/-- A number has at most 24 bits from its last bit on. -/
theorem lt_two_zpow_lastBit (x : ℚ) : x < 2 ^ (24 + lastBit x) := by
  have hlog := Int.lt_zpow_succ_log_self Nat.one_lt_two x
  rw [Nat.cast_ofNat] at hlog
  refine lt_of_lt_of_le hlog (zpow_le_zpow_right₀ one_le_two ?_)
  unfold lastBit
  omega

/-- **A power of two** between two numbers stays between them. -/
theorem roundMagnitude_le_zpow : roundMagnitude x ≤ 2 ^ (24 + lastBit x) := by
  have hquotient : x / 2 ^ lastBit x ≤ ((2 ^ 24 : Int) : ℚ) := by
    rw [div_le_iff₀ (two_zpow_pos _)]
    have hlt := lt_two_zpow_lastBit x
    rw [zpow_add₀ two_ne_zero] at hlt
    exact_mod_cast hlt.le
  have hnearest := nearestEven_mono hquotient
  rw [nearestEven_intCast] at hnearest
  have hcast : (nearestEven (x / 2 ^ lastBit x) : ℚ) ≤ 2 ^ (24 : Int) := by
    exact_mod_cast hnearest
  rw [zpow_add₀ two_ne_zero]
  exact mul_le_mul_of_nonneg_right hcast (two_zpow_pos _).le

/-- A number that is not subnormal is not rounded below its first bit. -/
theorem zpow_le_roundMagnitude (hy : 0 < y) (hnormal : -149 < lastBit y) :
    2 ^ (23 + lastBit y) ≤ roundMagnitude y := by
  have hbit : 23 + lastBit y = Int.log 2 y := by
    unfold lastBit at hnormal ⊢
    omega
  have hlog := Int.zpow_log_le_self Nat.one_lt_two hy
  rw [Nat.cast_ofNat, ← hbit, zpow_add₀ two_ne_zero] at hlog
  have hquotient : ((2 ^ 23 : Int) : ℚ) ≤ y / 2 ^ lastBit y := by
    rw [le_div_iff₀ (two_zpow_pos _)]
    exact_mod_cast hlog
  have hnearest := nearestEven_mono hquotient
  rw [nearestEven_intCast] at hnearest
  have hcast : (2 : ℚ) ^ (23 : Int) ≤ nearestEven (y / 2 ^ lastBit y) := by
    exact_mod_cast hnearest
  rw [zpow_add₀ two_ne_zero]
  exact mul_le_mul_of_nonneg_right hcast (two_zpow_pos _).le

/-- The last bit of a larger number is not lower. -/
theorem lastBit_mono (hx : 0 < x) (h : x ≤ y) : lastBit x ≤ lastBit y := by
  have hlog : Int.log 2 x ≤ Int.log 2 y := Int.log_mono_right hx h
  unfold lastBit
  omega

/-- **Rounding keeps the order** of numbers that are not negative. -/
theorem roundMagnitude_mono (hx : 0 ≤ x) (h : x ≤ y) : roundMagnitude x ≤ roundMagnitude y := by
  rcases hx.eq_or_lt with rfl | hpos
  · rw [roundMagnitude_zero]
    exact roundMagnitude_nonneg h
  rcases (lastBit_mono hpos h).eq_or_lt with hsame | hless
  · have hquotient : x / 2 ^ lastBit x ≤ y / 2 ^ lastBit y := by
      rw [hsame]
      exact div_le_div_of_nonneg_right h (two_zpow_pos _).le
    have hcast : (nearestEven (x / 2 ^ lastBit x) : ℚ) ≤ nearestEven (y / 2 ^ lastBit y) := by
      exact_mod_cast nearestEven_mono hquotient
    unfold roundMagnitude
    rw [← hsame] at hcast ⊢
    exact mul_le_mul_of_nonneg_right hcast (two_zpow_pos _).le
  · -- a power of two lies between them
    have hlowest : -149 ≤ lastBit x := by
      unfold lastBit
      omega
    calc roundMagnitude x ≤ 2 ^ (24 + lastBit x) := roundMagnitude_le_zpow
      _ ≤ 2 ^ (23 + lastBit y) := zpow_le_zpow_right₀ one_le_two (by omega)
      _ ≤ roundMagnitude y := zpow_le_roundMagnitude (lt_of_lt_of_le hpos h) (by omega)

end Magnitude

/-! ## With a sign -/

section Signed

variable {x y : ℚ}

/-- Without a sign the magnitude is rounded. -/
theorem roundSingle_of_nonneg (h : 0 ≤ x) : roundSingle x = roundMagnitude x :=
  if_neg (not_lt.mpr h)

/-- Zero is kept. -/
theorem roundSingle_zero : roundSingle 0 = 0 :=
  (roundSingle_of_nonneg le_rfl).trans roundMagnitude_zero

/-- The sign plays no part. -/
theorem roundSingle_neg (x : ℚ) : roundSingle (-x) = -roundSingle x := by
  unfold roundSingle
  rcases lt_trichotomy x 0 with hneg | rfl | hpos
  · rw [if_pos hneg, if_neg (by linarith), neg_neg]
  · simp [roundMagnitude_zero]
  · rw [if_neg (by linarith : ¬ x < 0), if_pos (by linarith), neg_neg]

/-- **Rounding keeps the order.** -/
theorem roundSingle_mono : Monotone roundSingle := by
  intro x y hxy
  by_cases hy : y < 0
  · have hmagnitudes := roundMagnitude_mono (neg_nonneg.mpr hy.le) (neg_le_neg hxy)
    unfold roundSingle
    rw [if_pos (lt_of_le_of_lt hxy hy), if_pos hy]
    exact neg_le_neg hmagnitudes
  · rw [roundSingle_of_nonneg (not_lt.mp hy)]
    by_cases hx : x < 0
    · have hpositive := roundMagnitude_nonneg (neg_nonneg.mpr hx.le)
      have hother := roundMagnitude_nonneg (not_lt.mp hy)
      unfold roundSingle
      rw [if_pos hx]
      linarith
    · rw [roundSingle_of_nonneg (not_lt.mp hx)]
      exact roundMagnitude_mono (not_lt.mp hx) hxy

/-- **The numbers of the format** are kept. -/
theorem roundSingle_representable {m e : Int} (hm : m.natAbs < 2 ^ 24) (he : -149 ≤ e) :
    roundSingle (m * 2 ^ e) = m * 2 ^ e := by
  have hkept := roundMagnitude_representable hm he
  have hnonneg : (0 : ℚ) ≤ (m.natAbs : ℚ) * 2 ^ e :=
    mul_nonneg (Nat.cast_nonneg _) (two_zpow_pos e).le
  have habs := roundSingle_of_nonneg hnonneg
  rcases Int.natAbs_eq m with heq | heq
  · rw [heq, Int.cast_natCast, habs, hkept]
  · rw [heq, Int.cast_neg, Int.cast_natCast, neg_mul, roundSingle_neg, habs, hkept]

/-- The integers up to 24 bits. -/
theorem roundSingle_intCast {n : Int} (hn : n.natAbs < 2 ^ 24) : roundSingle n = n := by
  have hkept := roundSingle_representable (e := 0) hn (by decide)
  rwa [zpow_zero, mul_one] at hkept

end Signed

/-! ## The arithmetic -/

/-- The arithmetic of an implementation whose `float` is the binary32 format
and that rounds every operation to it. -/
def FloatArith.single : FloatArith :=
  { FloatArith.exact with round := roundSingle }

@[simp] theorem FloatArith.single_round (x : ℚ) : FloatArith.single.round x = roundSingle x := rfl

/-- **The accuracy of single precision.** -/
theorem FloatArith.single_accurate : FloatArith.single.Accurate where
  mono := roundSingle_mono
  zero := roundSingle_zero
  near := by
    have hmagnitude : ∀ x : ℚ, 1 / 2 ^ 126 ≤ x → |roundMagnitude x - x| ≤ x / 2 ^ 24 := by
      intro x hx
      have hpos : 0 < x := lt_of_lt_of_le (by positivity) hx
      have hnormal : -126 ≤ Int.log 2 x := by
        refine (Int.zpow_le_iff_le_log Nat.one_lt_two hpos).mp ?_
        rw [Nat.cast_ofNat, zpow_neg, ← one_div]
        exact hx
      have hbit : lastBit x = Int.log 2 x - 23 := by
        unfold lastBit
        omega
      have hlog := Int.zpow_log_le_self Nat.one_lt_two hpos
      rw [Nat.cast_ofNat] at hlog
      calc |roundMagnitude x - x| ≤ 2 ^ lastBit x / 2 := abs_roundMagnitude_sub_le x
        _ = 2 ^ Int.log 2 x / 2 ^ 24 := by
          rw [hbit, zpow_sub₀ two_ne_zero]
          norm_num [div_div]
        _ ≤ x / 2 ^ 24 := div_le_div_of_nonneg_right hlog (by positivity)
    intro x hlo _
    rw [single_round]
    rcases le_total 0 x with hx | hx
    · rw [abs_of_nonneg hx] at hlo ⊢
      rw [roundSingle_of_nonneg hx]
      exact hmagnitude x hlo
    · rw [abs_of_nonpos hx] at hlo ⊢
      have hneg := hmagnitude (-x) hlo
      rw [← roundSingle_of_nonneg (neg_nonneg.mpr hx), roundSingle_neg, ← neg_sub', abs_neg]
        at hneg
      exact hneg

end FloatArithmetic

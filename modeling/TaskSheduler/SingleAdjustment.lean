import TaskSheduler.PriorityDrift
import TaskSheduler.SinglePrecision

/-!
# `adjust_dynamic_priority` in single precision

The weights 0.3 and 0.2 are no numbers of the format, but what comes out of
them is as exact as on paper: 20 times the rounded 0.3 lies halfway between 6
and the next number, and ties go to the even one; the two weights together
round to a half.  So a task that has not run loses between `boostLoss` and
`fullLoss` places (`dynamicPriorityOf_single`), and all of `fullLoss` once it
has waited for ten seconds, however large the clock reading is.
-/

namespace TaskSheduler

open Programs FloatArithmetic

/-- What the boost of a task bound by I/O takes off. -/
def boostLoss (io : Bool) : Int := if io then 4 else 0

/-- What the boost and ten seconds of starvation take off. -/
def fullLoss (io : Bool) : Int := if io then 10 else 6

/-- The boost never raises the number. -/
theorem boostLoss_nonneg (io : Bool) : 0 ≤ boostLoss io := by
  cases io <;> simp [boostLoss]

/-- The boost is part of the full loss. -/
theorem boostLoss_le (io : Bool) : boostLoss io ≤ fullLoss io := by
  cases io <;> simp [boostLoss, fullLoss]

/-- No task loses more than ten places at once. -/
theorem fullLoss_le (io : Bool) : fullLoss io ≤ 10 := by
  cases io <;> simp [fullLoss]

/-! ## The constants in single precision -/

/-- `0.3f`, the starvation weight. -/
theorem three_tenths : roundSingle (3 / 10) = 10066330 / 2 ^ 25 := by
  have hnearest : nearestEven (3 / 10 / 2 ^ (-2 - 23 : Int)) = 10066330 :=
    nearestEven_eq (by norm_num) (by norm_num)
  rw [roundSingle_of_nonneg (by norm_num),
    roundMagnitude_eq (by norm_num) (by norm_num) (by decide) hnearest]
  norm_num

/-- `0.2f`, the weight of the boost. -/
theorem one_fifth : roundSingle (1 / 5) = 13421773 / 2 ^ 26 := by
  have hnearest : nearestEven (1 / 5 / 2 ^ (-3 - 23 : Int)) = 13421773 :=
    nearestEven_eq (by norm_num) (by norm_num)
  rw [roundSingle_of_nonneg (by norm_num),
    roundMagnitude_eq (by norm_num) (by norm_num) (by decide) hnearest]
  norm_num

/-- `0.3f * 20` lies halfway between two numbers, and 6 is the even one. -/
theorem three_tenths_times : roundSingle (10066330 / 2 ^ 25 * 20) = 6 := by
  have hnearest : nearestEven (10066330 / 2 ^ 25 * 20 / 2 ^ (2 - 23 : Int)) = 12582912 := by
    have htie : (10066330 / 2 ^ 25 * 20 / 2 ^ (2 - 23 : Int) : ℚ) =
        ((12582912 : Int) : ℚ) + 1 / 2 := by norm_num
    rw [htie]
    exact nearestEven_tie (by decide)
  rw [roundSingle_of_nonneg (by norm_num),
    roundMagnitude_eq (by norm_num) (by norm_num) (by decide) hnearest]
  norm_num

/-- `0.2f * 20` is rounded to 4. -/
theorem one_fifth_times : roundSingle (13421773 / 2 ^ 26 * 20) = 4 := by
  have hnearest : nearestEven (13421773 / 2 ^ 26 * 20 / 2 ^ (2 - 23 : Int)) = 8388608 :=
    nearestEven_eq (by norm_num) (by norm_num)
  rw [roundSingle_of_nonneg (by norm_num),
    roundMagnitude_eq (by norm_num) (by norm_num) (by decide) hnearest]
  norm_num

/-- The two weights together are rounded to a half. -/
theorem weights_together :
    roundSingle (10066330 / 2 ^ 25 + 13421773 / 2 ^ 26) = 1 / 2 := by
  have hnearest : nearestEven ((10066330 / 2 ^ 25 + 13421773 / 2 ^ 26) / 2 ^ (-1 - 23 : Int)) =
      8388608 := nearestEven_eq (by norm_num) (by norm_num)
  rw [roundSingle_of_nonneg (by norm_num),
    roundMagnitude_eq (by norm_num) (by norm_num) (by decide) hnearest]
  norm_num

/-! ## The adjustment -/

/-- The starved share of a task is between 0 and 1. -/
theorem starvationFactor_bounds (float : FloatArith) (time : Int) :
    0 ≤ starvationFactor float time ∧ starvationFactor float time ≤ 1 :=
  ⟨le_clamp zero_le_one, clamp_le zero_le_one⟩

/-- From ten seconds on it is all of it. -/
theorem starvationFactor_late {time : Int} (h : 10000000000 ≤ time) :
    starvationFactor FloatArith.single time = 1 := by
  have htime : roundSingle 10000000000 ≤ roundSingle time := by
    refine roundSingle_mono ?_
    exact_mod_cast h
  have hten : roundSingle 10000000000 = 10000000000 := by
    have hkept := roundSingle_representable (m := 9765625) (e := 10) (by decide) (by decide)
    norm_num at hkept
    exact hkept
  have hbillion : roundSingle 1000000000 = 1000000000 := by
    have hkept := roundSingle_representable (m := 1953125) (e := 9) (by decide) (by decide)
    norm_num at hkept
    exact hkept
  have hseconds : 10 ≤ roundSingle (roundSingle time / roundSingle 1000000000) := by
    have hquotient : (10 : Int) ≤ roundSingle time / roundSingle 1000000000 := by
      rw [hbillion, le_div_iff₀ (by norm_num)]
      rw [hten] at htime
      push_cast
      linarith
    have hround := roundSingle_mono hquotient
    rwa [roundSingle_intCast (by decide)] at hround
  have hshare : 1 ≤ roundSingle (roundSingle (roundSingle time / roundSingle 1000000000) / 10) := by
    have hquotient : (1 : Int) ≤
        roundSingle (roundSingle time / roundSingle 1000000000) / 10 := by
      rw [le_div_iff₀ (by norm_num)]
      push_cast
      linarith
    have hround := roundSingle_mono hquotient
    rwa [roundSingle_intCast (by decide), Int.cast_one] at hround
  exact le_antisymm (starvationFactor_bounds _ time).2 (by
    show (1 : ℚ) ≤ clamp _ 0 1
    rw [clamp_eq_max_min zero_le_one]
    exact le_max_of_le_right (le_min hshare le_rfl))

/-- What is taken off before the factor 20, for a starved share of `share`. -/
def shareTaken (share : ℚ) (io : Bool) : ℚ :=
  let weighted := roundSingle (0 - roundSingle (10066330 / 2 ^ 25 * share))
  if io then roundSingle (weighted - 13421773 / 2 ^ 26) else weighted

/-- The adjustment of a task that has used no CPU time. -/
theorem priorityAdjustment_single (time : Int) (io : Bool) :
    priorityAdjustment FloatArith.single 0 time io =
      shareTaken (starvationFactor FloatArith.single time) io := by
  unfold priorityAdjustment shareTaken schedulingParams
  simp only [FloatArith.single_round, mul_zero, roundSingle_zero, three_tenths, one_fifth]

/-- The starvation weight is a number of the format. -/
theorem weight_kept : roundSingle (10066330 / 2 ^ 25) = 10066330 / 2 ^ 25 := by
  have hkept := roundSingle_representable (m := 10066330) (e := -25) (by decide) (by decide)
  norm_num at hkept ⊢
  exact hkept

theorem boost_kept : roundSingle (13421773 / 2 ^ 26) = 13421773 / 2 ^ 26 := by
  have hkept := roundSingle_representable (m := 13421773) (e := -26) (by decide) (by decide)
  norm_num at hkept ⊢
  exact hkept

/-- A larger share takes more off. -/
theorem shareTaken_anti {share share' : ℚ} (h : share ≤ share') (io : Bool) :
    shareTaken share' io ≤ shareTaken share io := by
  have hproduct : roundSingle (10066330 / 2 ^ 25 * share) ≤
      roundSingle (10066330 / 2 ^ 25 * share') :=
    roundSingle_mono (mul_le_mul_of_nonneg_left h (by norm_num))
  have hweighted : roundSingle (0 - roundSingle (10066330 / 2 ^ 25 * share')) ≤
      roundSingle (0 - roundSingle (10066330 / 2 ^ 25 * share)) :=
    roundSingle_mono (sub_le_sub_left hproduct 0)
  unfold shareTaken
  cases io with
  | true => exact roundSingle_mono (sub_le_sub_right hweighted _)
  | false => exact hweighted

/-- All of the share: 6 or 10 places. -/
theorem shareTaken_one (io : Bool) :
    roundSingle (shareTaken 1 io * 20) =
      -(fullLoss io : ℚ) := by
  have hweighted : roundSingle (0 - roundSingle (10066330 / 2 ^ 25 * 1)) =
      -(10066330 / 2 ^ 25) := by
    rw [mul_one, weight_kept, zero_sub, roundSingle_neg, weight_kept]
  unfold shareTaken
  simp only [hweighted]
  cases io with
  | true =>
      have hsum : -(10066330 / 2 ^ 25 : ℚ) - 13421773 / 2 ^ 26 =
          -(10066330 / 2 ^ 25 + 13421773 / 2 ^ 26) := by ring
      have hhalf : (1 / 2 * 20 : ℚ) = ((10 : Int) : ℚ) := by norm_num
      rw [if_pos rfl, hsum, roundSingle_neg, weights_together, neg_mul, roundSingle_neg, hhalf,
        roundSingle_intCast (by decide)]
      rfl
  | false =>
      rw [if_neg Bool.false_ne_true, neg_mul, roundSingle_neg, three_tenths_times]
      rfl

/-- None of the share: nothing, or 4 places. -/
theorem shareTaken_zero (io : Bool) :
    roundSingle (shareTaken 0 io * 20) =
      -(boostLoss io : ℚ) := by
  have hweighted : roundSingle (0 - roundSingle (10066330 / 2 ^ 25 * 0)) = 0 := by
    rw [mul_zero, roundSingle_zero, sub_zero, roundSingle_zero]
  unfold shareTaken
  simp only [hweighted]
  cases io with
  | true =>
      rw [if_pos rfl, zero_sub, roundSingle_neg, boost_kept, neg_mul, roundSingle_neg,
        one_fifth_times]
      rfl
  | false =>
      rw [if_neg Bool.false_ne_true, zero_mul, roundSingle_zero]
      rfl

/-- **One adjustment** of a task that has not run takes off something between
the boost and the boost with all of the starvation, and just that after ten
seconds. -/
theorem dynamicPriorityOf_single {priority : Int32} (hvalid : validPriority priority = true)
    (time : Int) (io : Bool) :
    max (-20) (priority.toInt - fullLoss io) ≤
        (dynamicPriorityOf FloatArith.single priority 0 time io).toInt ∧
      (dynamicPriorityOf FloatArith.single priority 0 time io).toInt ≤
        max (-20) (priority.toInt - boostLoss io) ∧
      (10000000000 ≤ time →
        (dynamicPriorityOf FloatArith.single priority 0 time io).toInt =
          max (-20) (priority.toInt - fullLoss io)) := by
  obtain ⟨hlo, hhi⟩ := (validPriority_iff priority).mp hvalid
  obtain ⟨hnonneg, hone⟩ := starvationFactor_bounds FloatArith.single time
  have hleast := boostLoss_nonneg io
  have hmore := boostLoss_le io
  have hmost := fullLoss_le io
  have hkept : ∀ n : Int, -30 ≤ n → n ≤ 19 → roundSingle n = n := fun n h₁ h₂ =>
    roundSingle_intCast (by omega)
  -- what is taken off, after the factor 20
  have hbelow : roundSingle (shareTaken (starvationFactor FloatArith.single time) io * 20) ≤
      -(boostLoss io : ℚ) := by
    rw [← shareTaken_zero io]
    exact roundSingle_mono (mul_le_mul_of_nonneg_right (shareTaken_anti hnonneg io) (by norm_num))
  have habove : -(fullLoss io : ℚ) ≤
      roundSingle (shareTaken (starvationFactor FloatArith.single time) io * 20) := by
    rw [← shareTaken_one io]
    exact roundSingle_mono (mul_le_mul_of_nonneg_right (shareTaken_anti hone io) (by norm_num))
  have hsum : (dynamicPriorityOf FloatArith.single priority 0 time io).toInt =
      clamp (FloatArith.single.toInt (roundSingle (priority.toInt +
        roundSingle (shareTaken (starvationFactor FloatArith.single time) io * 20)))).toInt
        (-20) 19 := by
    unfold dynamicPriorityOf
    rw [toInt_clamp, priorityAdjustment_single]
    simp only [FloatArith.single_round, hkept _ (by omega : -30 ≤ priority.toInt) hhi]
    rfl
  generalize htaken :
    roundSingle (shareTaken (starvationFactor FloatArith.single time) io * 20) = taken
    at hbelow habove hsum
  have hupper : roundSingle (priority.toInt + taken) ≤
      ((priority.toInt - boostLoss io : Int) : ℚ) := by
    rw [← hkept (priority.toInt - boostLoss io) (by omega) (by omega)]
    refine roundSingle_mono ?_
    push_cast
    linarith
  have hlower : ((priority.toInt - fullLoss io : Int) : ℚ) ≤
      roundSingle (priority.toInt + taken) := by
    rw [← hkept (priority.toInt - fullLoss io) (by omega) (by omega)]
    refine roundSingle_mono ?_
    push_cast
    linarith
  have htruncated := truncate_mono hlower
  have htruncated' := truncate_mono hupper
  rw [truncate_intCast] at htruncated htruncated'
  rw [FloatArith.single.toInt_eq _ (by omega) (by omega), clamp_eq_max_min (by decide)] at hsum
  refine ⟨by omega, by omega, fun hlate => ?_⟩
  have hall : taken = -(fullLoss io : ℚ) := by
    rw [← htaken, starvationFactor_late hlate, shareTaken_one]
  have hexact : roundSingle (priority.toInt + taken) =
      ((priority.toInt - fullLoss io : Int) : ℚ) := by
    rw [← hkept (priority.toInt - fullLoss io) (by omega) (by omega), hall]
    congr 1
    push_cast
    ring
  rw [hexact, truncate_intCast] at hsum
  omega

end TaskSheduler

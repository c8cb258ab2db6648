import TaskSheduler.PriorityDrift
import TaskSheduler.TaskHistory

/-!
# Two ways to give a new task its priority

The constructor copies the priority it is given; `set_static_priority` adjusts
the dynamic priority against `last_execution_time_`, which no constructor sets.
So a task that has just arrived counts as having waited since the zero of the
clock.  `new_task_priorities_agree_iff` says when that makes no difference: for
any arithmetic, and in closed form for exact arithmetic.
-/

namespace TaskSheduler

open Programs FloatArithmetic

/-- What `adjust_dynamic_priority` converts to `int` for a new task that is not
bound by I/O, when the clock shows `time`. -/
def arrivalSum (float : FloatArith) (staticPriority : Int32) (time : Int) : ℚ :=
  float.round (float.round staticPriority.toInt +
    float.round (priorityAdjustment float 0 time false * 20))

/-- The adjusted priority is the static one exactly if no number at which the
truncated and clamped value changes lies between the sum and it. -/
theorem arrivalPriority_eq_iff (float : FloatArith) {p : Int32}
    (hvalid : validPriority p = true) (time : Int) :
    p = dynamicPriorityOf float p 0 time false ↔
      SameStep (-20) 19 (float.converted (arrivalSum float p time)) p.toInt := by
  obtain ⟨hlo, hhi⟩ := (validPriority_iff p).mp hvalid
  have hadjusted : (dynamicPriorityOf float p 0 time false).toInt =
      clamp (truncate (float.converted (arrivalSum float p time))) (-20) 19 := by
    unfold dynamicPriorityOf
    rw [toInt_clamp, float.toInt_converted]
    rfl
  have hstatic : p.toInt = clamp (truncate (p.toInt : ℚ)) (-20) 19 := by
    rw [truncate_intCast, clamp, if_neg (not_lt.mpr hlo), if_neg (not_lt.mpr hhi)]
  have hbounds : (-20 : Int) ≤ 0 ∧ (0 : Int) ≤ 19 := by decide
  rw [← Int32.toInt_inj, hadjusted, ← clamp_truncate_eq_iff hbounds.1 hbounds.2, ← hstatic]
  exact eq_comm

/-- **The two ways agree exactly if the wait since the zero of the clock is
truncated away.**  A `UnixTask` built with `p`, and one built with the default
priority on which `set_static_priority(p)` is called at the same instant,
report the same priority if and only if the arrival sum lies on the step of
`p`; in exact arithmetic that is so for -20, before the clock has moved, and
for a priority of at most 0 within 10/6 seconds of its zero. -/
theorem new_task_priorities_agree_iff (env : Env) (id : Int32) (description : List UInt8)
    {p : Int32} (hvalid : validPriority p = true) {w : World}
    (hsame : env.clock.read (w.readings + 1) = env.clock.read w.readings) :
    ∃ built w₁ set w₂, UnixTask.construct env id description p w = .ok built w₁ ∧
      (UnixTask.construct env id description 0 >>= UnixTask.setStaticPriority env p) w =
        .ok set w₂ ∧
      (built.dynamicPriority = set.dynamicPriority ↔
        SameStep (-20) 19
          (env.float.converted (arrivalSum env.float p (env.clock.read w.readings))) p.toInt) ∧
      (env.float.Exact → (built.dynamicPriority = set.dynamicPriority ↔
        Unmoved p false (env.clock.read w.readings))) := by
  have hbuilt : UnixTask.construct env id description p w =
      .ok (UnixTask.built id description p (env.clock.read w.readings))
        { w with readings := w.readings + 1 } := by
    simp only [UnixTask.construct, UnixTask.built, validatePriority, hvalid, if_true, fromExcept,
      bind_apply, now_apply, pure_apply]
  have hdefault : UnixTask.construct env id description 0 w =
      .ok (UnixTask.built id description 0 (env.clock.read w.readings))
        { w with readings := w.readings + 1 } := rfl
  have hset : (UnixTask.construct env id description 0 >>= UnixTask.setStaticPriority env p) w =
      _ := (returns hdefault).trans (setStaticPriority_accepts hvalid)
  refine ⟨_, _, _, _, hbuilt, hset, ?_, fun hexact => ?_⟩
  · have hiff := arrivalPriority_eq_iff env.float hvalid (env.clock.read w.readings)
    simpa only [UnixTask.built, UnixTask.adjustedAt, hsame, sub_zero] using hiff
  · have hiff := (dynamicPriorityOf_drift hexact hvalid (env.clock.read w.readings) false).2
    rw [eq_comm]
    simpa only [UnixTask.built, UnixTask.adjustedAt, hsame, sub_zero] using hiff

/-- When the clock shows its zero, the two ways agree on every priority. -/
theorem new_task_priorities_agree_at_zero :
    ∃ built w₁ set w₂, UnixTask.construct envOne 7 (textBytes "plain") 10
        (World.begin (Shm.create 1)) = .ok built w₁ ∧
      (UnixTask.construct envOne 7 (textBytes "plain") 0 >>=
        UnixTask.setStaticPriority envOne 10) (World.begin (Shm.create 1)) = .ok set w₂ ∧
      built.dynamicPriority = set.dynamicPriority := by
  have hvalid : validPriority 10 = true := by decide
  obtain ⟨built, w₁, set, w₂, hbuilt, hset, -, hexactly⟩ := new_task_priorities_agree_iff envOne
    7 (textBytes "plain") hvalid (w := World.begin (Shm.create 1)) rfl
  exact ⟨built, w₁, set, w₂, hbuilt, hset,
    (hexactly exact_exact).mpr (.inr ⟨rfl, .inl (le_refl _)⟩)⟩

/-- Ten seconds after the zero of the clock, a task set to 10 reports 4. -/
theorem new_task_counts_as_starved :
    ∃ built w₁ set w₂, UnixTask.construct (envAt 10000000000) 7 (textBytes "plain") 10
        (World.begin (Shm.create 1)) = .ok built w₁ ∧
      (UnixTask.construct (envAt 10000000000) 7 (textBytes "plain") 0 >>=
        UnixTask.setStaticPriority (envAt 10000000000) 10) (World.begin (Shm.create 1)) =
          .ok set w₂ ∧
      built.dynamicPriority = 10 ∧ set.dynamicPriority = 4 :=
  ⟨_, _, _, _, rfl, rfl, rfl, by decide +kernel⟩

end TaskSheduler
